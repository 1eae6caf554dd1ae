import TrapHooks.Proofs.Run.Requests

/-! Hooks stand in brackets. The measuring of time is switched off right before the program of a hook, and put back to
    what it was right after; a stage that runs hooks asks for nothing else outside of the brackets, and no stage runs
    a hook of others but at the begin of one. -/

namespace TrapHooks

variable {ρ α β : Type}

/-- How far a task has come with a hook. -/
inductive Hold
  /-- No hook is at work. -/
  | none
  /-- The measuring was switched off and a hook begins; this is what it was before. -/
  | begun (was : Bool)
  | within (was : Bool)

namespace Hold

/-- What the measuring is to be put back to. -/
def saved : Hold → Option Bool
  | none => .none
  | begun was | within was => some was

/-- The hook goes on, if one is at work. -/
def pass : Hold → Hold
  | begun was => within was
  | hold => hold

def next (hold : Hold) : Action ρ → Hold
  | .replied (.setProfiling _) was => if hold.saved.isSome then none else begun was
  | _ => hold.pass

@[simp] theorem saved_pass (hold : Hold) : hold.pass.saved = hold.saved := by
  cases hold <;> rfl

theorem pass_none_iff (hold : Hold) : hold.pass = none ↔ hold = none := by
  cases hold <;> simp [pass]

theorem next_replied {r : Request} (hold : Hold) (reply : r.Reply) (other : r.purpose ≠ .measuring) :
    hold.next (.replied r reply : Action ρ) = hold.pass := by
  cases r <;> first | rfl | exact absurd rfl other

/-- The measuring is switched off for a hook and put back after it, and outside of hooks no request is made but for one
    of these purposes. -/
structure Allows (aside : List Request.Purpose) (hold : Hold) (r : Request) : Prop where
  switches : ∀ on, r = .setProfiling on → on = hold.saved.getD false
  outside : hold = none → r.purpose = .measuring ∨ r.purpose ∈ aside

end Hold

/-! ### Programs -/

namespace Program

/-- The program puts its hooks in brackets, and ends as `Q` has it. -/
def Brackets (aside : List Request.Purpose) (Q : α → Hold → Prop) : Program ρ α → Hold → Prop
  | done a, hold => Q a hold
  | overflow, _ => True
  | step next rest, hold => ∀ e, (rest e).Brackets aside Q (hold.next (.changed e (next e)))
  | ask r rest, hold => hold.Allows aside r ∧ ∀ reply, (rest reply).Brackets aside Q
      (hold.next (.replied r reply : Action ρ))
  | runHead routine call rest, hold => (∃ was, hold = .begun was) ∧ ∀ decision, (rest decision).Brackets aside Q
      (hold.next (.headRan routine call decision))
  | runTail routine call rest, hold => (∃ was, hold = .begun was) ∧ rest.Brackets aside Q
      (hold.next (.tailRan routine call))
  | tell n rest, hold => rest.Brackets aside Q (hold.next (.told n : Action ρ))

section
variable {aside : List Request.Purpose} {p : Program ρ α} {hold : Hold} {was : Bool}

theorem brackets_bind {Q : β → Hold → Prop} {f : α → Program ρ β}
    (brackets : p.Brackets aside (fun a hold => (f a).Brackets aside Q hold) hold) :
    (p >>= f).Brackets aside Q hold := by
  induction p generalizing hold with
  | done a => exact brackets
  | overflow => trivial
  | step next rest ih => exact fun e => ih e (brackets e)
  | ask r rest ih => exact ⟨brackets.1, fun reply => ih reply (brackets.2 reply)⟩
  | runHead routine call rest ih => exact ⟨brackets.1, fun decision => ih decision (brackets.2 decision)⟩
  | runTail routine call rest ih => exact ⟨brackets.1, ih brackets.2⟩
  | tell n rest ih => exact ih brackets

theorem Brackets.mono {Q R : α → Hold → Prop} (brackets : p.Brackets aside Q hold)
    (weaker : ∀ a hold, Q a hold → R a hold) : p.Brackets aside R hold := by
  induction p generalizing hold with
  | done a => exact weaker a hold brackets
  | overflow => trivial
  | step next rest ih => exact fun e => ih e (brackets e)
  | ask r rest ih => exact ⟨brackets.1, fun reply => ih reply (brackets.2 reply)⟩
  | runHead routine call rest ih => exact ⟨brackets.1, fun decision => ih decision (brackets.2 decision)⟩
  | runTail routine call rest ih => exact ⟨brackets.1, ih brackets.2⟩
  | tell n rest ih => exact ih brackets

theorem Does.brackets {q : Program ρ α} {Q : α → Hold → Prop} {did : List (Action ρ)} (does : p.Does did q)
    (brackets : p.Brackets aside Q hold) : q.Brackets aside Q (did.foldl Hold.next hold) := by
  induction does generalizing hold with
  | nil p => exact brackets
  | cons acts rest ih =>
    cases acts with
    | change next rest => exact ih (brackets _)
    | reply r rest reply => exact ih (brackets.2 reply)
    | head routine call rest decision => exact ih (brackets.2 decision)
    | tail routine call => exact ih brackets.2
    | notice n => exact ih brackets

/-- The program runs no hook of others. -/
def Hookless : Program ρ α → Prop
  | done _ | overflow => True
  | step _ rest => ∀ e, (rest e).Hookless
  | ask _ rest => ∀ reply, (rest reply).Hookless
  | runHead _ _ _ | runTail _ _ _ => False
  | tell _ rest => rest.Hookless

theorem hookless_bind {f : α → Program ρ β} (first : p.Hookless) (later : ∀ a, (f a).Hookless) :
    (p >>= f).Hookless := by
  induction p with
  | done a => exact later a
  | overflow => trivial
  | step next rest ih => exact fun e => ih e (first e)
  | ask r rest ih => exact fun reply => ih reply (first reply)
  | runHead routine call rest => exact first.elim
  | runTail routine call rest => exact first.elim
  | tell n rest ih => exact ih first

theorem hookless_pure (a : α) : (pure a : Program ρ α).Hookless := trivial

theorem hookless_request (r : Request) : (request r : Program ρ _).Hookless := fun _ => trivial

theorem hookless_sum (a b : UInt32) : (sum a b : Program ρ _).Hookless := by
  unfold sum
  cases sum? a b <;> trivial

theorem hookless_notice (n : Notice) : (notice n : Program ρ _).Hookless := trivial

theorem hookless_modifyGet (g : Engine ρ → α × Engine ρ) : (modifyGet g : Program ρ α).Hookless := fun _ => trivial

theorem hookless_get : (get : Program ρ (Engine ρ)).Hookless := fun _ => trivial

theorem hookless_modify (g : Engine ρ → Engine ρ) : (modify g : Program ρ PUnit).Hookless := fun _ => trivial

theorem hookless_forM {γ : Type} {g : γ → Program ρ PUnit} (each : ∀ x, (g x).Hookless) (l : List γ) :
    (l.forM g).Hookless := by
  induction l with
  | nil => exact hookless_pure _
  | cons x l ih => exact hookless_bind (each x) fun _ => ih

/-- What neither runs a hook of others nor asks for the measuring is all within a hook, or all outside of hooks. -/
theorem Hookless.brackets {Q : α → Hold → Prop} (hookless : p.Hookless)
    (asks : p.Asks Request.Any fun r => r.purpose ≠ .measuring ∧ (hold = .none → r.purpose ∈ aside))
    (ends : ∀ a after, after.saved = hold.saved → Q a after) : p.Brackets aside Q hold := by
  induction p generalizing hold with
  | done a => exact ends a hold rfl
  | overflow => trivial
  | step next rest ih =>
    intro e
    refine ih e (hookless e) ?_ fun a after same => ends a after (same.trans hold.saved_pass)
    simpa only [Hold.next, Hold.pass_none_iff] using asks e
  | ask r rest ih =>
    obtain ⟨⟨other, outside⟩, later⟩ := asks
    refine ⟨⟨fun on same => absurd (by rw [same]; rfl) other, fun none => .inr (outside none)⟩, fun reply => ?_⟩
    rw [Hold.next_replied hold reply other]
    refine ih reply (hookless reply) ?_ fun a after same => ends a after (same.trans hold.saved_pass)
    simpa only [Hold.pass_none_iff] using later reply trivial
  | runHead routine call rest => exact hookless.elim
  | runTail routine call rest => exact hookless.elim
  | tell n rest ih =>
    refine ih hookless ?_ fun a after same => ends a after (same.trans hold.saved_pass)
    simpa only [Hold.next, Hold.pass_none_iff] using (show rest.Asks _ _ from asks)

theorem brackets_notice {n : Notice} {Q : Unit → Hold → Prop} (ends : Q () hold.pass) :
    (notice n : Program ρ _).Brackets aside Q hold := ends

theorem brackets_modifyGet {g : Engine ρ → α × Engine ρ} {Q : α → Hold → Prop} (ends : ∀ a, Q a hold.pass) :
    (modifyGet g : Program ρ α).Brackets aside Q hold := fun _ => ends _

theorem brackets_foreignHead {routine : ρ} {call : Call} {Q : Decision → Hold → Prop}
    (ends : ∀ decision, Q decision (.within was)) : (foreignHead routine call).Brackets aside Q (.begun was) :=
  ⟨⟨was, rfl⟩, ends⟩

theorem brackets_foreignTail {routine : ρ} {call : Call} {Q : Unit → Hold → Prop} (ends : Q () (.within was)) :
    (foreignTail routine call).Brackets aside Q (.begun was) :=
  ⟨⟨was, rfl⟩, ends⟩

end

end Program

namespace Engine

open Program

variable {aside : List Request.Purpose}

/-- Between hooks, or at the end: no hook is at work. -/
abbrev Unheld (_ : α) (hold : Hold) : Prop :=
  hold = .none

/-- The hook's program stands in brackets, whatever it does in between. -/
theorem brackets_unmeasured {p : Program ρ α}
    (brackets : ∀ was, p.Brackets aside (fun _ hold => hold.saved = some was) (.begun was)) :
    (unmeasured p).Brackets aside Unheld .none := by
  refine ⟨⟨fun on same => by cases same; rfl, fun _ => .inl rfl⟩, fun was => ?_⟩
  show (do let a ← p; let _ ← request (.setProfiling was); return a).Brackets aside Unheld (.begun was)
  refine brackets_bind ((brackets was).mono fun a hold held => ?_)
  refine ⟨⟨fun on same => ?_, fun none => by rw [none] at held; cases held⟩, fun reply => ?_⟩
  · cases same
    rw [held]
    rfl
  · show (if hold.saved.isSome then _ else _) = _
    rw [held]
    rfl

/-- What was done is to switch the measuring off, then what the program does, and once it has ended, to put it back. -/
def Bracket (p : Program ρ α) (did : List (Action ρ)) : Prop :=
  did = [] ∨ ∃ was within left, p.Does within left ∧
    (did = .replied (.setProfiling false) was :: within ∨
      ∃ a last, left = .done a ∧
        did = .replied (.setProfiling false) was :: within ++ [.replied (.setProfiling was) last])

theorem bracket_of_does {p : Program ρ α} {did : List (Action ρ)} {rest : Program ρ α}
    (does : (unmeasured p).Does did rest) : Bracket p did := by
  rcases does_request_cases does with rfl | ⟨was, later, rfl, goes⟩
  · exact .inl rfl
  rcases does_bind_cases goes with ⟨left, begins, -⟩ | ⟨a, within, last, rfl, whole, closes⟩
  · exact .inr ⟨was, later, left, begins, .inl rfl⟩
  rcases does_request_cases closes with rfl | ⟨reply, others, rfl, ends⟩
  · exact .inr ⟨was, within, .done a, whole, .inl (by simp)⟩
  · cases ends with
    | nil => exact .inr ⟨was, within, .done a, whole, .inr ⟨a, reply, rfl, rfl⟩⟩
    | cons acts => cases acts

theorem hookless_idleWait : (idleWait : Program ρ _).Hookless := by
  unfold idleWait
  repeat' first
    | exact hookless_pure _
    | exact hookless_request _
    | exact hookless_sum _ _
    | exact hookless_notice _
    | exact hookless_get
    | exact hookless_modify _
    | refine hookless_bind ?_ fun _ => ?_
    | split

theorem asks_unmeasuring_idleWait {A : (r : Request) → r.Reply → Prop} :
    (idleWait : Program ρ _).Asks A (·.purpose ≠ .measuring) := by
  refine asks_idleWait (fun r same => by simp [same]) (asks_applyFirst fun rule member => ?_)
  obtain ⟨applies, posts | switches⟩ := asks_rules (A := A) rule member
  · exact ⟨applies.mono (fun _ _ told => told) fun r same => by simp [same],
      posts.mono (fun _ _ told => told) fun r same => by simp [same]⟩
  · rw [switches]
    exact ⟨applies.mono (fun _ _ told => told) fun r same => by simp [same],
      asks_switchPending.mono (fun _ _ told => told) fun r (same : r.purpose = .switching) => by simp [same]⟩

theorem brackets_headDecision (call : Call) (hooks : Hooks ρ) :
    (headDecision call hooks).Brackets [] Unheld .none := by
  unfold headDecision
  cases hooks.head with
  | none => exact rfl
  | some head =>
    refine brackets_unmeasured fun was => ?_
    cases head.routine with
    | noteEventTrap => exact fun _ => rfl
    | idleWait =>
      exact hookless_idleWait.brackets (asks_unmeasuring_idleWait.mono (fun _ _ told => told) fun r other =>
        ⟨other, nofun⟩) fun _ _ same => same
    | foreign r => exact brackets_foreignHead fun _ => rfl

theorem brackets_callTail (hook : TailHook ρ) (call : Call) : (callTail hook call).Brackets aside Unheld .none :=
  brackets_bind (brackets_notice (brackets_unmeasured fun _ => brackets_foreignTail rfl))

theorem brackets_conclude (call : Call) (hooks : Hooks ρ) (decision : Decision) :
    (conclude call hooks decision).Brackets aside Unheld .none := by
  have last : (do notice (.handled call decision); return decision : Program ρ Decision).Brackets aside Unheld .none :=
    rfl
  unfold conclude
  cases hooks.tail with
  | none => exact last
  | some tail =>
    cases decision with
    | skip => exact brackets_bind ((brackets_callTail tail call).mono fun _ _ none => none ▸ last)
    | execute =>
      refine brackets_bind (brackets_bind (brackets_modifyGet fun armed => ?_))
      cases armed with
      | first => exact last
      | again count => exact last
      | overflow => trivial

theorem brackets_takeReturn (pc : UInt32) : (takeReturn pc : Program ρ _).Brackets aside Unheld .none := by
  have calls (due : Option (TailHook ρ × Call)) : (callDue due).Brackets aside Unheld .none := by
    cases due with
    | none => exact rfl
    | some due => exact brackets_callTail due.1 due.2
  refine brackets_bind (brackets_modifyGet fun arrival => ?_)
  cases arrival with
  | unknown => exact rfl
  | returned due last =>
    dsimp only
    split
    · exact brackets_bind (brackets_notice (calls due))
    · exact calls due

end Engine

namespace Stage

/-- What a stage asks for outside of hooks, besides the measuring. -/
def aside : Stage ρ → List Request.Purpose
  | handle _ _ => []
  | s => s.purposes

/-- A stage that does not ask for the measuring runs no hook of others. -/
theorem hookless_program (s : Stage ρ) (other : .measuring ∉ s.purposes) : s.program.Hookless := by
  cases s with
  | handle call hooks => simp [purposes] at other
  | conclude call hooks decision => simp [purposes] at other
  | takeReturn pc => simp [purposes] at other
  | _ =>
    dsimp only [program]
    repeat' first
      | exact Program.hookless_pure _
      | exact Program.hookless_request _
      | exact Program.hookless_notice _
      | exact Program.hookless_get
      | exact Program.hookless_modify _
      | exact Program.hookless_modifyGet _
      | refine Program.hookless_bind ?_ fun _ => ?_
      | refine Program.hookless_forM (fun _ => ?_) _
      | split
      | dsimp only
      | unfold Engine.load
      | unfold Engine.reportDebugger

theorem brackets_program (s : Stage ρ) : s.program.Brackets s.aside Engine.Unheld .none := by
  have hookless (other : .measuring ∉ s.purposes) (same : s.aside = s.purposes) :
      s.program.Brackets s.aside Engine.Unheld .none := by
    refine (s.hookless_program other).brackets (s.asks_program.mono (fun _ _ told => told) fun r listed => ?_) ?_
    · exact ⟨fun measuring => other (measuring ▸ listed), fun _ => same ▸ listed⟩
    · rintro _ (_ | _ | _) unsaved <;> first | rfl | cases unsaved
  cases s with
  | handle call hooks => exact Engine.brackets_headDecision call hooks
  | conclude call hooks decision => exact Engine.brackets_conclude call hooks decision
  | takeReturn pc => exact Engine.brackets_takeReturn pc
  | _ => exact hookless (by simp [purposes]) rfl

end Stage

end TrapHooks
