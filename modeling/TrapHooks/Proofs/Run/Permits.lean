import TrapHooks.Proofs.Chunk.Reading
import TrapHooks.Proofs.Run.Change
import TrapHooks.Proofs.Run.Machine

/-! Which changes each stage may make. In a run the engine changes only by a change that the acting stage
    is permitted (`Machine.Step.engine`), so what holds of an engine all along a run is shown change by
    change, and no program is opened again for it. -/

namespace TrapHooks

/-- The record waits for a number of returns that a session can keep. -/
def PendingTail.Storable {ρ : Type} (record : PendingTail ρ) : Prop :=
  1 ≤ record.count.toNat ∧ record.count.toNat < 2 ^ 31

/-- The changes that a stage may make. -/
def Stage.Permits {ρ : Type} : Stage ρ → Change ρ → Prop
  | dispatch _, c | resolve _, c => c.IsLookup
  | handle _ _, c => c.IsEdit
  | conclude call hooks decision, c =>
    ∃ tail, hooks.tail = some tail ∧ decision = .execute ∧ c = .arm tail call
  | returned, _ => False
  | takeReturn pc, c => c = .arrive pc
  | bootstrap, c | save _, c => c = .read
  | start, c => c = .reload ∨ c = .read ∨ c = .forget
  | reset, c => c = .reset
  | dispose, c => c = .reset ∨ c = .dropTables
  | load _, c => c.IsLookup ∨ c.IsEdit ∨ c = .evict ∨ ∃ record, c = .restore record ∧ record.Storable
  | installMarks, c => c = .install
  | uninstallMarks, c => c = .uninstall
  | markLibrary refnum, c => c = .markLibrary refnum
  | markLibraries, c => c = .markLibraries
  | edit f, c => c = .edit f

namespace Engine

open Program

variable {ρ : Type} {P : Change ρ → Prop}

/-! ### Posting events -/

theorem makes_emptyEvent : (emptyEvent : Program ρ _).Makes P :=
  makes_bind (makes_request _) fun _ => makes_pure _

theorem makes_lastEventTrap (reads : P .read) : (lastEventTrap : Program ρ _).Makes P :=
  makes_bind (makes_get reads) fun _ => makes_pure _

theorem makes_reports (reads : P .read) : (reports : Program ρ _).Makes P :=
  makes_bind (makes_get reads) fun _ => makes_pure _

theorem makes_replay (reads : P .read) : (replay : Program ρ _).Makes P := by
  refine makes_bind (makes_lastEventTrap reads) fun trap => ?_
  split
  · refine makes_bind (makes_request _) fun posted => ?_
    split
    · exact makes_pure _
    · exact makes_bind (makes_notice _) fun _ => makes_emptyEvent
  · split
    · exact makes_bind (makes_request _) fun _ => makes_pure _
    · exact makes_pure _

theorem makes_stress (reads : P .read) : (stress : Program ρ _).Makes P := by
  refine makes_bind (makes_reports reads) fun log => makes_bind (makes_lastEventTrap reads) fun trap => ?_
  split
  · refine makes_bind (makes_request _) fun posted => ?_
    split
    · exact makes_pure _
    · split
      · exact makes_bind (makes_notice _) fun _ => makes_emptyEvent
      · exact makes_emptyEvent
  · split
    · exact makes_bind (makes_request _) fun _ => makes_pure _
    · split
      · exact makes_bind (makes_notice _) fun _ => makes_pure _
      · exact makes_pure _

theorem makes_deliverKey : (deliverKey : Program ρ _).Makes P :=
  makes_bind (makes_request _) fun _ => makes_bind (makes_notice _) fun _ =>
    makes_bind (makes_request _) fun _ => makes_pure _

theorem makes_deliverPen : (deliverPen : Program ρ _).Makes P :=
  makes_bind (makes_request _) fun _ => makes_bind (makes_notice _) fun _ =>
    makes_bind (makes_request _) fun _ => makes_pure _

theorem makes_launchOwner (owner document : DatabaseRef) : (launchOwner owner document : Program ρ _).Makes P := by
  refine makes_bind (makes_request _) fun block => ?_
  cases block with
  | none => exact makes_pure _
  | some block =>
    exact makes_bind (makes_request _) fun _ => makes_bind (makes_request _) fun _ =>
      makes_bind (makes_sum _ _) fun _ => makes_bind (makes_request _) fun _ =>
        makes_bind (makes_notice _) fun _ => makes_request _

theorem makes_switchTo (app : DatabaseRef) : (switchTo app : Program ρ _).Makes P := by
  refine makes_bind (makes_request _) fun info => ?_
  cases info with
  | error e => exact makes_pure _
  | ok info =>
    dsimp only
    split
    · exact makes_bind (makes_notice _) fun _ => makes_request _
    · refine makes_bind (makes_request _) fun owner => ?_
      cases owner with
      | error e => exact makes_pure _
      | ok owner => exact makes_launchOwner owner app

theorem makes_switchPending (reads : P .read) (edits : ∀ f, P (.edit f)) :
    (switchPending : Program ρ _).Makes P := by
  have withdraw : (do
      modify fun e => { e with state := e.state.withdrawApp }
      return .hurry : Program ρ Injection).Makes P :=
    makes_bind (makes_modify (edits _) fun _ => rfl) fun _ => makes_pure _
  refine makes_bind (makes_get reads) fun e => ?_
  cases e.state.nextApp with
  | none => exact withdraw
  | some app =>
    refine makes_bind (makes_switchTo app) fun outcome => ?_
    cases outcome with
    | ok _ => exact withdraw
    | error error => exact makes_bind (makes_notice _) fun _ => withdraw

theorem makes_rules (reads : P .read) (edits : ∀ f, P (.edit f)) :
    ∀ rule ∈ (rules : List (Rule ρ)), rule.applies.Makes P ∧ rule.act.Makes P := by
  simp only [rules, List.forall_mem_cons, List.not_mem_nil, false_implies, implies_true, and_true]
  exact ⟨⟨makes_request _, makes_emptyEvent⟩, ⟨makes_request _, makes_replay reads⟩,
    ⟨makes_request _, makes_stress reads⟩, ⟨makes_request _, makes_deliverKey⟩,
    ⟨makes_request _, makes_deliverPen⟩,
    makes_bind (makes_get reads) fun _ => makes_pure _, makes_switchPending reads edits⟩

theorem makes_applyFirst {rules : List (Rule ρ)} (h : ∀ rule ∈ rules, rule.applies.Makes P ∧ rule.act.Makes P) :
    (applyFirst rules).Makes P := by
  induction rules with
  | nil => exact makes_pure _
  | cons rule rules ih =>
    obtain ⟨applies, act⟩ := h rule List.mem_cons_self
    refine makes_bind applies fun holds => ?_
    split
    · exact makes_bind (makes_notice _) fun _ => act
    · exact ih fun other member => h other (List.mem_cons_of_mem rule member)

theorem makes_inject (reads : P .read) (edits : ∀ f, P (.edit f)) : (inject : Program ρ _).Makes P := by
  refine makes_bind (makes_request _) fun _ => makes_bind (makes_request _) fun idle => ?_
  split
  · refine makes_bind (makes_lastEventTrap reads) fun trap => ?_
    split
    · exact makes_bind (makes_request _) fun _ => makes_applyFirst (makes_rules reads edits)
    · exact makes_applyFirst (makes_rules reads edits)
  · refine makes_bind (makes_reports reads) fun log => ?_
    split
    · refine makes_bind (makes_request _) fun stressing => ?_
      split
      · exact makes_bind (makes_notice _) fun _ => makes_pure _
      · exact makes_pure _
    · exact makes_pure _

theorem makes_idleWait (reads : P .read) (edits : ∀ f, P (.edit f)) : (idleWait : Program ρ _).Makes P := by
  refine makes_bind (makes_inject reads edits) fun outcome => ?_
  split
  · refine makes_bind (makes_request _) fun timeout => ?_
    split
    · exact makes_bind (makes_get reads) fun _ => makes_bind (makes_notice _) fun _ =>
        makes_bind (makes_request _) fun _ => makes_pure _
    · exact makes_pure _
  · exact makes_pure _

/-! ### Mending the guest -/

theorem makes_reportDebugger (attached : Bool) (answer : Except ErrorCode Unit) :
    (reportDebugger attached answer : Program ρ _).Makes P := by
  cases answer with
  | ok _ => exact makes_pure _
  | error e => exact makes_notice _

theorem makes_announceDebugger : (announceDebugger : Program ρ _).Makes P := by
  refine makes_bind (makes_request _) fun attached => ?_
  dsimp only
  split
  · exact makes_bind (makes_request _) (makes_reportDebugger attached)
  · exact makes_bind (makes_request _) (makes_reportDebugger attached)

theorem makes_assertStrictChecks : (assertStrictChecks : Program ρ _).Makes P := by
  refine makes_bind (makes_request _) fun strict => makes_bind ?_ fun has => ?_
  · refine makes_bind (makes_request _) fun version => ?_
    cases version with
    | ok v => exact makes_pure _
    | error e => exact makes_pure _
  · split
    · exact makes_request _
    · exact makes_pure _

theorem makes_assertOverlayErrors : (assertOverlayErrors : Program ρ _).Makes P := by
  refine makes_bind (makes_request _) fun wanted => makes_bind (makes_request _) fun answer => ?_
  cases answer with
  | ok _ => exact makes_pure _
  | error e => exact makes_notice _

theorem makes_takeUserName : (takeUserName : Program ρ _).Makes P := by
  refine makes_bind (makes_request _) fun has => ?_
  split
  · refine makes_bind (makes_request _) fun name => ?_
    cases name with
    | ok name => exact makes_request _
    | error e => exact makes_notice _
  · exact makes_pure _

theorem makes_installFiles : (installFiles : Program ρ _).Makes P := by
  refine makes_bind (makes_request _) fun outcome => ?_
  cases outcome with
  | ok _ => exact makes_pure _
  | error reason => exact makes_notice _

theorem makes_reopenLine (line : Line) : (reopenLine line : Program ρ _).Makes P := by
  refine makes_bind (makes_request _) fun active => ?_
  split
  · refine makes_bind (makes_request _) fun outcome => ?_
    cases outcome with
    | ok _ => exact makes_pure _
    | error reason => exact makes_notice _
  · exact makes_pure _

theorem makes_mendGuest : (mendGuest : Program ρ _).Makes P :=
  makes_bind (makes_notice _) fun _ => makes_bind makes_announceDebugger fun _ =>
    makes_bind makes_assertStrictChecks fun _ => makes_bind makes_assertOverlayErrors fun _ =>
      makes_bind makes_takeUserName fun _ => makes_bind makes_installFiles fun _ =>
        makes_bind (makes_bind (makes_request _) fun _ => makes_request _) fun _ => makes_request _

theorem makes_bootstrap (reads : P .read) : (bootstrap : Program ρ _).Makes P := by
  refine makes_bind (makes_get reads) fun e => ?_
  have lines : (Line.all.forM reopenLine : Program ρ _).Makes P := makes_forM fun line _ => makes_reopenLine line
  split
  · exact makes_bind makes_mendGuest fun _ => lines
  · exact lines

/-! ### Finding and running hooks -/

theorem makes_libraryTable (lookup : ∀ c : Change ρ, c.IsLookup → P c) (refnum : UInt16) :
    (libraryTable refnum : Program ρ _).Makes P := by
  refine makes_bind (makes_modifyGet fun e => ⟨_, lookup (.visit refnum) trivial, rfl⟩) fun known => ?_
  cases known with
  | some table => exact makes_pure _
  | none =>
    exact makes_bind (makes_request _) fun name =>
      makes_bind (makes_modifyGet fun e => ⟨_, lookup (.learn refnum name) trivial, rfl⟩) fun table =>
        makes_bind (makes_notice _) fun _ => makes_pure _

theorem makes_resolve (lookup : ∀ c : Change ρ, c.IsLookup → P c) (call : Call) :
    (resolve call : Program ρ _).Makes P := by
  refine makes_bind (makes_bind (makes_get (lookup _ trivial)) fun e => ?_) fun table => makes_pure _
  cases call.home e.config.protocolMark with
  | system => exact makes_modifyGet fun e => ⟨_, lookup .findSystem trivial, rfl⟩
  | protocol => exact makes_modifyGet fun e => ⟨_, lookup .findProtocol trivial, rfl⟩
  | library refnum => exact makes_libraryTable lookup refnum
  | nowhere => exact makes_pure _

theorem makes_prepare (lookup : ∀ c : Change ρ, c.IsLookup → P c) (call : Call) :
    (prepare call : Program ρ _).Makes P := by
  refine makes_bind (makes_bind (makes_request _) fun due => ?_) fun _ => makes_resolve lookup call
  split
  · exact makes_bind (makes_request _) fun _ => makes_bootstrap (lookup _ trivial)
  · exact makes_pure _

theorem makes_unmeasured {α : Type} {p : Program ρ α} (h : p.Makes P) : (unmeasured p).Makes P :=
  makes_bind (makes_request _) fun _ => makes_bind h fun _ => makes_bind (makes_request _) fun _ => makes_pure _

theorem makes_headDecision (reads : P .read) (edits : ∀ f, P (.edit f)) (call : Call) (hooks : Hooks ρ) :
    (headDecision call hooks).Makes P := by
  unfold headDecision
  cases hooks.head with
  | none => exact makes_pure _
  | some head =>
    refine makes_unmeasured ?_
    cases head.routine with
    | noteEventTrap =>
      exact makes_bind (makes_modify (edits fun s => { s with lastEventTrap := call.trap }) fun _ => rfl) fun _ =>
        makes_pure _
    | idleWait => exact makes_idleWait reads edits
    | foreign r => exact fun _ => trivial

theorem makes_callTail (hook : TailHook ρ) (call : Call) : (callTail hook call).Makes P :=
  makes_bind (makes_notice _) fun _ => makes_unmeasured trivial

theorem makes_conclude {call : Call} {hooks : Hooks ρ} {decision : Decision}
    (arms : ∀ tail, hooks.tail = some tail → decision = .execute → P (.arm tail call)) :
    (conclude call hooks decision).Makes P := by
  have last : (do notice (.handled call decision); return decision : Program ρ Decision).Makes P :=
    makes_bind (makes_notice _) fun _ => makes_pure _
  unfold conclude
  cases found : hooks.tail with
  | none => exact last
  | some tail =>
    cases decision with
    | skip => exact makes_bind (makes_callTail tail call) fun _ => last
    | execute =>
      refine makes_bind (makes_bind (makes_modifyGet fun e => ⟨_, arms tail found rfl, rfl⟩) fun armed => ?_)
        fun _ => last
      cases armed with
      | first => exact makes_notice _
      | again count => exact makes_notice _
      | overflow => trivial

theorem makes_callDue (due : Option (TailHook ρ × Call)) : (callDue due).Makes P := by
  cases due with
  | none => exact makes_pure _
  | some due => exact makes_callTail due.1 due.2

theorem makes_takeReturn {pc : UInt32} (arrives : P (.arrive pc)) : (takeReturn pc : Program ρ _).Makes P := by
  refine makes_bind (makes_modifyGet fun e => ⟨_, arrives, rfl⟩) fun arrival => ?_
  cases arrival with
  | unknown => exact makes_pure _
  | returned due last =>
    dsimp only
    split
    · exact makes_bind (makes_notice _) fun _ => makes_callDue due
    · exact makes_callDue due

/-! ### Sessions -/

theorem makes_putBack {record : PendingTail ρ} (restores : P (.restore record)) : (putBack record).Makes P := by
  refine makes_bind (makes_modifyGet fun e => ⟨_, restores, rfl⟩) fun restored => ?_
  split
  · exact makes_notice _
  · exact makes_pure _
  · exact makes_pure _

theorem makes_restoreTail {saved : SavedTail} (lookup : ∀ c : Change ρ, c.IsLookup → P c)
    (restores : ∀ record : PendingTail ρ, record.count = saved.count → P (.restore record)) :
    (restoreTail saved : Program ρ _).Makes P := by
  refine makes_bind (makes_resolve lookup saved.call) fun hooks => ?_
  dsimp only
  split
  · exact makes_bind (makes_notice _) fun _ => makes_putBack (restores _ rfl)
  · exact makes_putBack (restores _ rfl)

theorem makes_adopt {chunk : Chunk} (lookup : ∀ c : Change ρ, c.IsLookup → P c) (edits : ∀ f, P (.edit f))
    (evicts : P .evict) (restores : ∀ record : PendingTail ρ, record.Storable → P (.restore record))
    (storable : ∀ t ∈ chunk.tails, t.Storable) : (adopt chunk : Program ρ _).Makes P := by
  have tails : (chunk.tails.forM restoreTail : Program ρ _).Makes P :=
    makes_forM fun saved member => makes_restoreTail lookup fun record same =>
      restores record (by unfold PendingTail.Storable; rw [same]; exact storable saved member)
  exact makes_bind (makes_modify evicts fun _ => rfl) fun _ => makes_bind tails fun _ =>
    makes_modify (edits fun _ => chunk.state) fun _ => rfl

theorem makes_load (lookup : ∀ c : Change ρ, c.IsLookup → P c) (edits : ∀ f, P (.edit f)) (evicts : P .evict)
    (restores : ∀ record : PendingTail ρ, record.Storable → P (.restore record)) (file : SessionFile) :
    (load file : Program ρ _).Makes P := by
  unfold load
  cases file.chunk with
  | none => exact makes_bind (makes_notice _) fun _ => makes_pure _
  | some bytes =>
    dsimp only
    cases read : Chunk.decode bytes with
    | error e => exact makes_pure _
    | ok chunk =>
      have last : (do
          notice (.loaded chunk.version (← get).returns.records.size)
          return (file, .ok ()) : Program ρ (SessionFile × Except ChunkError Unit)).Makes P :=
        makes_bind (makes_get (lookup _ trivial)) fun _ => makes_bind (makes_notice _) fun _ => makes_pure _
      dsimp only
      split
      · exact makes_bind (makes_adopt lookup edits evicts restores (Chunk.storable_of_decode read)) fun _ => last
      · exact last

theorem makes_save (reads : P .read) (file : SessionFile) : (save file : Program ρ _).Makes P :=
  makes_bind (makes_get reads) fun _ => makes_bind (makes_notice _) fun _ => makes_pure _

theorem makes_start (reloads : P .reload) (reads : P .read) (forgets : P .forget) :
    (start : Program ρ _).Makes P :=
  makes_bind (makes_modify reloads fun _ => rfl) fun _ => makes_bind (makes_get reads) fun _ =>
    makes_bind (makes_forM fun _ _ => makes_notice _) fun _ =>
      makes_bind (makes_modify forgets fun _ => rfl) fun _ => makes_notice _

theorem makes_reset (resets : P .reset) : (reset : Program ρ _).Makes P :=
  makes_bind (makes_modify resets fun _ => rfl) fun _ => makes_notice _

theorem makes_dispose (resets : P .reset) (drops : P .dropTables) : (dispose : Program ρ _).Makes P :=
  makes_bind (makes_reset resets) fun _ => makes_modify drops fun _ => rfl

end Engine

/-- A stage makes only the changes that it is permitted. -/
theorem Stage.makes_program {ρ : Type} (s : Stage ρ) : s.program.Makes s.Permits := by
  cases s with
  | dispatch call => exact Engine.makes_prepare (fun _ h => h) call
  | handle call hooks => exact Engine.makes_headDecision trivial (fun _ => trivial) call hooks
  | conclude call hooks decision =>
    exact Engine.makes_conclude fun tail found runs => ⟨tail, found, runs, rfl⟩
  | returned => exact Program.makes_request _
  | takeReturn pc => exact Engine.makes_takeReturn rfl
  | bootstrap => exact Engine.makes_bootstrap rfl
  | resolve call => exact Engine.makes_resolve (fun _ h => h) call
  | start => exact Engine.makes_start (.inl rfl) (.inr (.inl rfl)) (.inr (.inr rfl))
  | reset => exact Engine.makes_reset rfl
  | dispose => exact Engine.makes_dispose (.inl rfl) (.inr rfl)
  | save file => exact Engine.makes_save (P := (· = .read)) rfl file
  | load file =>
    exact Engine.makes_load (fun _ h => .inl h) (fun _ => .inr (.inl trivial)) (.inr (.inr (.inl rfl)))
      (fun record storable => .inr (.inr (.inr ⟨record, rfl, storable⟩))) file
  | installMarks => exact Program.makes_modify rfl fun _ => rfl
  | uninstallMarks => exact Program.makes_modify rfl fun _ => rfl
  | markLibrary refnum => exact Program.makes_modify rfl fun _ => rfl
  | markLibraries => exact Program.makes_modify rfl fun _ => rfl
  | edit f => exact Program.makes_modify rfl fun _ => rfl

/-! ### Runs -/

namespace Machine

variable {ρ : Type} {m n : Machine ρ} {event : Event ρ}

/-- What every task has left to do keeps to what its stage is permitted. -/
def Keeps (m : Machine ρ) : Prop :=
  ∀ t ∈ m.tasks, t.rest.Makes t.stage.Permits

theorem keeps_fresh (config : Config) (registry : Registry ρ) (marks : Marks) :
    (fresh config registry marks).Keeps := by
  simp [Keeps, fresh]

theorem Step.keeps (step : m.Step event n) (keeps : m.Keeps) : n.Keeps := by
  cases step with
  | enter m s => exact List.forall_mem_cons.mpr ⟨s.makes_program, keeps⟩
  | @act e e' s p p' action acts done below =>
    obtain ⟨top, others⟩ := List.forall_mem_cons.mp keeps
    refine List.forall_mem_cons.mpr ⟨?_, others⟩
    cases acts with
    | change next rest => exact (top e).2
    | reply r rest reply => exact top reply
    | head routine call rest decision => exact top decision
    | tail routine call rest => exact top
    | notice n rest => exact top
  | finish e s result done below =>
    obtain ⟨-, others⟩ := List.forall_mem_cons.mp keeps
    exact Stage.forall_mem_next Stage.makes_program s result others

/-- The engine is left as it is, or changed once, in a way that the acting stage is permitted. -/
theorem Step.engine (step : m.Step event n) (keeps : m.Keeps) :
    n.engine = m.engine ∧ (∀ s before after, event ≠ .acted s (.changed before after)) ∨
      ∃ s c, event = .acted s (.changed m.engine n.engine) ∧ s.Permits c ∧ n.engine = c.apply m.engine := by
  cases step with
  | enter m s => exact .inl ⟨rfl, by simp⟩
  | finish e s result done below => exact .inl ⟨rfl, by simp⟩
  | @act e e' s p p' action acts done below =>
    obtain ⟨top, -⟩ := List.forall_mem_cons.mp keeps
    cases acts with
    | change next rest =>
      obtain ⟨⟨c, permitted, eq⟩, -⟩ := top e
      exact .inr ⟨s, c, rfl, permitted, eq⟩
    | reply r rest reply => exact .inl ⟨rfl, by simp⟩
    | head routine call rest decision => exact .inl ⟨rfl, by simp⟩
    | tail routine call rest => exact .inl ⟨rfl, by simp⟩
    | notice n rest => exact .inl ⟨rfl, by simp⟩

end Machine

theorem Run.keeps {ρ : Type} {m n : Machine ρ} {trace : List (Moment ρ)} (run : Run m trace n) (keeps : m.Keeps) :
    n.Keeps := by
  induction run with
  | nil => exact keeps
  | snoc run step ih => exact step.keeps ih

end TrapHooks
