import TrapHooks.Proofs.Run.Span
import TrapHooks.Proofs.Run.Undisturbed

/-! What becomes of a request for another application that is made while the guest is on its way to one. The
    switch runs routines of the guest, and whatever they do the request is withdrawn once they are through, the
    one that was met then and not the one that the switch was made for. -/

namespace TrapHooks

variable {ρ α β : Type}

/-- Nothing here was asked for the sake of a switch. -/
def Unswitched (actions : List (Action ρ)) : Prop :=
  ∀ r reply, .replied r reply ∈ actions → r.purpose ≠ .switching

/-- The request was withdrawn, and from then on nothing was asked for the sake of a switch. -/
def Withdrawn (actions : List (Action ρ)) : Prop :=
  ∃ before e after, actions = before ++ .changed e { e with state := e.state.withdrawApp } :: after ∧ Unswitched after

section
variable {actions first last : List (Action ρ)}

theorem unswitched_append : Unswitched (first ++ last) ↔ Unswitched first ∧ Unswitched last := by
  simp only [Unswitched, List.mem_append, or_imp, forall_and]

theorem Withdrawn.append (withdrawn : Withdrawn first) (unswitched : Unswitched last) : Withdrawn (first ++ last) := by
  obtain ⟨before, e, after, rfl, plain⟩ := withdrawn
  exact ⟨before, e, after ++ last, by simp, unswitched_append.mpr ⟨plain, unswitched⟩⟩

theorem Withdrawn.prepend (withdrawn : Withdrawn last) (first : List (Action ρ)) : Withdrawn (first ++ last) := by
  obtain ⟨before, e, after, rfl, plain⟩ := withdrawn
  exact ⟨first ++ before, e, after, by simp, plain⟩

end

namespace Program

/-- The program asks nothing for the sake of a switch. -/
abbrev Plain (p : Program ρ α) : Prop :=
  p.Asks Request.Any (·.purpose ≠ .switching)

theorem Plain.unswitched {p q : Program ρ α} {actions : List (Action ρ)} (plain : p.Plain)
    (does : p.Does actions q) : Unswitched actions :=
  (does.asks plain fun _ _ _ => trivial).1

/-- If the program switches, it also withdraws the request. -/
def Withdraws (p : Program ρ α) : Prop :=
  ∀ actions a, p.Does actions (done a) → Unswitched actions ∨ Withdrawn actions

theorem withdraws_bind_plain {p : Program ρ α} {f : α → Program ρ β} (withdraws : p.Withdraws)
    (later : ∀ a, (f a).Plain) : (p >>= f).Withdraws := by
  intro actions b does
  obtain ⟨a, first, last, rfl, begins, ends⟩ := does_bind does
  have plain := (later a).unswitched ends
  exact (withdraws first a begins).imp (fun before => unswitched_append.mpr ⟨before, plain⟩) fun before =>
    before.append plain

theorem Plain.withdraws_bind {p : Program ρ α} {f : α → Program ρ β} (plain : p.Plain)
    (later : ∀ a, (f a).Withdraws) : (p >>= f).Withdraws := by
  intro actions b does
  obtain ⟨a, first, last, rfl, begins, ends⟩ := does_bind does
  exact (later a last b ends).imp (fun after => unswitched_append.mpr ⟨plain.unswitched begins, after⟩) fun after =>
    after.prepend first

theorem Plain.withdraws {p : Program ρ α} (plain : p.Plain) : p.Withdraws :=
  fun _ _ does => .inl (plain.unswitched does)

end Program

namespace Engine

open Program

theorem plain_of_purpose {purpose : Request.Purpose} {p : Program ρ α}
    (asks : p.Asks Request.Any (·.purpose = purpose)) (other : purpose ≠ .switching) : p.Plain :=
  asks.mono (fun _ _ told => told) fun r (same : r.purpose = purpose) => same ▸ other

/-- However the switch ends, the request is withdrawn. -/
theorem withdrawn_switchPending {actions : List (Action ρ)} {outcome : Injection}
    (does : (switchPending : Program ρ _).Does actions (.done outcome)) : Withdrawn actions := by
  have last {actions : List (Action ρ)} {outcome : Injection}
      (does : (do
        modify fun e => { e with state := e.state.withdrawApp }
        return .hurry : Program ρ Injection).Does actions (.done outcome)) : Withdrawn actions := by
    obtain ⟨e, later, rfl, ends⟩ := does_step does
    obtain ⟨rfl, -⟩ := does_done ends
    exact ⟨[], e, [], rfl, by simp [Unswitched]⟩
  obtain ⟨e, looks, others, rfl, -, goes⟩ := does_bind does
  refine Withdrawn.prepend ?_ looks
  cases pending : e.state.nextApp with
  | none =>
    simp only [pending] at goes
    exact last goes
  | some app =>
    simp only [pending] at goes
    obtain ⟨answer, switches, others, rfl, -, goes⟩ := does_bind goes
    refine Withdrawn.prepend ?_ switches
    cases answer with
    | ok _ => exact last goes
    | error error =>
      obtain ⟨-, tells, others, rfl, -, goes⟩ := does_bind goes
      exact (last goes).prepend tells

theorem withdraws_applyFirst {rules : List (Rule ρ)}
    (withdraws : ∀ rule ∈ rules, rule.applies.Plain ∧ rule.act.Withdraws) : (applyFirst rules).Withdraws := by
  induction rules with
  | nil => exact Plain.withdraws (asks_pure _)
  | cons rule rules ih =>
    obtain ⟨applies, act⟩ := withdraws rule List.mem_cons_self
    refine applies.withdraws_bind fun holds => ?_
    split
    · exact Plain.withdraws_bind (asks_notice _) fun _ => act
    · exact ih fun other member => withdraws other (List.mem_cons_of_mem rule member)

theorem withdraws_inject : (inject : Program ρ _).Withdraws := by
  have rules : (applyFirst (ρ := ρ) rules).Withdraws := by
    refine withdraws_applyFirst fun rule member => ?_
    obtain ⟨applies, posts | switches⟩ := asks_rules rule member
    · exact ⟨plain_of_purpose applies (by decide), (plain_of_purpose posts (by decide)).withdraws⟩
    · refine ⟨plain_of_purpose applies (by decide), fun actions outcome does => .inr ?_⟩
      rw [switches] at does
      exact withdrawn_switchPending does
  have asks {r : Request} (posts : r.purpose = .posting) : (Program.request r : Program ρ _).Plain :=
    asks_request (by simp [posts])
  refine (asks rfl).withdraws_bind fun _ => (asks rfl).withdraws_bind fun idle => ?_
  split
  · refine Plain.withdraws_bind asks_lastEventTrap fun trap => ?_
    split
    · exact (asks rfl).withdraws_bind fun _ => rules
    · exact rules
  · exact Plain.withdraws (asks_proceed nofun)

theorem withdraws_idleWait : (idleWait : Program ρ _).Withdraws :=
  withdraws_bind_plain withdraws_inject (asks_endWait ⟨nofun, fun _ => nofun⟩)

theorem withdraws_headDecision (call : Call) (hooks : Hooks ρ) : (headDecision call hooks).Withdraws := by
  unfold headDecision
  cases hooks.head with
  | none => exact Plain.withdraws (asks_pure _)
  | some head =>
    have measuring (on : Bool) : (Program.request (.setProfiling on) : Program ρ _).Plain :=
      asks_request (by simp [Request.purpose])
    refine (measuring _).withdraws_bind fun _ => withdraws_bind_plain ?_ fun _ =>
      asks_bind (measuring _) fun _ => asks_pure _
    show (headProgram call head.routine).Withdraws
    cases head.routine with
    | noteEventTrap => exact Plain.withdraws (asks_bind (asks_modify _) fun _ => asks_pure _)
    | idleWait => exact withdraws_idleWait
    | foreign r => exact Plain.withdraws fun _ => trivial

end Engine

/-- A wait that has made a switch has withdrawn the request once the switch was through, whatever was requested
    meanwhile. What is pending when the wait ends was requested later. -/
theorem Run.switch_withdraws {m n : Machine ρ} {trace : List (Moment ρ)} {call : Call} {hooks : Hooks ρ}
    {below : List (Task ρ)} {decision : Decision} {did : List (Action ρ)} {app : DatabaseRef}
    {info : Except ErrorCode DatabaseInfo} (run : Run m trace n)
    (begins : m.tasks = .begin (.handle call hooks) :: below)
    (works : ∀ x ∈ trace, x.after.Works (.handle call hooks) below)
    (ends : n.tasks = ⟨.handle call hooks, .done decision, did⟩ :: below)
    (switches : .replied (.databaseInfo app) info ∈ did) :
    ∃ earlier w later e, trace = earlier ++ w :: later ∧
      w.event = .acted (.handle call hooks) (.changed e w.after.engine) ∧
      w.after.engine = { e with state := e.state.withdrawApp } ∧ w.after.engine.state.nextApp = none ∧
      (∃ x ∈ earlier, x.own below = some (.replied (.databaseInfo app) info)) ∧
      (∀ x ∈ later, ∀ r reply, x.own below = some (.replied r reply) → r.purpose ≠ .switching) ∧
      ∀ new, n.engine.state.nextApp = some new → ∃ y ∈ later, ∃ s before,
        y.event = .acted s (.changed before y.after.engine) ∧ before.state.nextApp ≠ some new ∧
          y.after.engine.state.nextApp = some new := by
  have span := run.span_top begins works ends
  rcases Engine.withdraws_headDecision call hooks did decision span.does_own with plain | withdrawn
  · exact absurd rfl (plain _ _ switches)
  obtain ⟨before, e, after, rfl, plain⟩ := withdrawn
  -- The moments at which the wait does something are cut where it withdraws the request.
  obtain ⟨asking, rest, rfl, asked, others⟩ := List.filterMap_eq_append_iff.mp span.own_eq
  obtain ⟨idle, w, later, rfl, -, here, rest⟩ := List.filterMap_eq_cons_iff.mp others
  have event := span.event_of_own w (by simp) _ here
  rw [← List.append_assoc] at run
  obtain ⟨k, -, step⟩ := run.split
  rw [event] at step
  have left := step.engine_after
  have none_left : w.after.engine.state.nextApp = none := by
    rw [left]
    rfl
  refine ⟨asking ++ idle, w, later, e, by simp, by rw [left]; exact event, left, none_left, ?_, ?_,
    fun new pending => ?_⟩
  · have first : .replied (.databaseInfo app) info ∈ before := by
      rcases List.mem_append.mp switches with first | last
      · exact first
      · rcases List.mem_cons.mp last with same | last
        · cases same
        · exact absurd rfl (plain _ _ last)
    rw [← asked] at first
    obtain ⟨x, member, own⟩ := List.mem_filterMap.mp first
    exact ⟨x, List.mem_append_left _ member, own⟩
  · intro x member r reply own
    refine plain r reply ?_
    rw [← rest]
    exact List.mem_filterMap.mpr ⟨x, member, own⟩
  · obtain ⟨y, member, s, before, changed, other, same⟩ :=
      run.tail.put (f := (·.state.nextApp)) (by simp [none_left, pending])
    exact ⟨y, member, s, before, changed, pending ▸ other, same.trans pending⟩

/-! ### A request that comes too early -/

/-- The hooks of a call that waits for an event. -/
def Engine.waitHooks : Hooks ρ :=
  { head := some { table := "~system", index := 0, routine := .idleWait } }

/-- Somebody writes into the guest state, and leaves. -/
theorem Run.editing {m : Machine ρ} (rests : m.AtRest) (f : GuestState → GuestState) :
    ∃ entry edit leave after, Run m [entry, edit, leave] ⟨after, m.tasks⟩ ∧
      after = { m.engine with state := f m.engine.state } ∧ edit.event = .acted (.edit f) (.changed m.engine after) ∧
      edit.after.engine = after ∧ leave.event = .finished (.edit f) () [.changed m.engine after] ∧
      ∀ x ∈ [entry, edit, leave], ∃ above, x.after.tasks = above ++ m.tasks := by
  let after := { m.engine with state := f m.engine.state }
  have run := Run.snoc (.snoc (.snoc .nil (.enter m (.edit f) rfl rests)) (.act (.change ..) [] m.tasks)) (.finish ..)
  refine ⟨_, _, _, after, run, rfl, rfl, rfl, rfl, ?_⟩
  simp only [List.forall_mem_cons, List.not_mem_nil, false_implies, implies_true, and_true]
  exact ⟨⟨[_], rfl⟩, ⟨[_], rfl⟩, [], rfl⟩

/-- The guest is sent to another application. -/
def Request.launches : Request → Bool
  | switchApp _ _ _ => true
  | _ => false

/-- The guest is idle, and there is nothing that could be posted to it. All databases are programs. -/
noncomputable def Program.Answers.idle (nested : Bool) : Answers ρ where
  reply
    | .isIdle => true
    | .isNested => nested
    | .replaying | .stressing | .hasKey | .hasPen => false
    | .setProfiling _ => true
    | .waitTimeout => 0
    | .databaseInfo _ => .ok { type := DatabaseType.application }
    | .switchApp _ _ _ => .ok ()
    | r => Classical.choice (Program.nonempty_reply r)
  decide _ _ := .execute

/-- An engine of which no more is known than a request for a program. -/
def Engine.requesting : Engine ρ :=
  { state := { nextId := 0x100 } }

/-- The wait that meets the request, on its way to the program. -/
def Task.switching (call : Call) (rest : Except ErrorCode Unit → Program ρ Decision) (asked : List (Action ρ)) :
    Task ρ where
  stage := .handle call Engine.waitHooks
  rest := .ask (.switchApp ⟨0, 0x100⟩ Launch.normal none) rest
  done := asked

/-- A wait for which there is nothing but the request comes to the switch, and withdraws the request then. -/
theorem Engine.advances_wait (call : Call) : ∃ rest asked,
    (headDecision call waitHooks).Advances requesting asked requesting (Task.switching (ρ := ρ) call rest asked).rest ∧
    (∃ info, .replied (.databaseInfo ⟨0, 0x100⟩) info ∈ asked) ∧
    (∀ r reply, .replied r reply ∈ asked → reply = (Program.Answers.idle (ρ := ρ) false).reply r) ∧
    ∀ e, ∃ last, (rest (.ok ())).Advances e last { e with state := e.state.withdrawApp } (.done .execute) ∧
      ∀ r reply, .replied r reply ∈ last → reply = (Program.Answers.idle (ρ := ρ) false).reply r := by
  refine ⟨_, _, Program.advances_upTo (.idle false) Request.launches (headDecision call waitHooks) requesting,
    ⟨.ok { type := DatabaseType.application }, ?_⟩, fun r reply => Program.reply_of_mem_upTo, fun e => ?_⟩
  · exact List.mem_of_getElem? (i := 12) rfl
  · exact ⟨_, Program.advances_upTo (.idle false) (fun _ => false) _ e, fun r reply => Program.reply_of_mem_upTo⟩

/-- Whatever others do while the guest is on its way, the wait ends after that. -/
theorem Run.wait_around (call : Call) : ∃ rest asked, ∀ meanwhile e,
    Run (ρ := ρ) ⟨Engine.requesting, [.switching call rest asked]⟩ meanwhile ⟨e, [.switching call rest asked]⟩ →
    (∀ x ∈ meanwhile, ∃ above, x.after.tasks = above ++ [.switching call rest asked]) →
    ∃ asks answers did,
      Run ⟨Engine.requesting, [.begin (.handle call Engine.waitHooks)]⟩ (asks ++ meanwhile ++ answers)
        ⟨{ e with state := e.state.withdrawApp }, [⟨.handle call Engine.waitHooks, .done .execute, did⟩]⟩ ∧
      (∀ x ∈ asks ++ meanwhile ++ answers, x.after.Works (.handle call Engine.waitHooks) []) ∧
      (∀ x ∈ asks ++ answers, x.after.tasks.tail = [] ∧
        ∃ action, x.event = .acted (.handle call Engine.waitHooks) action) ∧
      (∃ info, .replied (.databaseInfo ⟨0, 0x100⟩) info ∈ did) ∧
      ∀ r reply, .replied r reply ∈ did → reply = (Program.Answers.idle (ρ := ρ) false).reply r := by
  let s : Stage ρ := .handle call Engine.waitHooks
  obtain ⟨rest, asked, comes, ⟨info, told⟩, replies, ends⟩ := Engine.advances_wait (ρ := ρ) call
  refine ⟨rest, asked, fun meanwhile e goes stays => ?_⟩
  obtain ⟨last, ends, replies'⟩ := ends e
  obtain ⟨asks, asking, events, tasks⟩ := Run.advance (s := s) comes [] []
  obtain ⟨answers, ending, events', tasks'⟩ :=
    Run.advance (s := s) (.act (.reply e (.switchApp ⟨0, 0x100⟩ Launch.normal none) rest (.ok ())) ends) asked []
  refine ⟨asks, answers, _, (asking.trans goes).trans ending, ?_, ?_, ⟨info, List.mem_append_left _ told⟩, ?_⟩
  · refine List.forall_mem_append.mpr ⟨List.forall_mem_append.mpr ⟨fun x member => ?_, fun x member => ?_⟩,
      fun x member => ?_⟩
    · exact ⟨[], tasks x member⟩
    · obtain ⟨above, stack⟩ := stays x member
      exact ⟨above, _, _, stack⟩
    · exact ⟨[], tasks' x member⟩
  · have own {moments : List (Moment ρ)} {actions : List (Action ρ)}
        (events : moments.map (·.event) = actions.map (.acted s))
        (tasks : ∀ x ∈ moments, ∃ rest did, x.after.tasks = [⟨s, rest, did⟩]) :
        ∀ x ∈ moments, x.after.tasks.tail = [] ∧ ∃ action, x.event = .acted s action := by
      intro x member
      obtain ⟨action, -, acted⟩ := acted_of_map events member
      obtain ⟨rest, did, stack⟩ := tasks x member
      exact ⟨by rw [stack]; rfl, action, acted⟩
    exact List.forall_mem_append.mpr ⟨own events tasks, own events' tasks'⟩
  · intro r reply member
    rcases List.mem_append.mp member with member | member
    · exact replies r reply member
    · rcases List.mem_cons.mp member with same | member
      · cases same
        rfl
      · exact replies' r reply member

/-- The wait withdraws a second request together with the first. -/
theorem Run.switch_withdraws_late :
    ∃ (call : Call) (trace : List (Moment Unit)) (n : Machine Unit) (did : List (Action Unit))
      (info : Except ErrorCode DatabaseInfo),
      Run ⟨Engine.requesting, [.begin (.handle call Engine.waitHooks)]⟩ trace n ∧
      (∀ x ∈ trace, x.after.Works (.handle call Engine.waitHooks) []) ∧
      n.tasks = [⟨.handle call Engine.waitHooks, .done .execute, did⟩] ∧
      .replied (.databaseInfo ⟨0, 0x100⟩) info ∈ did ∧
      (∃ x ∈ trace, x.after.engine.state.nextApp = some ⟨0, 0x200⟩) ∧
      ∃ w ∈ trace, ∃ e, w.event = .acted (.handle call Engine.waitHooks) (.changed e w.after.engine) ∧
        w.after.engine = { e with state := e.state.withdrawApp } ∧ w.after.engine.state.nextApp = none := by
  let call : Call := { trap := 0xA2CB, index := 0x2CB }
  obtain ⟨rest, asked, around⟩ := Run.wait_around (ρ := Unit) call
  have rests := Machine.atRest_of_waits Engine.requesting (t := .switching call rest asked) trivial []
  obtain ⟨entry, edit, leave, e, edits, left, -, same, -, stays⟩ := Run.editing rests (·.requestApp ⟨0, 0x200⟩)
  obtain ⟨asks, answers, did, run, works, -, ⟨info, told⟩, -⟩ := around _ e edits stays
  obtain ⟨_, w, _, e, split, event, withdrawn, nothing, -⟩ := run.switch_withdraws rfl works rfl told
  refine ⟨call, _, _, did, info, run, works, rfl, told, ⟨edit, by simp, ?_⟩, w, by simp [split], e, event, withdrawn,
    nothing⟩
  rw [same, left]
  rfl

/-- A second request that is made while the guest is on its way to the first one's program, by the last of those
    who change the engine but the wait itself, is not pending when the wait ends. -/
theorem Run.switch_withdraws_lost :
    ∃ (call : Call) (past earlier later : List (Moment Unit)) (x : Moment Unit) (m n : Machine Unit)
      (rest : Except ErrorCode Unit → Program Unit Decision) (asked did : List (Action Unit)) (e : Engine Unit),
      Run (.fresh {} {} ∅) past m ∧ m.tasks = [.begin (.handle call Engine.waitHooks)] ∧
      m.engine.state.nextApp = some ⟨0, 0x100⟩ ∧ Run m (earlier ++ x :: later) n ∧
      n.tasks = [⟨.handle call Engine.waitHooks, .done .execute, did⟩] ∧
      ⟨.handle call Engine.waitHooks, .ask (.switchApp ⟨0, 0x100⟩ Launch.normal none) rest, asked⟩ ∈ x.after.tasks ∧
      x.event = .acted (.edit (·.requestApp ⟨0, 0x200⟩)) (.changed e x.after.engine) ∧
      x.after.engine.state.nextApp = some ⟨0, 0x200⟩ ∧
      (∀ y ∈ later, ∀ s before after, y.event = .acted s (.changed before after) → s = .handle call Engine.waitHooks) ∧
      n.engine.state.nextApp = none := by
  let call : Call := { trap := 0xA2CB, index := 0x2CB }
  obtain ⟨rest, asked, around⟩ := Run.wait_around (ρ := Unit) call
  have rests := Machine.atRest_of_waits Engine.requesting (t := .switching call rest asked) trivial []
  obtain ⟨entry, edit, leave, e, edits, left, edited, same, leaves, stays⟩ :=
    Run.editing rests (·.requestApp ⟨0, 0x200⟩)
  obtain ⟨asks, answers, did, run, -, alone, -⟩ := around _ e edits stays
  -- The session makes the first request, and the guest comes to the wait.
  have idle : (Machine.fresh (ρ := Unit) {} {} ∅).AtRest := Machine.atRest_of_idle rfl
  obtain ⟨_, _, _, after, requests, first, -⟩ := Run.editing idle (·.requestApp ⟨0, 0x100⟩)
  have begins := Run.snoc requests (.enter _ (.handle call Engine.waitHooks) rfl (Machine.atRest_of_idle rfl))
  rw [show after = Engine.requesting from first] at begins
  rw [show asks ++ [entry, edit, leave] ++ answers = (asks ++ [entry]) ++ edit :: leave :: answers by simp] at run
  refine ⟨call, _, _, _, edit, _, _, rest, asked, did, Engine.requesting, begins, rfl, rfl, run, rfl, ?_, ?_, ?_, ?_,
    rfl⟩
  · obtain ⟨above, stack⟩ := stays edit (by simp)
    rw [stack]
    exact List.mem_append_right _ List.mem_cons_self
  · rw [same]
    exact edited
  · rw [same, left]
    rfl
  · intro y member s before after acted
    rcases List.mem_cons.mp member with rfl | member
    · rw [leaves] at acted
      cases acted
    · obtain ⟨-, action, own⟩ := alone y (List.mem_append_right _ member)
      rw [acted] at own
      exact (Event.acted.inj own).1

end TrapHooks
