import TrapHooks.Proofs.Waits.Launching
import TrapHooks.Proofs.Waits.Withdrawal

/-! How often a request for another application is served. It stays where it is while the guest is on its way, so
    a wait that the guest comes to meanwhile meets it again. What keeps that wait from a switch of its own is the
    host, which tells that the guest runs on its behalf: the wait is skipped, and no other source is looked at. -/

namespace TrapHooks

variable {ρ α β : Type}

namespace Request

/-- Nothing keeps a wait from the request for an application: the guest is idle and runs on nobody's behalf, and
    there is no event for it. -/
def Quiet : (r : Request) → r.Reply → Prop
  | isIdle, idle => idle = true
  | isNested, holds | replaying, holds | stressing, holds | hasKey, holds | hasPen, holds => holds = false
  | _, _ => True

theorem quiet_of_purpose {r : Request} (other : r.purpose ≠ .posting) (reply : r.Reply) : r.Quiet reply := by
  cases r <;> trivial

end Request

def Quiet (actions : List (Action ρ)) : Prop :=
  ∀ r reply, .replied r reply ∈ actions → r.Quiet reply

/-- Nothing has kept the wait from its request, and no switch was made. -/
structure Uneventful (actions : List (Action ρ)) : Prop where
  quiet : Quiet actions
  plain : Unswitched actions

/-- Something has kept the wait from its request, and no switch was made. -/
structure Diverted (actions : List (Action ρ)) : Prop where
  loud : ¬Quiet actions
  plain : Unswitched actions

/-- Nothing has kept the wait from its request, and one switch was made. -/
structure Switched (app : DatabaseRef) (actions : List (Action ρ)) : Prop where
  quiet : Quiet actions
  once : ∃ before switch after outcome, actions = before ++ switch ++ after ∧ Unswitched before ∧ Unswitched after ∧
    (Engine.switchTo app).Does switch (.done outcome)

section
variable {actions first last : List (Action ρ)} {app : DatabaseRef}

theorem quiet_append : Quiet (first ++ last) ↔ Quiet first ∧ Quiet last := by
  simp only [Quiet, List.mem_append, or_imp, forall_and]

theorem uneventful_nil : Uneventful ([] : List (Action ρ)) :=
  ⟨by simp [Quiet], by simp [Unswitched]⟩

theorem uneventful_changed (e e' : Engine ρ) : Uneventful [.changed e e'] :=
  ⟨by simp [Quiet], by simp [Unswitched]⟩

theorem uneventful_told (n : Notice) : Uneventful ([.told n] : List (Action ρ)) :=
  ⟨by simp [Quiet], by simp [Unswitched]⟩

theorem uneventful_replied (r : Request) (reply : r.Reply) (other : r.purpose ≠ .switching) (quiet : r.Quiet reply) :
    Uneventful ([.replied r reply] : List (Action ρ)) := by
  constructor
  · intro r' reply' member
    cases List.mem_singleton.mp member
    exact quiet
  · intro r' reply' member
    cases List.mem_singleton.mp member
    exact other

theorem Uneventful.append (before : Uneventful first) (after : Uneventful last) : Uneventful (first ++ last) :=
  ⟨quiet_append.mpr ⟨before.quiet, after.quiet⟩, unswitched_append.mpr ⟨before.plain, after.plain⟩⟩

theorem Diverted.append (before : Diverted first) (after : Unswitched last) : Diverted (first ++ last) :=
  ⟨fun quiet => before.loud (quiet_append.mp quiet).1, unswitched_append.mpr ⟨before.plain, after⟩⟩

/-- A reply that is not as the request needs it diverts the wait. -/
theorem Uneventful.diverted (before : Uneventful actions) {r : Request} {reply : r.Reply}
    (other : r.purpose ≠ .switching) (loud : ¬r.Quiet reply) : Diverted (actions ++ [.replied r reply]) := by
  refine ⟨fun quiet => loud (quiet r reply (by simp)), unswitched_append.mpr ⟨before.plain, fun r' reply' member => ?_⟩⟩
  cases List.mem_singleton.mp member
  exact other

theorem Uneventful.switched (before : Uneventful first) {outcome : Except ErrorCode Unit}
    (does : (Engine.switchTo app).Does last (.done outcome)) : Switched app (first ++ last) := by
  have asks := (does.asks (A := Request.Any) (Engine.asks_switchTo app) fun _ _ _ => trivial).1
  refine ⟨quiet_append.mpr ⟨before.quiet, fun r reply member => ?_⟩, first, last, [], outcome, by simp, before.plain,
    by simp [Unswitched], does⟩
  exact Request.quiet_of_purpose (by rw [asks r reply member]; decide) reply

theorem Switched.append (before : Switched app first) (after : Uneventful last) : Switched app (first ++ last) := by
  obtain ⟨quiet, earlier, switch, later, outcome, rfl, plain, plain', does⟩ := before
  exact ⟨quiet_append.mpr ⟨quiet, after.quiet⟩, earlier, switch, later ++ last, outcome,
    by simp only [List.append_assoc], plain, unswitched_append.mpr ⟨plain', after.plain⟩, does⟩

end

namespace Engine

open Program

variable {did : List (Action ρ)} {e : Engine ρ} {app : DatabaseRef}

/-- Where a wait comes to that has met a request. -/
def Settled (app : DatabaseRef) (did : List (Action ρ)) (decision : Decision) (e : Engine ρ) : Prop :=
  Diverted did ∨ Switched app did ∧ decision = .execute ∧ e.state.nextApp = none

theorem attains_diverted {p : Program ρ α} {decide : α → Decision} (diverted : Diverted did) (plain : p.Plain) :
    p.Attains (fun did a e => Settled app did (decide a) e) did e := by
  refine (attains_does p did e).mono fun did' a e' ends => ?_
  obtain ⟨actions, rfl, does⟩ := ends
  exact .inl (diverted.append (plain.unswitched does))

theorem attains_switchPending (pending : e.state.nextApp = some app) (before : Uneventful did) :
    (switchPending : Program ρ _).Attains (fun did o e => Settled app did o.decision e) did e := by
  have withdraw {did : List (Action ρ)} {e : Engine ρ} (switched : Switched app did) :
      (do
        modify fun e => { e with state := e.state.withdrawApp }
        return .hurry : Program ρ Injection).Attains (fun did o e => Settled app did o.decision e) did e :=
    attains_bind (attains_modify (.inr ⟨switched.append (uneventful_changed _ _), rfl, rfl⟩))
  refine attains_bind (attains_get ?_)
  simp only [pending]
  refine attains_bind ((attains_does (switchTo app) _ e).mono fun did' outcome e' ends => ?_)
  obtain ⟨actions, rfl, does⟩ := ends
  have switched := (before.append (uneventful_changed e e)).switched does
  cases outcome with
  | ok _ => exact withdraw switched
  | error error => exact attains_bind (attains_notice (withdraw (switched.append (uneventful_told _))))

/-- A source of events asks one question of the host, and comes before the request if it has anything to give. -/
structure IsSource (rule : Rule ρ) : Prop where
  act : rule.act.Plain
  applies : ∀ did e, rule.applies.Attains (fun did' holds e' => e' = e ∧ ∃ r reply, did' = did ++ [.replied r reply] ∧
    r.purpose ≠ .switching ∧ (r.Quiet reply ↔ holds = false)) did e

/-- All rules but the last are sources. -/
theorem isSource_rules : ∀ rule ∈ (rules : List (Rule ρ)).dropLast, IsSource rule := by
  have posts {p : Program ρ Injection} (asks : p.Asks Request.Any (·.purpose = .posting)) : p.Plain :=
    plain_of_purpose asks (by decide)
  simp only [rules, List.dropLast_cons_cons, List.dropLast_singleton, List.forall_mem_cons, List.not_mem_nil,
    false_implies, implies_true, and_true]
  refine ⟨⟨posts (asks_emptyEvent rfl), ?_⟩, ⟨posts (asks_replay ⟨rfl, rfl, rfl⟩), ?_⟩,
    ⟨posts (asks_stress ⟨rfl, rfl, rfl⟩), ?_⟩, ⟨posts asks_deliverKey, ?_⟩, posts asks_deliverPen, ?_⟩
  all_goals exact fun did e => attains_request rfl fun holds => ⟨rfl, _, holds, rfl, by decide, Iff.rfl⟩

/-- As long as the sources have nothing to give, the next rule is looked at. -/
theorem attains_applyFirst {sources others : List (Rule ρ)} (are : ∀ rule ∈ sources, IsSource rule)
    (before : Uneventful did)
    (last : ∀ did, Uneventful did → (applyFirst others).Attains (fun did o e => Settled app did o.decision e) did e) :
    (applyFirst (sources ++ others)).Attains (fun did o e => Settled app did o.decision e) did e := by
  induction sources generalizing did with
  | nil => exact last did before
  | cons rule sources ih =>
    obtain ⟨source, later⟩ := List.forall_mem_cons.mp are
    refine attains_bind ((source.applies did e).mono fun did' holds e' asked => ?_)
    obtain ⟨rfl, r, reply, rfl, other, quiet_iff⟩ := asked
    cases holds with
    | true =>
      have diverted := before.diverted other fun quiet => by simpa using quiet_iff.mp quiet
      exact attains_bind (attains_notice (attains_diverted (diverted.append (uneventful_told _).plain) source.act))
    | false => exact ih later (before.append (uneventful_replied r reply other (quiet_iff.mpr rfl)))

theorem attains_rules (pending : e.state.nextApp = some app) (before : Uneventful did) :
    (applyFirst rules).Attains (fun did o e => Settled app did o.decision e) did e := by
  show (applyFirst (rules.dropLast ++ [_])).Attains _ did e
  refine attains_applyFirst isSource_rules before fun did before => ?_
  refine attains_bind (attains_bind (attains_get ?_))
  have requested : e.state.nextApp.isSome = true := by rw [pending]; rfl
  simp only [requested]
  exact attains_bind (attains_notice (attains_switchPending pending
    ((before.append (uneventful_changed e e)).append (uneventful_told _))))

theorem attains_inject (pending : e.state.nextApp = some app) (before : Uneventful did) :
    (inject : Program ρ _).Attains (fun did o e => Settled app did o.decision e) did e := by
  refine attains_bind (attains_request rfl fun done => ?_)
  replace before := before.append (uneventful_replied (.setResult 0) done (by decide) trivial)
  refine attains_bind (attains_request rfl fun idle => ?_)
  cases idle with
  | false =>
    exact attains_diverted (before.diverted (by decide) nofun) (asks_proceed nofun)
  | true =>
    replace before := before.append (uneventful_replied .isIdle true (by decide) rfl)
    replace before := before.append (uneventful_changed e e)
    refine attains_bind (attains_bind (attains_get (attains_pure ?_)))
    dsimp only
    split
    · refine attains_bind (attains_request rfl fun told => ?_)
      exact attains_rules pending (before.append (uneventful_replied .signalIdle told (by decide) trivial))
    · exact attains_rules pending before

theorem attains_idleWait (pending : e.state.nextApp = some app) (before : Uneventful did) :
    (idleWait : Program ρ _).Attains (Settled app) did e := by
  refine attains_bind ((attains_inject pending before).mono fun did outcome e settled => ?_)
  rcases settled with diverted | ⟨switched, executes, withdrawn⟩
  · exact attains_diverted diverted (asks_endWait ⟨nofun, fun _ => nofun⟩ outcome)
  · split
    · refine attains_bind (attains_request rfl fun timeout => ?_)
      replace switched := switched.append (uneventful_replied .waitTimeout timeout (by decide) trivial)
      split
      · refine attains_bind (attains_get (attains_bind (attains_notice ?_)))
        refine attains_bind (attains_request rfl fun _ => ?_)
        refine .inr ⟨?_, executes, withdrawn⟩
        exact ((switched.append (uneventful_changed e e)).append (uneventful_told _)).append
          (uneventful_replied _ _ nofun trivial)
      · exact .inr ⟨switched, executes, withdrawn⟩
    · exact .inr ⟨switched, executes, withdrawn⟩

theorem attains_headDecision {call : Call} {hooks : Hooks ρ} {head : HeadHook ρ} (found : hooks.head = some head)
    (waits : head.routine = .idleWait) (pending : e.state.nextApp = some app) :
    (headDecision call hooks).Attains (Settled app) [] e := by
  unfold headDecision
  rw [found]
  show (unmeasured (headProgram call head.routine)).Attains _ _ _
  rw [waits]
  refine attains_bind (attains_request rfl fun measuring => ?_)
  have before := (uneventful_nil (ρ := ρ)).append
    (uneventful_replied (.setProfiling false) measuring (by decide) trivial)
  refine attains_bind ((attains_idleWait pending before).mono fun did decision e settled => ?_)
  refine attains_bind (attains_request rfl fun last => ?_)
  have after := uneventful_replied (ρ := ρ) (.setProfiling measuring) last nofun trivial
  rcases settled with diverted | ⟨switched, executes, withdrawn⟩
  · exact .inl (diverted.append after.plain)
  · exact .inr ⟨switched.append after, executes, withdrawn⟩

end Engine

/-! ### What is asked -/

/-- What is asked for the sake of a switch. -/
def Action.switches (action : Action ρ) : Option Request :=
  action.asked.filter (·.purpose = .switching)

def Event.switches : Event ρ → Option Request
  | acted _ action => action.switches
  | _ => none

theorem Unswitched.switches {actions : List (Action ρ)} (plain : Unswitched actions) :
    actions.filterMap Action.switches = [] := by
  refine List.filterMap_eq_nil_iff.mpr fun action member => ?_
  cases action with
  | replied r reply => exact if_neg (by simpa using plain r reply member)
  | _ => rfl

/-- Whoever asks was told that the guest runs on behalf of the host. -/
def ToldNested (actions : List (Action ρ)) : Prop :=
  ∀ r reply, .replied r reply ∈ actions → r.ToldNested reply

theorem ToldNested.right (first : List (Action ρ)) {last : List (Action ρ)} (nested : ToldNested (first ++ last)) :
    ToldNested last :=
  fun r reply member => nested r reply (List.mem_append_right _ member)

namespace Engine

open Program

/-- However a switch goes, the guest is sent to another application once at most. -/
theorem launches_switchTo {app : DatabaseRef} {actions : List (Action ρ)} {outcome : Except ErrorCode Unit}
    (does : (switchTo app).Does actions (.done outcome)) :
    (actions.filterMap Action.switches).countP Request.launches ≤ 1 := by
  cases course_switchTo does with
  | unknown _ | ownerless _ _ | full _ _ => exact Nat.zero_le 1
  | program _ _ | document _ _ _ _ => exact Nat.le_refl 1

/-- The first rule posts the empty event, and no other is looked at. -/
theorem nested_rules {actions : List (Action ρ)} {outcome : Injection}
    (does : (applyFirst rules).Does actions (.done outcome)) (nested : ToldNested actions) :
    outcome = { decision := .skip } ∧ actions.filterMap Action.asked = [.isNested, .setResult 4] := by
  obtain ⟨holds, _, rfl, applies⟩ := does_request_bind does
  obtain rfl : holds = true := nested .isNested holds (by simp)
  obtain ⟨_, rfl, acts⟩ := does_notice_bind applies
  obtain ⟨_, _, rfl, sets⟩ := does_request_bind acts
  obtain ⟨rfl, rfl⟩ := does_done sets
  exact ⟨rfl, rfl⟩

theorem nested_inject {actions : List (Action ρ)} {outcome : Injection} (does : inject.Does actions (.done outcome))
    (nested : ToldNested actions) (idle : ∀ idle, .replied .isIdle idle ∈ actions → idle = true) :
    outcome = { decision := .skip } ∧ ∃ signals, (signals = [] ∨ signals = [.signalIdle]) ∧
      actions.filterMap Action.asked = [.setResult 0, .isIdle] ++ signals ++ [.isNested, .setResult 4] := by
  obtain ⟨_, _, rfl, begins⟩ := does_request_bind does
  obtain ⟨told, _, rfl, looks⟩ := does_request_bind begins
  obtain rfl : told = true := idle told (by simp)
  obtain ⟨trap, _, others, rfl, traps, posts⟩ := does_bind looks
  obtain ⟨e, _, rfl, reads⟩ := does_get_bind traps
  obtain ⟨rfl, -⟩ := does_done reads
  dsimp only at posts
  split at posts
  · obtain ⟨_, _, rfl, applies⟩ := does_request_bind posts
    obtain ⟨skips, asked⟩ := nested_rules applies (nested.right [_, _, _, _])
    exact ⟨skips, [.signalIdle], .inr rfl, by simp [List.filterMap_cons, Action.asked, asked]⟩
  · obtain ⟨skips, asked⟩ := nested_rules posts (nested.right [_, _, _])
    exact ⟨skips, [], .inl rfl, by simp [List.filterMap_cons, Action.asked, asked]⟩

/-- A wait of an idle guest that is told that it is nested is skipped, as if it had timed out, and nobody is asked
    for an event. -/
theorem nested_headDecision {call : Call} {hooks : Hooks ρ} {head : HeadHook ρ} {done : List (Action ρ)}
    {decision : Decision} (found : hooks.head = some head) (waits : head.routine = .idleWait)
    (does : (headDecision call hooks).Does done (.done decision)) (nested : ToldNested done)
    (idle : ∀ idle, .replied .isIdle idle ∈ done → idle = true) :
    decision = .skip ∧ ∃ measuring signals, (signals = [] ∨ signals = [.signalIdle]) ∧
      done.filterMap Action.asked = [.setProfiling false, .setResult 0, .isIdle] ++ signals ++
        [.isNested, .setResult 4, .setProfiling measuring] := by
  unfold headDecision at does
  rw [found] at does
  replace does : (unmeasured (headProgram call head.routine)).Does done (.done decision) := does
  rw [waits] at does
  obtain ⟨measuring, _, rfl, waiting⟩ := does_request_bind does
  obtain ⟨decided, decides, last, rfl, goes, ending⟩ := does_bind waiting
  obtain ⟨_, _, rfl, ended⟩ := does_request_bind ending
  obtain ⟨rfl, rfl⟩ := does_done ended
  obtain ⟨outcome, injects, last, rfl, posts, closes⟩ := does_bind goes
  obtain ⟨rfl, signals, may, asked⟩ := nested_inject posts
    (fun r reply member => nested r reply (by simp [member])) fun told member => idle told (by simp [member])
  obtain ⟨rfl, rfl⟩ := does_done closes
  refine ⟨rfl, measuring, signals, may, ?_⟩
  rw [List.append_nil, List.filterMap_cons, List.filterMap_append, asked]
  simp [Action.asked]

end Engine

/-! ### Runs -/

/-- Whoever enters the engine comes while a routine of the guest runs for it, and the host tells so. -/
structure Moment.Nests (x : Moment ρ) : Prop where
  enters : ∀ s, x.event = .entered s → x.after.Nested
  tells : ∀ s nested, x.event = .acted s (.replied .isNested nested) → x.after.Nested → nested = true

namespace Span

variable {s : Stage ρ} {below above : List (Task ρ)} {start e : Engine ρ} {trace : List (Moment ρ)}
  {rest : Program ρ s.Result} {did : List (Action ρ)}

/-- Those who come while the guest is at work for a task are told that they are nested. -/
theorem told_nested (span : Span s below start trace e above rest did) (calm : ∀ t ∈ below, ¬t.rest.CallsGuest)
    (nests : ∀ x ∈ trace, x.Nests) : ∀ t ∈ above, ToldNested t.done := by
  induction span with
  | begin => simp
  | enter span s' rests ih =>
    refine List.forall_mem_cons.mpr ⟨by simp [Task.begin, ToldNested], ih fun x member => ?_⟩
    exact nests x (List.mem_append_left _ member)
  | own span acts ih => simp
  | @other trace e e' s' p p' done above rest did action span acts ih =>
    have earlier (x : Moment ρ) (member : x ∈ trace) := nests x (List.mem_append_left _ member)
    obtain ⟨top, others⟩ := List.forall_mem_cons.mp (ih earlier)
    refine List.forall_mem_cons.mpr ⟨fun r reply member => ?_, others⟩
    rcases List.mem_append.mp member with member | member
    · exact top r reply member
    · obtain rfl := List.mem_singleton.mp member
      cases r with
      | isNested =>
        -- The task waits for a routine of the guest, so the one that asks is nested.
        have calls := span.callsGuest calm (fun x member => (earlier x member).enters) (by simp)
        have now := nests _ (List.mem_append_right _ (List.mem_singleton_self _))
        exact now.tells s' reply rfl ⟨⟨s, rest, did⟩, List.mem_append_right _ List.mem_cons_self, calls⟩
      | _ => trivial
  | leave span ih =>
    obtain ⟨-, others⟩ := List.forall_mem_cons.mp (ih fun x member => nests x (List.mem_append_left _ member))
    exact Stage.forall_mem_next (fun next => by simp [Task.begin, ToldNested]) _ _ others

/-- Nothing is asked for the sake of a switch but what the task itself asks. -/
theorem switches_eq (span : Span s below start trace e above rest did) (calm : ∀ t ∈ below, ¬t.rest.CallsGuest)
    (nests : ∀ x ∈ trace, x.Nests) : trace.filterMap (·.event.switches) = did.filterMap Action.switches := by
  induction span with
  | begin => rfl
  | enter span s' rests ih =>
    rw [List.filterMap_append, ih fun x member => nests x (List.mem_append_left _ member)]
    exact List.append_nil _
  | own span acts ih =>
    rw [List.filterMap_append, List.filterMap_append, ih fun x member => nests x (List.mem_append_left _ member)]
    rfl
  | @other trace e e' s' p p' done above rest did action span acts ih =>
    -- Whoever is at work above was told that it is nested, and so does not come to a switch.
    have step := Span.other span acts
    have does := step.does _ List.mem_cons_self
    have told := step.told_nested calm nests _ List.mem_cons_self
    have plain : Unswitched (done ++ [action]) := (does.asks s'.asks_nested told).1
    have silent := (unswitched_append.mp plain).2.switches
    rw [List.filterMap_append, ih fun x member => nests x (List.mem_append_left _ member)]
    rw [List.filterMap_cons] at silent ⊢
    cases asked : action.switches with
    | none => simp [Event.switches, asked]
    | some r => simp [asked] at silent
  | leave span ih =>
    rw [List.filterMap_append, ih fun x member => nests x (List.mem_append_left _ member)]
    exact List.append_nil _

/-- A task that came meanwhile and has ended did what its program says, and was told that it is nested. -/
theorem finished (span : Span s below start trace e above rest did) (calm : ∀ t ∈ below, ¬t.rest.CallsGuest)
    (nests : ∀ x ∈ trace, x.Nests) : ∀ x ∈ trace, ∀ s' result done, x.event = .finished s' result done →
      s'.program.Does done (.done result) ∧ ToldNested done := by
  induction span with
  | begin => simp
  | enter span s' rests ih =>
    exact List.forall_mem_append.mpr ⟨ih fun x member => nests x (List.mem_append_left _ member), by simp⟩
  | own span acts ih =>
    exact List.forall_mem_append.mpr ⟨ih fun x member => nests x (List.mem_append_left _ member), by simp⟩
  | other span acts ih =>
    exact List.forall_mem_append.mpr ⟨ih fun x member => nests x (List.mem_append_left _ member), by simp⟩
  | leave span ih =>
    have earlier (x : Moment ρ) (member : x ∈ _) := nests x (List.mem_append_left _ member)
    refine List.forall_mem_append.mpr ⟨ih earlier, List.forall_mem_singleton.mpr fun s' result done same => ?_⟩
    cases same
    exact ⟨span.does _ List.mem_cons_self, span.told_nested calm earlier _ List.mem_cons_self⟩

end Span

/-- A request is served once. A wait that meets it, and finds the guest idle, not nested, and nothing else to give,
    makes one switch and withdraws the request however that goes; otherwise no switch is made. All that happens until
    the wait ends, be it any tree of calls that the guest makes on its way, adds none: the guest is sent to another
    application once at most, and a wait of an idle guest is skipped meanwhile, with the result 4 of one that has timed
    out, and without any source being asked. -/
theorem Run.switch_once {m n : Machine ρ} {trace : List (Moment ρ)} {call : Call} {hooks : Hooks ρ}
    {head : HeadHook ρ} {below : List (Task ρ)} {decision : Decision} {did : List (Action ρ)} {app : DatabaseRef}
    (found : hooks.head = some head) (waits : head.routine = .idleWait)
    (pending : m.engine.state.nextApp = some app) (run : Run m trace n)
    (begins : m.tasks = .begin (.handle call hooks) :: below) (calm : ∀ t ∈ below, ¬t.rest.CallsGuest)
    (works : ∀ x ∈ trace, x.after.Works (.handle call hooks) below) (nests : ∀ x ∈ trace, x.Nests)
    (ends : n.tasks = ⟨.handle call hooks, .done decision, did⟩ :: below) :
    (Quiet did → decision = .execute ∧ n.engine.state.nextApp = none ∧
      ∃ before switch after outcome, did = before ++ switch ++ after ∧
        (Engine.switchTo app).Does switch (.done outcome) ∧
        trace.filterMap (·.event.switches) = switch.filterMap Action.switches) ∧
    (¬Quiet did → trace.filterMap (·.event.switches) = []) ∧
    (trace.filterMap (·.event.switches)).countP Request.launches ≤ 1 ∧
    ∀ x ∈ trace, ∀ call hooks head decision done, x.event = .finished (.handle call hooks) decision done →
      hooks.head = some head → head.routine = .idleWait → (∀ idle, .replied .isIdle idle ∈ done → idle = true) →
      decision = .skip ∧ ∃ measuring signals, (signals = [] ∨ signals = [.signalIdle]) ∧
        done.filterMap Action.asked = [.setProfiling false, .setResult 0, .isIdle] ++ signals ++
          [.isNested, .setResult 4, .setProfiling measuring] := by
  have span := run.span_top begins works ends
  have entries (x : Moment ρ) (member : x ∈ trace) := (nests x member).enters
  have settled : Engine.Settled app did decision n.engine :=
    span.attains (Engine.attains_headDecision found waits pending) calm entries
  rw [span.switches_eq calm nests]
  refine ⟨fun quiet => ?_, fun loud => ?_, ?_, ?_⟩
  · rcases settled with diverted | ⟨switched, executes, withdrawn⟩
    · exact absurd quiet diverted.loud
    · obtain ⟨before, switch, after, outcome, rfl, first, last, does⟩ := switched.once
      refine ⟨executes, withdrawn, before, switch, after, outcome, rfl, does, ?_⟩
      simp [first.switches, last.switches]
  · rcases settled with diverted | ⟨switched, -⟩
    · exact diverted.plain.switches
    · exact absurd switched.quiet loud
  · rcases settled with diverted | ⟨switched, -⟩
    · simp [diverted.plain.switches]
    · obtain ⟨before, switch, after, outcome, rfl, first, last, does⟩ := switched.once
      simpa [first.switches, last.switches] using Engine.launches_switchTo does
  · intro x member call hooks head decision done ended found waits idle
    obtain ⟨does, nested⟩ := span.finished calm nests x member _ _ _ ended
    exact Engine.nested_headDecision found waits does nested idle

/-! ### A wait within a switch -/

theorem Moment.nests_of_acted {x : Moment ρ} {s : Stage ρ} {action : Action ρ} (acted : x.event = .acted s action)
    (told : ∀ nested, action = .replied .isNested nested → x.after.Nested → nested = true) : x.Nests := by
  constructor
  · intro s' entered
    rw [acted] at entered
    cases entered
  · intro s' nested replied
    rw [acted] at replied
    cases replied
    exact told nested rfl

/-- A wait that the guest comes to while it runs a routine goes through, and leaves everything as it was. -/
theorem Run.nested_wait (call : Call) {t : Task ρ} (calls : t.rest.CallsGuest) (below : List (Task ρ)) :
    ∃ trace, Run ⟨Engine.requesting, t :: below⟩ trace ⟨Engine.requesting, t :: below⟩ ∧
      (∀ x ∈ trace, x.Nests ∧ ∃ above, x.after.tasks = above ++ t :: below) ∧
      ∃ x ∈ trace, ∃ done, x.event = .finished (.handle call Engine.waitHooks) .skip done ∧
        ∀ idle, .replied .isIdle idle ∈ done → idle = true := by
  let s : Stage ρ := .handle call Engine.waitHooks
  let never (_ : Request) : Bool := false
  have rests := Machine.atRest_of_waits Engine.requesting calls.waits below
  -- The wait goes through, and then what follows its decision.
  obtain ⟨acts, acting, events, tasks⟩ :=
    Run.advance (s := s) (Program.advances_upTo (.idle true) never s.program Engine.requesting) [] (t :: below)
  obtain ⟨tells, telling, events', tasks'⟩ := Run.advance (e := Engine.requesting)
    (s := .conclude call Engine.waitHooks .skip)
    (.act (.notice _ (.handled call .skip) _) (.here _ (.done .skip))) [] (t :: below)
  have enters := Run.snoc .nil (.enter _ s rfl rests)
  have decides := Run.snoc acting (.finish Engine.requesting s .skip _ (t :: below))
  have ends := Run.snoc telling (.finish Engine.requesting (.conclude call Engine.waitHooks .skip) .skip _ (t :: below))
  refine ⟨_, (enters.trans decides).trans ends, fun x member => ?_,
    ⟨.finished s .skip _, _⟩, List.mem_append_left _ (List.mem_append_right _ (List.mem_append_right _
      (List.mem_singleton_self _))), _, rfl, fun idle => Program.reply_of_mem_upTo⟩
  simp only [List.nil_append, List.mem_append, List.mem_singleton] at member
  -- The entry, what the wait does and its end, and the same of what follows.
  rcases member with (rfl | member | rfl) | member | rfl
  · exact ⟨⟨fun _ _ => ⟨t, by simp, calls⟩, by simp⟩, [_], rfl⟩
  · obtain ⟨action, did, acted⟩ := acted_of_map events member
    obtain ⟨rest, done, stack⟩ := tasks x member
    refine ⟨Moment.nests_of_acted acted fun nested same _ => ?_, [⟨s, rest, done⟩], stack⟩
    exact Program.reply_of_mem_upTo (same ▸ did)
  · exact ⟨⟨by simp, by simp⟩, [_], rfl⟩
  · obtain ⟨action, did, acted⟩ := acted_of_map events' member
    obtain ⟨rest, done, stack⟩ := tasks' x member
    refine ⟨Moment.nests_of_acted acted fun nested same _ => ?_, [⟨_, rest, done⟩], stack⟩
    simp [same] at did
  · exact ⟨⟨by simp, by simp⟩, [], rfl⟩

theorem quiet_of_idle {actions : List (Action ρ)}
    (told : ∀ r reply, .replied r reply ∈ actions → reply = (Program.Answers.idle (ρ := ρ) false).reply r) :
    Quiet actions := by
  intro r reply member
  rw [told r reply member]
  cases r <;> trivial

/-- The guest comes to a second wait while it is on its way, and that one is skipped. -/
theorem Run.switch_once_nested :
    ∃ (call : Call) (trace : List (Moment Unit)) (n : Machine Unit) (did : List (Action Unit)),
      Run ⟨Engine.requesting, [.begin (.handle call Engine.waitHooks)]⟩ trace n ∧
      (∀ x ∈ trace, x.after.Works (.handle call Engine.waitHooks) []) ∧ (∀ x ∈ trace, x.Nests) ∧
      n.tasks = [⟨.handle call Engine.waitHooks, .done .execute, did⟩] ∧ Quiet did ∧ n.engine.state.nextApp = none ∧
      (∃ (switch : List (Action Unit)) (outcome : Except ErrorCode Unit),
        (Engine.switchTo ⟨0, 0x100⟩).Does switch (.done outcome) ∧
        trace.filterMap (·.event.switches) = switch.filterMap Action.switches) ∧
      (trace.filterMap (·.event.switches)).countP Request.launches ≤ 1 ∧
      ∃ x ∈ trace, ∃ done, x.event = .finished (.handle call Engine.waitHooks) .skip done ∧
        ∃ measuring signals, (signals = [] ∨ signals = [.signalIdle]) ∧
          done.filterMap Action.asked = [.setProfiling false, .setResult 0, .isIdle] ++ signals ++
            [.isNested, .setResult 4, .setProfiling measuring] := by
  let call : Call := { trap := 0xA2CB, index := 0x2CB }
  obtain ⟨rest, asked, around⟩ := Run.wait_around (ρ := Unit) call
  obtain ⟨nested, nesting, meanwhile, x, member, done, ended, idle⟩ :=
    Run.nested_wait call (t := .switching call rest asked) rfl []
  obtain ⟨asks, answers, did, run, works, alone, -, replies⟩ :=
    around _ _ nesting fun x member => (meanwhile x member).2
  have own (x : Moment Unit) (member : x ∈ asks ++ answers) : x.Nests := by
    obtain ⟨last, action, acted⟩ := alone x member
    refine Moment.nests_of_acted acted fun _ _ nested => ?_
    simp [Machine.Nested, last] at nested
  have nests : ∀ x ∈ asks ++ nested ++ answers, x.Nests := by
    refine List.forall_mem_append.mpr ⟨List.forall_mem_append.mpr ⟨fun x member => ?_, fun x member => ?_⟩,
      fun x member => ?_⟩
    · exact own x (List.mem_append_left _ member)
    · exact (meanwhile x member).1
    · exact own x (List.mem_append_right _ member)
  have quiet := quiet_of_idle replies
  have waits : Engine.waitHooks.head = some (⟨"~system", 0, .idleWait⟩ : HeadHook Unit) := rfl
  obtain ⟨once, -, launches, skips⟩ := Run.switch_once waits rfl rfl run rfl (by simp) works nests rfl
  obtain ⟨-, withdrawn, _, switch, _, outcome, -, does, same⟩ := once quiet
  have here : x ∈ asks ++ nested ++ answers := List.mem_append_left _ (List.mem_append_right _ member)
  obtain ⟨-, posted⟩ := skips x here _ _ _ _ _ ended waits rfl idle
  exact ⟨call, _, _, did, run, works, nests, rfl, quiet, withdrawn, ⟨switch, outcome, does, same⟩, launches, x, here,
    done, ended, posted⟩

end TrapHooks
