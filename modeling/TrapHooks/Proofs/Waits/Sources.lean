import Mathlib.Data.List.Forall2
import TrapHooks.Proofs.Waits.Nesting

/-! Where the event for a wait comes from. An idle guest is told of, and then the sources are looked at in their order;
    the first that has something to give is used, and no other is asked for an event. A wait is skipped only if it is
    nested, or if a recording or random input has no event to fetch, and its result is the last thing that is set. -/

namespace TrapHooks

variable {ρ : Type}

inductive Source
  | nested
  | replay
  | hordes
  | key
  | pen
  | appSwitch
deriving DecidableEq

namespace Source

/-- The sources, first come first served. -/
def all : List Source :=
  [nested, replay, hordes, key, pen, appSwitch]

def name : Source → String
  | nested => "nested"
  | replay => "replay"
  | hordes => "hordes"
  | key => "key"
  | pen => "pen"
  | appSwitch => "app_switch"

/-- By these actions it is found whether a source has something to give. -/
inductive Looked : Source → List (Action ρ) → Bool → Prop
  | nested (holds : Bool) : Looked nested [.replied .isNested holds] holds
  | replay (holds : Bool) : Looked replay [.replied .replaying holds] holds
  | hordes (holds : Bool) : Looked hordes [.replied .stressing holds] holds
  | key (holds : Bool) : Looked key [.replied .hasKey holds] holds
  | pen (holds : Bool) : Looked pen [.replied .hasPen holds] holds
  | appSwitch (e : Engine ρ) : Looked appSwitch [.changed e e] e.state.nextApp.isSome

/-- These sources were looked at in turn, until one had something to give. -/
inductive Chosen : List Source → List (Action ρ) → Option Source → Prop
  | none : Chosen [] [] none
  | first {s : Source} {sources : List Source} {looks : List (Action ρ)} (looked : s.Looked looks true) :
    Chosen (s :: sources) looks (some s)
  | later {s : Source} {sources : List Source} {looks others : List (Action ρ)} {used : Option Source}
    (looked : s.Looked looks false) (chosen : Chosen sources others used) : Chosen (s :: sources) (looks ++ others) used

/-- A source that makes up its events is tried for the trap that the guest is in. Only where an event is fetched, a wait
    in which there is none is skipped. -/
inductive Tried (event pen : Bool → Action ρ) (trap : UInt16) : List (Action ρ) → Injection → Prop
  | posted (fetches : trap = Trap.getEvent) : Tried event pen trap [event true] .hurry
  | missing (fetches : trap = Trap.getEvent) (told : List Notice) :
    Tried event pen trap (event false :: told.map .told ++ [.replied (.setResult 4) ()]) { decision := .skip }
  | pen (draws : trap = Trap.getPen) (posted : Bool) : Tried event pen trap [pen posted] .hurry
  | elsewhere (other : trap ≠ Trap.getEvent ∧ trap ≠ Trap.getPen) (told : List Notice) :
    Tried event pen trap (told.map .told) .hurry

/-- How the log is told of a switch that has failed. -/
def failure (app : DatabaseRef) : Except ErrorCode Unit → List (Action ρ)
  | .ok _ => []
  | .error error => [.told (.switchFailed app error)]

/-- How a source is used, and what comes of the wait. -/
inductive Served : Source → List (Action ρ) → Injection → Prop
  | nested : Served nested [.replied (.setResult 4) ()] { decision := .skip }
  | replay (e : Engine ρ) {acts : List (Action ρ)} {outcome : Injection}
    (tried : Tried (.replied .replayEvent) (.replied .replayPen) e.state.lastEventTrap acts outcome) :
    Served replay (.changed e e :: acts) outcome
  | hordes (settings e : Engine ρ) {acts : List (Action ρ)} {outcome : Injection}
    (tried : Tried (.replied .stressEvent) (.replied .stressPen) e.state.lastEventTrap acts outcome) :
    Served hordes (.changed settings settings :: .changed e e :: acts) outcome
  | key (event : KeyEvent) :
    Served key [.replied .takeKey event, .told (.keyPosted event.key event.modifiers),
      .replied (.postKey event.key 0 event.modifiers) ()] .proceed
  | pen (event : PenEvent) :
    Served pen [.replied .takePen event, .told (.penPosted event.reported), .replied (.postPen event.reported) ()]
      .proceed
  /-- The request was withdrawn by somebody else meanwhile. -/
  | gone (e e' : Engine ρ) (none : e.state.nextApp = none) :
    Served appSwitch [.changed e e, .changed e' { e' with state := e'.state.withdrawApp }] .hurry
  | appSwitch (e e' : Engine ρ) {app : DatabaseRef} (pending : e.state.nextApp = some app) {switch : List (Action ρ)}
    {answer : Except ErrorCode Unit} (switches : (Engine.switchTo app).Does switch (.done answer)) :
    Served appSwitch (.changed e e :: switch ++ failure app answer ++
      [.changed e' { e' with state := e'.state.withdrawApp }]) .hurry

end Source

namespace Engine

open Program

variable {did : List (Action ρ)} {outcome : Injection}

theorem skips_emptyEvent (does : emptyEvent.Does did (.done outcome)) :
    did = [.replied (.setResult 4) ()] ∧ outcome = { decision := .skip } := by
  obtain ⟨_, _, rfl, sets⟩ := does_request_bind does
  obtain ⟨rfl, rfl⟩ := does_done sets
  exact ⟨rfl, rfl⟩

theorem reads_lastEventTrap {trap : UInt16} (does : (lastEventTrap : Program ρ _).Does did (.done trap)) :
    ∃ e, did = [.changed e e] ∧ trap = e.state.lastEventTrap := by
  obtain ⟨e, _, rfl, reads⟩ := does_get_bind does
  obtain ⟨rfl, rfl⟩ := does_done reads
  exact ⟨e, rfl, rfl⟩

theorem reads_reports {log : Bool} (does : (reports : Program ρ _).Does did (.done log)) :
    ∃ e, did = [.changed e e] ∧ log = e.config.logInjection := by
  obtain ⟨e, _, rfl, reads⟩ := does_get_bind does
  obtain ⟨rfl, rfl⟩ := does_done reads
  exact ⟨e, rfl, rfl⟩

theorem served_replay (does : replay.Does did (.done outcome)) : Source.replay.Served did outcome := by
  obtain ⟨trap, _, acts, rfl, traps, goes⟩ := does_bind does
  obtain ⟨e, rfl, rfl⟩ := reads_lastEventTrap traps
  refine .replay e ?_
  dsimp only at goes
  split at goes
  · rename_i fetches
    obtain ⟨posted, _, rfl, replied⟩ := does_request_bind goes
    cases posted with
    | true =>
      obtain ⟨rfl, rfl⟩ := does_done replied
      exact .posted fetches
    | false =>
      obtain ⟨_, rfl, told⟩ := does_notice_bind replied
      obtain ⟨rfl, rfl⟩ := skips_emptyEvent told
      exact .missing fetches [.replayEmpty]
  · rename_i other
    split at goes
    · rename_i draws
      obtain ⟨posted, _, rfl, replied⟩ := does_request_bind goes
      obtain ⟨rfl, rfl⟩ := does_done replied
      exact .pen draws posted
    · rename_i other'
      obtain ⟨rfl, rfl⟩ := does_done goes
      exact .elsewhere ⟨other, other'⟩ []

theorem served_stress (does : stress.Does did (.done outcome)) : Source.hordes.Served did outcome := by
  obtain ⟨log, _, _, rfl, logs, looks⟩ := does_bind does
  obtain ⟨settings, rfl, -⟩ := reads_reports logs
  obtain ⟨trap, _, acts, rfl, traps, goes⟩ := does_bind looks
  obtain ⟨e, rfl, rfl⟩ := reads_lastEventTrap traps
  refine .hordes settings e ?_
  dsimp only at goes
  split at goes
  · rename_i fetches
    obtain ⟨posted, _, rfl, replied⟩ := does_request_bind goes
    cases posted with
    | true =>
      obtain ⟨rfl, rfl⟩ := does_done replied
      exact .posted fetches
    | false =>
      cases log with
      | true =>
        obtain ⟨_, rfl, told⟩ := does_notice_bind replied
        obtain ⟨rfl, rfl⟩ := skips_emptyEvent told
        exact .missing fetches [.stressEmpty]
      | false =>
        obtain ⟨rfl, rfl⟩ := skips_emptyEvent replied
        exact .missing fetches []
  · rename_i other
    split at goes
    · rename_i draws
      obtain ⟨posted, _, rfl, replied⟩ := does_request_bind goes
      obtain ⟨rfl, rfl⟩ := does_done replied
      exact .pen draws posted
    · rename_i other'
      cases log with
      | true =>
        obtain ⟨_, rfl, told⟩ := does_notice_bind goes
        obtain ⟨rfl, rfl⟩ := does_done told
        exact .elsewhere ⟨other, other'⟩ [.stressOutOfPlace e.state.lastEventTrap]
      | false =>
        obtain ⟨rfl, rfl⟩ := does_done goes
        exact .elsewhere ⟨other, other'⟩ []

theorem served_deliverKey (does : deliverKey.Does did (.done outcome)) : Source.key.Served did outcome := by
  obtain ⟨event, _, rfl, taken⟩ := does_request_bind does
  obtain ⟨_, rfl, told⟩ := does_notice_bind taken
  obtain ⟨_, _, rfl, posted⟩ := does_request_bind told
  obtain ⟨rfl, rfl⟩ := does_done posted
  exact .key event

theorem served_deliverPen (does : deliverPen.Does did (.done outcome)) : Source.pen.Served did outcome := by
  obtain ⟨event, _, rfl, taken⟩ := does_request_bind does
  obtain ⟨_, rfl, told⟩ := does_notice_bind taken
  obtain ⟨_, _, rfl, posted⟩ := does_request_bind told
  obtain ⟨rfl, rfl⟩ := does_done posted
  exact .pen event

theorem served_switchPending (does : switchPending.Does did (.done outcome)) :
    Source.appSwitch.Served did outcome := by
  have withdraws {did : List (Action ρ)} (does : (do
      modify fun e => { e with state := e.state.withdrawApp }
      return .hurry : Program ρ Injection).Does did (.done outcome)) :
      ∃ e, did = [.changed e { e with state := e.state.withdrawApp }] ∧ outcome = .hurry := by
    obtain ⟨e, _, rfl, rest⟩ := does_step does
    obtain ⟨rfl, rfl⟩ := does_done rest
    exact ⟨e, rfl, rfl⟩
  obtain ⟨e, _, rfl, reads⟩ := does_get_bind does
  cases pending : e.state.nextApp with
  | none =>
    simp only [pending] at reads
    obtain ⟨e', rfl, rfl⟩ := withdraws reads
    exact .gone e e' pending
  | some app =>
    simp only [pending] at reads
    obtain ⟨answer, switch, _, rfl, switches, rest⟩ := does_bind reads
    cases answer with
    | ok _ =>
      obtain ⟨e', rfl, rfl⟩ := withdraws rest
      simpa [Source.failure] using Source.Served.appSwitch e e' pending switches
    | error error =>
      obtain ⟨_, rfl, told⟩ := does_notice_bind rest
      obtain ⟨e', rfl, rfl⟩ := withdraws told
      simpa [Source.failure] using Source.Served.appSwitch e e' pending switches

/-- A rule stands for a source if it goes by its name, looks at it and uses it. -/
structure Rule.For (s : Source) (rule : Rule ρ) : Prop where
  name : rule.name = s.name
  applies : ∀ did holds, rule.applies.Does did (.done holds) → s.Looked did holds
  act : ∀ did outcome, rule.act.Does did (.done outcome) → s.Served did outcome

theorem for_rules : List.Forall₂ Rule.For Source.all (rules : List (Rule ρ)) := by
  have asks {r : Request} {did : List (Action ρ)} {reply : r.Reply} (does : (request r).Does did (.done reply)) :
      did = [.replied r reply] := by
    obtain ⟨_, _, rfl, ends⟩ := does_ask does
    obtain ⟨rfl, rfl⟩ := does_done ends
    rfl
  have pending (did : List (Action ρ)) (holds : Bool)
      (does : (do return (← get).state.nextApp.isSome : Program ρ Bool).Does did (.done holds)) :
      Source.appSwitch.Looked did holds := by
    obtain ⟨e, _, rfl, reads⟩ := does_get_bind does
    obtain ⟨rfl, rfl⟩ := does_done reads
    exact .appSwitch e
  have nested (did : List (Action ρ)) (outcome : Injection) (does : emptyEvent.Does did (.done outcome)) :
      Source.nested.Served did outcome := by
    obtain ⟨rfl, rfl⟩ := skips_emptyEvent does
    exact .nested
  refine .cons ⟨rfl, fun did holds does => asks does ▸ .nested holds, nested⟩ <|
    .cons ⟨rfl, fun did holds does => asks does ▸ .replay holds, fun _ _ => served_replay⟩ <|
    .cons ⟨rfl, fun did holds does => asks does ▸ .hordes holds, fun _ _ => served_stress⟩ <|
    .cons ⟨rfl, fun did holds does => asks does ▸ .key holds, fun _ _ => served_deliverKey⟩ <|
    .cons ⟨rfl, fun did holds does => asks does ▸ .pen holds, fun _ _ => served_deliverPen⟩ <|
    .cons ⟨rfl, pending, fun _ _ => served_switchPending⟩ .nil

/-- After the sources were looked at, the one that was chosen is used, and nothing else is done. -/
def Uses (used : Option Source) (acts : List (Action ρ)) (outcome : Injection) : Prop :=
  match used with
  | none => acts = [] ∧ outcome = .proceed
  | some s => ∃ service, acts = .told (.ruleApplied s.name) :: service ∧ s.Served service outcome

/-- The first source that has something to give is used. -/
theorem chosen_applyFirst {sources : List Source} {rules : List (Rule ρ)} (are : List.Forall₂ Rule.For sources rules)
    (does : (applyFirst rules).Does did (.done outcome)) :
    ∃ looks used acts, did = looks ++ acts ∧ Source.Chosen sources looks used ∧ Uses used acts outcome := by
  induction are generalizing did with
  | nil =>
    obtain ⟨rfl, rfl⟩ := does_done does
    exact ⟨[], none, [], rfl, .none, rfl, rfl⟩
  | @cons s rule sources rules is others ih =>
    obtain ⟨holds, looks, acts, rfl, applies, goes⟩ := does_bind does
    have looked := is.applies looks holds applies
    cases holds with
    | true =>
      obtain ⟨service, rfl, serves⟩ := does_notice_bind goes
      exact ⟨looks, some s, _, rfl, .first looked, service, by rw [is.name], is.act service outcome serves⟩
    | false =>
      obtain ⟨later, used, acts, rfl, chosen, uses⟩ := ih goes
      exact ⟨looks ++ later, used, acts, (List.append_assoc ..).symm, .later looked chosen, uses⟩

/-- Those who wait for the guest to be idle are told that it is, if it fetches an event. -/
def signals (e : Engine ρ) : List (Action ρ) :=
  if e.state.lastEventTrap = Trap.getEvent then [.replied .signalIdle ()] else []

/-- What a wait does, the source that it uses, and what comes of it. -/
inductive Course : List (Action ρ) → Option Source → Injection → Prop
  /-- The guest is not idle. Whether random input is on is asked for the sake of the log, and nothing comes of it. -/
  | busy (e : Engine ρ) (on : Bool) :
    Course (.replied (.setResult 0) () :: .replied .isIdle false :: .changed e e ::
      if e.config.logInjection then .replied .stressing on :: if on then [.told .notIdle] else [] else []) none .proceed
  | idle (e : Engine ρ) {looks acts : List (Action ρ)} {used : Option Source} {outcome : Injection}
    (chosen : Source.Chosen Source.all looks used) (uses : Uses used acts outcome) :
    Course (.replied (.setResult 0) () :: .replied .isIdle true :: .changed e e :: (signals e ++ (looks ++ acts))) used
      outcome

theorem course_inject (does : inject.Does did (.done outcome)) : ∃ used, Course did used outcome := by
  obtain ⟨_, _, rfl, begins⟩ := does_request_bind does
  obtain ⟨idle, _, rfl, goes⟩ := does_request_bind begins
  cases idle with
  | false =>
    obtain ⟨log, _, _, rfl, logs, rest⟩ := does_bind goes
    obtain ⟨e, rfl, rfl⟩ := reads_reports logs
    refine ⟨none, ?_⟩
    cases logs : e.config.logInjection with
    | false =>
      simp only [logs] at rest
      obtain ⟨rfl, rfl⟩ := does_done rest
      simpa [logs] using Course.busy e false
    | true =>
      simp only [logs] at rest
      obtain ⟨on, _, rfl, asked⟩ := does_request_bind rest
      cases on with
      | false =>
        obtain ⟨rfl, rfl⟩ := does_done asked
        simpa [logs] using Course.busy e false
      | true =>
        obtain ⟨_, rfl, told⟩ := does_notice_bind asked
        obtain ⟨rfl, rfl⟩ := does_done told
        simpa [logs] using Course.busy e true
  | true =>
    obtain ⟨trap, _, _, rfl, traps, rest⟩ := does_bind goes
    obtain ⟨e, rfl, rfl⟩ := reads_lastEventTrap traps
    have chooses {later : List (Action ρ)} (does : (applyFirst rules).Does later (.done outcome)) :
        ∃ used, Course (.replied (.setResult 0) () :: .replied .isIdle true :: .changed e e :: (signals e ++ later))
          used outcome := by
      obtain ⟨looks, used, acts, rfl, chosen, uses⟩ := chosen_applyFirst for_rules does
      exact ⟨used, .idle e chosen uses⟩
    dsimp only at rest
    split at rest
    · rename_i fetches
      obtain ⟨_, _, rfl, signalled⟩ := does_request_bind rest
      simpa [signals, fetches] using chooses signalled
    · rename_i other
      simpa [signals, other] using chooses rest

end Engine

/-- Who is asked for an event, or has the guest get one. -/
def Request.source : Request → Option Source
  | .replayEvent | .replayPen => some .replay
  | .stressEvent | .stressPen => some .hordes
  | .takeKey | .postKey _ _ _ => some .key
  | .takePen | .postPen _ => some .pen
  | r => if r.purpose = .switching then some .appSwitch else none

/-- The action makes use of no source but this, and changes the engine only if that is a switch. -/
def Action.Suits (used : Option Source) : Action ρ → Prop
  | .replied r _ => ∀ s, r.source = some s → used = some s
  | .changed e e' => used = some .appSwitch ∨ e' = e
  | _ => True

/-- The guest fetches an event, and there is none to be had. -/
def Missing (event : Bool → Action ρ) (acts : List (Action ρ)) : Prop :=
  ∃ before e after, acts = before ++ .changed e e :: event false :: after ∧ e.state.lastEventTrap = Trap.getEvent

theorem Missing.after {event : Bool → Action ρ} {acts : List (Action ρ)} (missing : Missing event acts)
    (first : List (Action ρ)) : Missing event (first ++ acts) := by
  obtain ⟨before, e, after, rfl, fetches⟩ := missing
  exact ⟨first ++ before, e, after, by simp, fetches⟩

/-- The source skips a wait for this reason. -/
inductive Source.Skips : Source → List (Action ρ) → Prop
  | nested (acts : List (Action ρ)) : Skips nested acts
  | replay {acts : List (Action ρ)} (missing : Missing (.replied .replayEvent) acts) : Skips replay acts
  | hordes {acts : List (Action ρ)} (missing : Missing (.replied .stressEvent) acts) : Skips hordes acts

theorem Source.Skips.after {s : Source} {acts : List (Action ρ)} (skips : s.Skips acts) (first : List (Action ρ)) :
    s.Skips (first ++ acts) := by
  cases skips with
  | nested acts => exact .nested _
  | replay missing => exact .replay (missing.after first)
  | hordes missing => exact .hordes (missing.after first)

namespace Source

variable {used : Option Source} {sources : List Source} {acts looks : List (Action ρ)} {outcome : Injection}
  {s : Source} {event pen : Bool → Action ρ} {trap : UInt16} {holds : Bool}

theorem Looked.suits (looked : s.Looked looks holds) : ∀ action ∈ looks, action.Suits used := by
  cases looked with
  | appSwitch e => exact List.forall_mem_singleton.mpr (.inr rfl)
  | _ => exact List.forall_mem_singleton.mpr nofun

theorem Chosen.suits (chosen : Chosen sources looks used) (other : Option Source) :
    ∀ action ∈ looks, action.Suits other := by
  induction chosen with
  | none => simp
  | first looked => exact looked.suits
  | later looked chosen ih => exact List.forall_mem_append.mpr ⟨looked.suits, ih⟩

theorem Tried.suits (tried : Tried event pen trap acts outcome) (events : ∀ b, (event b).Suits used)
    (pens : ∀ b, (pen b).Suits used) : ∀ action ∈ acts, action.Suits used := by
  have notices (told : List Notice) : ∀ action ∈ told.map (Action.told (ρ := ρ)), action.Suits used := by
    simp [Action.Suits]
  cases tried with
  | posted fetches => exact List.forall_mem_singleton.mpr (events true)
  | missing fetches told =>
    exact List.forall_mem_append.mpr ⟨List.forall_mem_cons.mpr ⟨events false, notices told⟩,
      List.forall_mem_singleton.mpr nofun⟩
  | pen draws posted => exact List.forall_mem_singleton.mpr (pens posted)
  | elsewhere other told => exact notices told

theorem failure_suits (app : DatabaseRef) (answer : Except ErrorCode Unit) :
    ∀ action ∈ failure (ρ := ρ) app answer, action.Suits used := by
  cases answer <;> simp [failure, Action.Suits]

theorem switch_suits {app : DatabaseRef} {switch : List (Action ρ)} {answer : Except ErrorCode Unit}
    (does : (Engine.switchTo app).Does switch (.done answer)) :
    ∀ action ∈ switch, action.Suits (some .appSwitch) := by
  intro action member
  cases action with
  | replied r reply =>
    have purpose := (does.asks (A := Request.Any) (Engine.asks_switchTo app) fun _ _ _ => trivial).1 r reply member
    cases r <;> cases purpose <;> exact fun s same => same
  | changed e e' => exact .inl rfl
  | _ => trivial

theorem Served.suits (served : s.Served acts outcome) : ∀ action ∈ acts, action.Suits (some s) := by
  cases served with
  | nested => exact List.forall_mem_singleton.mpr nofun
  | replay e tried =>
    exact List.forall_mem_cons.mpr ⟨.inr rfl, tried.suits (fun _ _ same => same) fun _ _ same => same⟩
  | hordes settings e tried =>
    exact List.forall_mem_cons.mpr ⟨.inr rfl,
      List.forall_mem_cons.mpr ⟨.inr rfl, tried.suits (fun _ _ same => same) fun _ _ same => same⟩⟩
  | key event | pen event =>
    exact List.forall_mem_cons.mpr ⟨fun _ same => same, List.forall_mem_cons.mpr ⟨trivial,
      List.forall_mem_singleton.mpr fun _ same => same⟩⟩
  | gone e e' none => simp [Action.Suits]
  | appSwitch e e' pending switches =>
    refine List.forall_mem_append.mpr ⟨List.forall_mem_append.mpr ⟨?_, failure_suits _ _⟩, ?_⟩
    · exact List.forall_mem_cons.mpr ⟨.inr rfl, switch_suits switches⟩
    · exact List.forall_mem_singleton.mpr (.inl rfl)

theorem Tried.skips (tried : Tried event pen trap acts outcome) (skips : outcome.decision = .skip) :
    outcome.clearTimeout = false ∧ [.replied (.setResult 4) ()] <:+ acts ∧
      trap = Trap.getEvent ∧ ∃ after, acts = event false :: after := by
  cases tried with
  | missing fetches told => exact ⟨rfl, List.suffix_append _ _, fetches, _, rfl⟩
  | _ => cases skips

theorem Served.skips (served : s.Served acts outcome) (skips : outcome.decision = .skip) :
    outcome.clearTimeout = false ∧ [.replied (.setResult 4) ()] <:+ acts ∧ s.Skips acts := by
  cases served with
  | nested => exact ⟨rfl, List.suffix_rfl, .nested _⟩
  | replay e tried =>
    obtain ⟨clears, ends, fetches, after, rfl⟩ := tried.skips skips
    exact ⟨clears, ends.trans (List.suffix_cons _ _), .replay ⟨[], e, after, rfl, fetches⟩⟩
  | hordes settings e tried =>
    obtain ⟨clears, ends, fetches, after, rfl⟩ := tried.skips skips
    exact ⟨clears, (ends.trans (List.suffix_cons _ _)).trans (List.suffix_cons _ _),
      .hordes ⟨[_], e, after, rfl, fetches⟩⟩
  | _ => cases skips

theorem Tried.clears (tried : Tried event pen trap acts outcome) (clears : outcome.clearTimeout = true) :
    outcome.decision = .execute := by
  cases tried with
  | missing fetches told => cases clears
  | _ => rfl

theorem Served.clears (served : s.Served acts outcome) (clears : outcome.clearTimeout = true) :
    outcome.decision = .execute ∧ (s = .replay ∨ s = .hordes ∨ s = .appSwitch) := by
  cases served with
  | replay e tried => exact ⟨tried.clears clears, .inl rfl⟩
  | hordes settings e tried => exact ⟨tried.clears clears, .inr (.inl rfl)⟩
  | gone e e' none => exact ⟨rfl, .inr (.inr rfl)⟩
  | appSwitch e e' pending switches => exact ⟨rfl, .inr (.inr rfl)⟩
  | _ => cases clears

end Source

namespace Engine

variable {did acts : List (Action ρ)} {used : Option Source} {outcome : Injection}

theorem Uses.suits (uses : Uses used acts outcome) : ∀ action ∈ acts, action.Suits used := by
  cases used with
  | none => simp [uses.1]
  | some s =>
    obtain ⟨service, rfl, served⟩ := uses
    exact List.forall_mem_cons.mpr ⟨trivial, served.suits⟩

theorem Course.suits (course : Course did used outcome) : ∀ action ∈ did, action.Suits used := by
  cases course with
  | busy e on =>
    refine List.forall_mem_cons.mpr ⟨nofun, List.forall_mem_cons.mpr ⟨nofun, List.forall_mem_cons.mpr ⟨.inr rfl, ?_⟩⟩⟩
    split
    · refine List.forall_mem_cons.mpr ⟨nofun, ?_⟩
      split <;> simp [Action.Suits]
    · simp
  | idle e chosen uses =>
    have signals : ∀ action ∈ signals e, action.Suits used := by
      unfold Engine.signals
      split
      · exact List.forall_mem_singleton.mpr nofun
      · simp
    refine List.forall_mem_cons.mpr ⟨nofun, List.forall_mem_cons.mpr ⟨nofun, List.forall_mem_cons.mpr ⟨.inr rfl, ?_⟩⟩⟩
    exact List.forall_mem_append.mpr ⟨signals, List.forall_mem_append.mpr ⟨chosen.suits used, uses.suits⟩⟩

/-- What comes of a wait that is not left as it is comes of the source that it uses, at its end. -/
theorem Course.serves (course : Course did used outcome) (other : outcome ≠ .proceed) :
    ∃ s before service, used = some s ∧ did = before ++ service ∧ s.Served service outcome := by
  cases course with
  | busy e on => exact absurd rfl other
  | @idle e looks acts used outcome chosen uses =>
    cases used with
    | none => exact absurd uses.2 other
    | some s =>
      obtain ⟨service, rfl, served⟩ := uses
      refine ⟨s, .replied (.setResult 0) () :: .replied .isIdle true :: .changed e e :: (signals e ++ looks ++
        [.told (.ruleApplied s.name)]), service, rfl, by simp, served⟩

end Engine

end TrapHooks
