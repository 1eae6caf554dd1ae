import TrapHooks.Proofs.Waits.Errands

/-! What a wait asks before it takes an event of the user's: whether the guest is idle, whether it runs on behalf of
    the host, whether there is made-up input, and whether there is such an event, keys before the pen. It asks each
    of these once, and takes one event at most. -/

namespace TrapHooks

variable {ρ α β : Type}

/-- It decides whether a wait takes an event, or takes one. -/
def Request.decides : Request → Bool
  | isIdle | isNested | replaying | stressing | hasKey | hasPen => true
  | r => r.takes

namespace Action

def takes : Action ρ → Bool
  | replied r _ => r.takes
  | _ => false

def decides : Action ρ → Bool
  | replied r _ => r.decides
  | _ => false

/-- The guest is idle and runs on nobody's behalf, and there is no made-up input. -/
def granted : List (Action ρ) :=
  [.replied .isIdle true, .replied .isNested false, .replied .replaying false, .replied .stressing false]

end Action

def Untaken (actions : List (Action ρ)) : Prop :=
  ∀ action ∈ actions, action.takes = false

def Undecided (actions : List (Action ρ)) : Prop :=
  ∀ action ∈ actions, action.decides = false

/-- Nothing was taken, or one event was, after all that could have kept the wait from it was asked; a pen event only
    after it was told that there was no key. -/
inductive Restrained (did : List (Action ρ)) : Prop
  | nothing (untaken : Untaken did)
  | key (event : KeyEvent)
    (asked : did.filter Action.decides = Action.granted ++ [.replied .hasKey true, .replied .takeKey event])
  | pen (event : PenEvent)
    (asked : did.filter Action.decides =
      Action.granted ++ [.replied .hasKey false, .replied .hasPen true, .replied .takePen event])

section
variable {actions first last : List (Action ρ)}

theorem untaken_append : Untaken (first ++ last) ↔ Untaken first ∧ Untaken last := by
  simp only [Untaken, List.mem_append, or_imp, forall_and]

theorem untaken_told (n : Notice) : Untaken ([.told n] : List (Action ρ)) := List.forall_mem_singleton.mpr rfl

theorem untaken_replied {r : Request} (reply : r.Reply) (other : r.takes = false) :
    Untaken ([.replied r reply] : List (Action ρ)) := List.forall_mem_singleton.mpr other

theorem Undecided.filter (undecided : Undecided actions) : actions.filter Action.decides = [] :=
  List.filter_eq_nil_iff.mpr fun action member => by simp [undecided action member]

theorem Undecided.untaken (undecided : Undecided actions) : Untaken actions := by
  intro action member
  have other := undecided action member
  cases action with
  | replied r reply => cases r <;> first | rfl | cases other
  | _ => rfl

theorem Restrained.append (restrained : Restrained first) (plain : Undecided last) : Restrained (first ++ last) := by
  have same : (first ++ last).filter Action.decides = first.filter Action.decides := by
    rw [List.filter_append, plain.filter, List.append_nil]
  cases restrained with
  | nothing untaken => exact .nothing (untaken_append.mpr ⟨untaken, plain.untaken⟩)
  | key event asked => exact .key event (same.trans asked)
  | pen event asked => exact .pen event (same.trans asked)

theorem Restrained.prepend (plain : Undecided first) (restrained : Restrained last) : Restrained (first ++ last) := by
  have same : (first ++ last).filter Action.decides = last.filter Action.decides := by
    rw [List.filter_append, plain.filter, List.nil_append]
  cases restrained with
  | nothing untaken => exact .nothing (untaken_append.mpr ⟨plain.untaken, untaken⟩)
  | key event asked => exact .key event (same.trans asked)
  | pen event asked => exact .pen event (same.trans asked)

/-- Whoever was given a pen event had been told that there is no key. -/
theorem Restrained.told_no_key {event : PenEvent} (restrained : Restrained (actions ++ [.replied .takePen event])) :
    .replied .hasKey false ∈ actions := by
  let taking : Action ρ := .replied .takePen event
  have taken : taking ∈ (actions ++ [taking]).filter Action.decides := List.mem_filter.mpr ⟨by simp, rfl⟩
  cases restrained with
  | nothing untaken => cases untaken taking (by simp [taking])
  | key event' asked =>
    rw [asked] at taken
    simp [taking, Action.granted] at taken
  | pen event' asked =>
    have told : Action.replied .hasKey false ∈ (actions ++ [taking]).filter Action.decides := by
      rw [asked]
      simp
    simpa [taking] using (List.mem_filter.mp told).1

end

namespace Program

variable {p q : Program ρ α} {actions : List (Action ρ)}

theorem Aloof.untaken (aloof : p.Aloof) (does : p.Does actions q) : Untaken actions := by
  intro action member
  cases action with
  | replied r reply =>
    have other := (does.asks aloof fun _ _ _ => trivial).1 r reply member
    cases r <;> first | rfl | cases other
  | _ => rfl

theorem Asks.undecided (asks : p.Asks Request.Any (·.decides = false)) (does : p.Does actions q) :
    Undecided actions := by
  intro action member
  cases action with
  | replied r reply => exact (does.asks asks fun _ _ _ => trivial).1 r reply member
  | _ => rfl

theorem restrained_request {r : Request} {rest : r.Reply → Program ρ β} {q : Program ρ β}
    {before did : List (Action ρ)} (untaken : Untaken before) (does : (request r >>= rest).Does did q)
    (later : ∀ reply last, (rest reply).Does last q → Restrained (before ++ [.replied r reply] ++ last)) :
    Restrained (before ++ did) := by
  rcases does_request_cases does with rfl | ⟨reply, last, rfl, goes⟩
  · rw [List.append_nil]
    exact .nothing untaken
  · rw [List.append_cons]
    exact later reply last goes

theorem restrained_notice {n : Notice} {rest : Program ρ β} {q : Program ρ β} {before did : List (Action ρ)}
    (untaken : Untaken before) (does : (notice n >>= fun _ => rest).Does did q)
    (later : ∀ last, rest.Does last q → Restrained (before ++ [.told n] ++ last)) : Restrained (before ++ did) := by
  cases does with
  | nil =>
    rw [List.append_nil]
    exact .nothing untaken
  | cons acts goes =>
    cases acts
    rw [List.append_cons]
    exact later _ goes

end Program

namespace Engine

open Program

variable {before did : List (Action ρ)} {rest : Program ρ Injection}

theorem untaken_rule {rule : Rule ρ} (aloof : rule.act.Aloof) (does : (do
    notice (.ruleApplied rule.name)
    rule.act : Program ρ Injection).Does did rest) : Untaken did :=
  Aloof.untaken (asks_bind (asks_notice _) fun _ => aloof) does

theorem restrained_deliverKey (untaken : Untaken before)
    (asked : before.filter Action.decides = Action.granted ++ [.replied .hasKey true])
    (does : (deliverKey : Program ρ _).Does did rest) : Restrained (before ++ did) := by
  refine restrained_request untaken does fun event last posts => ?_
  have plain : Undecided last := Asks.undecided (asks_bind (asks_notice _) fun _ =>
    asks_bind (asks_request rfl) fun _ => asks_pure _) posts
  refine Restrained.append (.key event ?_) plain
  rw [List.filter_append, asked]
  rfl

theorem restrained_deliverPen (untaken : Untaken before)
    (asked : before.filter Action.decides =
      Action.granted ++ [.replied .hasKey false, .replied .hasPen true])
    (does : (deliverPen : Program ρ _).Does did rest) : Restrained (before ++ did) := by
  refine restrained_request untaken does fun event last posts => ?_
  have plain : Undecided last := Asks.undecided (asks_bind (asks_notice _) fun _ =>
    asks_bind (asks_request rfl) fun _ => asks_pure _) posts
  refine Restrained.append (.pen event ?_) plain
  rw [List.filter_append, asked]
  rfl

theorem restrained_rules (untaken : Untaken before) (asked : before.filter Action.decides = [.replied .isIdle true])
    (does : (applyFirst rules).Does did rest) : Restrained (before ++ did) := by
  refine restrained_request untaken does fun nested did does => ?_
  replace untaken := untaken_append.mpr ⟨untaken, untaken_replied nested rfl⟩
  cases nested with
  | true => exact .nothing (untaken_append.mpr ⟨untaken, untaken_rule aloof_emptyEvent does⟩)
  | false =>
  refine restrained_request untaken does fun replaying did does => ?_
  replace untaken := untaken_append.mpr ⟨untaken, untaken_replied replaying rfl⟩
  cases replaying with
  | true => exact .nothing (untaken_append.mpr ⟨untaken, untaken_rule aloof_replay does⟩)
  | false =>
  refine restrained_request untaken does fun stressing did does => ?_
  replace untaken := untaken_append.mpr ⟨untaken, untaken_replied stressing rfl⟩
  cases stressing with
  | true => exact .nothing (untaken_append.mpr ⟨untaken, untaken_rule aloof_stress does⟩)
  | false =>
  refine restrained_request untaken does fun hasKey did does => ?_
  replace untaken := untaken_append.mpr ⟨untaken, untaken_replied hasKey rfl⟩
  cases hasKey with
  | true =>
    refine restrained_notice untaken does fun did does => ?_
    refine restrained_deliverKey (untaken_append.mpr ⟨untaken, untaken_told _⟩) ?_ does
    simp only [List.filter_append, asked]
    rfl
  | false =>
  refine restrained_request untaken does fun hasPen did does => ?_
  replace untaken := untaken_append.mpr ⟨untaken, untaken_replied hasPen rfl⟩
  cases hasPen with
  | true =>
    refine restrained_notice untaken does fun did does => ?_
    refine restrained_deliverPen (untaken_append.mpr ⟨untaken, untaken_told _⟩) ?_ does
    simp only [List.filter_append, asked]
    rfl
  | false =>
  refine .nothing (untaken_append.mpr ⟨untaken, Aloof.untaken (asks_applyFirst ?_) does⟩)
  exact List.forall_mem_singleton.mpr ⟨asks_bind asks_get fun _ => asks_pure _, aloof_switchPending⟩

theorem restrained_inject (does : (inject : Program ρ _).Does did rest) : Restrained did := by
  have start : Untaken ([] : List (Action ρ)) := by simp [Untaken]
  show Restrained ([] ++ did)
  refine restrained_request start does fun result did does => ?_
  have untaken := untaken_append.mpr ⟨start, untaken_replied result rfl⟩
  refine restrained_request untaken does fun idle did does => ?_
  replace untaken := untaken_append.mpr ⟨untaken, untaken_replied idle rfl⟩
  cases idle with
  | false => exact .nothing (untaken_append.mpr ⟨untaken, Aloof.untaken (asks_proceed rfl) does⟩)
  | true =>
    rcases does_bind_cases does with ⟨left, looks, -⟩ | ⟨trap, looks, last, rfl, looked, goes⟩
    · have aloof : (lastEventTrap : Program ρ _).Aloof := asks_lastEventTrap
      exact .nothing (untaken_append.mpr ⟨untaken, aloof.untaken looks⟩)
    · have plain : Undecided looks := Asks.undecided asks_lastEventTrap looked
      replace untaken := untaken_append.mpr ⟨untaken, plain.untaken⟩
      rw [← List.append_assoc]
      have asked : (([] ++ [.replied (.setResult 0) result] ++ [.replied .isIdle true] : List (Action ρ)) ++
          looks).filter Action.decides = [.replied .isIdle true] := by
        rw [List.filter_append, plain.filter]
        rfl
      dsimp only at goes
      split at goes
      · refine restrained_request untaken goes fun signalled last goes => ?_
        refine restrained_rules (untaken_append.mpr ⟨untaken, untaken_replied signalled rfl⟩) ?_ goes
        rw [List.filter_append, asked]
        rfl
      · exact restrained_rules untaken asked goes

theorem restrained_idleWait {rest : Program ρ Decision} (does : (idleWait : Program ρ _).Does did rest) :
    Restrained did := by
  rcases does_bind_cases does with ⟨left, injects, -⟩ | ⟨outcome, first, last, rfl, injects, ends⟩
  · exact restrained_inject injects
  · refine (restrained_inject injects).append (Asks.undecided ?_ ends)
    exact asks_endWait (Q := (·.decides = false)) ⟨rfl, fun _ => rfl⟩ outcome

theorem restrained_headDecision {call : Call} {hooks : Hooks ρ} {rest : Program ρ Decision}
    (does : (headDecision call hooks).Does did rest) : Restrained did := by
  have nothing : Restrained ([] : List (Action ρ)) := .nothing (by simp [Untaken])
  have measures (on : Bool) (reply : (Request.setProfiling on).Reply) :
      Undecided ([.replied (.setProfiling on) reply] : List (Action ρ)) := List.forall_mem_singleton.mpr rfl
  unfold headDecision at does
  cases found : hooks.head with
  | none =>
    rw [found] at does
    cases does with
    | nil => exact nothing
    | cons acts goes => cases acts
  | some head =>
    rw [found] at does
    rcases does_request_cases does with rfl | ⟨measuring, did, rfl, goes⟩
    · exact nothing
    show Restrained ([_] ++ did)
    refine .prepend (measures _ measuring) ?_
    have decides {first : List (Action ρ)} {left : Program ρ Decision}
        (does : (headProgram call head.routine).Does first left) : Restrained first := by
      cases routine : head.routine with
      | idleWait =>
        rw [routine] at does
        exact restrained_idleWait does
      | noteEventTrap =>
        rw [routine] at does
        exact .nothing (Aloof.untaken (asks_bind (asks_modify _) fun _ => asks_pure _) does)
      | foreign r =>
        rw [routine] at does
        have asks : (headProgram call (.foreign r) : Program ρ Decision).Aloof := fun _ => trivial
        exact .nothing (asks.untaken does)
    rcases does_bind_cases goes with ⟨left, begins, -⟩ | ⟨decision, first, last, rfl, begins, ends⟩
    · exact decides begins
    · exact (decides begins).append (Asks.undecided (asks_bind (asks_request rfl) fun _ => asks_pure _) ends)

end Engine

/-- Whatever a task has done so far, it has taken no more than one event of the user's, and that as it may. -/
theorem Stage.restrained (s : Stage ρ) {did : List (Action ρ)} {rest : Program ρ s.Result}
    (does : s.program.Does did rest) : Restrained did := by
  cases s with
  | handle call hooks => exact Engine.restrained_headDecision does
  | _ => exact .nothing ((Stage.aloof_program _ (by simp [Stage.purposes])).untaken does)

end TrapHooks
