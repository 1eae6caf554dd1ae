import TrapHooks.Proofs.Waits.Sources

/-! Made-up input that has nothing to give. A recording or random input is asked for an event if the guest fetches one,
    and for a position of the pen if the guest waits for that. If there is no event, the wait is skipped as if it had
    timed out; but whether there was a position of the pen is not looked at, and the wait goes on without one. -/

namespace TrapHooks

variable {ρ : Type}

/-- What the result of the wait is set to by this. -/
def Action.result? : Action ρ → Option UInt32
  | replied (.setResult value) _ => some value
  | _ => none

/-- No event comes of it, and the result is left alone. -/
def Action.Quiet (action : Action ρ) : Prop :=
  action.Suits none ∧ action.result? = none

/-- The guest is idle and runs on nobody's behalf, and a recording is replayed to it, or else random input is posted. -/
structure MadeUp (did : List (Action ρ)) : Prop where
  idle : .replied .isIdle true ∈ did
  alone : .replied .isNested false ∈ did
  active : .replied .replaying true ∈ did ∨ .replied .replaying false ∈ did ∧ .replied .stressing true ∈ did

/-- Made-up input was asked for an event, and told whether there was one. -/
def Fetched (posted : Bool) (did : List (Action ρ)) : Prop :=
  .replied .replayEvent posted ∈ did ∨ .replied .stressEvent posted ∈ did

/-- Made-up input was asked for a position of the pen, and told whether there was one. -/
def Drawn (posted : Bool) (did : List (Action ρ)) : Prop :=
  .replied .replayPen posted ∈ did ∨ .replied .stressPen posted ∈ did

namespace Source

variable {s : Source} {sources : List Source} {looks acts : List (Action ρ)} {used : Option Source} {holds : Bool}
  {r : Request} {reply : r.Reply} {outcome : Injection}

/-- The question by which it is found whether a source has something to give; for a switch nobody is asked. -/
def question : Source → Option Request
  | nested => some .isNested
  | replay => some .replaying
  | hordes => some .stressing
  | key => some .hasKey
  | pen => some .hasPen
  | appSwitch => none

theorem Looked.question (looked : s.Looked looks holds) {action : Action ρ} (member : action ∈ looks) :
    (∃ r reply, action = .replied r reply ∧ s.question = some r) ∨ ∃ e, action = .changed e e := by
  cases looked with
  | appSwitch e => exact .inr ⟨e, List.mem_singleton.mp member⟩
  | _ => exact .inl ⟨_, _, List.mem_singleton.mp member, rfl⟩

/-- Sources are looked at by their questions and by reading the engine. -/
theorem Chosen.question (chosen : Chosen sources looks used) {action : Action ρ} (member : action ∈ looks) :
    (∃ s ∈ sources, ∃ r reply, action = .replied r reply ∧ s.question = some r) ∨ ∃ e, action = .changed e e := by
  induction chosen with
  | none => cases member
  | first looked => exact (looked.question member).imp_left fun asked => ⟨_, List.mem_cons_self, asked⟩
  | later looked chosen ih =>
    rcases List.mem_append.mp member with here | there
    · exact (looked.question here).imp_left fun asked => ⟨_, List.mem_cons_self, asked⟩
    · exact (ih there).imp_left fun ⟨s, listed, asked⟩ => ⟨s, List.mem_cons_of_mem _ listed, asked⟩

/-- A source is used by what it is asked for, and by the result of a wait that is skipped. -/
theorem Served.asked (served : s.Served acts outcome) (asked : .replied r reply ∈ acts) :
    r.source = some s ∨ r = .setResult 4 := by
  cases served with
  | nested =>
    cases List.mem_singleton.mp asked
    exact .inr rfl
  | replay e tried | hordes settings e tried =>
    cases tried with
    | posted | pen =>
      obtain ⟨rfl, -⟩ : r = _ ∧ _ := by simpa using asked
      exact .inl rfl
    | missing =>
      obtain ⟨rfl, -⟩ | ⟨rfl, -⟩ : r = _ ∧ _ ∨ r = _ ∧ _ := by simpa using asked
      · exact .inl rfl
      · exact .inr rfl
    | elsewhere => simp at asked
  | key event | pen event =>
    obtain ⟨rfl, -⟩ | ⟨rfl, -⟩ : r = _ ∧ _ ∨ r = _ ∧ _ := by simpa using asked
    all_goals exact .inl rfl
  | gone e e' none => simp at asked
  | @appSwitch e e' app pending switch answer switches =>
    have switching : .replied r reply ∈ switch := by
      cases answer <;> simpa [failure] using asked
    have purpose :=
      (switches.asks (A := Request.Any) (Engine.asks_switchTo app) fun _ _ _ => trivial).1 r reply switching
    cases r <;> cases purpose <;> exact .inl rfl

/-- While a source is used, none is looked at. -/
theorem Served.unquestioning (served : s.Served acts outcome) (asked : .replied r reply ∈ acts) (other : Source) :
    other.question ≠ some r := by
  intro same
  rcases served.asked asked with given | rfl
  · cases other <;> cases same <;> cases given
  · cases other <;> cases same

/-- What comes of made-up input depends on whether there was an event to fetch, and on nothing else. -/
theorem Served.fetched (served : s.Served acts outcome) (madeUp : s = .replay ∨ s = .hordes) :
    (∃ e, .changed e e ∈ acts ∧ ((∃ posted, Fetched posted acts) ↔ e.state.lastEventTrap = Trap.getEvent) ∧
        ((∃ posted, Drawn posted acts) ↔ e.state.lastEventTrap = Trap.getPen)) ∧
      (Fetched false acts → outcome = { decision := .skip } ∧ [.replied (.setResult 4) ()] <:+ acts) ∧
      (¬ Fetched false acts → outcome = .hurry ∧ acts.filterMap Action.result? = []) := by
  have last := served.skips
  have apart : Trap.getEvent ≠ Trap.getPen := by decide
  rcases madeUp with rfl | rfl
  · cases served with
    | replay e tried => refine ⟨⟨e, ?_⟩, ?_⟩ <;> cases tried <;>
        simp_all [Fetched, Drawn, Action.result?, Injection.hurry, apart.symm]
  · cases served with
    | hordes settings e tried => refine ⟨⟨e, ?_⟩, ?_⟩ <;> cases tried <;>
        simp_all [Fetched, Drawn, Action.result?, Injection.hurry, apart.symm]

theorem Chosen.quiet (chosen : Chosen sources looks used) : ∀ action ∈ looks, action.Quiet := by
  intro action member
  rcases chosen.question member with ⟨s, -, r, reply, rfl, same⟩ | ⟨e, rfl⟩
  · cases s <;> cases same <;> exact ⟨nofun, rfl⟩
  · exact ⟨.inr rfl, rfl⟩

/-- If there is made-up input, the sources before it have nothing to give, and it is used. -/
theorem Chosen.madeUp {looks : List (Action ρ)} (chosen : Chosen Source.all looks used)
    (alone : .replied .isNested false ∈ looks)
    (active : .replied .replaying true ∈ looks ∨
      .replied .replaying false ∈ looks ∧ .replied .stressing true ∈ looks) :
    ∃ s, used = some s ∧ (s = .replay ∨ s = .hordes) := by
  cases chosen with
  | first nested =>
    cases nested
    simp at alone
  | later nested chosen =>
    cases nested
    cases chosen with
    | first replay => exact ⟨.replay, rfl, .inl rfl⟩
    | later replay chosen =>
      cases replay
      cases chosen with
      | first hordes => exact ⟨.hordes, rfl, .inr rfl⟩
      | @later _ _ _ others _ hordes chosen =>
        cases hordes
        -- Those that are left are not asked whether there is made-up input.
        have other {r : Request} {reply : r.Reply} (asked : .replied r reply ∈ others) :
            r ≠ .replaying ∧ r ≠ .stressing := by
          rcases chosen.question asked with ⟨s, member, _, _, is, same⟩ | ⟨e, is⟩ <;> cases is
          constructor <;> rintro rfl <;> cases s <;> cases same <;> simp at member
        rcases active with replays | ⟨-, stresses⟩
        · have asked : .replied .replaying true ∈ others := by simpa using replays
          exact absurd rfl (other asked).1
        · have asked : .replied .stressing true ∈ others := by simpa using stresses
          exact absurd rfl (other asked).2

end Source

namespace Engine

open Program

variable {did : List (Action ρ)} {used : Option Source} {outcome : Injection}

/-- What is asked to choose a source is asked before one is used. -/
theorem Course.looked {e : Engine ρ} {looks acts : List (Action ρ)} {s : Source} {r : Request} {reply : r.Reply}
    (uses : Uses used acts outcome) (is : s.question = some r)
    (asked : .replied r reply ∈ .replied (.setResult 0) () :: .replied .isIdle true :: .changed e e ::
      (signals e ++ (looks ++ acts))) : .replied r reply ∈ looks := by
  have not_signal : .replied r reply ∉ signals e := by
    unfold signals
    split <;> cases s <;> cases is <;> simp
  have not_used : .replied r reply ∉ acts := by
    intro asked
    cases used with
    | none => simp [uses.1] at asked
    | some used =>
      obtain ⟨service, rfl, served⟩ := uses
      rcases List.mem_cons.mp asked with same | asked
      · cases same
      · exact served.unquestioning asked s is
  cases s <;> cases is <;> simpa [not_signal, not_used] using asked

/-- A wait that is idle and runs on nobody's behalf uses made-up input if there is any, after nothing but what leaves
    all events and the result alone. -/
theorem Course.uses_madeUp (course : Course did used outcome) (madeUp : MadeUp did) :
    ∃ (s : Source) (before service : List (Action ρ)), (s = .replay ∨ s = .hordes) ∧ s.Served service outcome ∧
      did = .replied (.setResult 0) () :: (before ++ service) ∧
      ∀ action ∈ before, action.Quiet := by
  cases course with
  | busy e on =>
    have idle := madeUp.idle
    cases e.config.logInjection <;> cases on <;> simp at idle
  | @idle e looks acts used outcome chosen uses =>
    have alone := looked uses (s := .nested) rfl madeUp.alone
    have active : .replied .replaying true ∈ looks ∨
        .replied .replaying false ∈ looks ∧ .replied .stressing true ∈ looks :=
      madeUp.active.imp (looked uses (s := .replay) rfl) fun both =>
        ⟨looked uses (s := .replay) rfl both.1, looked uses (s := .hordes) rfl both.2⟩
    obtain ⟨s, rfl, made⟩ := chosen.madeUp alone active
    obtain ⟨service, rfl, served⟩ := uses
    refine ⟨s, .replied .isIdle true :: .changed e e :: (signals e ++ looks ++ [.told (.ruleApplied s.name)]), service,
      made, served, by simp, ?_⟩
    have signalled : ∀ action ∈ signals e, action.Quiet := by
      unfold signals
      split
      · exact List.forall_mem_singleton.mpr ⟨nofun, rfl⟩
      · simp
    have told : (Action.told (.ruleApplied s.name) : Action ρ).Quiet := ⟨trivial, rfl⟩
    exact List.forall_mem_cons.mpr ⟨⟨nofun, rfl⟩, List.forall_mem_cons.mpr ⟨⟨.inr rfl, rfl⟩,
      List.forall_mem_append.mpr ⟨List.forall_mem_append.mpr ⟨signalled, chosen.quiet⟩,
        List.forall_mem_singleton.mpr told⟩⟩⟩

theorem asked_of_quiet {before service : List (Action ρ)} (quiet : ∀ action ∈ before, action.Quiet) {r : Request}
    {reply : r.Reply} {s : Source} (asks : r.source = some s) :
    .replied r reply ∈ .replied (.setResult 0) () :: (before ++ service) ↔ .replied r reply ∈ service := by
  have not_before : .replied r reply ∉ before := by
    intro member
    cases (quiet _ member).1 s asks
  cases r <;> cases asks <;> simp [not_before]

/-- However others change the engine while a wait asks them, if the guest is idle and runs on nobody's behalf and there
    is made-up input, then of that is asked what the guest was last noted to fetch: an event, a position of the pen, or
    nothing.

    * If it is told that there is no event, the wait is skipped, and the last thing that is done is to set its result
      to that of a wait that has timed out.
    * In all other cases the wait goes on with the result that it began with, and must come to an end. So it is when
      there is no position of the pen. -/
theorem skips_without_event (does : inject.Does did (.done outcome)) (madeUp : MadeUp did) :
    (∃ e, .changed e e ∈ did ∧ ((∃ posted, Fetched posted did) ↔ e.state.lastEventTrap = Trap.getEvent) ∧
        ((∃ posted, Drawn posted did) ↔ e.state.lastEventTrap = Trap.getPen)) ∧
      (Fetched false did → outcome = { decision := .skip } ∧ [.replied (.setResult 4) ()] <:+ did) ∧
      (¬ Fetched false did → outcome = .hurry ∧ did.filterMap Action.result? = [0]) := by
  obtain ⟨used, course⟩ := course_inject does
  obtain ⟨s, before, service, made, served, rfl, quiet⟩ := course.uses_madeUp madeUp
  obtain ⟨⟨e, noted, fetches, draws⟩, missing, posted⟩ := served.fetched made
  have results : before.filterMap Action.result? = [] :=
    List.filterMap_eq_nil_iff.mpr fun action member => (quiet action member).2
  have fetched {got : Bool} : Fetched got (.replied (.setResult 0) () :: (before ++ service)) ↔ Fetched got service :=
    or_congr (asked_of_quiet quiet (s := .replay) rfl) (asked_of_quiet quiet (s := .hordes) rfl)
  have drawn {got : Bool} : Drawn got (.replied (.setResult 0) () :: (before ++ service)) ↔ Drawn got service :=
    or_congr (asked_of_quiet quiet (s := .replay) rfl) (asked_of_quiet quiet (s := .hordes) rfl)
  simp only [fetched, drawn]
  refine ⟨⟨e, by simp [noted], fetches, draws⟩, fun none => ?_, fun other => ?_⟩
  · obtain ⟨skips, last⟩ := missing none
    exact ⟨skips, (last.trans (List.suffix_append _ _)).trans (List.suffix_cons _ _)⟩
  · obtain ⟨hurries, unset⟩ := posted other
    refine ⟨hurries, ?_⟩
    show 0 :: (before ++ service).filterMap Action.result? = [0]
    rw [List.filterMap_append, results, unset]
    rfl

/-- Random input has no event, and only while it was looked for the guest was noted to fetch an event. -/
theorem skips_without_event_stressed :
    let first : Engine Unit := {}
    let meanwhile : Engine Unit := { state := { lastEventTrap := Trap.getEvent } }
    let did := [.replied (.setResult 0) (), .replied .isIdle true, .changed first first, .replied .isNested false,
      .replied .replaying false, .replied .stressing true, .told (.ruleApplied "hordes"),
      .changed meanwhile meanwhile, .changed meanwhile meanwhile, .replied .stressEvent false,
      .replied (.setResult 4) ()]
    inject.Does did (.done { decision := .skip }) ∧ MadeUp did ∧ Fetched false did ∧
      ∃ e, .changed e e ∈ did ∧ e.state.lastEventTrap = Trap.getEvent := by
  intro first meanwhile did
  have does : inject.Does did (.done { decision := .skip }) := by
    refine .cons (.reply first _ _ _) <| .cons (.reply first _ _ _) <| .cons (.change first _ _) ?_
    refine .cons (.reply first _ _ _) <| .cons (.reply first _ _ _) <| .cons (.reply first _ _ _) ?_
    refine .cons (.notice first _ _) <| .cons (.change meanwhile _ _) <| .cons (.change meanwhile _ _) ?_
    exact .cons (.reply meanwhile _ _ _) <| .cons (.reply meanwhile _ _ _) (.nil _)
  have madeUp : MadeUp did := ⟨by simp [did], by simp [did], .inr ⟨by simp [did], by simp [did]⟩⟩
  have none : Fetched false did := .inr (by simp [did])
  obtain ⟨⟨e, noted, fetches, -⟩, -⟩ := skips_without_event does madeUp
  exact ⟨does, madeUp, none, e, noted, fetches.mp ⟨false, none⟩⟩

/-- A recording is asked for a position of the pen and has none, and yet the wait is not skipped, and its result is not
    that of a wait that has timed out. -/
theorem skips_without_pen_not :
    let e : Engine Unit := { state := { lastEventTrap := Trap.getPen } }
    let did := [.replied (.setResult 0) (), .replied .isIdle true, .changed e e, .replied .isNested false,
      .replied .replaying true, .told (.ruleApplied "replay"), .changed e e, .replied .replayPen false]
    inject.Yields e did e .hurry ∧ MadeUp did ∧ Drawn false did ∧ Injection.hurry.decision ≠ .skip ∧
      did.filterMap Action.result? = [0] ∧ timedOut ≠ 0 := by
  intro e did
  refine ⟨?_, ⟨by simp [did], by simp [did], .inl (by simp [did])⟩, .inl (by simp [did]), nofun, rfl, by decide⟩
  refine .act (.reply e _ _ _) <| .act (.reply e _ _ _) <| .act (.change e _ _) <| .act (.reply e _ _ _) ?_
  exact .act (.reply e _ _ _) <| .act (.notice e _ _) <| .act (.change e _ _) <| .act (.reply e _ _ _) (.done _ _)

end Engine

end TrapHooks
