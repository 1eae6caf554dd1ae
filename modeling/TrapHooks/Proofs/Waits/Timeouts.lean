import TrapHooks.Proofs.Hooks.Brackets
import TrapHooks.Proofs.Run.History
import TrapHooks.Proofs.Session.Marking
import TrapHooks.Proofs.Waits.Shortfall
import TrapHooks.Proofs.Waits.Withdrawal

/-! How long a wait may last. Where events are made up or applications switched, a wait that goes on must end: one
    without end is given the timeout of the settings, and any other keeps its own. Nobody looks at what the settings
    say there, and so a wait lasts forever in the end if they say so. -/

namespace TrapHooks

variable {ρ α : Type}

/-- Somebody keeps how long a wait may last, as it was set last, by the engine or by others, and tells it. -/
def timing : Keeper Int32 Int32 where
  own ticks _ := ticks
  reply
    | .setWaitTimeout ticks, _, _ => ticks
    | _, _, timeout => timeout
  Truthful timeout
    | .waitTimeout, told => told = timeout
    | _, _ => True

/-- Whoever has set the timeout was told that there is none, and has set it to what the settings said then. -/
def Shortened (did : List (Action ρ)) : Prop :=
  ∀ ticks reply, .replied (.setWaitTimeout ticks) reply ∈ did →
    .replied .waitTimeout waitForever ∈ did ∧ ∃ e, .changed e e ∈ did ∧ ticks = e.config.forcedWait

/-- It asks for the timeout, or sets it. -/
def Request.times : Request → Bool
  | waitTimeout | setWaitTimeout _ => true
  | _ => false

theorem Shortened.append {first last : List (Action ρ)} (before : Shortened first) (after : Shortened last) :
    Shortened (first ++ last) := by
  intro ticks reply member
  rcases List.mem_append.mp member with here | there
  · obtain ⟨told, e, read, same⟩ := before ticks reply here
    exact ⟨List.mem_append_left _ told, e, List.mem_append_left _ read, same⟩
  · obtain ⟨told, e, read, same⟩ := after ticks reply there
    exact ⟨List.mem_append_right _ told, e, List.mem_append_right _ read, same⟩

namespace Program

variable {p q : Program ρ α} {did : List (Action ρ)}

theorem Asks.shortened (asks : p.Asks Request.Any (·.times = false)) (does : p.Does did q) : Shortened did := by
  intro ticks reply member
  cases (does.asks asks fun _ _ _ => trivial).1 _ reply member

/-- What a program does tells what is left of it. -/
theorem Acts.same_rest {p q q' : Program ρ α} {e f e' f' : Engine ρ} {action : Action ρ} (acts : p.Acts e action f q)
    (acts' : p.Acts e' action f' q') : q = q' := by
  cases acts <;> cases acts' <;> rfl

/-- Of the things that are done, those until the end of a program are told by it. -/
theorem Does.same_end {first last first' last' : List (Action ρ)} {a b : α} (does : p.Does first (done a))
    (does' : p.Does first' (done b)) (same : first ++ last = first' ++ last') : first = first' ∧ a = b := by
  induction first generalizing p first' with
  | nil =>
    cases does
    exact (does_done does').imp_left Eq.symm
  | cons action first ih =>
    cases does with
    | cons acts rest =>
    cases does' with
    | nil => cases acts
    | cons acts' rest' =>
      obtain ⟨rfl, others⟩ := List.cons.inj same
      obtain rfl := acts.same_rest acts'
      exact (ih rest rest' others).imp_left (congrArg _)

end Program

namespace Engine

open Program

variable {did : List (Action ρ)}

/-- What a wait does once its event is posted. -/
def endWait (outcome : Injection) : Program ρ Decision := do
  if outcome.clearTimeout then
    if (← request .waitTimeout) = waitForever then
      let ticks := (← get).config.forcedWait
      notice (.waitShortened ticks)
      request (.setWaitTimeout ticks)
  return outcome.decision

theorem idleWait_eq : (idleWait : Program ρ _) = inject >>= endWait := rfl

theorem shortened_endWait {outcome : Injection} {rest : Program ρ Decision} (does : (endWait outcome).Does did rest) :
    Shortened did := by
  have nothing {did : List (Action ρ)} (does : (pure outcome.decision : Program ρ _).Does did rest) : Shortened did :=
    Asks.shortened (asks_pure _) does
  unfold endWait at does
  dsimp only at does
  split at does
  · rcases does_request_cases does with rfl | ⟨told, later, rfl, goes⟩
    · simp [Shortened]
    · split at goes
      · rename_i forever
        obtain rfl : told = waitForever := forever
        cases goes with
        | nil => simp [Shortened]
        | @cons _ _ _ e _ _ _ reads goes =>
          cases reads
          cases goes with
          | nil => simp [Shortened]
          | cons tells goes =>
            cases tells
            rcases does_request_cases goes with rfl | ⟨_, last, rfl, ends⟩
            · simp [Shortened]
            · refine Shortened.append (?_ : Shortened [_, _, _, _]) (nothing ends)
              simp [Shortened]
      · exact Shortened.append (show Shortened [_] by simp [Shortened]) (nothing goes)
  · exact nothing does

theorem untimed_inject : (inject : Program ρ _).Asks Request.Any (·.times = false) := by
  have switches : (switchPending : Program ρ _).Asks Request.Any (·.times = false) := by
    refine asks_switchPending.mono (fun _ _ told => told) fun r same => ?_
    cases r <;> first | rfl | cases same
  have rules : (applyFirst (ρ := ρ) rules).Asks Request.Any (·.times = false) := by
    refine asks_applyFirst ?_
    simp only [rules, List.forall_mem_cons, List.not_mem_nil, false_implies, implies_true, and_true]
    refine ⟨⟨asks_request rfl, asks_emptyEvent rfl⟩, ⟨asks_request rfl, asks_replay ⟨rfl, rfl, rfl⟩⟩,
      ⟨asks_request rfl, asks_stress ⟨rfl, rfl, rfl⟩⟩, ⟨asks_request rfl, ?_⟩, ⟨asks_request rfl, ?_⟩,
      asks_bind asks_get fun _ => asks_pure _, switches⟩
    all_goals exact asks_bind (asks_request rfl) fun _ => asks_bind (asks_notice _) fun _ =>
      asks_bind (asks_request rfl) fun _ => asks_pure _
  refine asks_bind (asks_request rfl) fun _ => asks_bind (asks_request rfl) fun idle => ?_
  split
  · refine asks_bind asks_lastEventTrap fun trap => ?_
    split
    · exact asks_bind (asks_request rfl) fun _ => rules
    · exact rules
  · exact asks_proceed rfl

theorem shortened_idleWait {rest : Program ρ Decision} (does : idleWait.Does did rest) : Shortened did := by
  rw [idleWait_eq] at does
  rcases does_bind_cases does with ⟨left, injects, -⟩ | ⟨outcome, first, last, rfl, injects, ends⟩
  · exact untimed_inject.shortened injects
  · exact (untimed_inject.shortened injects).append (shortened_endWait ends)

theorem shortened_headDecision {call : Call} {hooks : Hooks ρ} {rest : Program ρ Decision}
    (does : (headDecision call hooks).Does did rest) : Shortened did := by
  unfold headDecision at does
  cases found : hooks.head with
  | none =>
    rw [found] at does
    exact Asks.shortened (asks_pure _) does
  | some head =>
    rw [found] at does
    have decides {within : List (Action ρ)} {left : Program ρ Decision}
        (does : (headProgram call head.routine).Does within left) : Shortened within := by
      cases routine : head.routine with
      | idleWait =>
        rw [routine] at does
        exact shortened_idleWait does
      | noteEventTrap =>
        rw [routine] at does
        exact Asks.shortened (asks_bind (asks_modify _) fun _ => asks_pure _) does
      | foreign r =>
        rw [routine] at does
        have asks : (headProgram call (.foreign r) : Program ρ Decision).Asks Request.Any (·.times = false) :=
          fun _ => trivial
        exact asks.shortened does
    have switch (on : Bool) (reply : Bool) : Shortened ([.replied (.setProfiling on) reply] : List (Action ρ)) := by
      simp [Shortened]
    rcases bracket_of_does does with rfl | ⟨was, within, left, begins, rfl | ⟨decision, last, rfl, rfl⟩⟩
    · simp [Shortened]
    · exact (switch false was).append (decides begins)
    · exact ((switch false was).append (decides begins)).append (switch was last)

end Engine

theorem Stage.shortened (s : Stage ρ) {did : List (Action ρ)} {rest : Program ρ s.Result}
    (does : s.program.Does did rest) : Shortened did := by
  have other (others : .posting ∉ s.purposes) : Shortened did := by
    refine Program.Asks.shortened (s.asks_program.mono (fun _ _ told => told) fun r listed => ?_) does
    cases r <;> first | rfl | exact absurd listed others
  cases s with
  | handle call hooks => exact Engine.shortened_headDecision does
  | _ => exact other (by simp [Stage.purposes])

/-! ### The source that was used -/

namespace Source

variable {s : Source} {acts : List (Action ρ)} {outcome : Injection}

/-- The sources after which a wait that goes on must end. -/
def hurries : List Source :=
  [replay, hordes, appSwitch]

theorem name_injective : Function.Injective name := by
  intro s s' same
  cases s <;> cases s' <;> first | rfl | simp [name] at same

theorem Served.clears_iff (served : s.Served acts outcome) (goes : outcome.decision = .execute) :
    outcome.clearTimeout = true ↔ s ∈ hurries := by
  cases served with
  | replay e tried => cases tried <;> simp_all [hurries, Injection.hurry]
  | hordes settings e tried => cases tried <;> simp_all [hurries, Injection.hurry]
  | _ => simp_all [hurries, Injection.hurry, Injection.proceed]

end Source

namespace Engine

variable {did : List (Action ρ)} {used : Option Source} {outcome : Injection} {s : Source}

/-- If the log was told that such a source is used, a wait that goes on must end. -/
theorem Course.clears (course : Course did used outcome) (ran : .told (.ruleApplied s.name) ∈ did)
    (hurries : s ∈ Source.hurries) (goes : outcome.decision = .execute) : outcome.clearTimeout = true := by
  cases course with
  | busy e on => cases e.config.logInjection <;> cases on <;> simp at ran
  | @idle e looks acts used outcome chosen uses =>
    have unlooked : .told (.ruleApplied s.name) ∉ looks := by
      intro told
      rcases chosen.question told with ⟨_, -, _, _, same, -⟩ | ⟨_, same⟩ <;> cases same
    have unsignalled : .told (.ruleApplied s.name) ∉ signals e := by
      unfold signals
      split <;> simp
    have ran : .told (.ruleApplied s.name) ∈ acts := by simpa [unlooked, unsignalled] using ran
    cases used with
    | none => simp [uses.1] at ran
    | some s' =>
      obtain ⟨service, rfl, served⟩ := uses
      refine (served.clears_iff goes).mpr ?_
      rcases List.mem_cons.mp ran with same | told
      · have is : s = s' := Source.name_injective (by simpa using same)
        rwa [← is]
      · cases served <;> simp at told <;> simp [Source.hurries]

end Engine

/-! ### Runs -/

section
variable {m n k : Machine ρ} {history : History ρ Int32} {timeout forced : Int32} {event : Event ρ}
  {below : List (Task ρ)} {config : Config} {registry : Registry ρ} {marks : Marks} {trace : List (Moment ρ)}

theorem timing_hear_or (timeout : Int32) (event : Event ρ) :
    timing.hear timeout event = timeout ∨ ∃ s ticks reply,
      event = .acted s (.replied (.setWaitTimeout ticks) reply) ∧ timing.hear timeout event = ticks := by
  cases event with
  | acted s action =>
    cases action with
    | replied r reply =>
      cases r with
      | setWaitTimeout ticks => exact .inr ⟨s, ticks, reply, rfl, rfl⟩
      | _ => exact .inl rfl
    | _ => exact .inl rfl
  | _ => exact .inl rfl

/-- Nobody sets the timeout to anything else than this. -/
def SetsOnly (forced : Int32) (trace : List (Moment ρ)) : Prop :=
  ∀ x ∈ trace, ∀ s ticks reply, x.event = .acted s (.replied (.setWaitTimeout ticks) reply) → ticks = forced

section
variable (sets : SetsOnly forced history.moments) (alone : history.others = [])
include sets alone

/-- If nobody outside sets the timeout, it stays, or is set to what alone it is set to. -/
theorem SetsOnly.timing_or (timeout : Int32) :
    timing.after timeout history = timeout ∨ timing.after timeout history = forced := by
  induction history generalizing timeout with
  | nil => exact .inl rfl
  | cons happening history ih =>
    cases happening with
    | outside ticks => cases alone
    | moment x =>
      obtain ⟨first, others⟩ := List.forall_mem_cons.mp sets
      show timing.after (timing.hear timeout x.event) history = timeout ∨
        timing.after (timing.hear timeout x.event) history = forced
      rcases timing_hear_or timeout x.event with same | ⟨s, ticks, reply, acted, same⟩
      · rw [same]
        exact ih others alone timeout
      · rw [same, first s ticks reply acted]
        exact .inr (or_self_iff.mp (ih others alone forced))

/-- Once it is set, it stays set. -/
theorem SetsOnly.timing_set {x : Moment ρ} (member : x ∈ history.moments) {s : Stage ρ} {ticks : Int32} {reply : Unit}
    (acted : x.event = .acted s (.replied (.setWaitTimeout ticks) reply)) (timeout : Int32) :
    timing.after timeout history = forced := by
  obtain ⟨first, last, rfl⟩ := List.append_of_mem (History.mem_moments.mp member)
  simp only [History.moments_append, History.moments_cons_moment, History.others_append,
    History.others_cons_moment, List.append_eq_nil_iff] at sets alone member
  obtain ⟨-, here, later⟩ := List.forall_mem_append.mp sets |>.imp_right List.forall_mem_cons.mp
  rw [List.append_cons, Keeper.after_append, Keeper.after_append, Keeper.after_moment_replied acted]
  have goes := SetsOnly.timing_or later alone.2 ticks
  rw [here s ticks reply acted] at goes
  exact or_self_iff.mp (here s ticks reply acted ▸ goes)

end

theorem Machine.Step.acted_top {s : Stage ρ} {action : Action ρ} (step : m.Step (.acted s action) n) :
    ∃ rest done below, n.tasks = ⟨s, rest, done ++ [action]⟩ :: below := by
  cases step
  exact ⟨_, _, _, rfl⟩

/-- In a run the timeout is set to what the settings say, by whomever it is. -/
theorem Run.sets_forced (run : Run (.fresh config registry marks) trace n) : SetsOnly config.forcedWait trace := by
  intro x member s ticks reply acted
  obtain ⟨earlier, later, k, rfl, before, step⟩ := run.step_of_mem member
  have upTo : Run (.fresh config registry marks) (earlier ++ [x]) x.after := .snoc before step
  rw [acted] at step
  obtain ⟨rest, done, below, tasks⟩ := step.acted_top
  have does := (upTo.orderly (Machine.orderly_fresh config registry marks)).does _ (tasks ▸ List.mem_cons_self)
  obtain ⟨-, e, read, rfl⟩ := s.shortened does ticks reply (by simp)
  -- The settings were read at a moment of the run, and are the same all along.
  obtain ⟨first, y, since, split, -, span⟩ := upTo.span_of_task rfl (show x.after.tasks = [] ++ _ from tasks)
  rw [← span.own_eq] at read
  obtain ⟨z, there, acts⟩ := List.mem_filterMap.mp read
  obtain ⟨_, _, l, -, before', reads⟩ := upTo.step_of_mem (x := z) (by simp [split, there])
  rw [span.event_of_own z there _ acts] at reads
  rw [← reads.engine_before, before'.config_eq]

/-- Of the tasks on top of these, none was told that there is no timeout. -/
def Machine.Untold (below : List (Task ρ)) (m : Machine ρ) : Prop :=
  ∃ above, m.tasks = above ++ below ∧ ∀ t ∈ above, .replied .waitTimeout waitForever ∉ t.done

/-- While there is a timeout, no task is told that there is none, and so none sets it. -/
theorem Machine.Step.untold (step : m.Step event n) (orderly : m.Orderly) (right : timing.Right timeout event)
    (finite : timeout ≠ waitForever) (untold : m.Untold below) (works : below.length < m.tasks.length) :
    n.Untold below ∧ timing.hear timeout event = timeout := by
  obtain ⟨above, tasks, told⟩ := untold
  cases above with
  | nil => simp [tasks] at works
  | cons top above =>
    obtain ⟨first, others⟩ := List.forall_mem_cons.mp told
    have does := (step.orderly orderly).does
    cases step with
    | enter m s entry rests =>
      exact ⟨⟨.begin s :: top :: above, congrArg _ tasks, List.forall_mem_cons.mpr ⟨nofun, told⟩⟩, rfl⟩
    | @act e e' s p p' action acts done others' =>
      obtain ⟨rfl, rfl⟩ := List.cons.inj tasks
      have still : .replied .waitTimeout waitForever ∉ done ++ [action] := by
        intro member
        rcases List.mem_append.mp member with before | now
        · exact first before
        · cases List.mem_singleton.mp now
          exact finite (Eq.symm right)
      refine ⟨⟨_ :: above, rfl, List.forall_mem_cons.mpr ⟨still, others⟩⟩, ?_⟩
      rcases timing_hear_or timeout (.acted s action) with same | ⟨s', ticks, reply, acted, -⟩
      · exact same
      · cases acted
        exact absurd (s.shortened (does _ List.mem_cons_self) ticks reply (by simp)).1 still
    | finish e s result done others' =>
      obtain ⟨rfl, rfl⟩ := List.cons.inj tasks
      exact ⟨⟨_, (List.append_assoc ..).symm, s.forall_mem_next (P := fun t => _ ∉ t.done) (fun _ => nofun) result
        others⟩, rfl⟩

theorem Run.keeps_finite (run : Run m history.moments n) (orderly : m.Orderly) (honest : timing.Honest timeout history)
    (alone : history.others = []) (finite : timeout ≠ waitForever) (untold : m.Untold below)
    (works : below.length < m.tasks.length) (stays : ∀ x ∈ history.moments, below.length < x.after.tasks.length) :
    timing.after timeout history = timeout := by
  induction history generalizing m with
  | nil => rfl
  | cons happening history ih =>
    cases happening with
    | outside ticks => cases alone
    | moment x =>
      have run : Run m ([] ++ x :: History.moments history) n := run
      obtain ⟨k, begins, step⟩ := run.split
      obtain rfl := begins.eq_of_nil
      obtain ⟨right, later⟩ := honest
      obtain ⟨here, others⟩ := List.forall_mem_cons.mp stays
      obtain ⟨untold, same⟩ := step.untold orderly right finite untold works
      show timing.after (timing.hear timeout x.event) history = timeout
      rw [same] at later ⊢
      exact ih run.tail (step.orderly orderly) later alone untold here others

/-- What a task does after some moment of a run, it does after all that it has done until then. -/
theorem Run.own_since {s : Stage ρ} {past : List (Moment ρ)} {rest rest' : Program ρ s.Result}
    {did did' : List (Action ρ)}
    (run : Run m past k) (idle : m.tasks = []) (goes : Run k trace n) (there : k.tasks = ⟨s, rest, did⟩ :: below)
    (stays : ∀ x ∈ trace, x.after.Works s below) (ends : n.tasks = ⟨s, rest', did'⟩ :: below) :
    did' = did ++ trace.filterMap (Moment.own below) ∧ s.program.Does did' rest' ∧
      ∀ x ∈ trace, ∀ action, x.own below = some action → x.event = .acted s action := by
  obtain ⟨earlier, x, later, rfl, begins, works⟩ := run.begun idle (show k.tasks = [] ++ _ from there)
  have before := run.tail.span_top begins works there
  have whole : Run x.after (later ++ trace) n := run.tail.trans goes
  have after := whole.span_top begins (List.forall_mem_append.mpr ⟨works, stays⟩) ends
  refine ⟨?_, after.does_own, fun y member => after.event_of_own y (List.mem_append_right _ member)⟩
  rw [← after.own_eq, List.filterMap_append, before.own_eq]

end

namespace Engine

open Program

variable {injected later first : List (Action ρ)} {outcome : Injection} {decision : Decision}

/-- A wait that must end asks for its timeout, and if there is none, sets one. -/
theorem ends_endWait (does : (endWait outcome).Does first (.done decision)) :
    decision = outcome.decision ∧ (outcome.clearTimeout = true →
      ∃ told last, first = .replied .waitTimeout told :: last ∧
        (told = waitForever → ∃ ticks, .replied (.setWaitTimeout ticks) () ∈ last)) := by
  unfold endWait at does
  cases clears : outcome.clearTimeout with
  | false =>
    simp only [clears] at does
    obtain ⟨-, rfl⟩ := does_done does
    exact ⟨rfl, nofun⟩
  | true =>
    simp only [clears, if_true] at does
    obtain ⟨told, last, rfl, goes⟩ := does_request_bind does
    split at goes
    · obtain ⟨e, _, rfl, tells⟩ := does_get_bind goes
      obtain ⟨_, rfl, sets⟩ := does_notice_bind tells
      obtain ⟨_, _, rfl, ends⟩ := does_request_bind sets
      obtain ⟨rfl, rfl⟩ := does_done ends
      exact ⟨rfl, fun _ => ⟨told, _, rfl, fun _ => ⟨e.config.forcedWait, by simp⟩⟩⟩
    · rename_i finite
      obtain ⟨rfl, rfl⟩ := does_done goes
      exact ⟨rfl, fun _ => ⟨told, _, rfl, fun forever => absurd forever finite⟩⟩

/-- Once its event is posted, a wait comes to its end. -/
theorem ends_of_injected {call : Call} {hooks : Hooks ρ} {was : Bool}
    (waits : hooks.head.map (·.routine) = some .idleWait)
    (does : (headDecision call hooks).Does (.replied (.setProfiling false) was :: injected ++ later) (.done decision))
    (injects : inject.Does injected (.done outcome)) :
    ∃ first last, later = first ++ last ∧ (endWait outcome).Does first (.done decision) := by
  obtain ⟨head, found, routine⟩ := Option.map_eq_some_iff.mp waits
  unfold headDecision at does
  rw [found] at does
  obtain ⟨_, _, same, hooked⟩ := does_request_bind does
  obtain ⟨rfl, rfl⟩ : _ ∧ _ := by simpa using same
  obtain ⟨_, within, last, split, decides, closes⟩ := does_bind hooked
  obtain ⟨_, _, rfl, ends⟩ := does_request_bind closes
  obtain ⟨rfl, rfl⟩ := does_done ends
  rw [routine] at decides
  obtain ⟨_, injected', first, rfl, injects', ends⟩ := does_bind decides
  rw [List.append_assoc] at split
  obtain ⟨rfl, rfl⟩ := injects.same_end injects' split
  exact ⟨first, _, List.append_cancel_left split, ends⟩

end Engine

section
variable {k n : Machine ρ} {history : History ρ Int32} {timeout : Int32} {below : List (Task ρ)} {config : Config}
  {registry : Registry ρ} {marks : Marks} {past : List (Moment ρ)} {call : Call} {hooks : Hooks ρ} {was : Bool}
  {injected did : List (Action ρ)} {outcome : Injection} {rest : Program ρ Decision} {s : Source}

section
variable (run : Run (.fresh config registry marks) past k) (goes : Run k history.moments n)
  (honest : timing.Honest timeout history) (alone : history.others = [])
  (stays : ∀ x ∈ history.moments, x.after.Works (.handle call hooks) below)
  (returned : k.tasks = ⟨.handle call hooks, rest, .replied (.setProfiling false) was :: injected⟩ :: below)
  (injects : Engine.inject.Does injected (.done outcome))
include run goes honest alone stays returned injects

/-- A timeout that a wait has once its event is posted is the one that it has in the end. -/
theorem Run.keeps_timeout (finite : timeout ≠ waitForever) : timing.after timeout history = timeout := by
  have untold : .replied .waitTimeout waitForever ∉ injected := by
    intro told
    cases (injects.asks Engine.untimed_inject fun _ _ _ => trivial).1 _ _ told
  have untold : k.Untold below := ⟨[_], returned, by simpa using untold⟩
  refine goes.keeps_finite (run.orderly (Machine.orderly_fresh ..)) honest alone finite untold
    (by simp [returned]) fun x member => ?_
  obtain ⟨above, rest, did, tasks⟩ := stays x member
  simp only [tasks, List.length_append, List.length_cons]
  omega

/-- Without a timeout, a wait that must end has in the end the one of the settings, whoever has set it. -/
theorem Run.sets_timeout (forever : timeout = waitForever) (waits : hooks.head.map (·.routine) = some .idleWait)
    (clears : outcome.decision = .execute → outcome.clearTimeout = true)
    (ends : n.tasks = ⟨.handle call hooks, .done .execute, did⟩ :: below) :
    timing.after timeout history = config.forcedWait := by
  have sets : SetsOnly config.forcedWait history.moments := fun x member =>
    (run.trans goes).sets_forced x (List.mem_append_right _ member)
  obtain ⟨rfl, does, events⟩ := run.own_since rfl goes returned stays ends
  obtain ⟨first, last, own, ended⟩ := Engine.ends_of_injected waits does injects
  obtain ⟨decided, timed⟩ := Engine.ends_endWait ended
  obtain ⟨told, later, rfl, set⟩ := timed (clears decided.symm)
  by_cases unset : told = waitForever
  · -- It is told that there is none, and sets one.
    obtain ⟨ticks, member⟩ := set unset
    have done : .replied (.setWaitTimeout ticks) () ∈ history.moments.filterMap (Moment.own below) := by
      rw [own]
      exact List.mem_append_left _ (List.mem_cons_of_mem _ member)
    obtain ⟨z, there, acts⟩ := List.mem_filterMap.mp done
    exact sets.timing_set alone there (events z there _ acts) timeout
  · -- It is told of one, which somebody else has set meanwhile.
    have asked : .replied .waitTimeout told ∈ history.moments.filterMap (Moment.own below) := by simp [own]
    obtain ⟨y, there, acts⟩ := List.mem_filterMap.mp asked
    obtain ⟨before, after, rfl⟩ := List.append_of_mem (History.mem_moments.mp there)
    have truth : told = timing.after timeout before := honest.truthful (events y there _ acts)
    simp only [History.moments_append, History.others_append, List.append_eq_nil_iff] at sets alone
    obtain ⟨sets, sets'⟩ := List.forall_mem_append.mp sets
    have there : timing.after timeout before = config.forcedWait := by
      refine (SetsOnly.timing_or sets alone.1 timeout).resolve_left fun same => unset ?_
      rw [truth, same, forever]
    rw [Keeper.after_append, there]
    exact or_self_iff.mp (SetsOnly.timing_or sets' alone.2 config.forcedWait)

/-- The injector has used made-up input or switched to an application, the wait goes on, and until it does, nobody sets
    its timeout but tasks of the engine. Others may still come to waits of their own meanwhile, and shorten them.

    * A timeout that was there when the injector returned is the one that the wait has in the end.
    * If there was none, it has in the end the one of the settings. So it lasts forever exactly if the settings say so,
      which nobody keeps them from. -/
theorem Run.wait_ends (waits : hooks.head.map (·.routine) = some .idleWait)
    (ran : .told (.ruleApplied s.name) ∈ injected) (hurries : s ∈ Source.hurries)
    (ends : n.tasks = ⟨.handle call hooks, .done .execute, did⟩ :: below) :
    (timeout ≠ waitForever → timing.after timeout history = timeout) ∧
      (timeout = waitForever → timing.after timeout history = config.forcedWait) := by
  obtain ⟨used, course⟩ := Engine.course_inject injects
  exact ⟨run.keeps_timeout goes honest alone stays returned injects,
    fun forever => run.sets_timeout goes honest alone stays returned injects forever waits
      (course.clears ran hurries) ends⟩

end

end

/-! ### A wait without end -/

/-- The guest is idle, random input is on, and a wait has no timeout. -/
noncomputable def Program.Answers.stressed : Answers ρ where
  reply
    | .stressing => true
    | .waitTimeout => waitForever
    | r => (Program.Answers.idle (ρ := ρ) false).reply r
  decide _ _ := .execute

/-- What a wait does until random input has been asked. -/
def Engine.stressing (e : Engine ρ) : List (Action ρ) :=
  [.replied (.setResult 0) (), .replied .isIdle true, .changed e e, .replied .isNested false, .replied .replaying false,
    .replied .stressing true, .told (.ruleApplied "hordes"), .changed e e, .changed e e]

/-- A wait without a timeout finds random input, sets its timeout, and comes to its end. -/
theorem Run.wait_stressed (call : Call) (forced : Int32) :
    ∃ (past : List (Moment Unit)) (history : History Unit Int32) (e : Engine Unit) (k n : Machine Unit)
      (rest : Program Unit Decision) (did : List (Action Unit)),
      Run (.fresh { forcedWait := forced } {} ∅) past k ∧ Run k history.moments n ∧
      k.tasks = [⟨.handle call Engine.waitHooks, rest, .replied (.setProfiling false) true :: Engine.stressing e⟩] ∧
      Engine.inject.Does (Engine.stressing e) (.done .hurry) ∧
      n.tasks = [⟨.handle call Engine.waitHooks, .done .execute, did⟩] ∧
      (∀ x ∈ history.moments, x.after.Works (.handle call Engine.waitHooks) []) ∧ history.others = [] ∧
      timing.Honest waitForever history ∧ timing.after waitForever history = forced := by
  let s : Stage Unit := .handle call Engine.waitHooks
  let e : Engine Unit := { config := { forcedWait := forced } }
  let posted := s.program.upTo .stressed (fun r => r = .waitTimeout) e
  obtain ⟨past, run, -, -⟩ := Run.enter_upTo .stressed (fun r => r = .waitTimeout) (s := s) rfl
    (Machine.atRest_of_idle (m := .fresh { forcedWait := forced } {} ∅) rfl)
  obtain ⟨last, goes, events, tasks⟩ := Run.advance (s := s)
    (Program.advances_upTo .stressed (fun _ => false) posted.2.2 posted.2.1) posted.1 []
  replace events : last.map (·.event) = [.replied .waitTimeout waitForever, .changed e e, .told (.waitShortened forced),
    .replied (.setWaitTimeout forced) (), .replied (.setProfiling true) true].map (.acted s) := events
  have moments : History.moments (last.map .moment : History Unit Int32) = last := History.moments_map last
  refine ⟨past, last.map .moment, e, _, _, _, _, run, by rwa [moments], rfl, ?_, rfl, ?_, History.others_map last,
    ?_, ?_⟩
  · refine .cons (.reply e _ _ _) <| .cons (.reply e _ _ _) <| .cons (.change e _ _) <| .cons (.reply e _ _ _) ?_
    refine .cons (.reply e _ _ _) <| .cons (.reply e _ _ _) <| .cons (.notice e _ _) <| .cons (.change e _ _) ?_
    exact .cons (.change e _ _) (.nil _)
  · rw [moments]
    exact fun x member => ⟨[], tasks x member⟩
  · rw [Keeper.honest_moments, events]
    simp [Keeper.Fair, Keeper.Right, timing]
  · rw [Keeper.after_moments, events]
    rfl

/-- Random input is used in a wait without a timeout, which has the one of the settings then. -/
theorem Run.wait_ends_stressed :
    ∃ (past : List (Moment Unit)) (history : History Unit Int32) (k n : Machine Unit),
      Run (.fresh {} {} ∅) past k ∧ Run k history.moments n ∧ timing.Honest waitForever history ∧
      timing.after waitForever history = 1 := by
  obtain ⟨past, history, e, k, n, rest, did, run, goes, returned, injects, ends, stays, alone, honest, -⟩ :=
    Run.wait_stressed { trap := 0xA2CB, index := 0x2CB } 1
  have ran : .told (.ruleApplied Source.hordes.name) ∈ Engine.stressing e := by simp [Engine.stressing, Source.name]
  obtain ⟨-, set⟩ := run.wait_ends goes honest alone stays returned injects rfl ran (by simp [Source.hurries]) ends
  exact ⟨past, history, k, n, run, goes, honest, set rfl⟩

/-- Settings that are accepted leave a wait without a timeout as it is. -/
theorem Run.wait_lasts_forever :
    ({ forcedWait := waitForever } : Config).validate = .ok () ∧
      ∃ (past : List (Moment Unit)) (history : History Unit Int32) (call : Call) (e : Engine Unit) (k n : Machine Unit)
        (rest : Program Unit Decision) (did : List (Action Unit)),
        Run (.fresh { forcedWait := waitForever } {} ∅) past k ∧ Run k history.moments n ∧
        k.tasks = [⟨.handle call Engine.waitHooks, rest, .replied (.setProfiling false) true :: Engine.stressing e⟩] ∧
        Engine.inject.Does (Engine.stressing e) (.done .hurry) ∧
        .told (.ruleApplied Source.hordes.name) ∈ Engine.stressing e ∧
        n.tasks = [⟨.handle call Engine.waitHooks, .done .execute, did⟩] ∧ history.others = [] ∧
        timing.Honest waitForever history ∧ timing.after waitForever history = waitForever := by
  obtain ⟨past, history, e, k, n, rest, did, run, goes, returned, injects, ends, -, alone, honest, left⟩ :=
    Run.wait_stressed { trap := 0xA2CB, index := 0x2CB } waitForever
  have ran : .told (.ruleApplied Source.hordes.name) ∈ Engine.stressing e := by simp [Engine.stressing, Source.name]
  exact ⟨rfl, past, history, _, e, k, n, rest, did, run, goes, returned, injects, ran, ends, alone, honest, left⟩

end TrapHooks
