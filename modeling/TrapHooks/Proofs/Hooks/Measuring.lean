import TrapHooks.Proofs.Hooks.Brackets
import TrapHooks.Proofs.Run.History
import TrapHooks.Proofs.Run.Undisturbed
import TrapHooks.Proofs.Waits.Posting

/-! Hooks take no part in the measuring of time. It is off when a hook begins, and once the hooks of a call or of a
    return have run, it is as it was before them, whatever the hooks do to it and whatever else they come to. -/

namespace TrapHooks

variable {ρ : Type}

/-- Somebody measures time or does not, as he was told last, by the engine or by others. -/
def measuring : Keeper Bool Bool where
  own on _ := on
  reply
    | .setProfiling on, _, _ => on
    | _, _, on => on
  Truthful on
    | .setProfiling _, was => was = on
    | _, _ => True

theorem Program.Acts.allows {α : Type} {p p' : Program ρ α} {e e' : Engine ρ} {r : Request} {reply : r.Reply}
    {aside : List Request.Purpose} {Q : α → Hold → Prop} {hold : Hold} (acts : p.Acts e (.replied r reply) e' p')
    (brackets : p.Brackets aside Q hold) : hold.Allows aside r := by
  cases acts
  exact brackets.1

/-- What the measuring is after the hook at work, if there is one, is what it was to be before. -/
theorem Hold.getD_next {hold : Hold} {on : Bool} {s : Stage ρ} {action : Action ρ}
    (right : measuring.Right on (.acted s action))
    (switches : ∀ on' was, action = .replied (.setProfiling on') was → on' = hold.saved.getD false) :
    (hold.next action).saved.getD (measuring.hear on (.acted s action)) = hold.saved.getD on := by
  have passes (same : hold.next action = hold.pass) (still : measuring.hear on (.acted s action) = on) :
      (hold.next action).saved.getD (measuring.hear on (.acted s action)) = hold.saved.getD on := by
    rw [same, still, Hold.saved_pass]
  cases action with
  | replied r reply =>
    by_cases switch : ∃ on', r = .setProfiling on'
    · obtain ⟨on', rfl⟩ := switch
      have back := switches on' reply rfl
      cases hold with
      | none => exact right
      | begun was => exact back
      | within was => exact back
    · refine passes ?_ ?_ <;> (cases r <;> first | rfl | exact absurd ⟨_, rfl⟩ switch)
  | _ => exact passes rfl rfl

namespace Task

/-- How far the task has come with a hook. -/
def hold (t : Task ρ) : Hold :=
  t.done.foldl Hold.next .none

/-- The task puts the rest of its hooks in brackets. -/
def Bracketed (t : Task ρ) : Prop :=
  t.rest.Brackets t.stage.aside Engine.Unheld t.hold

theorem hold_snoc (s : Stage ρ) (rest : Program ρ s.Result) (did : List (Action ρ)) (action : Action ρ)
    (rest' : Program ρ s.Result) : hold ⟨s, rest', did ++ [action]⟩ = (hold ⟨s, rest, did⟩).next action := by
  simp [hold]

theorem bracketed_of_does {t : Task ρ} (does : t.stage.program.Does t.done t.rest) : t.Bracketed :=
  does.brackets t.stage.brackets_program

end Task

/-- What the measuring is once all tasks above this depth have ended: each hook at work puts back what it found. -/
def afterHooks (depth : Nat) : Bool → List (Task ρ) → Bool
  | on, [] => on
  | on, t :: below => if depth ≤ below.length then afterHooks depth (t.hold.saved.getD on) below else on

section
variable {depth : Nat} {on on' : Bool} {above below tasks : List (Task ρ)} {t : Task ρ}

theorem afterHooks_cons (deep : depth ≤ below.length) :
    afterHooks depth on (t :: below) = afterHooks depth (t.hold.saved.getD on) below := if_pos deep

theorem afterHooks_of_length (deep : tasks.length ≤ depth) : afterHooks depth on tasks = on := by
  cases tasks with
  | nil => rfl
  | cons t below =>
    refine if_neg ?_
    rw [List.length_cons] at deep
    omega

/-- It does not matter what the measuring is while a hook above is at work. -/
theorem afterHooks_of_held (deep : depth ≤ below.length) (held : t.hold.saved = some on') (on : Bool) :
    afterHooks depth on (above ++ t :: below) = afterHooks depth on' below := by
  induction above generalizing on with
  | nil => rw [List.nil_append, afterHooks_cons deep, held, Option.getD_some]
  | cons u above ih =>
    rw [List.cons_append, afterHooks_cons]
    · exact ih _
    · simp only [List.length_append, List.length_cons]
      omega

end

namespace Machine

/-- A hook of the task on top of these is at work, or has others come to what is above. -/
def InHook (below : List (Task ρ)) (m : Machine ρ) : Prop :=
  ∃ above t, m.tasks = above ++ t :: below ∧ t.hold.saved.isSome

/-- Above this depth, a hook is at work. -/
def Hooked (depth : Nat) (m : Machine ρ) : Prop :=
  ∃ below, depth ≤ below.length ∧ m.InHook below

end Machine

theorem Machine.Hooked.afterHooks_eq {m : Machine ρ} {depth : Nat} (hooked : m.Hooked depth) (on on' : Bool) :
    afterHooks depth on m.tasks = afterHooks depth on' m.tasks := by
  obtain ⟨below, deep, above, t, tasks, held⟩ := hooked
  obtain ⟨was, held⟩ := Option.isSome_iff_exists.mp held
  rw [tasks, afterHooks_of_held deep held, afterHooks_of_held deep held]

/-- A step does not change what the measuring is in the end, unless a task at this depth sets it. -/
theorem Machine.Step.keeps_afterHooks {m n : Machine ρ} {event : Event ρ} {depth : Nat} {on : Bool}
    (step : m.Step event n) (orderly : m.Orderly) (right : measuring.Right on event) (before : depth ≤ m.tasks.length)
    (after : depth ≤ n.tasks.length) (own : m.tasks.length = depth → measuring.hear on event = on) :
    afterHooks depth (measuring.hear on event) n.tasks = afterHooks depth on m.tasks := by
  cases step with
  | enter m s entry rests => exact afterHooks_cons before
  | @act e e' s p p' action acts done below =>
    rcases Nat.lt_or_ge below.length depth with short | deep
    · have level : below.length + 1 = depth := Nat.le_antisymm short before
      have flat (t : Task ρ) (on : Bool) : afterHooks depth on (t :: below) = on := afterHooks_of_length short
      rw [flat, flat, own level]
    · have bracketed := Task.bracketed_of_does (orderly.does _ List.mem_cons_self)
      rw [afterHooks_cons deep, afterHooks_cons deep, Task.hold_snoc s p]
      congr 1
      refine Hold.getD_next right fun on' was same => ?_
      subst same
      exact (acts.allows bracketed).switches on' rfl
  | finish e s result done below =>
    have unheld : Task.hold ⟨s, .done result, done⟩ = .none :=
      Task.bracketed_of_does (orderly.does _ List.mem_cons_self)
    show afterHooks depth on _ = _
    cases follows : s.next result with
    | none =>
      have deep : depth ≤ below.length := by simpa [follows] using after
      rw [afterHooks_cons deep, unheld]
      rfl
    | some s' =>
      rcases Nat.lt_or_ge below.length depth with short | deep
      · have flat (t : Task ρ) : afterHooks depth on (t :: below) = on := afterHooks_of_length short
        exact (flat _).trans (flat _).symm
      · rw [afterHooks_cons deep, unheld]
        exact afterHooks_cons deep

/-! ### Runs -/

/-- All along a run, what the measuring is once all tasks above a depth have ended stays the same, as long as others set
    it only while a hook above is at work. -/
theorem Run.keeps_afterHooks (depth : Nat) {m n : Machine ρ} {whole : History ρ Bool} {on : Bool}
    (run : Run m whole.moments n) (orderly : m.Orderly) (honest : measuring.Honest on whole)
    (deep : depth ≤ m.tasks.length)
    (steps : ∀ first x last, whole = first ++ .moment x :: last → ∀ k, Run m (History.moments first) k →
      k.Step x.event x.after → depth ≤ x.after.tasks.length ∧
        (k.tasks.length = depth → measuring.hear (measuring.after on first) x.event = measuring.after on first))
    (others : ∀ first own last, whole = first ++ .outside own :: last → ∀ k, Run m (History.moments first) k →
      k.Hooked depth) :
    afterHooks depth (measuring.after on whole) n.tasks = afterHooks depth on m.tasks := by
  -- The conditions are on each part of the history that goes up to some point, so they hold of what comes before.
  refine (run.along (P := fun history k => (∃ last, whole = history ++ last) →
    depth ≤ k.tasks.length ∧ afterHooks depth (measuring.after on history) k.tasks = afterHooks depth on m.tasks)
    ?_ ?_ ?_ ⟨[], (List.append_nil _).symm⟩).2
  · exact fun _ => ⟨deep, rfl⟩
  · rintro history k own before ih ⟨last, rfl⟩
    rw [List.append_assoc] at others
    obtain ⟨inside, same⟩ := ih ⟨_, List.append_assoc ..⟩
    rw [Keeper.after_append]
    exact ⟨inside, ((others history own last rfl k before).afterHooks_eq _ _).trans same⟩
  · rintro history k x before step ih ⟨last, rfl⟩
    rw [List.append_assoc] at steps honest
    obtain ⟨inside, same⟩ := ih ⟨_, List.append_assoc ..⟩
    obtain ⟨inside', own⟩ := steps history x last rfl k before step
    obtain ⟨right, -⟩ := (Keeper.honest_append.mp honest).2
    rw [Keeper.after_append]
    exact ⟨inside', (step.keeps_afterHooks (before.orderly orderly) right inside inside' own).trans same⟩

/-! ### The hooks of a call -/

/-- The stages that run the hooks of a call or of a return. -/
def Stage.RunsHooks : Stage ρ → Prop
  | handle _ _ | conclude _ _ _ | returned | takeReturn _ => True
  | _ => False

theorem Stage.RunsHooks.aside_subset {s : Stage ρ} (runs : s.RunsHooks) : s.aside ⊆ [.measuring, .locating] := by
  cases s <;> first | exact runs.elim | simp [aside, purposes]

/-- A hook of others is at work. -/
def Program.RunsHook {α : Type} : Program ρ α → Prop
  | runHead _ _ _ | runTail _ _ _ => True
  | _ => False

namespace Task

variable {t : Task ρ}

/-- A hook of the task begins: the measuring was switched off for it right now. -/
def Begins (t : Task ρ) : Prop :=
  ∃ was, t.hold = .begun was

theorem begins_of_runsHook (does : t.stage.program.Does t.done t.rest) (runs : t.rest.RunsHook) : t.Begins := by
  have bracketed := bracketed_of_does does
  obtain ⟨s, rest, did⟩ := t
  cases rest with
  | runHead routine call rest => exact bracketed.1
  | runTail routine call rest => exact bracketed.1
  | _ => exact runs.elim

/-- While it runs hooks, a task that waits for neither the measuring nor the program counter waits for a hook. -/
theorem held_of_waits (does : t.stage.program.Does t.done t.rest) (runs : t.stage.RunsHooks) (waits : t.rest.Waits)
    (other : ∀ r ∈ t.rest.awaited, r.purpose ≠ .measuring ∧ r.purpose ≠ .locating) : t.hold.saved.isSome := by
  have bracketed := bracketed_of_does does
  have begins (runs : t.rest.RunsHook) : t.hold.saved.isSome := by
    obtain ⟨was, begun⟩ := begins_of_runsHook does runs
    rw [begun]
    rfl
  obtain ⟨s, rest, did⟩ := t
  cases rest with
  | ask r rest =>
    obtain ⟨unmeasuring, unlocating⟩ := other r rfl
    cases hold : Task.hold ⟨s, .ask r rest, did⟩ with
    | none =>
      rcases bracketed.1.outside hold with measures | listed
      · exact absurd measures unmeasuring
      · exact absurd (runs.aside_subset listed) (by simp [unmeasuring, unlocating])
    | begun was => rfl
    | within was => rfl
  | runHead routine call rest => exact begins trivial
  | runTail routine call rest => exact begins trivial
  | _ => exact waits.elim

end Task

namespace Machine

/-- Others may set the measuring now: they are at work, and not with a request for it or for the program counter. -/
def Settable (m : Machine ρ) : Prop :=
  m.AtRest ∧ ∀ t ∈ m.tasks, ∀ r ∈ t.rest.awaited, r.purpose ≠ .measuring ∧ r.purpose ≠ .locating

end Machine

section
variable {m n : Machine ρ} {trace : List (Moment ρ)} {history first last : History ρ Bool} {on : Bool} {s : Stage ρ}
  {below : List (Task ρ)}

/-- Until all that they do has ended, hooks are run on top of what was there before. -/
theorem Run.runs_hooks (run : Run m trace n) (begins : m.tasks = .begin s :: below) (runs : s.RunsHooks)
    (stays : ∀ x ∈ trace, below.length < x.after.tasks.length) :
    ∃ above t, n.tasks = above ++ t :: below ∧ t.stage.RunsHooks := by
  induction run with
  | nil => exact ⟨[], .begin s, begins, runs⟩
  | @snoc trace k l event run step ih =>
    obtain ⟨before, still⟩ := List.forall_mem_append.mp stays
    replace still : below.length < l.tasks.length := still _ List.mem_cons_self
    obtain ⟨above, t, tasks, runs⟩ := ih before
    obtain ⟨e, stack⟩ := k
    obtain rfl : stack = _ := tasks
    generalize whole : above ++ t :: below = stack at step
    cases step with
    | enter k s' entry rests => exact ⟨.begin s' :: above, t, by rw [← whole]; rfl, runs⟩
    | @act e e' s' p p' action acts done others =>
      cases above with
      | nil =>
        obtain ⟨rfl, rfl⟩ := List.cons.inj whole
        exact ⟨[], ⟨s', p', done ++ [action]⟩, rfl, runs⟩
      | cons top above =>
        obtain ⟨rfl, rfl⟩ := List.cons.inj whole
        exact ⟨⟨s', p', done ++ [action]⟩ :: above, t, rfl, runs⟩
    | finish e s' result done others =>
      cases above with
      | nil =>
        obtain ⟨rfl, rfl⟩ := List.cons.inj whole
        cases s' with
        | handle call hooks => exact ⟨[], .begin (.conclude call hooks result), rfl, trivial⟩
        | returned => exact ⟨[], .begin (.takeReturn result), rfl, trivial⟩
        | conclude call hooks decision => exact absurd still (Nat.lt_irrefl _)
        | takeReturn pc => exact absurd still (Nat.lt_irrefl _)
        | _ => exact runs.elim
      | cons top above =>
        obtain ⟨rfl, rfl⟩ := List.cons.inj whole
        exact ⟨((s'.next result).map .begin).toList ++ above, t, by simp, runs⟩

/-- What comes before the last moment of a history comes before it in what leads up to that moment. -/
theorem History.split_snoc {σ : Type} {history first last : History ρ σ} {x : Moment ρ} {happening : Happening ρ σ}
    (split : history ++ [.moment x] = first ++ happening :: last) :
    (happening = .moment x ∧ first = history) ∨ ∃ front, history = first ++ happening :: front := by
  rcases List.eq_nil_or_concat last with rfl | ⟨front, final, rfl⟩
  · obtain ⟨same, last⟩ := List.append_inj' split rfl
    exact .inl ⟨(List.cons.inj last).1.symm, same.symm⟩
  · rw [List.concat_eq_append, ← List.cons_append, ← List.append_assoc] at split
    exact .inr ⟨front, (List.append_inj' split rfl).1⟩

/-- Once the hooks have run, the measuring is as it was when they began. -/
theorem Run.puts_back {y : Moment ρ} (run : Run m (History.moments (history ++ [.moment y])) n) (orderly : m.Orderly)
    (honest : measuring.Honest on (history ++ [.moment y])) (begins : m.tasks = .begin s :: below) (runs : s.RunsHooks)
    (stays : ∀ z ∈ history.moments, below.length < z.after.tasks.length) (ends : y.after.tasks = below)
    (settable : history.When Machine.Settable m) : measuring.after on (history ++ [.moment y]) = on := by
  have hooks {first last : History ρ Bool} {k : Machine ρ} (split : history = first ++ last)
      (before : Run m (History.moments first) k) : ∃ above t, k.tasks = above ++ t :: below ∧ t.stage.RunsHooks :=
    before.runs_hooks begins runs fun z member => stays z (by simp [split, member])
  have kept := run.keeps_afterHooks below.length orderly honest (by simp [begins]) ?_ ?_
  · obtain ⟨k, -, -, rfl⟩ := Run.cut_last (by simpa using run)
    rw [ends, begins, afterHooks_of_length (Nat.le_refl _), afterHooks_cons (Nat.le_refl _),
      afterHooks_of_length (Nat.le_refl _)] at kept
    exact kept
  · intro first x last split k before step
    rcases History.split_snoc split with ⟨same, rfl⟩ | ⟨front, split⟩
    · cases same
      obtain ⟨above, t, tasks, -⟩ := hooks (List.append_nil _).symm before
      refine ⟨Nat.le_of_eq (congrArg List.length ends).symm, fun level => absurd level ?_⟩
      simp [tasks]
      omega
    · obtain ⟨above, t, tasks, -⟩ := hooks split before
      refine ⟨Nat.le_of_lt (stays x (by simp [split])), fun level => absurd level ?_⟩
      simp [tasks]
      omega
  · intro first own last split k before
    rcases History.split_snoc split with ⟨same, -⟩ | ⟨front, split⟩
    · cases same
    · obtain ⟨above, t, tasks, runs⟩ := hooks split before
      obtain ⟨rests, other⟩ := (split ▸ settable).here before
      have ours : t ∈ k.tasks := by simp [tasks]
      have orderly := before.orderly orderly
      exact ⟨below, Nat.le_refl _, above, t, tasks, Task.held_of_waits (orderly.does t ours) runs
        (orderly.waits_of_atRest rests t ours) (other t ours)⟩

/-- The measuring is what it was before, or the latest task has set it. -/
theorem measuring_hear_or (on : Bool) (event : Event ρ) :
    measuring.hear on event = on ∨ ∃ s on' was, event = .acted s (.replied (.setProfiling on') was) := by
  cases event with
  | acted s action =>
    cases action with
    | replied r reply =>
      cases r with
      | setProfiling on' => exact .inr ⟨s, on', reply, rfl⟩
      | _ => exact .inl rfl
    | _ => exact .inl rfl
  | _ => exact .inl rfl

/-- As long as a hook is at work, a task that sets the measuring is another one than its own. -/
theorem Machine.Step.sets_above {on' was : Bool} (step : m.Step (.acted s (.replied (.setProfiling on') was)) n)
    (within : m.InHook below) (still : n.InHook below) : m.tasks.length ≠ below.length + 1 := by
  intro level
  obtain ⟨above, t, tasks, held⟩ := within
  obtain ⟨above', t', tasks', held'⟩ := still
  cases step with
  | @act e e' s p p' action acts done others =>
    obtain rfl : above = [] := by
      rw [tasks] at level
      simpa using level
    obtain ⟨rfl, rfl⟩ := List.cons.inj tasks
    obtain rfl : above' = [] := by simpa using congrArg List.length tasks'
    obtain ⟨rfl, -⟩ := List.cons.inj tasks'
    rw [Task.hold_snoc s p] at held'
    have ended : (Task.hold ⟨s, p, done⟩).next (.replied (.setProfiling on') was : Action ρ) = .none := if_pos held
    rw [ended] at held'
    cases held'

theorem Run.in_hook (run : Run m trace n) (within : m.InHook below) (stays : ∀ z ∈ trace, z.after.InHook below) :
    n.InHook below := by
  cases run with
  | nil => exact within
  | snoc run step => exact stays _ (List.mem_append_right _ List.mem_cons_self)

/-- While a hook is at work that others leave alone, the measuring is at each of its turns what it was first. -/
theorem Run.stays_off (run : Run m history.moments n) (orderly : m.Orderly) (honest : measuring.Honest on history)
    (within : m.InHook below) (first : m.tasks.length = below.length + 1)
    (stays : ∀ z ∈ history.moments, z.after.InHook below) (turn : n.tasks.length = below.length + 1)
    (others : history.When (Machine.Hooked (below.length + 1)) m) : measuring.after on history = on := by
  have kept := run.keeps_afterHooks (below.length + 1) orderly honest (Nat.le_of_eq first.symm) ?_
    fun front own back split k before => (split ▸ others).here before
  · rwa [afterHooks_of_length (Nat.le_of_eq turn), afterHooks_of_length (Nat.le_of_eq first)] at kept
  · intro front x back split k before step
    have within' : k.InHook below := before.in_hook within fun z member => stays z (by simp [split, member])
    have still : x.after.InHook below := stays x (by simp [split])
    refine ⟨?_, fun level => ?_⟩
    · obtain ⟨above, t, tasks, -⟩ := still
      simp [tasks]
    · rcases measuring_hear_or (measuring.after on front) x.event with same | ⟨s, on', was, sets⟩
      · exact same
      · rw [sets] at step
        exact absurd level (step.sets_above within' still)

theorem Hold.next_begun {hold : Hold} {action : Action ρ} {was : Bool} (begun : hold.next action = .begun was) :
    hold = .none ∧ ∃ on, action = .replied (.setProfiling on) was := by
  have passes : hold.pass ≠ .begun was := by cases hold <;> simp [Hold.pass]
  cases action with
  | replied r reply =>
    by_cases switch : ∃ on, r = .setProfiling on
    · obtain ⟨on, rfl⟩ := switch
      cases hold with
      | none =>
        obtain rfl : reply = was := by simpa [Hold.next, Hold.saved] using begun
        exact ⟨rfl, on, rfl⟩
      | _ => cases begun
    · refine absurd ?_ passes
      rw [← begun]
      cases r <;> first | rfl | exact absurd ⟨_, rfl⟩ switch
  | _ => exact absurd begun passes

/-- When a hook begins, the measuring was switched off right now. -/
theorem Machine.Step.switches_off {action : Action ρ} {t : Task ρ} (step : m.Step (.acted s action) n)
    (orderly : m.Orderly) (tasks : n.tasks = t :: below) (begins : t.Begins) (on : Bool) :
    measuring.hear on (.acted s action) = false := by
  obtain ⟨was, begun⟩ := begins
  cases step with
  | @act e e' s p p' action acts done others =>
    obtain ⟨rfl, rfl⟩ := List.cons.inj tasks
    rw [Task.hold_snoc s p] at begun
    obtain ⟨none, on', rfl⟩ := Hold.next_begun begun
    have bracketed := Task.bracketed_of_does (orderly.does _ List.mem_cons_self)
    have off := (acts.allows bracketed).switches on' rfl
    rw [none] at off
    exact off

/-- What happens for some time after a moment of a run is a run of its own. -/
theorem Run.segment {σ : Type} {first between last : History ρ σ} {x : Moment ρ}
    (run : Run m (History.moments (first ++ .moment x :: (between ++ last))) n) (orderly : m.Orderly) :
    x.after.Orderly ∧ ∃ l, Run x.after between.moments l := by
  simp only [History.moments_append, History.moments_cons_moment] at run
  obtain ⟨k, before, step⟩ := run.split
  obtain ⟨l, goes, -⟩ := run.tail.cut
  exact ⟨step.orderly (before.orderly orderly), l, goes⟩

/-- Hooks have no part in the measuring of time. Whoever serves it sets it as he is told and tells what it was; others
    may set it whenever they are at work, also within hooks, but not while it is asked for, or the program counter is.

    * The program of a head hook stands in brackets, and a hook of others begins at the begin of one.
    * When a hook begins, the measuring is off.
    * Once the hooks of a call or of a return have run, the measuring is as it was when that began, whatever they and
      those whom they had come in meanwhile did to it.
    * While a hook is at work and nobody sets the measuring but hooks that run within it, it is off at each of its
      turns. -/
theorem Run.hooks_unmeasured (run : Run m history.moments n) (idle : m.tasks = [])
    (honest : measuring.Honest on history) (settable : history.When Machine.Settable m) :
    (∀ x ∈ history.moments, ∀ call hooks head rest did, ⟨.handle call hooks, rest, did⟩ ∈ x.after.tasks →
      hooks.head = some head → Engine.Bracket (Engine.headProgram call head.routine) did) ∧
    (∀ x ∈ history.moments, ∀ t ∈ x.after.tasks, t.rest.RunsHook → t.Begins) ∧
    (∀ first x last s action t below, history = first ++ .moment x :: last → x.event = .acted s action →
      x.after.tasks = t :: below → t.Begins → measuring.after on (first ++ [.moment x]) = false) ∧
    (∀ first x between y last s below, history = first ++ .moment x :: (between ++ .moment y :: last) →
      x.after.tasks = .begin s :: below → s.RunsHooks →
      (∀ z ∈ History.moments between, below.length < z.after.tasks.length) → y.after.tasks = below →
      measuring.after on (first ++ .moment x :: (between ++ [.moment y])) = measuring.after on (first ++ [.moment x])) ∧
    ∀ first x between last s action t below k, history = first ++ .moment x :: (between ++ last) →
      x.event = .acted s action → x.after.tasks = t :: below → t.Begins →
      (∀ z ∈ History.moments between, z.after.InHook below) →
      History.When (Machine.Hooked (below.length + 1)) x.after between →
      Run x.after (History.moments between) k → k.tasks.length = below.length + 1 →
      measuring.after on (first ++ .moment x :: between) = false := by
  have orderly := Machine.orderly_of_idle idle
  have off (first : History ρ Bool) (x : Moment ρ) (last : History ρ Bool) (s : Stage ρ) (action : Action ρ)
      (t : Task ρ) (below : List (Task ρ)) (split : history = first ++ .moment x :: last)
      (acted : x.event = .acted s action) (tasks : x.after.tasks = t :: below) (begins : t.Begins) :
      measuring.after on (first ++ [.moment x]) = false := by
    rw [split, History.moments_append, History.moments_cons_moment] at run
    obtain ⟨k, before, step⟩ := run.split
    rw [acted] at step
    rw [Keeper.after_append]
    exact (congrArg (measuring.hear _) acted).trans (step.switches_off (before.orderly orderly) tasks begins _)
  refine ⟨fun x member call hooks head rest did there found => ?_, fun x member t there runs => ?_, off, ?_, ?_⟩
  · have does := run.does_of_mem orderly member _ there
    replace does : (Engine.headDecision call hooks).Does did rest := does
    rw [Engine.headDecision, found] at does
    exact Engine.bracket_of_does does
  · exact Task.begins_of_runsHook (run.does_of_mem orderly member t there) runs
  · rintro first x between y last s below rfl begins runs stays ends
    have split : first ++ .moment x :: (between ++ .moment y :: last) =
        first ++ .moment x :: ((between ++ [.moment y]) ++ last) := by simp
    rw [split] at run honest
    obtain ⟨orderly', l, goes⟩ := run.segment orderly
    have kept := goes.puts_back orderly' honest.segment begins runs stays ends settable.segment
    rw [← Keeper.after_append] at kept
    simpa using kept
  · rintro first x between last s action t below k rfl acted tasks begins stays others goes turn
    have start := off first x _ s action t below rfl acted tasks begins
    obtain ⟨orderly', -⟩ := run.segment orderly
    have honest' := honest.segment
    rw [start] at honest'
    rw [← List.singleton_append, ← List.append_assoc, Keeper.after_append, start]
    obtain ⟨was, begun⟩ := begins
    have within : x.after.InHook below := ⟨[], t, tasks, by rw [begun]; rfl⟩
    exact goes.stays_off orderly' honest' within (by simp [tasks]) stays turn others

end

/-! ### A hook within a hook -/

/-- One hook of others runs before the call. -/
def Hooks.nesting : Hooks Unit where
  head := some ⟨"hooks", 0, .foreign ()⟩

/-- The hook is at work, and the measuring was this before. -/
def Task.inHook (was : Bool) : Task Unit where
  stage := .handle {} .nesting
  rest := .runHead () {} fun decision => .ask (.setProfiling was) fun _ => .done decision
  done := [.replied (.setProfiling false) was]

theorem Run.opens_hook (was : Bool) {below : List (Task Unit)} (rests : Machine.AtRest ⟨{}, below⟩) :
    ∃ x y, Run ⟨{}, below⟩ [x, y] ⟨{}, .inHook was :: below⟩ ∧ x.event = .entered (.handle {} .nesting) ∧
      y.event = .acted (.handle {} .nesting) (.replied (.setProfiling false) was) ∧
      x.after.tasks = .begin (.handle {} .nesting) :: below ∧ y.after = ⟨{}, .inHook was :: below⟩ := by
  have switches : (Engine.headDecision {} .nesting).Acts {} (.replied (.setProfiling false) was) {}
      (Task.inHook was).rest := .reply {} (.setProfiling false) (fun was => (Task.inHook was).rest) was
  have enters := Run.snoc .nil (.enter ⟨{}, below⟩ (.handle {} .nesting) rfl rests)
  exact ⟨⟨_, _⟩, ⟨_, _⟩, enters.snoc (.act switches [] below), rfl, rfl, rfl, rfl⟩

/-- The hook decides, the measuring is put back, and nothing is left to do for the call. -/
theorem Run.closes_hook (was on : Bool) (below : List (Task Unit)) :
    ∃ trace y, Run ⟨{}, .inHook was :: below⟩ (trace ++ [y]) ⟨{}, below⟩ ∧
      (trace ++ [y]).map (·.event) = [.acted (.handle {} .nesting) (.headRan () {} .execute),
        .acted (.handle {} .nesting) (.replied (.setProfiling was) on),
        .finished (.handle {} .nesting) .execute [.replied (.setProfiling false) was, .headRan () {} .execute,
          .replied (.setProfiling was) on],
        .acted (.conclude {} .nesting .execute) (.told (.handled {} .execute)),
        .finished (.conclude {} .nesting .execute) .execute [.told (.handled {} .execute)]] ∧
      (∀ x ∈ trace, ∃ t, x.after.tasks = t :: below) ∧ y.after.tasks = below := by
  let s : Stage Unit := .handle {} .nesting
  let s' : Stage Unit := .conclude {} .nesting .execute
  have decides : (Task.inHook was).rest.Acts {} (.headRan () {} .execute) {} _ := .head {} () {} _ .execute
  have puts : Program.Acts {} _ (.replied (.setProfiling was) on) {} _ :=
    .reply {} (.setProfiling was) (fun _ => (.done Decision.execute : Program Unit Decision)) on
  have tells : s'.program.Acts {} (.told (.handled {} .execute)) {} _ := .notice {} _ _
  have first : Run _ _ _ := Run.snoc .nil (.act (s := s) decides [.replied (.setProfiling false) was] below)
  have second := first.snoc (.act (s := s) puts _ below)
  have third := second.snoc (.finish {} s .execute _ below)
  have fourth := third.snoc (.act (s := s') tells [] below)
  refine ⟨_, ⟨_, _⟩, fourth.snoc (.finish {} s' .execute _ below), rfl, ?_, rfl⟩
  simp [s, Stage.next]

/-- While a hook runs, a call comes to another, and the user lets time be measured within that: after it, the first
    hook is not measured, and after the first, time is measured as before. -/
theorem Run.hooks_unmeasured_nested :
    ∃ (opened inner closed : History Unit Bool) (n : Machine Unit),
      Run (.fresh {} {} ∅) (History.moments (opened ++ (inner ++ closed))) n ∧ n.tasks = [] ∧
      measuring.Honest true (opened ++ (inner ++ closed)) ∧
      (opened ++ (inner ++ closed)).When Machine.Settable (.fresh {} {} ∅) ∧ inner.others = [true] ∧
      measuring.after true (opened ++ inner) = false ∧ measuring.after true (opened ++ (inner ++ closed)) = true := by
  have waits (was : Bool) (below : List (Task Unit)) : Machine.AtRest ⟨{}, .inHook was :: below⟩ :=
    Machine.atRest_of_waits {} (t := .inHook was) trivial below
  obtain ⟨x, y, opens, entered, switched, begins, opened'⟩ := Run.opens_hook true (Machine.atRest_of_idle rfl)
  obtain ⟨z, w, opens', entered', switched', begins', within'⟩ := Run.opens_hook false (waits true [])
  obtain ⟨inside, v, closes', events', deeper, ended'⟩ := Run.closes_hook false true [.inHook true]
  obtain ⟨within, u, closes, events, deep, ended⟩ := Run.closes_hook true false []
  let opened : History Unit Bool := [x, y].map .moment
  let inner : History Unit Bool := [z, w].map .moment ++ ([.outside true] ++ (inside ++ [v]).map .moment)
  let closed : History Unit Bool := (within ++ [u]).map .moment
  have run : Run (.fresh {} {} ∅) (History.moments (opened ++ (inner ++ closed))) ⟨{}, []⟩ := by
    simp only [opened, inner, closed, History.moments_append, History.moments_cons_outside, History.moments_map]
    exact opens.trans ((opens'.trans closes').trans closes)
  have honest : measuring.Honest true (opened ++ (inner ++ closed)) := by
    simp only [opened, inner, closed, Keeper.honest_append, Keeper.honest_moments, Keeper.Honest, Keeper.after_append,
      Keeper.after_moments, events', events]
    simp [entered, switched, entered', switched', Keeper.Fair, Keeper.Right, Keeper.hear, measuring, Keeper.after,
      Keeper.next]
  have settable : History.When Machine.Settable (.fresh {} {} ∅) (opened ++ (inner ++ closed)) := by
    have here : Machine.Settable ⟨{}, [.inHook false, .inHook true]⟩ :=
      ⟨waits false _, by simp [Task.inHook, Program.awaited]⟩
    have begun : Run (.fresh {} {} ∅) ([x, y] ++ [z, w]) _ := opens.trans opens'
    simpa [opened, inner, closed] using History.when_once begun here true (inside ++ [v] ++ (within ++ [u]))
  have between : inner.moments = [z, w] ++ (inside ++ [v]) := by simp [inner]
  have still : ∀ q ∈ inner.moments, ∃ above, q.after.tasks = above ++ [.inHook true] := by
    rw [between]
    refine List.forall_mem_append.mpr ⟨?_, List.forall_mem_append.mpr ⟨fun q member => ?_, ?_⟩⟩
    · simpa using ⟨⟨[_], begins'⟩, ⟨[_], congrArg Machine.tasks within'⟩⟩
    · obtain ⟨t, tasks⟩ := deeper q member
      exact ⟨[t], tasks⟩
    · simpa using ⟨[], ended'⟩
  obtain ⟨-, -, -, back, off⟩ := Run.hooks_unmeasured run rfl honest settable
  refine ⟨opened, inner, closed, _, run, rfl, honest, settable, by simp [inner], ?_, ?_⟩
  · refine off [.moment x] y inner closed _ _ _ [] ⟨{}, [.inHook true]⟩ rfl switched (congrArg Machine.tasks opened')
      ⟨true, rfl⟩ (fun q member => ?_) ?_ ?_ rfl
    · obtain ⟨above, tasks⟩ := still q member
      exact ⟨above, .inHook true, tasks, rfl⟩
    · rw [opened']
      exact History.when_once opens' ⟨[.inHook true], Nat.le_refl _, [], .inHook false, rfl, rfl⟩ true _
    · rw [between, opened']
      exact opens'.trans closes'
  · have whole : opened ++ (inner ++ closed) = [] ++ .moment x :: (.moment y :: inner ++ within.map .moment ++
        [.moment u]) := by simp [opened, closed]
    rw [whole] at back ⊢
    refine (back [] x _ u [] _ [] (by simp) begins trivial (fun q member => ?_) ended).trans ?_
    · have there : q = y ∨ q ∈ inner.moments ∨ q ∈ within := by simpa using member
      rcases there with rfl | there | there
      · rw [opened']
        exact Nat.zero_lt_one
      · obtain ⟨above, tasks⟩ := still q there
        simp [tasks]
      · obtain ⟨t, tasks⟩ := deep q there
        simp [tasks]
    · exact congrArg (measuring.hear true) entered

end TrapHooks
