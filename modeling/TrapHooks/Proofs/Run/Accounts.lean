import TrapHooks.Proofs.Run.Machine

/-! What a task has done since it began. Others may have changed the engine between any two of these things,
    so they are read off the program alone: a task that has ended did what its program says, in this order,
    each time with the engine as it was then. All tasks below the latest wait for an answer. -/

namespace TrapHooks

namespace Program

variable {ρ α β : Type}

/-- The program has done these things, the first first, and this is left of it. -/
inductive Does : Program ρ α → List (Action ρ) → Program ρ α → Prop
  | nil (p : Program ρ α) : Does p [] p
  | cons {p p' q : Program ρ α} {e e' : Engine ρ} {action : Action ρ} {actions : List (Action ρ)}
    (acts : p.Acts e action e' p') (rest : Does p' actions q) : Does p (action :: actions) q

theorem Does.snoc {p q r : Program ρ α} {actions : List (Action ρ)} {e e' : Engine ρ} {action : Action ρ}
    (does : p.Does actions q) (acts : q.Acts e action e' r) : p.Does (actions ++ [action]) r := by
  induction does with
  | nil p => exact .cons acts (.nil r)
  | cons first rest ih => exact .cons first (ih acts)

/-! ### Programs that have ended -/

section
variable {actions : List (Action ρ)} {a b : α}

theorem does_done (does : (done a : Program ρ α).Does actions (done b)) : actions = [] ∧ a = b := by
  cases does with
  | nil => exact ⟨rfl, rfl⟩
  | cons acts rest => cases acts

theorem does_step {next : Engine ρ → Engine ρ} {rest : Engine ρ → Program ρ α}
    (does : (step next rest).Does actions (done b)) :
    ∃ e later, actions = .changed e (next e) :: later ∧ (rest e).Does later (done b) := by
  cases does with
  | cons acts rest => cases acts; exact ⟨_, _, rfl, rest⟩

theorem does_ask {r : Request} {rest : r.Reply → Program ρ α} (does : (ask r rest).Does actions (done b)) :
    ∃ reply later, actions = .replied r reply :: later ∧ (rest reply).Does later (done b) := by
  cases does with
  | cons acts rest => cases acts; exact ⟨_, _, rfl, rest⟩

theorem does_runTail {routine : ρ} {call : Call} {rest : Program ρ α}
    (does : (runTail routine call rest).Does actions (done b)) :
    ∃ later, actions = .tailRan routine call :: later ∧ rest.Does later (done b) := by
  cases does with
  | cons acts rest => cases acts; exact ⟨_, rfl, rest⟩

theorem does_tell {n : Notice} {rest : Program ρ α} (does : (tell n rest).Does actions (done b)) :
    ∃ later, actions = .told n :: later ∧ rest.Does later (done b) := by
  cases does with
  | cons acts rest => cases acts; exact ⟨_, rfl, rest⟩

end

/-- Of two programs in a row, the first is still at work, or it has ended and the second has gone on. -/
theorem does_bind_cases {p : Program ρ α} {f : α → Program ρ β} {actions : List (Action ρ)} {q : Program ρ β}
    (does : (p >>= f).Does actions q) :
    (∃ p', p.Does actions p' ∧ q = p' >>= f) ∨
      ∃ a first last, actions = first ++ last ∧ p.Does first (done a) ∧ (f a).Does last q := by
  generalize begun : p >>= f = whole at does
  induction does generalizing p with
  | nil =>
    subst begun
    exact .inl ⟨p, .nil p, rfl⟩
  | @cons whole whole' q e e' action actions acts later ih =>
    subst begun
    have goes {p' : Program ρ α} (acts : p.Acts e action e' p') (left : p' >>= f = whole') :
        (∃ p', p.Does (action :: actions) p' ∧ q = p' >>= f) ∨
          ∃ a first last, action :: actions = first ++ last ∧ p.Does first (done a) ∧ (f a).Does last q := by
      rcases ih left with ⟨p'', does, same⟩ | ⟨a, first, last, rfl, begins, ends⟩
      · exact .inl ⟨p'', .cons acts does, same⟩
      · exact .inr ⟨a, action :: first, last, rfl, .cons acts begins, ends⟩
    cases p with
    | done a => exact .inr ⟨a, [], action :: actions, rfl, .nil _, .cons acts later⟩
    | overflow => cases acts
    | step next rest =>
      cases acts
      exact goes (.change e next rest) rfl
    | ask r rest =>
      cases acts with
      | reply _ _ reply => exact goes (.reply e r rest reply) rfl
    | runHead routine call rest =>
      cases acts with
      | head _ _ _ decision => exact goes (.head e routine call rest decision) rfl
    | runTail routine call rest =>
      cases acts
      exact goes (.tail e routine call rest) rfl
    | tell n rest =>
      cases acts
      exact goes (.notice e n rest) rfl

/-- Of two programs in a row, the first has ended before the second began. -/
theorem does_bind {p : Program ρ α} {f : α → Program ρ β} {actions : List (Action ρ)} {b : β}
    (does : (p >>= f).Does actions (done b)) :
    ∃ a first last, actions = first ++ last ∧ p.Does first (done a) ∧ (f a).Does last (done b) := by
  rcases does_bind_cases does with ⟨p', begins, same⟩ | ended
  · cases p' with
    | done a => exact ⟨a, actions, [], by simp, begins, by rw [same]; exact .nil _⟩
    | _ => cases same
  · exact ended

section
variable {actions : List (Action ρ)} {b : β}

theorem does_request_bind {r : Request} {rest : r.Reply → Program ρ β}
    (does : (request r >>= rest).Does actions (done b)) :
    ∃ reply later, actions = .replied r reply :: later ∧ (rest reply).Does later (done b) := does_ask does

theorem does_request_cases {r : Request} {rest : r.Reply → Program ρ β} {q : Program ρ β}
    (does : (request r >>= rest).Does actions q) :
    actions = [] ∨ ∃ reply later, actions = .replied r reply :: later ∧ (rest reply).Does later q := by
  cases does with
  | nil => exact .inl rfl
  | cons acts others =>
    cases acts
    exact .inr ⟨_, _, rfl, others⟩

theorem does_notice_bind {n : Notice} {rest : Unit → Program ρ β} (does : (notice n >>= rest).Does actions (done b)) :
    ∃ later, actions = .told n :: later ∧ (rest ()).Does later (done b) := does_tell does

theorem does_overflow {q : Program ρ α} (does : (overflow : Program ρ α).Does actions q) :
    actions = [] ∧ q = overflow := by
  cases does with
  | nil => exact ⟨rfl, rfl⟩
  | cons acts others => cases acts

/-- A sum was formed, so it fits. -/
theorem does_sum_bind {x y : UInt32} {rest : UInt32 → Program ρ β} (does : (sum x y >>= rest).Does actions (done b)) :
    ∃ z, sum? x y = some z ∧ (rest z).Does actions (done b) := by
  unfold sum at does
  cases fits : sum? x y with
  | some z =>
    rw [fits] at does
    exact ⟨z, rfl, does⟩
  | none =>
    rw [fits] at does
    cases (does_overflow does).2

theorem does_get_bind {rest : Engine ρ → Program ρ β} (does : (get >>= rest).Does actions (done b)) :
    ∃ e later, actions = .changed e e :: later ∧ (rest e).Does later (done b) := does_step does

end

/-! ### Programs that ask nobody -/

/-- Whatever the engine is, the program never waits for an answer. -/
def Silent : Program ρ α → Prop
  | done _ | overflow => True
  | step _ rest => ∀ e, (rest e).Silent
  | tell _ rest => rest.Silent
  | ask _ _ | runHead _ _ _ | runTail _ _ _ => False

theorem silent_bind {p : Program ρ α} {f : α → Program ρ β} (silent : p.Silent) (later : ∀ a, (f a).Silent) :
    (p >>= f).Silent := by
  induction p with
  | done a => exact later a
  | overflow => trivial
  | step next rest ih => exact fun e => ih e (silent e)
  | tell n rest ih => exact ih silent
  | ask r rest => exact silent.elim
  | runHead routine call rest => exact silent.elim
  | runTail routine call rest => exact silent.elim

theorem Silent.not_waits {p : Program ρ α} (silent : p.Silent) : ¬p.Waits := by
  cases p <;> first | exact id | exact silent.elim

theorem Does.silent {p q : Program ρ α} {actions : List (Action ρ)} (does : p.Does actions q) (silent : p.Silent) :
    q.Silent := by
  induction does with
  | nil p => exact silent
  | @cons p p' q e e' action actions acts rest ih =>
    refine ih ?_
    cases acts with
    | change next rest => exact silent e
    | reply r rest reply => exact silent.elim
    | head routine call rest decision => exact silent.elim
    | tail routine call => exact silent.elim
    | notice n => exact silent

end Program

/-! ### Tasks -/

namespace Machine

variable {ρ : Type} {m n : Machine ρ} {event : Event ρ}

/-- Each task has done what its program says, and all but the latest wait for an answer. -/
structure Orderly (m : Machine ρ) : Prop where
  does : ∀ t ∈ m.tasks, t.stage.program.Does t.done t.rest
  waits : ∀ t ∈ m.tasks.tail, t.rest.Waits

theorem orderly_of_idle (idle : m.tasks = []) : m.Orderly := ⟨by simp [idle], by simp [idle]⟩

theorem orderly_fresh (config : Config) (registry : Registry ρ) (marks : Marks) :
    (fresh config registry marks).Orderly := orderly_of_idle rfl

/-- When it is not the engine's turn, all tasks wait. -/
theorem Orderly.waits_of_atRest (orderly : m.Orderly) (rests : m.AtRest) : ∀ t ∈ m.tasks, t.rest.Waits := by
  obtain ⟨e, tasks⟩ := m
  cases tasks with
  | nil => simp
  | cons top below => exact List.forall_mem_cons.mpr ⟨rests top rfl, orderly.waits⟩

theorem Step.orderly (step : m.Step event n) (orderly : m.Orderly) : n.Orderly := by
  cases step with
  | enter m s entry rests =>
    exact ⟨List.forall_mem_cons.mpr ⟨.nil s.program, orderly.does⟩, orderly.waits_of_atRest rests⟩
  | act acts done below =>
    obtain ⟨top, others⟩ := List.forall_mem_cons.mp orderly.does
    exact ⟨List.forall_mem_cons.mpr ⟨top.snoc acts, others⟩, orderly.waits⟩
  | finish e s result done below =>
    obtain ⟨-, others⟩ := List.forall_mem_cons.mp orderly.does
    cases s.next result with
    | none => exact ⟨others, fun t member => orderly.waits t (List.mem_of_mem_tail member)⟩
    | some s' => exact ⟨List.forall_mem_cons.mpr ⟨.nil s'.program, others⟩, orderly.waits⟩

theorem Step.mem_tasks {s : Stage ρ} {result : s.Result} {done : List (Action ρ)}
    (step : m.Step (.finished s result done) n) : ⟨s, .done result, done⟩ ∈ m.tasks := by
  cases step
  exact List.mem_cons_self

theorem Step.does {s : Stage ρ} {result : s.Result} {done : List (Action ρ)}
    (step : m.Step (.finished s result done) n) (orderly : m.Orderly) : s.program.Does done (.done result) :=
  orderly.does _ step.mem_tasks

theorem Step.engine_before {s : Stage ρ} {before after : Engine ρ}
    (step : m.Step (.acted s (.changed before after)) n) : m.engine = before := by
  cases step with
  | act acts done below =>
    cases acts
    rfl

theorem Step.engine_after {s : Stage ρ} {before after : Engine ρ}
    (step : m.Step (.acted s (.changed before after)) n) : n.engine = after := by
  cases step with
  | act acts done below =>
    cases acts
    rfl

/-- The engine is as it was, or as somebody who acts has changed it. -/
theorem Step.engine_eq_or (step : m.Step event n) :
    n.engine = m.engine ∨ ∃ s, event = .acted s (.changed m.engine n.engine) := by
  cases step with
  | enter m s entry rests => exact .inl rfl
  | finish e s result done below => exact .inl rfl
  | @act e e' s p p' action acts done below =>
    cases acts with
    | change next rest => exact .inr ⟨s, rfl⟩
    | _ => exact .inl rfl

end Machine

section
variable {ρ : Type} {m n : Machine ρ} {trace : List (Moment ρ)}

theorem Run.orderly (run : Run m trace n) (orderly : m.Orderly) : n.Orderly := by
  induction run with
  | nil => exact orderly
  | snoc run step ih => exact step.orderly ih

/-- A run may be cut at any of its moments. -/
theorem Run.split {earlier later : List (Moment ρ)} {x : Moment ρ} (run : Run m (earlier ++ x :: later) n) :
    ∃ k, Run m earlier k ∧ k.Step x.event x.after := by
  -- From the end: the cut is at the last moment, or in the run before it.
  generalize whole : earlier ++ x :: later = trace at run
  induction run generalizing later with
  | nil => simp at whole
  | @snoc trace k l event run step ih =>
    rcases List.eq_nil_or_concat later with rfl | ⟨front, last, rfl⟩
    · obtain ⟨rfl, same⟩ := List.append_inj' whole rfl
      cases same
      exact ⟨k, run, step⟩
    · rw [List.concat_eq_append, ← List.cons_append, ← List.append_assoc] at whole
      exact ih (List.append_inj' whole rfl).1

theorem Run.step_of_mem {x : Moment ρ} (run : Run m trace n) (member : x ∈ trace) :
    ∃ earlier later k, trace = earlier ++ x :: later ∧ Run m earlier k ∧ k.Step x.event x.after := by
  obtain ⟨earlier, later, rfl⟩ := List.append_of_mem member
  obtain ⟨k, before, step⟩ := run.split
  exact ⟨earlier, later, k, rfl, before, step⟩

theorem Run.does_of_mem {x : Moment ρ} (run : Run m trace n) (orderly : m.Orderly) (member : x ∈ trace) :
    ∀ t ∈ x.after.tasks, t.stage.program.Does t.done t.rest := by
  obtain ⟨_, _, k, -, before, step⟩ := run.step_of_mem member
  exact (step.orderly (before.orderly orderly)).does

/-- What is found in the engine at the end and not at the start was put there by some change. -/
theorem Run.put {β : Type} {f : Engine ρ → β} (run : Run m trace n) (new : f m.engine ≠ f n.engine) :
    ∃ x ∈ trace, ∃ s before, x.event = .acted s (.changed before x.after.engine) ∧ f before ≠ f n.engine ∧
      f x.after.engine = f n.engine := by
  induction run with
  | nil => exact absurd rfl new
  | @snoc trace k l event run step ih =>
    by_cases there : f k.engine = f l.engine
    · obtain ⟨x, member, s, before, changed, other, same⟩ := ih (there ▸ new)
      exact ⟨x, List.mem_append_left _ member, s, before, changed, there ▸ other, same.trans there⟩
    · rcases step.engine_eq_or with same | ⟨s, changed⟩
      · exact absurd (congrArg f same).symm there
      · exact ⟨⟨event, l⟩, List.mem_append_right _ (List.mem_singleton_self _), s, k.engine, changed, there, rfl⟩

theorem Run.balance {p q : Event ρ → Bool} {f : Machine ρ → Nat} (run : Run m trace n)
    (steps : ∀ {earlier later : List (Moment ρ)} {x : Moment ρ} {k : Machine ρ}, trace = earlier ++ x :: later →
      Run m earlier k → k.Step x.event x.after → f k + (p x.event).toNat = (q x.event).toNat + f x.after) :
    f m + trace.countP (fun x => p x.event) = trace.countP (fun x => q x.event) + f n := by
  induction run with
  | nil => simp
  | @snoc trace k l event run step ih =>
    have before := ih fun split => steps (by rw [split, List.append_assoc]; rfl)
    have last : f k + (p event).toNat = (q event).toNat + f l := steps (x := ⟨event, l⟩) rfl run step
    have count (p : Event ρ → Bool) : (trace ++ [(⟨event, l⟩ : Moment ρ)]).countP (fun x => p x.event) =
        trace.countP (fun x => p x.event) + (p event).toNat := by
      rw [List.countP_append, List.countP_singleton]
      cases p event <;> rfl
    rw [count p, count q]
    omega

end

end TrapHooks
