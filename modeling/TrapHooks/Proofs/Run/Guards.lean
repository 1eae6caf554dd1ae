import TrapHooks.Proofs.Run.Permits

/-! What holds of the engine whenever others can meet it. A program may break an invariant in between, if it
    restores it before it asks anybody and before it ends; others then find it whenever they enter, and a
    program finds it again after each answer, whatever was done meanwhile. -/

namespace TrapHooks

namespace Program

variable {ρ α β : Type} {I : Engine ρ → Prop}

/-- From this engine on, the program has the invariant restored whenever it asks somebody, and when it ends,
    given that it finds it after each answer. -/
def Guards (I : Engine ρ → Prop) : Program ρ α → Engine ρ → Prop
  | done _, e => I e
  | overflow, _ => True
  | step next rest, e => (rest e).Guards I (next e)
  | ask _ rest, e => I e ∧ ∀ reply e', I e' → (rest reply).Guards I e'
  | runHead _ _ rest, e => I e ∧ ∀ decision e', I e' → (rest decision).Guards I e'
  | runTail _ _ rest, e => I e ∧ ∀ e', I e' → rest.Guards I e'
  | tell _ rest, e => rest.Guards I e

/-- A program keeps an invariant that each of its changes keeps. -/
theorem Makes.guards {P : Change ρ → Prop} {p : Program ρ α} (makes : p.Makes P)
    (kept : ∀ c, P c → ∀ e, I e → I (c.apply e)) {e : Engine ρ} (holds : I e) : p.Guards I e := by
  induction p generalizing e with
  | done a => exact holds
  | overflow => trivial
  | step next rest ih =>
    obtain ⟨⟨c, made, eq⟩, others⟩ := makes e
    show ((rest e).Guards I (next e))
    rw [eq]
    exact ih e others (kept c made e holds)
  | ask r rest ih => exact ⟨holds, fun reply e' holds' => ih reply (makes reply) holds'⟩
  | runHead routine call rest ih => exact ⟨holds, fun decision e' holds' => ih decision (makes decision) holds'⟩
  | runTail routine call rest ih => exact ⟨holds, fun e' holds' => ih makes holds'⟩
  | tell n rest ih => exact ih makes holds

theorem Guards.of_waits {p : Program ρ α} {e e' : Engine ρ} (guards : p.Guards I e) (waits : p.Waits) (holds : I e') :
    p.Guards I e' := by
  cases p with
  | ask r rest => exact ⟨holds, guards.2⟩
  | runHead routine call rest => exact ⟨holds, guards.2⟩
  | runTail routine call rest => exact ⟨holds, guards.2⟩
  | _ => exact waits.elim

theorem Guards.holds_of_waits {p : Program ρ α} {e : Engine ρ} (guards : p.Guards I e) (waits : p.Waits) : I e := by
  cases p with
  | ask r rest => exact guards.1
  | runHead routine call rest => exact guards.1
  | runTail routine call rest => exact guards.1
  | _ => exact waits.elim

end Program

namespace Machine

variable {ρ : Type} {m n : Machine ρ} {event : Event ρ} {I : Engine ρ → Prop}

/-- The latest task has the invariant restored when it next asks or ends; the others find it when they go on. -/
structure Guarded (I : Engine ρ → Prop) (m : Machine ρ) : Prop where
  idle : m.tasks = [] → I m.engine
  latest : ∀ t ∈ m.tasks.head?, t.rest.Guards I m.engine
  others : ∀ t ∈ m.tasks.tail, ∀ e, I e → t.rest.Guards I e

theorem Guarded.holds (guarded : m.Guarded I) (rests : m.AtRest) : I m.engine := by
  obtain ⟨e, tasks⟩ := m
  cases tasks with
  | nil => exact guarded.idle rfl
  | cons top below => exact (guarded.latest top rfl).holds_of_waits (rests top rfl)

theorem Step.guarded (step : m.Step event n) (entries : ∀ (s : Stage ρ) e, I e → s.program.Guards I e)
    (guarded : m.Guarded I) : n.Guarded I := by
  cases step with
  | enter m s entry rests =>
    have holds := guarded.holds rests
    refine ⟨nofun, fun t top => ?_, fun t member e holds' => ?_⟩
    · cases top
      exact entries s m.engine holds
    · -- The task that was the latest waits from now on, so it counts on the invariant and nothing else.
      cases tasks : m.tasks with
      | nil => simp [tasks] at member
      | cons top below =>
        have latest : top ∈ m.tasks.head? := by rw [tasks]; rfl
        rcases List.mem_cons.mp (tasks ▸ member) with rfl | member
        · exact (guarded.latest t latest).of_waits (rests t latest) holds'
        · exact guarded.others t (by rw [tasks]; exact member) e holds'
  | @act e e' s p p' action acts done below =>
    refine ⟨nofun, fun t top => ?_, guarded.others⟩
    cases top
    have guards := guarded.latest _ rfl
    cases acts with
    | change next rest => exact guards
    | reply r rest reply => exact guards.2 reply e guards.1
    | head routine call rest decision => exact guards.2 decision e guards.1
    | tail routine call => exact guards.2 e guards.1
    | notice n => exact guards
  | finish e s result done below =>
    have holds : I e := guarded.latest _ rfl
    cases s.next result with
    | none =>
      refine ⟨fun _ => holds, fun t top => ?_, fun t member => ?_⟩
      · exact guarded.others t (List.mem_of_mem_head? top) e holds
      · exact guarded.others t (List.mem_of_mem_tail member)
    | some s' =>
      refine ⟨nofun, fun t top => ?_, guarded.others⟩
      cases top
      exact entries s' e holds

end Machine

theorem Run.guarded {ρ : Type} {m n : Machine ρ} {trace : List (Moment ρ)} {I : Engine ρ → Prop}
    (run : Run m trace n) (entries : ∀ (s : Stage ρ) e, I e → s.program.Guards I e) (guarded : m.Guarded I) :
    n.Guarded I := by
  induction run with
  | nil => exact guarded
  | snoc run step ih => exact step.guarded entries ih

end TrapHooks
