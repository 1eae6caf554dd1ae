import TrapHooks.Proofs.Run.Permits
import TrapHooks.Proofs.Run.Undisturbed

/-! Runs in a surrounding that has a state of its own. The surrounding moves when it is not the engine's turn,
    replies by its state, and notices what the engine does. A program secures an invariant of both sides if it
    finds it when it begins and after each reply, and has it when it asks and when it ends; what it then has
    done and what it gives can be read off at its end. If all stages secure an invariant, it holds whenever
    the engine is at rest. -/

namespace TrapHooks

variable {ρ W α β : Type}

structure Surrounding (ρ W : Type) where
  /-- How it may change by itself. -/
  Moves : Engine ρ → W → W → Prop
  /-- What it may reply, and how it is then. -/
  Replies : W → (r : Request) → r.Reply → W → Prop
  /-- Whether it lets a stage change the engine in this way, and how it is then. -/
  Lets : W → Stage ρ → (Engine ρ → Engine ρ) → Engine ρ → W → Prop

/-- The stage that is at work is about to change the engine in this way. -/
def Machine.Next (m : Machine ρ) (s : Stage ρ) (next : Engine ρ → Engine ρ) : Prop :=
  ∃ rest done below, m.tasks = ⟨s, .step next rest, done⟩ :: below

namespace Surrounding

variable (S : Surrounding ρ W)

/-- The surrounding agrees to what happens next. -/
def Fits (w : W) (m : Machine ρ) : Event ρ → W → Prop
  | .acted s (.changed _ _), v => ∃ next, m.Next s next ∧ S.Lets w s next m.engine v
  | .acted _ (.replied r reply), v => S.Replies w r reply v
  | _, v => v = w

inductive Run (m : Machine ρ) (w : W) : List (Moment ρ) → Machine ρ → W → Prop
  | nil : Run m w [] m w
  | move {trace : List (Moment ρ)} {n : Machine ρ} {v v' : W} (run : Run m w trace n v) (rests : n.AtRest)
    (moves : S.Moves n.engine v v') : Run m w trace n v'
  | snoc {trace : List (Moment ρ)} {n k : Machine ρ} {v v' : W} {event : Event ρ} (run : Run m w trace n v)
    (step : n.Step event k) (fits : S.Fits v n event v') : Run m w (trace ++ [⟨event, k⟩]) k v'

end Surrounding

variable {S : Surrounding ρ W}

theorem Surrounding.Run.run {m n : Machine ρ} {w v : W} {trace : List (Moment ρ)} (run : S.Run m w trace n v) :
    TrapHooks.Run m trace n := by
  induction run with
  | nil => exact .nil
  | move run rests moves ih => exact ih
  | snoc run step fits ih => exact .snoc ih step

/-! ### Programs -/

namespace Program

/-- As part of this stage and after these actions, the program secures `I`, and `Q` at its end. -/
def Secures (S : Surrounding ρ W) (s : Stage ρ) (I : Engine ρ → W → Prop)
    (Q : List (Action ρ) → α → Engine ρ → W → Prop) : Program ρ α → List (Action ρ) → Engine ρ → W → Prop
  | done a, did, e, w => Q did a e w
  | overflow, _, _, _ => True
  | step next rest, did, e, w =>
    ∀ v, S.Lets w s next e v → (rest e).Secures S s I Q (did ++ [.changed e (next e)]) (next e) v
  | ask r rest, did, e, w =>
    I e w ∧ ∀ reply e' w' v, I e' w' → S.Replies w' r reply v →
      (rest reply).Secures S s I Q (did ++ [.replied r reply]) e' v
  | runHead routine call rest, did, e, w =>
    I e w ∧ ∀ decision e' w', I e' w' → (rest decision).Secures S s I Q (did ++ [.headRan routine call decision]) e' w'
  | runTail routine call rest, did, e, w =>
    I e w ∧ ∀ e' w', I e' w' → rest.Secures S s I Q (did ++ [.tailRan routine call]) e' w'
  | tell n rest, did, e, w => rest.Secures S s I Q (did ++ [.told n]) e w

variable {s : Stage ρ} {I : Engine ρ → W → Prop} {did : List (Action ρ)} {e : Engine ρ} {w : W}

theorem Secures.mono {Q Q' : List (Action ρ) → α → Engine ρ → W → Prop} {p : Program ρ α}
    (secures : p.Secures S s I Q did e w) (weaker : ∀ did a e w, Q did a e w → Q' did a e w) :
    p.Secures S s I Q' did e w := by
  induction p generalizing did e w with
  | done a => exact weaker did a e w secures
  | overflow => trivial
  | step next rest ih => exact fun v lets => ih e (secures v lets)
  | ask r rest ih => exact ⟨secures.1, fun reply e' w' v holds fits => ih reply (secures.2 reply e' w' v holds fits)⟩
  | runHead routine call rest ih =>
    exact ⟨secures.1, fun decision e' w' holds => ih decision (secures.2 decision e' w' holds)⟩
  | runTail routine call rest ih => exact ⟨secures.1, fun e' w' holds => ih (secures.2 e' w' holds)⟩
  | tell n rest ih => exact ih secures

theorem secures_bind {Q : List (Action ρ) → β → Engine ρ → W → Prop} {p : Program ρ α} {f : α → Program ρ β}
    (secures : p.Secures S s I (fun did a e w => (f a).Secures S s I Q did e w) did e w) :
    (p >>= f).Secures S s I Q did e w := by
  induction p generalizing did e w with
  | done a => exact secures
  | overflow => trivial
  | step next rest ih => exact fun v lets => ih e (secures v lets)
  | ask r rest ih => exact ⟨secures.1, fun reply e' w' v holds fits => ih reply (secures.2 reply e' w' v holds fits)⟩
  | runHead routine call rest ih =>
    exact ⟨secures.1, fun decision e' w' holds => ih decision (secures.2 decision e' w' holds)⟩
  | runTail routine call rest ih => exact ⟨secures.1, fun e' w' holds => ih (secures.2 e' w' holds)⟩
  | tell n rest ih => exact ih secures

theorem secures_modifyGet {Q : List (Action ρ) → β → Engine ρ → W → Prop} {g : Engine ρ → α × Engine ρ}
    {f : α → Program ρ β} (secures : ∀ v, S.Lets w s (fun e => (g e).2) e v →
      (f (g e).1).Secures S s I Q (did ++ [.changed e (g e).2]) (g e).2 v) :
    (modifyGet g >>= f).Secures S s I Q did e w := secures

theorem secures_get {Q : List (Action ρ) → α → Engine ρ → W → Prop} {f : Engine ρ → Program ρ α}
    (secures : ∀ v, S.Lets w s id e v → (f e).Secures S s I Q (did ++ [.changed e e]) e v) :
    (get >>= f).Secures S s I Q did e w := secures

/-- A program secures an invariant that each of its changes keeps. -/
theorem Makes.secures {P : Change ρ → Prop} {p : Program ρ α} (makes : p.Makes P)
    (kept : ∀ c, P c → ∀ next e w v, next e = c.apply e → I e w → S.Lets w s next e v → I (c.apply e) v)
    (replied : ∀ r reply e w v, I e w → S.Replies w r reply v → I e v) (holds : I e w) :
    p.Secures S s I (fun _ _ e w => I e w) did e w := by
  induction p generalizing did e w with
  | done a => exact holds
  | overflow => trivial
  | step next rest ih =>
    intro v lets
    obtain ⟨⟨c, made, eq⟩, others⟩ := makes e
    refine ih e others ?_
    rw [eq]
    exact kept c made next e w v eq holds lets
  | ask r rest ih =>
    exact ⟨holds, fun reply e' w' v holds' fits => ih reply (makes reply) (replied r reply e' w' v holds' fits)⟩
  | runHead routine call rest ih => exact ⟨holds, fun decision e' w' holds' => ih decision (makes decision) holds'⟩
  | runTail routine call rest ih => exact ⟨holds, fun e' w' holds' => ih makes holds'⟩
  | tell n rest ih => exact ih makes holds

theorem secures_forM_notice {Q : List (Action ρ) → α → Engine ρ → W → Prop} {γ : Type} (l : List γ) (n : γ → Notice)
    {p : Program ρ α} (secures : ∀ did, p.Secures S s I Q did e w) (did : List (Action ρ)) :
    ((l.forM fun x => notice (n x)) >>= fun _ => p).Secures S s I Q did e w := by
  induction l generalizing did with
  | nil => exact secures did
  | cons x l ih => exact ih (did ++ [.told (n x)])

theorem Secures.of_waits {Q : List (Action ρ) → α → Engine ρ → W → Prop} {p : Program ρ α} {e' : Engine ρ} {w' : W}
    (secures : p.Secures S s I Q did e w) (waits : p.Waits) (holds : I e' w') : p.Secures S s I Q did e' w' := by
  cases p with
  | ask r rest => exact ⟨holds, secures.2⟩
  | runHead routine call rest => exact ⟨holds, secures.2⟩
  | runTail routine call rest => exact ⟨holds, secures.2⟩
  | _ => exact waits.elim

theorem Secures.holds_of_waits {Q : List (Action ρ) → α → Engine ρ → W → Prop} {p : Program ρ α}
    (secures : p.Secures S s I Q did e w) (waits : p.Waits) : I e w := by
  cases p with
  | ask r rest => exact secures.1
  | runHead routine call rest => exact secures.1
  | runTail routine call rest => exact secures.1
  | _ => exact waits.elim

end Program

/-! ### Runs -/

/-- What is said of a stage at its end: what it did, what it gave, and what it left. -/
abbrev StagePost (ρ W : Type) : Type :=
  (s : Stage ρ) → List (Action ρ) → s.Result → Engine ρ → W → Prop

/-- Whenever it begins where the invariant holds, the stage secures it, and ends as it should. -/
def Stage.Secures (S : Surrounding ρ W) (I : Engine ρ → W → Prop) (Q : StagePost ρ W) (s : Stage ρ) : Prop :=
  ∀ e w, I e w → s.program.Secures S s I (fun did a e w => I e w ∧ Q s did a e w) [] e w

namespace Machine

variable {m n : Machine ρ} {event : Event ρ} {I : Engine ρ → W → Prop} {Q : StagePost ρ W} {w v : W}

/-- The latest task secures its part from this moment on, the others once they find the invariant. -/
structure Secured (S : Surrounding ρ W) (I : Engine ρ → W → Prop) (Q : StagePost ρ W) (m : Machine ρ) (w : W) :
    Prop where
  idle : m.tasks = [] → I m.engine w
  latest : ∀ t ∈ m.tasks.head?,
    t.rest.Secures S t.stage I (fun did a e w => I e w ∧ Q t.stage did a e w) t.done m.engine w
  others : ∀ t ∈ m.tasks.tail, ∀ e w, I e w →
    t.rest.Secures S t.stage I (fun did a e w => I e w ∧ Q t.stage did a e w) t.done e w

theorem Secured.holds (secured : m.Secured S I Q w) (rests : m.AtRest) : I m.engine w := by
  obtain ⟨e, tasks⟩ := m
  cases tasks with
  | nil => exact secured.idle rfl
  | cons top below => exact (secured.latest top rfl).holds_of_waits (rests top rfl)

theorem Secured.move (secured : m.Secured S I Q w) (rests : m.AtRest) (holds : I m.engine v) :
    m.Secured S I Q v where
  idle _ := holds
  latest t top := (secured.latest t top).of_waits (rests t top) holds
  others := secured.others

theorem Step.secured (step : m.Step event n) (fits : S.Fits w m event v) (entries : ∀ s : Stage ρ, s.Secures S I Q)
    (secured : m.Secured S I Q w) : n.Secured S I Q v := by
  cases step with
  | enter m s entry rests =>
    obtain rfl : v = w := fits
    have holds := secured.holds rests
    refine ⟨nofun, fun t top => ?_, fun t member e w' holds' => ?_⟩
    · cases top
      exact entries s m.engine v holds
    · -- The task that was the latest waits from now on, so it counts on the invariant and nothing else.
      cases tasks : m.tasks with
      | nil => simp [tasks] at member
      | cons top below =>
        have latest : top ∈ m.tasks.head? := by rw [tasks]; rfl
        rcases List.mem_cons.mp (tasks ▸ member) with rfl | member
        · exact (secured.latest t latest).of_waits (rests t latest) holds'
        · exact secured.others t (by rw [tasks]; exact member) e w' holds'
  | @act e e' s p p' action acts done below =>
    refine ⟨nofun, fun t top => ?_, secured.others⟩
    cases top
    have secures := secured.latest _ rfl
    cases acts with
    | change next rest =>
      obtain ⟨next', ⟨rest', done', below', same⟩, lets⟩ := fits
      cases same
      exact secures v lets
    | reply r rest reply => exact secures.2 reply e w v secures.1 fits
    | head routine call rest decision =>
      obtain rfl : v = w := fits
      exact secures.2 decision e v secures.1
    | tail routine call =>
      obtain rfl : v = w := fits
      exact secures.2 e v secures.1
    | notice n =>
      obtain rfl : v = w := fits
      exact secures
  | finish e s result done below =>
    obtain rfl : v = w := fits
    have holds : I e v := (secured.latest _ rfl).1
    cases s.next result with
    | none =>
      refine ⟨fun _ => holds, fun t top => ?_, fun t member => ?_⟩
      · exact secured.others t (List.mem_of_mem_head? top) e v holds
      · exact secured.others t (List.mem_of_mem_tail member)
    | some s' =>
      refine ⟨nofun, fun t top => ?_, secured.others⟩
      cases top
      exact entries s' e v holds

/-- A stage that has secured its part ends as it should. -/
theorem Secured.finished (secured : m.Secured S I Q w) {s : Stage ρ} {result : s.Result} {done : List (Action ρ)}
    (step : m.Step (.finished s result done) n) : Q s done result m.engine w := by
  cases step
  exact (secured.latest _ rfl).2

end Machine

namespace Surrounding.Run

variable {m n : Machine ρ} {trace trace' : List (Moment ρ)} {I : Engine ρ → W → Prop} {Q : StagePost ρ W} {w v : W}

theorem secured (run : S.Run m w trace n v) (entries : ∀ s : Stage ρ, s.Secures S I Q)
    (moves : ∀ e w v, I e w → S.Moves e w v → I e v) (start : m.Secured S I Q w) : n.Secured S I Q v := by
  induction run with
  | nil => exact start
  | move run rests moved ih => exact ih.move rests (moves _ _ _ (ih.holds rests) moved)
  | snoc run step fits ih => exact step.secured fits entries ih

theorem secured_of_fresh {config : Config} {registry : Registry ρ} {marks : Marks}
    (run : S.Run (.fresh config registry marks) w trace n v) (entries : ∀ s : Stage ρ, s.Secures S I Q)
    (moves : ∀ e w v, I e w → S.Moves e w v → I e v) (holds : I (Machine.fresh config registry marks).engine w) :
    n.Secured S I Q v :=
  run.secured entries moves ⟨fun _ => holds, nofun, nofun⟩

/-- A task that the surrounding lets do all it does, without taking note of it, comes to its end. -/
theorem through {e e' : Engine ρ} {s : Stage ρ} {p : Program ρ s.Result} {actions done : List (Action ρ)}
    {result : s.Result} {below : List (Task ρ)} (run : S.Run m w trace ⟨e, ⟨s, p, done⟩ :: below⟩ v)
    (yields : p.Yields e actions e' result) (lets : ∀ next e, S.Lets v s next e v)
    (replies : ∀ r reply, .replied r reply ∈ actions → S.Replies v r reply v) :
    ∃ trace', S.Run m w trace' ⟨e', ⟨s, .done result, done ++ actions⟩ :: below⟩ v := by
  induction yields generalizing trace done with
  | done e a =>
    rw [List.append_nil]
    exact ⟨trace, run⟩
  | @act e e' e'' p p' action actions a acts rest ih =>
    have fits : S.Fits v ⟨e, ⟨s, p, done⟩ :: below⟩ (.acted s action) v := by
      cases acts with
      | change next _ => exact ⟨next, ⟨_, done, below, rfl⟩, lets next e⟩
      | reply r rest reply => exact replies r reply List.mem_cons_self
      | _ => rfl
    obtain ⟨trace', later⟩ := ih (.snoc run (.act acts done below) fits) fun r reply member =>
      replies r reply (List.mem_cons_of_mem _ member)
    rw [List.append_assoc] at later
    exact ⟨trace', later⟩

theorem stage {s : Stage ρ} (run : S.Run m w trace n v) (entry : s.isEntry) (rests : n.AtRest)
    {answers : Program.Answers ρ} {result : s.Result} {e : Engine ρ}
    (ends : s.program.alone answers n.engine = some (result, e)) (lets : ∀ next e, S.Lets v s next e v)
    (replies : ∀ r, S.Replies v r (answers.reply r) v) :
    ∃ trace' done, S.Run m w trace' ⟨e, ⟨s, .done result, done⟩ :: n.tasks⟩ v := by
  obtain ⟨actions, yields, replied⟩ := Program.yields_alone ends
  obtain ⟨trace', later⟩ := (run.snoc (.enter n s entry rests) rfl).through yields lets fun r reply member =>
    replied r reply member ▸ replies r
  exact ⟨trace', _, later⟩

end Surrounding.Run

end TrapHooks
