import Mathlib.Data.List.Induction
import TrapHooks.Proofs.Run.Span

/-! Histories: the moments of a run together with what somebody outside does by himself meanwhile, as when input
    comes or a session asks for something. What he has at any time is told by all that has happened until then, and
    by that it is told whether a reply of his is right. -/

namespace TrapHooks

variable {ρ σ W : Type}

/-! ### Tasks and their begin -/

theorem Run.eq_of_nil {m n : Machine ρ} (run : Run m [] n) : n = m := by
  generalize nothing : ([] : List (Moment ρ)) = trace at run
  cases run with
  | nil => rfl
  | snoc => simp at nothing

theorem Run.cut_last {m n : Machine ρ} {trace : List (Moment ρ)} {x : Moment ρ} (run : Run m (trace ++ [x]) n) :
    ∃ k, Run m trace k ∧ k.Step x.event x.after ∧ x.after = n := by
  obtain ⟨k, before, step⟩ := run.split
  exact ⟨k, before, step, run.tail.eq_of_nil.symm⟩

/-- Where a run leads to is told by its moments. -/
theorem Run.unique {m n n' : Machine ρ} {trace : List (Moment ρ)} (run : Run m trace n) (run' : Run m trace n') :
    n = n' := by
  rcases List.eq_nil_or_concat trace with rfl | ⟨front, x, rfl⟩
  · exact run.eq_of_nil.trans run'.eq_of_nil.symm
  · rw [List.concat_eq_append] at run run'
    obtain ⟨-, -, -, rfl⟩ := run.cut_last
    obtain ⟨-, -, -, rfl⟩ := run'.cut_last
    rfl

theorem Run.cut {m n : Machine ρ} {first last : List (Moment ρ)} (run : Run m (first ++ last) n) :
    ∃ k, Run m first k ∧ Run k last n := by
  induction last using List.reverseRecOn generalizing n with
  | nil => exact ⟨n, by simpa using run, .nil⟩
  | append_singleton last x ih =>
    rw [← List.append_assoc] at run
    obtain ⟨l, before, step, rfl⟩ := run.cut_last
    obtain ⟨k, begins, goes⟩ := ih before
    exact ⟨k, begins, .snoc goes step⟩

/-- Every task has begun at some moment, and was there from then on. -/
theorem Run.begun {m n : Machine ρ} {trace : List (Moment ρ)} (run : Run m trace n) (idle : m.tasks = [])
    {above below : List (Task ρ)} {t : Task ρ} (tasks : n.tasks = above ++ t :: below) :
    ∃ earlier x later, trace = earlier ++ x :: later ∧ x.after.tasks = .begin t.stage :: below ∧
      ∀ y ∈ later, y.after.Works t.stage below := by
  induction run generalizing above t with
  | nil => simp [idle] at tasks
  | @snoc trace k l event run step ih =>
    -- A task that was there before has begun before, and is still there.
    have before {a : List (Task ρ)} {u : Task ρ} (same : u.stage = t.stage)
        (there : k.tasks = a ++ u :: below) : ∃ earlier x later, trace ++ [⟨event, l⟩] = earlier ++ x :: later ∧
          x.after.tasks = .begin t.stage :: below ∧ ∀ y ∈ later, y.after.Works t.stage below := by
      obtain ⟨earlier, x, later, rfl, begins, works⟩ := ih there
      rw [same] at begins works
      refine ⟨earlier, x, later ++ [⟨event, l⟩], by simp, begins, List.forall_mem_append.mpr ⟨works, ?_⟩⟩
      exact List.forall_mem_singleton.mpr ⟨above, t.rest, t.done, tasks⟩
    cases step with
    | enter k s entry rests =>
      cases above with
      | nil =>
        obtain ⟨rfl, rfl⟩ := List.cons.inj tasks
        exact ⟨trace, _, [], rfl, rfl, by simp⟩
      | cons top above => exact before rfl (List.cons.inj tasks).2
    | act acts done others =>
      cases above with
      | nil =>
        obtain ⟨rfl, rfl⟩ := List.cons.inj tasks
        exact before (a := []) (u := ⟨_, _, done⟩) rfl rfl
      | cons top above =>
        obtain ⟨-, rfl⟩ := List.cons.inj tasks
        exact before (a := _ :: above) rfl rfl
    | finish e s result done others =>
      rcases Option.eq_none_or_eq_some (s.next result) with follows | ⟨s', follows⟩
      · have left : others = above ++ t :: below := by simpa [follows] using tasks
        exact before (a := _ :: above) rfl (congrArg (List.cons _) left)
      · have left : .begin s' :: others = above ++ t :: below := by simpa [follows] using tasks
        cases above with
        | nil =>
          obtain ⟨rfl, rfl⟩ := List.cons.inj left
          exact ⟨trace, _, [], rfl, by simp [follows, Task.begin], by simp⟩
        | cons top above =>
          obtain ⟨-, rfl⟩ := List.cons.inj left
          exact before (a := _ :: above) rfl rfl

/-- What a task has done it did at moments of its own, since it began. -/
theorem Run.span_of_task {m n : Machine ρ} {trace : List (Moment ρ)} (run : Run m trace n) (idle : m.tasks = [])
    {above below : List (Task ρ)} {s : Stage ρ} {rest : Program ρ s.Result} {did : List (Action ρ)}
    (tasks : n.tasks = above ++ ⟨s, rest, did⟩ :: below) :
    ∃ earlier x later, trace = earlier ++ x :: later ∧ (∀ y ∈ later, y.after.Works s below) ∧
      Span s below x.after.engine later n.engine above rest did := by
  obtain ⟨earlier, x, later, rfl, begins, works⟩ := run.begun idle tasks
  obtain ⟨above', rest', did', tasks', span⟩ := run.tail.span begins works
  rw [tasks] at tasks'
  obtain ⟨rfl, same⟩ := List.append_inj' tasks' (congrArg Nat.succ rfl)
  cases same
  exact ⟨earlier, x, later, rfl, works, span⟩

/-! ### Histories -/

/-- What happens is a moment of the engine's run, or something that somebody outside does by himself. -/
inductive Happening (ρ σ : Type)
  | moment (x : Moment ρ)
  | outside (own : σ)

namespace Happening

def moment? : Happening ρ σ → Option (Moment ρ)
  | moment x => some x
  | outside _ => none

def outside? : Happening ρ σ → Option σ
  | moment _ => none
  | outside own => some own

end Happening

abbrev History (ρ σ : Type) :=
  List (Happening ρ σ)

namespace History

def moments (history : History ρ σ) : List (Moment ρ) :=
  history.filterMap Happening.moment?

def others (history : History ρ σ) : List σ :=
  history.filterMap Happening.outside?

variable {history first last : History ρ σ}

@[simp] theorem moments_nil : moments ([] : History ρ σ) = [] := rfl

@[simp] theorem moments_append : moments (first ++ last) = first.moments ++ last.moments := List.filterMap_append

@[simp] theorem moments_cons_moment (x : Moment ρ) : moments (.moment x :: history) = x :: history.moments := rfl

@[simp] theorem moments_cons_outside (own : σ) : moments (.outside own :: history) = history.moments := rfl

@[simp] theorem others_nil : others ([] : History ρ σ) = [] := rfl

@[simp] theorem others_append : others (first ++ last) = first.others ++ last.others := List.filterMap_append

@[simp] theorem others_cons_moment (x : Moment ρ) : others (.moment x :: history) = history.others := rfl

@[simp] theorem others_cons_outside (own : σ) : others (.outside own :: history) = own :: history.others := rfl

@[simp] theorem moments_map (trace : List (Moment ρ)) :
    moments (trace.map .moment : History ρ σ) = trace := by
  induction trace with
  | nil => rfl
  | cons x trace ih => exact congrArg (List.cons x) ih

@[simp] theorem others_map (trace : List (Moment ρ)) : others (trace.map .moment : History ρ σ) = [] := by
  induction trace with
  | nil => rfl
  | cons x trace ih => exact ih

theorem mem_moments {x : Moment ρ} : x ∈ history.moments ↔ .moment x ∈ history := by
  refine List.mem_filterMap.trans ⟨fun ⟨y, member, same⟩ => ?_, fun member => ⟨_, member, rfl⟩⟩
  cases y with
  | outside own => cases same
  | moment y =>
    cases same
    exact member

theorem mem_others {own : σ} : own ∈ history.others ↔ .outside own ∈ history := by
  refine List.mem_filterMap.trans ⟨fun ⟨y, member, same⟩ => ?_, fun member => ⟨_, member, rfl⟩⟩
  cases y with
  | moment y => cases same
  | outside own =>
    cases same
    exact member

theorem cut_moment {earlier later : List (Moment ρ)} {x : Moment ρ} (split : history.moments = earlier ++ x :: later) :
    ∃ first last : History ρ σ, history = first ++ .moment x :: last ∧ first.moments = earlier ∧
      last.moments = later := by
  obtain ⟨first, rest, rfl, before, others⟩ := List.filterMap_eq_append_iff.mp split
  obtain ⟨idle, happening, last, rfl, none, here, after⟩ := List.filterMap_eq_cons_iff.mp others
  cases happening with
  | outside own => cases here
  | moment y =>
    cases here
    have quiet : moments idle = [] := List.filterMap_eq_nil_iff.mpr none
    refine ⟨first ++ idle, last, by simp, ?_, after⟩
    rw [moments_append, quiet, List.append_nil]
    exact before

end History

/-! ### What others do by themselves -/

namespace History

variable {P : Machine ρ → Prop} {m n : Machine ρ} {history first last : History ρ σ}

/-- Whenever somebody outside does something by himself, the machine is as `P` has it. -/
def When (P : Machine ρ → Prop) : Machine ρ → History ρ σ → Prop
  | _, [] => True
  | _, .moment x :: history => When P x.after history
  | m, .outside _ :: history => P m ∧ When P m history

/-- The machine that the moments lead to. -/
def leads (m : Machine ρ) : History ρ σ → Machine ρ
  | [] => m
  | .moment x :: history => leads x.after history
  | .outside _ :: history => leads m history

theorem when_append : When P m (first ++ last) ↔ When P m first ∧ When P (leads m first) last := by
  induction first generalizing m with
  | nil => simp [When, leads]
  | cons happening first ih =>
    cases happening with
    | moment x => exact ih
    | outside own => simp only [List.cons_append, When, leads, ih, and_assoc]

theorem when_moments (m : Machine ρ) (trace : List (Moment ρ)) : When P m (trace.map .moment : History ρ σ) := by
  induction trace generalizing m with
  | nil => trivial
  | cons x trace ih => exact ih x.after

theorem leads_of_run (run : Run m history.moments n) : leads m history = n := by
  induction history generalizing m with
  | nil => exact run.eq_of_nil.symm
  | cons happening history ih =>
    cases happening with
    | moment x =>
      have run : Run m ([] ++ x :: moments history) n := run
      exact ih run.tail
    | outside own => exact ih run

/-- What happens for some time after a moment. -/
theorem When.segment {between : History ρ σ} {x : Moment ρ}
    (whole : When P m (first ++ .moment x :: (between ++ last))) : When P x.after between :=
  (when_append.mp (when_append.mp whole).2).1

/-- Others do something by themselves once, where this run has led to. -/
theorem when_once {trace : List (Moment ρ)} (run : Run m trace n) (here : P n) (own : σ) (later : List (Moment ρ)) :
    When P m (trace.map .moment ++ .outside own :: later.map .moment) := by
  refine when_append.mpr ⟨when_moments m trace, ?_⟩
  rw [leads_of_run (n := n) (by rwa [moments_map])]
  exact ⟨here, when_moments n later⟩

theorem When.here {own : σ} (whole : When P m (first ++ .outside own :: last)) (run : Run m first.moments n) : P n := by
  obtain ⟨-, here, -⟩ := when_append.mp whole
  rwa [leads_of_run run] at here

end History

theorem Event.replied_or (event : Event ρ) :
    (∃ s r reply, event = .acted s (.replied r reply)) ∨ ∀ s r reply, event ≠ .acted s (.replied r reply) := by
  cases event with
  | acted s action =>
    cases action with
    | replied r reply => exact .inl ⟨s, r, reply, rfl⟩
    | _ => exact .inr fun _ _ _ same => by cases same
  | _ => exact .inr fun _ _ _ same => by cases same

/-- Somebody outside of the engine who keeps something. -/
structure Keeper (σ W : Type) where
  /-- What becomes of it by what he does himself. -/
  own : σ → W → W
  /-- What becomes of it by a reply. -/
  reply : (r : Request) → r.Reply → W → W
  Truthful : W → (r : Request) → r.Reply → Prop

namespace Keeper

variable (K : Keeper σ W)

def hear (w : W) : Event ρ → W
  | .acted _ (.replied r reply) => K.reply r reply w
  | _ => w

def next (w : W) : Happening ρ σ → W
  | .moment x => K.hear w x.event
  | .outside own => K.own own w

/-- What he has after all that has happened. -/
def after (w : W) (history : History ρ σ) : W :=
  history.foldl K.next w

/-- If this is a reply of his, it is right. -/
def Right (w : W) : Event ρ → Prop
  | .acted _ (.replied r reply) => K.Truthful w r reply
  | _ => True

def Honest : W → History ρ σ → Prop
  | _, [] => True
  | w, .moment x :: history => K.Right w x.event ∧ Honest (K.hear w x.event) history
  | w, .outside own :: history => Honest (K.own own w) history

def Fair : W → List (Event ρ) → Prop
  | _, [] => True
  | w, event :: events => K.Right w event ∧ Fair (K.hear w event) events

variable {K} {w : W} {first last : History ρ σ} {x : Moment ρ}

@[simp] theorem after_append : K.after w (first ++ last) = K.after (K.after w first) last := List.foldl_append

/-- Nothing has become of it if each thing that happened leaves it as it was. -/
theorem after_eq {history : History ρ σ} (keeps : ∀ x ∈ history, K.next w x = w) : K.after w history = w := by
  induction history with
  | nil => rfl
  | cons x history ih =>
    obtain ⟨first, others⟩ := List.forall_mem_cons.mp keeps
    show K.after (K.next w x) history = w
    rw [first]
    exact ih others

@[simp] theorem after_outside (own : σ) : K.after w ([.outside own] : History ρ σ) = K.own own w := rfl

theorem after_moment_replied {s : Stage ρ} {r : Request} {reply : r.Reply}
    (replied : x.event = .acted s (.replied r reply)) : K.after w [.moment x] = K.reply r reply w :=
  congrArg (K.hear w) replied

theorem after_moment_other (other : ∀ s r reply, x.event ≠ .acted s (.replied r reply)) :
    K.after w [.moment x] = w := by
  show K.hear w x.event = w
  cases event : x.event with
  | acted s action =>
    cases action with
    | replied r reply => exact absurd event (other s r reply)
    | _ => rfl
  | _ => rfl

theorem honest_append : K.Honest w (first ++ last) ↔ K.Honest w first ∧ K.Honest (K.after w first) last := by
  induction first generalizing w with
  | nil => simp [Honest, after]
  | cons happening first ih =>
    cases happening with
    | moment x => simp only [List.cons_append, Honest, ih, and_assoc, after, List.foldl_cons, next]
    | outside own => simp only [List.cons_append, Honest, ih, after, List.foldl_cons, next]

theorem Honest.truthful (honest : K.Honest w (first ++ .moment x :: last)) {s : Stage ρ} {r : Request}
    {reply : r.Reply} (replied : x.event = .acted s (.replied r reply)) : K.Truthful (K.after w first) r reply := by
  obtain ⟨right, -⟩ := (honest_append.mp honest).2
  rw [replied] at right
  exact right

theorem Honest.segment {between : History ρ σ} (honest : K.Honest w (first ++ .moment x :: (between ++ last))) :
    K.Honest (K.after w (first ++ [.moment x])) between := by
  obtain ⟨-, -, later⟩ := honest_append.mp honest
  rw [after_append]
  exact (honest_append.mp later).1

/-- Of a trace without anything in between, the events alone tell what he has in the end. -/
theorem after_moments (trace : List (Moment ρ)) :
    K.after w (trace.map .moment) = (trace.map (·.event)).foldl K.hear w := by
  rw [after, List.foldl_map, List.foldl_map]
  rfl

theorem honest_moments {trace : List (Moment ρ)} :
    K.Honest w (trace.map .moment) ↔ K.Fair w (trace.map (·.event)) := by
  induction trace generalizing w with
  | nil => exact .rfl
  | cons x trace ih => exact and_congr_right fun _ => ih

end Keeper

/-- What holds at the start of a run, and is kept by its moments and by what others do by themselves, holds all along
    its history. -/
theorem Run.along {m n : Machine ρ} {P : History ρ σ → Machine ρ → Prop} {history : History ρ σ}
    (run : Run m history.moments n) (start : P [] m)
    (outside : ∀ history k own, Run m (History.moments history) k → P history k → P (history ++ [.outside own]) k)
    (moment : ∀ history k x, Run m (History.moments history) k → k.Step x.event x.after → P history k →
      P (history ++ [.moment x]) x.after) : P history n := by
  induction history using List.reverseRecOn generalizing n with
  | nil =>
    obtain rfl := run.eq_of_nil
    exact start
  | append_singleton history last ih =>
    cases last with
    | outside own =>
      have before : Run m (History.moments history) n := by simpa using run
      exact outside history n own before (ih before)
    | moment x =>
      rw [History.moments_append] at run
      obtain ⟨k, before, step, rfl⟩ := run.cut_last
      exact moment history k x before step (ih before)

end TrapHooks
