import Mathlib.Algebra.GroupWithZero.Nat
import TrapHooks.Proofs.Run.History
import TrapHooks.Proofs.Run.Undisturbed

/-! The guest is mended once for each time that an entry at a trap finds it due. Others may enter while it is mended,
    and come to the same question; the due was taken back before, so that they find it only if the session has asked
    for it again. -/

namespace TrapHooks

variable {ρ α β : Type}

namespace Action

/-- It was told that the guest is to be mended. -/
def finds : Action ρ → Bool
  | replied .bootstrapDue due => due
  | _ => false

/-- It was told whether this line was in use, to open it again. -/
def reopens (line : Line) : Action ρ → Bool
  | replied r _ => r = .lineActive line
  | _ => false

end Action

/-! ### Lines that are owed -/

namespace Program

/-- With so many visits to a line owed, the program pays one with each that it makes and owes one more each time that it
    finds the guest due; it ends as `Q` has it. -/
def Owes (line : Line) (Q : α → Nat → Prop) : Program ρ α → Nat → Prop
  | done a, owed => Q a owed
  | overflow, _ => True
  | step _ rest, owed => ∀ e, (rest e).Owes line Q owed
  | ask r rest, owed => ∀ reply, ∃ left,
    owed + (Action.finds (.replied r reply : Action ρ)).toNat =
      (Action.reopens line (.replied r reply : Action ρ)).toNat + left ∧ (rest reply).Owes line Q left
  | runHead _ _ rest, owed => ∀ decision, (rest decision).Owes line Q owed
  | runTail _ _ rest, owed => rest.Owes line Q owed
  | tell _ rest, owed => rest.Owes line Q owed

section
variable {line : Line} {Q : α → Nat → Prop} {p : Program ρ α} {owed : Nat}

theorem owes_bind {Q : β → Nat → Prop} {f : α → Program ρ β}
    (owes : p.Owes line (fun a owed => (f a).Owes line Q owed) owed) : (p >>= f).Owes line Q owed := by
  induction p generalizing owed with
  | done a => exact owes
  | overflow => trivial
  | step next rest ih => exact fun e => ih e (owes e)
  | ask r rest ih => exact fun reply => (owes reply).imp fun _ => And.imp_right (ih reply)
  | runHead routine call rest ih => exact fun decision => ih decision (owes decision)
  | runTail routine call rest ih => exact ih owes
  | tell n rest ih => exact ih owes

theorem owes_get {Q : Engine ρ → Nat → Prop} (ends : ∀ e, Q e owed) :
    (get : Program ρ (Engine ρ)).Owes line Q owed := ends

/-- A program that has nothing to do with the due and the lines. -/
theorem Asks.owes (asks : p.Asks Request.Any fun r => r ≠ .bootstrapDue ∧ r ≠ .lineActive line)
    (ends : ∀ a, Q a owed) : p.Owes line Q owed := by
  induction p with
  | done a => exact ends a
  | overflow => trivial
  | step next rest ih => exact fun e => ih e (asks e)
  | ask r rest ih =>
    intro reply
    refine ⟨owed, ?_, ih reply (asks.2 reply trivial)⟩
    have unfound : Action.finds (.replied r reply : Action ρ) = false := by
      cases r <;> first | rfl | exact absurd rfl asks.1.1
    have other : Action.reopens line (.replied r reply : Action ρ) = false := decide_eq_false asks.1.2
    rw [unfound, other, Nat.add_comm]
  | runHead routine call rest ih => exact fun decision => ih decision (asks decision)
  | runTail routine call rest ih => exact ih asks
  | tell n rest ih => exact ih asks

theorem Does.owes {q : Program ρ α} {did : List (Action ρ)} (does : p.Does did q) (owes : p.Owes line Q owed) :
    ∃ left, owed + did.countP Action.finds = did.countP (Action.reopens line) + left ∧ q.Owes line Q left := by
  induction does generalizing owed with
  | nil p => exact ⟨owed, by simp, owes⟩
  | @cons p p' q e e' action actions acts rest ih =>
    have goes {owed' : Nat} (next : owed + (Action.finds action).toNat = (Action.reopens line action).toNat + owed')
        (owes : p'.Owes line Q owed') : ∃ left, owed + (action :: actions).countP Action.finds =
          (action :: actions).countP (Action.reopens line) + left ∧ q.Owes line Q left := by
      obtain ⟨left, balance, owes⟩ := ih owes
      refine ⟨left, ?_, owes⟩
      have count (b : Action ρ → Bool) : (action :: actions).countP b = actions.countP b + (b action).toNat := by
        rw [List.countP_cons]
        cases b action <;> rfl
      rw [count, count]
      omega
    cases acts with
    | reply r rest reply =>
      obtain ⟨owed', next, owes⟩ := owes reply
      exact goes next owes
    | change next rest => exact goes (Nat.add_comm ..) (owes e)
    | head routine call rest decision => exact goes (Nat.add_comm ..) (owes decision)
    | tail routine call => exact goes (Nat.add_comm ..) owes
    | notice n => exact goes (Nat.add_comm ..) owes

end

end Program

namespace Engine

open Program

variable {line : Line} {owed : Nat}

theorem owes_reopenLine {Q : Unit → Nat → Prop} (other : Line) (ends : Q () owed) :
    (reopenLine other : Program ρ _).Owes line Q ((decide (other = line)).toNat + owed) := by
  refine owes_bind fun active => ⟨owed, ?_, ?_⟩
  · show _ = (decide (Request.lineActive other = Request.lineActive line)).toNat + owed
    simp only [Request.lineActive.injEq]
    rfl
  · cases active with
    | false => exact ends
    | true =>
      refine owes_bind fun outcome => ⟨owed, Nat.add_comm .., ?_⟩
      cases outcome with
      | ok _ => exact ends
      | error reason => exact ends

/-- A bootstrap visits each line once. -/
theorem owes_bootstrap {Q : Unit → Nat → Prop} (ends : Q () owed) :
    (bootstrap : Program ρ _).Owes line Q (owed + 1) := by
  have lines : (Line.all.forM reopenLine : Program ρ _).Owes line Q (owed + 1) := by
    have each : owed + 1 = (decide (Line.serial = line)).toNat + ((decide (Line.infrared = line)).toNat + owed) := by
      cases line <;> simp [Nat.add_comm]
    rw [each]
    exact owes_bind (owes_reopenLine .serial (owes_bind (owes_reopenLine .infrared ends)))
  refine owes_bind (owes_get fun e => ?_)
  split
  · refine owes_bind (Asks.owes (asks_mendGuest.mono (fun _ _ told => told) fun r mends => ?_) fun _ => lines)
    constructor <;> (rintro rfl; cases mends)
  · exact lines

theorem owes_prepare (line : Line) (call : Call) : (prepare call).Owes line (fun (_ : Hooks ρ) owed => owed = 0) 0 := by
  have looks : (resolve call).Owes line (fun (_ : Hooks ρ) owed => owed = 0) 0 := by
    refine Asks.owes ((asks_resolve call).mono (fun _ _ told => told) fun r naming => ?_) fun _ => rfl
    constructor <;> (rintro rfl; cases naming)
  refine owes_bind (owes_bind fun due => ?_)
  cases due with
  | false => exact ⟨0, rfl, looks⟩
  | true => exact ⟨1, rfl, owes_bind fun _ => ⟨1, rfl, owes_bootstrap looks⟩⟩

end Engine

namespace Event

def finds : Event ρ → Bool
  | acted (.dispatch _) action => action.finds
  | _ => false

def reopens (line : Line) : Event ρ → Bool
  | acted (.dispatch _) action => action.reopens line
  | _ => false

end Event

/-- How many more times an entry at a trap has found the guest due than it has visited this line. -/
def Task.unmended (line : Line) (t : Task ρ) : Nat :=
  match t.stage with
  | .dispatch _ => t.done.countP Action.finds - t.done.countP (Action.reopens line)
  | _ => 0

theorem Task.finds_eq {call : Call} {rest : Program ρ (Hooks ρ)} {did : List (Action ρ)}
    (does : (Engine.prepare call).Does did rest) (line : Line) :
    did.countP Action.finds = did.countP (Action.reopens line) + Task.unmended line ⟨.dispatch call, rest, did⟩ := by
  obtain ⟨left, balance, -⟩ := does.owes (Engine.owes_prepare line call)
  show _ = _ + (did.countP Action.finds - did.countP (Action.reopens line))
  omega

namespace Machine

variable {m n : Machine ρ} {event : Event ρ}

def unmended (line : Line) (m : Machine ρ) : Nat :=
  (m.tasks.map (·.unmended line)).sum

/-- A line that an entry at a trap has to visit is visited by it, or is left to visit. -/
theorem Step.unmended (step : m.Step event n) (orderly : m.Orderly) (line : Line) :
    m.unmended line + event.finds.toNat = (event.reopens line).toNat + n.unmended line := by
  have ends := step.orderly orderly
  cases step with
  | enter m s entry rests =>
    have fresh : Task.unmended line (.begin s) = 0 := by cases s <;> rfl
    simp [Machine.unmended, Event.finds, Event.reopens, fresh]
  | @act e e' s p p' action acts done below =>
    obtain ⟨before, -⟩ := List.forall_mem_cons.mp orderly.does
    obtain ⟨after, -⟩ := List.forall_mem_cons.mp ends.does
    cases s with
    | dispatch call =>
      replace before : (Engine.prepare call).Does done p := before
      replace after : (Engine.prepare call).Does (done ++ [action]) p' := after
      have before := Task.finds_eq before line
      have after := Task.finds_eq after line
      have count (b : Action ρ → Bool) : (done ++ [action]).countP b = done.countP b + (b action).toNat := by
        rw [List.countP_append, List.countP_singleton]
        cases b action <;> rfl
      rw [count, count] at after
      simp only [Machine.unmended, List.map_cons, List.sum_cons, Event.finds, Event.reopens]
      omega
    | _ => simp [Machine.unmended, Event.finds, Event.reopens, Task.unmended]
  | finish e s result done below =>
    -- Nothing is left to visit by a task that has ended, or that begins.
    obtain ⟨last, -⟩ := List.forall_mem_cons.mp orderly.does
    have ended : Task.unmended line ⟨s, .done result, done⟩ = 0 := by
      cases s with
      | dispatch call =>
        replace last : (Engine.prepare call).Does done (.done result) := last
        obtain ⟨left, balance, none⟩ := last.owes (Engine.owes_prepare line call)
        replace none : left = 0 := none
        show done.countP Action.finds - done.countP (Action.reopens line) = 0
        omega
      | _ => rfl
    have next : (((s.next result).map Task.begin).toList.map (Task.unmended line)).sum = 0 := by
      cases s.next result with
      | none => rfl
      | some s' => cases s' <;> rfl
    simp [Machine.unmended, Event.finds, Event.reopens, ended, next]

end Machine

/-! ### The course of an entry -/

theorem Stage.asks_undue {A : (r : Request) → r.Reply → Prop} (s : Stage ρ) (other : ∀ call, s ≠ .dispatch call) :
    s.program.Asks A (·.ofDue = false) := by
  have quiet (unmending : .mending ∉ s.purposes) : s.program.Asks A (·.ofDue = false) := by
    refine s.asks_program.mono (fun _ _ told => told) fun r listed => ?_
    cases r <;> first | rfl | exact absurd listed unmending
  cases s with
  | dispatch call => exact absurd rfl (other call)
  | bootstrap =>
    refine Engine.asks_bootstrap (fun r mends => ?_) fun line r reopens => ?_
    · cases r <;> first | rfl | cases mends
    · cases r <;> first | rfl | cases reopens
  | _ => exact quiet (by simp [Stage.purposes])

namespace Engine

open Program

/-- How far an entry at a trap has come, and what is left of it. -/
inductive Preparing (call : Call) : List (Action ρ) → Program ρ (Hooks ρ) → Prop
  | begins : Preparing call [] (prepare call)
  /-- The guest was not due; the hooks are looked up. -/
  | spared {look : List (Action ρ)} {rest : Program ρ (Hooks ρ)} (looks : (resolve call).Does look rest) :
    Preparing call (.replied .bootstrapDue false :: look) rest
  | found : Preparing call [.replied .bootstrapDue true] (do
      request (.setBootstrapDue false)
      bootstrap
      resolve call)
  /-- The due is taken back, and the guest is mended. -/
  | mending {boot : List (Action ρ)} {left : Program ρ Unit} (mends : bootstrap.Does boot left) :
    Preparing call (.replied .bootstrapDue true :: .replied (.setBootstrapDue false) () :: boot) (do
      left
      resolve call)
  /-- The guest was mended to the end; the hooks are looked up. -/
  | mended {boot look : List (Action ρ)} {rest : Program ρ (Hooks ρ)} (mends : bootstrap.Does boot (.done ()))
    (looks : (resolve call).Does look rest) :
    Preparing call (.replied .bootstrapDue true :: .replied (.setBootstrapDue false) () :: boot ++ look) rest

theorem preparing_of_does {call : Call} {did : List (Action ρ)} {rest : Program ρ (Hooks ρ)}
    (does : (prepare call).Does did rest) : Preparing call did rest := by
  cases does with
  | nil => exact .begins
  | cons acts does =>
    cases acts with
    | reply _ _ due =>
    cases due with
    | false => exact .spared does
    | true =>
      cases does with
      | nil => exact .found
      | cons acts does =>
        cases acts
        rcases does_bind_cases does with ⟨left, mends, rfl⟩ | ⟨_, boot, look, rfl, mends, looks⟩
        · exact .mending mends
        · exact .mended mends looks

theorem Preparing.clears {call : Call} {did : List (Action ρ)} {due : Bool} {rest : Program ρ (Hooks ρ)}
    (preparing : Preparing call (did ++ [.replied (.setBootstrapDue due) ()]) rest) :
    due = false ∧ did = [.replied .bootstrapDue true] := by
  let taking : Action ρ := .replied (.setBootstrapDue due) ()
  -- Neither the bootstrap nor the resolution asks for it.
  have unasked {α : Type} {p q : Program ρ α} {l : List (Action ρ)} (asks : p.Asks Request.Any (·.ofDue = false))
      (does : p.Does l q) : taking ∉ l := fun member => by
    cases (does.asks asks fun _ _ _ => trivial).1 _ _ member
  have mends {l : List (Action ρ)} {left : Program ρ Unit} (does : bootstrap.Does l left) : taking ∉ l :=
    unasked (Stage.asks_undue .bootstrap nofun) does
  have looks {l : List (Action ρ)} {left : Program ρ (Hooks ρ)} (does : (resolve call).Does l left) : taking ∉ l :=
    unasked (Stage.asks_undue (.resolve call) nofun) does
  have second {l : List (Action ρ)} (whole : did ++ [taking] = .replied .bootstrapDue true ::
      .replied (.setBootstrapDue false) () :: l) (others : taking ∉ l) :
      due = false ∧ did = [.replied .bootstrapDue true] := by
    rcases List.eq_nil_or_concat l with rfl | ⟨front, last, rfl⟩
    · obtain ⟨rfl, same⟩ := List.append_inj' (show did ++ [taking] = [_] ++ [_] from whole) rfl
      exact ⟨by simpa [taking] using same, rfl⟩
    · rw [List.concat_eq_append] at whole others
      obtain ⟨-, same⟩ := List.append_inj' (show did ++ [taking] = (_ :: _ :: front) ++ [last] from whole) rfl
      cases same
      exact absurd (by simp) others
  generalize whole : did ++ [.replied (.setBootstrapDue due) ()] = actions at preparing
  have member : taking ∈ actions := whole ▸ List.mem_append_right _ List.mem_cons_self
  cases preparing with
  | begins => cases member
  | spared does => exact absurd (by simpa [taking] using member) (looks does)
  | found => simp [taking] at member
  | mending does => exact second whole (mends does)
  | mended does does' => exact second whole (by simp [mends does, looks does'])

end Engine

/-- It has found the guest due, and has still to take that back. -/
def Task.Clearing (t : Task ρ) : Prop :=
  t.done = [.replied .bootstrapDue true]

namespace Machine

variable {m n : Machine ρ} {event : Event ρ}

theorem Step.clears {s : Stage ρ} {due : Bool} {reply : Unit}
    (step : m.Step (.acted s (.replied (.setBootstrapDue due) reply)) n) (orderly : m.Orderly) :
    due = false ∧ ∃ t ∈ m.tasks, t.Clearing := by
  obtain ⟨does, -⟩ := step.orderly orderly
  cases step with
  | @act e e' s p p' action acts done below =>
  have does := does _ List.mem_cons_self
  by_cases dispatches : ∃ call, s = .dispatch call
  · obtain ⟨call, rfl⟩ := dispatches
    obtain ⟨taken, rfl⟩ := (Engine.preparing_of_does does).clears
    exact ⟨taken, _, List.mem_cons_self, rfl⟩
  · have asks := s.asks_undue (A := Request.Any) fun call same => dispatches ⟨call, same⟩
    cases (does.asks asks fun _ _ _ => trivial).1 _ _ (List.mem_append_right _ List.mem_cons_self)

theorem Step.unclearing (step : m.Step event n) (unfound : ∀ s, event ≠ .acted s (.replied .bootstrapDue true))
    (clear : ∀ t ∈ m.tasks, ¬t.Clearing) : ∀ t ∈ n.tasks, ¬t.Clearing := by
  cases step with
  | enter m s entry rests => exact List.forall_mem_cons.mpr ⟨nofun, clear⟩
  | @act e e' s p p' action acts done below =>
    refine List.forall_mem_cons.mpr ⟨fun clearing => ?_, (List.forall_mem_cons.mp clear).2⟩
    obtain ⟨-, same⟩ := List.append_inj' (show done ++ [action] = [] ++ [_] from clearing) rfl
    cases same
    exact unfound s rfl
  | finish e s result done below =>
    exact s.forall_mem_next (P := fun t => ¬t.Clearing) (fun _ => nofun) result (List.forall_mem_cons.mp clear).2

end Machine

theorem Run.unclearing {m n : Machine ρ} {trace : List (Moment ρ)} (run : Run m trace n)
    (unfound : ∀ x ∈ trace, ∀ s, x.event ≠ .acted s (.replied .bootstrapDue true))
    (clear : ∀ t ∈ m.tasks, ¬t.Clearing) : ∀ t ∈ n.tasks, ¬t.Clearing := by
  induction run with
  | nil => exact clear
  | snoc run step ih =>
    obtain ⟨before, last⟩ := List.forall_mem_append.mp unfound
    exact step.unclearing (List.forall_mem_singleton.mp last) (ih before)

/-! ### What the session keeps -/

/-- The session keeps whether its guest is to be mended, and tells what it was told last, by itself or by the engine. -/
def dueKeeper : Keeper Bool Bool where
  own due _ := due
  reply
    | .setBootstrapDue due, _, _ => due
    | _, _, due => due
  Truthful due
    | .bootstrapDue, told => told = due
    | _, _ => True

theorem dueKeeper_hear {due : Bool} {event : Event ρ}
    (same : ∀ s told reply, event = .acted s (.replied (.setBootstrapDue told) reply) → told = due) :
    dueKeeper.hear due event = due := by
  cases event with
  | acted s action =>
    cases action with
    | replied r reply =>
      cases r with
      | setBootstrapDue told => exact same s told reply rfl
      | _ => rfl
    | _ => rfl
  | _ => rfl

section
variable {m n k : Machine ρ} {history : History ρ Bool}

/-- Once it is taken back, nobody makes it due but the session itself. -/
theorem Run.stays_undue (run : Run m history.moments n) (orderly : m.Orderly) (others : true ∉ history.others) :
    dueKeeper.after false history = false := by
  refine Keeper.after_eq fun happening member => ?_
  cases happening with
  | outside due =>
    cases due with
    | false => rfl
    | true => exact absurd (History.mem_others.mpr member) others
  | moment x =>
    obtain ⟨_, _, k, -, before, step⟩ := run.step_of_mem (History.mem_moments.mpr member)
    refine dueKeeper_hear fun s told reply acted => ?_
    rw [acted] at step
    exact (step.clears (before.orderly orderly)).1

/-- What the session made due is due until somebody finds it so, if nobody had found it so before. -/
theorem Run.stays_due (run : Run m history.moments n) (orderly : m.Orderly) (clear : ∀ t ∈ m.tasks, ¬t.Clearing)
    (unfound : ∀ x ∈ history.moments, ∀ s, x.event ≠ .acted s (.replied .bootstrapDue true))
    (others : false ∉ history.others) : dueKeeper.after true history = true := by
  refine Keeper.after_eq fun happening member => ?_
  cases happening with
  | outside due =>
    cases due with
    | true => rfl
    | false => exact absurd (History.mem_others.mpr member) others
  | moment x =>
    obtain ⟨earlier, _, k, split, before, step⟩ := run.step_of_mem (History.mem_moments.mpr member)
    rw [split] at unfound
    refine dueKeeper_hear fun s told reply acted => ?_
    rw [acted] at step
    obtain ⟨t, there, clearing⟩ := (step.clears (before.orderly orderly)).2
    exact absurd clearing (before.unclearing (List.forall_mem_append.mp unfound).1 clear t there)

theorem Run.undue_since {first between last : History ρ Bool} {x : Moment ρ} {s : Stage ρ}
    (run : Run m (History.moments (first ++ .moment x :: (between ++ last))) n) (due : Bool) (orderly : m.Orderly)
    (taken : x.event = .acted s (.replied (.setBootstrapDue false) ())) (others : true ∉ History.others between) :
    dueKeeper.after due (first ++ .moment x :: between) = false := by
  rw [History.moments_append, History.moments_cons_moment, History.moments_append] at run
  obtain ⟨k, before, step⟩ := run.split
  obtain ⟨l, goes, -⟩ := run.tail.cut
  rw [List.append_cons, Keeper.after_append, Keeper.after_append, Keeper.after_moment_replied taken]
  exact goes.stays_undue (step.orderly (before.orderly orderly)) others

/-- However entries at traps come within each other, and whatever the session asks for meanwhile, the guest is mended
    once for each time that an entry finds it due:

    * an entry that finds it due takes that back at once, mends the guest, and looks up the hooks of its call when the
      guest is mended to the end; one that does not find it due looks up the hooks alone;
    * each line is visited once for each time that the guest was found due, but for the entries that have found it due
      and not yet come to the line;
    * from the moment at which it is taken back, the guest is not due, and nobody finds it due, until the session asks
      for it again;
    * if the session asks for it when no entry has just found the guest due and not yet taken that back, then the next
      entry finds it due, unless the session itself withdraws it. -/
theorem Run.mended_once {due : Bool} (run : Run m history.moments n) (idle : m.tasks = [])
    (honest : dueKeeper.Honest due history) :
    (∀ x ∈ history.moments, ∀ call rest did, ⟨.dispatch call, rest, did⟩ ∈ x.after.tasks →
      Engine.Preparing call did rest) ∧
    (∀ line, history.moments.countP (·.event.finds) =
      history.moments.countP (·.event.reopens line) + n.unmended line) ∧
    (∀ first x between last s, history = first ++ .moment x :: (between ++ last) →
      x.event = .acted s (.replied (.setBootstrapDue false) ()) → true ∉ History.others between →
      dueKeeper.after due (first ++ .moment x :: between) = false ∧
        ∀ y ∈ History.moments between, ∀ s, y.event ≠ .acted s (.replied .bootstrapDue true)) ∧
    ∀ first between y last s found k, history = first ++ .outside true :: (between ++ .moment y :: last) →
      Run m (History.moments first) k → (∀ t ∈ k.tasks, ¬t.Clearing) → false ∉ History.others between →
      (∀ z ∈ History.moments between, ∀ s found, z.event ≠ .acted s (.replied .bootstrapDue found)) →
      y.event = .acted s (.replied .bootstrapDue found) → found = true := by
  have orderly := Machine.orderly_of_idle idle
  refine ⟨?_, ?_, ?_, ?_⟩
  · intro x member call rest did there
    exact Engine.preparing_of_does (run.does_of_mem orderly member _ there)
  · intro line
    have none : m.unmended line = 0 := by simp [Machine.unmended, idle]
    have balance := run.balance (p := Event.finds) (q := Event.reopens line) (f := Machine.unmended line)
      fun _ before step => step.unmended (before.orderly orderly) line
    rwa [none, Nat.zero_add] at balance
  · rintro first x between last s rfl taken others
    refine ⟨run.undue_since due orderly taken others, fun y member s' found => ?_⟩
    obtain ⟨earlier, later, split⟩ := List.mem_iff_append.mp member
    obtain ⟨front, back, rfl, -, -⟩ := History.cut_moment split
    rw [List.append_assoc] at run
    have undue := run.undue_since due orderly taken fun member => others (by simp [member])
    rw [List.append_assoc, ← List.cons_append, ← List.append_assoc] at honest
    have told : true = _ := honest.truthful found
    rw [undue] at told
    cases told
  · rintro first between y last s found k rfl begins clear others unfound told
    rw [History.moments_append, History.moments_cons_outside, History.moments_append] at run
    obtain ⟨k', begins', goes⟩ := run.cut
    obtain rfl := begins.unique begins'
    obtain ⟨l, goes, -⟩ := goes.cut
    have stays := goes.stays_due (begins.orderly orderly) clear (fun z member s => unfound z member s true) others
    rw [List.append_cons, ← List.append_assoc] at honest
    have told : found = _ := honest.truthful told
    rw [told, Keeper.after_append, Keeper.after_append, Keeper.after_outside]
    exact stays

end

/-! ### A request while the guest is mended -/

/-- The guest is due or not, and none of its lines is in use. -/
noncomputable def Program.Answers.mending (due : Bool) : Answers ρ where
  reply
    | .bootstrapDue => due
    | .setBootstrapDue _ => ()
    | .lineActive _ => false
    | r => Classical.choice (Program.nonempty_reply r)
  decide _ _ := .execute

/-- While a bootstrap asks for its second line, the session asks for another, and an entry that comes then mends the
    guest to the end; the first has still to visit that line. -/
theorem Run.mended_twice :
    ∃ (history : History Unit Bool) (n : Machine Unit),
      Run (.fresh {} {} ∅) history.moments n ∧ dueKeeper.Honest false history ∧ history.others = [true, true] ∧
      n.tasks.length = 2 ∧ history.moments.countP (·.event.finds) = 2 ∧
      history.moments.countP (·.event.reopens .infrared) = 1 ∧ n.unmended .infrared = 1 := by
  let s : Stage Unit := .dispatch { trap := 0xA805, index := 5, extra := 7 }
  let outer := s.program.upTo (.mending true) (fun r => r = .lineActive .infrared) (Machine.fresh {} {} ∅).engine
  have idle : (Machine.fresh (ρ := Unit) {} {} ∅).tasks = [] := rfl
  obtain ⟨trace, run, events, -⟩ := Run.enter_upTo (.mending true) (fun r => r = .lineActive .infrared) (s := s) rfl
    (Machine.atRest_of_idle idle)
  obtain ⟨trace', run', events', -⟩ := Run.enter_upTo (.mending true) (fun r => r = .libraryName 7) (s := s) rfl
    (Machine.atRest_of_waits outer.2.1 (t := ⟨s, outer.2.2, outer.1⟩) trivial [])
  replace events : trace.map (·.event) = .entered s :: [.replied .bootstrapDue true,
    .replied (.setBootstrapDue false) (), .changed {} {}, .replied (.lineActive .serial) false].map (.acted s) := events
  replace events' : trace'.map (·.event) = .entered s :: [.replied .bootstrapDue true,
    .replied (.setBootstrapDue false) (), .changed {} {}, .replied (.lineActive .serial) false,
    .replied (.lineActive .infrared) false, .changed {} {},
    .changed {} { libraries := LibraryCache.reach 7 {} }].map (.acted s) := events'
  let history : History Unit Bool := [.outside true] ++ trace.map .moment ++ ([.outside true] ++ trace'.map .moment)
  have moments : history.moments = trace ++ trace' := by simp [history]
  have run := run.trans run'
  rw [← moments] at run
  have honest : dueKeeper.Honest false history := by
    simp only [history, Keeper.honest_append, Keeper.after_append, Keeper.after_outside, Keeper.honest_moments,
      Keeper.after_moments, events, events']
    simp [Keeper.Honest, Keeper.Fair, Keeper.Right, Keeper.hear, dueKeeper]
  have count (q : Event Unit → Bool) : history.moments.countP (fun x => q x.event) =
      (trace.map (·.event)).countP q + (trace'.map (·.event)).countP q := by
    rw [moments, List.countP_append, List.countP_map, List.countP_map]
    rfl
  have finds : history.moments.countP (·.event.finds) = 2 := by
    rw [count, events, events']
    rfl
  have visited : history.moments.countP (·.event.reopens .infrared) = 1 := by
    rw [count, events, events']
    rfl
  obtain ⟨-, visits, -, -⟩ := run.mended_once idle honest
  have left := visits .infrared
  rw [finds, visited] at left
  exact ⟨history, _, run, honest, by simp [history], rfl, finds, visited, by omega⟩

end TrapHooks
