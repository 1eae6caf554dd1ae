import TrapHooks.Proofs.Returns.Marks
import TrapHooks.Proofs.Run.Accounts

/-! No waiting tail hook is lost or called twice. While no session is loaded and nothing is dropped, the
    returns that an address waits for, and those that it has come to wait for since, are the returns taken
    there and those still to come; and what is called at a return is the hook and the call of the record
    that is found, which come from the call that made the record. Calls and returns may be nested in any
    way: both laws are about the order of the single changes, and the program of a task is consulted only
    for what it does between its beginning and its end. -/

namespace TrapHooks

variable {ρ : Type}

/-! ### What is counted -/

def Returns.waiting (a : UInt32) (r : Returns ρ) : Nat :=
  match r.get? a with
  | some record => record.count.toNat
  | none => 0

/-- What is to be called at the next return at an address: the waiting hook, on the call of its record. -/
def Returns.due (a : UInt32) (r : Returns ρ) : List (ρ × Call) :=
  ((r.get? a).bind fun record => record.hook.map fun hook => (hook.routine, record.call)).toList

def Action.tailCall? : Action ρ → Option (ρ × Call)
  | tailRan routine call => some (routine, call)
  | _ => none

def Action.changes : Action ρ → Bool
  | changed _ _ => true
  | _ => false

def tailCalls (actions : List (Action ρ)) : List (ρ × Call) :=
  actions.filterMap Action.tailCall?

/-- The stage has a tail hook wait at an address. -/
def Stage.armsAt (a : UInt32) : Stage ρ → Bool
  | conclude call hooks .execute => hooks.tail.isSome && call.returnPc == a
  | _ => false

theorem Stage.armsAt_iff {a : UInt32} {s : Stage ρ} : s.armsAt a = true ↔
    ∃ call hooks tail, s = .conclude call hooks .execute ∧ hooks.tail = some tail ∧ call.returnPc = a := by
  constructor
  · intro arms
    unfold armsAt at arms
    split at arms
    · rename_i call hooks
      obtain ⟨has, same⟩ := Bool.and_eq_true_iff.mp arms
      obtain ⟨tail, found⟩ := Option.isSome_iff_exists.mp has
      exact ⟨call, hooks, tail, rfl, found, beq_iff_eq.mp same⟩
    · cases arms
  · rintro ⟨call, hooks, tail, rfl, found, rfl⟩
    simp [armsAt, found]

/-- The stage drops waiting tail hooks, or puts others in their place. -/
def Stage.drops : Stage ρ → Bool
  | load _ | reset | dispose => true
  | _ => false

namespace Event

/-- A tail hook starts to wait at an address. -/
def arms (a : UInt32) : Event ρ → Bool
  | acted s action => s.armsAt a && action.changes
  | _ => false

/-- A call is through that has a tail hook and returns to an address, and its routine was let run. -/
def completes (a : UInt32) : Event ρ → Bool
  | finished s _ _ => s.armsAt a
  | _ => false

/-- A return is taken at an address, where a tail hook waits. -/
def takes (a : UInt32) : Event ρ → Bool
  | acted (.takeReturn pc) (.changed before _) => pc == a && (before.returns.get? a).isSome
  | _ => false

end Event

/-! ### What tasks do from beginning to end -/

namespace Program

variable {α : Type} {actions : List (Action ρ)}

theorem does_notice {n : Notice} {u : Unit} (does : (notice n : Program ρ Unit).Does actions (done u)) :
    actions = [.told n] := by
  obtain ⟨later, rfl, ends⟩ := does_tell does
  rw [(does_done ends).1]

theorem does_modifyGet {g : Engine ρ → α × Engine ρ} {a : α}
    (does : (modifyGet g : Program ρ α).Does actions (done a)) :
    ∃ e, actions = [.changed e (g e).2] ∧ (g e).1 = a := by
  obtain ⟨e, later, rfl, ends⟩ := does_step does
  obtain ⟨rfl, same⟩ := does_done ends
  exact ⟨e, rfl, same⟩

end Program

namespace Engine

open Program

variable {actions : List (Action ρ)}

/-- A tail hook is called once, on the call that it is given, and changes nothing by itself. -/
theorem does_callTail {hook : TailHook ρ} {call : Call} {u : Unit}
    (does : (callTail hook call).Does actions (.done u)) :
    tailCalls actions = [(hook.routine, call)] ∧ ∀ before after, .changed before after ∉ actions := by
  obtain ⟨later, rfl, rest₁⟩ := does_tell does
  obtain ⟨measuring, later, rfl, rest₂⟩ := does_ask rest₁
  obtain ⟨later, rfl, rest₃⟩ := does_runTail rest₂
  obtain ⟨restored, later, rfl, rest₄⟩ := does_ask rest₃
  obtain ⟨rfl, -⟩ := does_done rest₄
  exact ⟨rfl, by simp⟩

theorem does_conclude_execute {call : Call} {hooks : Hooks ρ} {tail : TailHook ρ} (found : hooks.tail = some tail)
    {decision : Decision} (does : (conclude call hooks .execute).Does actions (.done decision)) :
    ∃ e n, actions =
      [.changed e (e.onReturns (Returns.arm tail call)).2, .told n, .told (.handled call .execute)] := by
  unfold conclude at does
  rw [found] at does
  obtain ⟨_, first, last, rfl, arms, ends⟩ := does_bind does
  obtain ⟨armed, change, tells, rfl, changes, reports⟩ := does_bind arms
  obtain ⟨e, rfl, -⟩ := does_modifyGet changes
  obtain ⟨later, rfl, stops⟩ := does_tell ends
  obtain ⟨rfl, -⟩ := does_done stops
  obtain ⟨n, rfl⟩ : ∃ n, tells = [.told n] := by
    cases armed with
    | first => exact ⟨_, does_notice reports⟩
    | again count => exact ⟨_, does_notice reports⟩
    | overflow => cases (does_overflow reports).2
  exact ⟨e, n, rfl⟩

theorem does_conclude_skip {call : Call} {hooks : Hooks ρ} {tail : TailHook ρ} (found : hooks.tail = some tail)
    {decision : Decision} (does : (conclude call hooks .skip).Does actions (.done decision)) :
    tailCalls actions = [(tail.routine, call)] ∧ ∀ before after, .changed before after ∉ actions := by
  unfold conclude at does
  rw [found] at does
  obtain ⟨_, first, last, rfl, calls, reports⟩ := does_bind does
  obtain ⟨later, rfl, ends⟩ := does_tell reports
  obtain ⟨rfl, -⟩ := does_done ends
  obtain ⟨called, unchanged⟩ := does_callTail calls
  refine ⟨?_, fun before after => ?_⟩
  · rw [tailCalls, List.filterMap_append, ← tailCalls, called]
    rfl
  · simp [unchanged before after]

/-- A break takes one return and then calls what is due at it; where nothing waits it ends at once. -/
theorem does_takeReturn {pc : UInt32} {u : Unit} (does : (takeReturn pc).Does actions (.done u)) :
    ∃ before others, actions = .changed before (before.onReturns (Returns.arrive pc)).2 :: others ∧
      tailCalls others = before.returns.due pc ∧
      (before.returns.get? pc = none → others = [] ∧ (before.onReturns (Returns.arrive pc)).2 = before) := by
  obtain ⟨arrival, first, others, rfl, takes, reacts⟩ := does_bind does
  obtain ⟨before, rfl, arrives⟩ := does_modifyGet takes
  refine ⟨before, others, rfl, ?_⟩
  cases found : before.returns.get? pc with
  | none =>
    have unknown := Returns.arrive_of_none found
    have same : before.onReturns (Returns.arrive pc) = (.unknown, before) := by
      rw [onReturns, unknown]
    rw [same] at arrives
    subst arrives
    obtain ⟨rfl, -⟩ := does_done reacts
    exact ⟨by simp [tailCalls, Returns.due, found], fun _ => ⟨rfl, by rw [same]⟩⟩
  | some record =>
    obtain ⟨last, returned⟩ : ∃ last, (before.returns.arrive pc).1 = .returned _ last :=
      ⟨_, Returns.arrive_of_some found⟩
    have known : arrival = .returned (record.hook.map fun hook => (hook, record.call)) last :=
      arrives.symm.trans returned
    subst known
    refine ⟨?_, by simp⟩
    have due : before.returns.due pc = (record.hook.map fun hook => (hook.routine, record.call)).toList := by
      rw [Returns.due, found]
      rfl
    -- The last return is told to those who watch; apart from that both ways do the same.
    obtain ⟨told, calls, rfl, quiet, rest⟩ : ∃ told calls, others = told ++ calls ∧ tailCalls told = [] ∧
        (callDue (record.hook.map fun hook => (hook, record.call))).Does calls (.done u) := by
      cases last with
      | false => exact ⟨[], others, rfl, rfl, reacts⟩
      | true =>
        obtain ⟨_, told, calls, rfl, tells, rest⟩ := does_bind reacts
        exact ⟨told, calls, rfl, by rw [does_notice tells]; rfl, rest⟩
    rw [due, tailCalls, List.filterMap_append, ← tailCalls, ← tailCalls, quiet, List.nil_append]
    cases hooked : record.hook with
    | none =>
      rw [hooked] at rest
      obtain ⟨rfl, -⟩ := does_done rest
      rfl
    | some hook =>
      rw [hooked] at rest
      exact (does_callTail rest).1

/-- A call whose routine is let run never waits for anybody once that is decided. -/
theorem silent_conclude_execute {call : Call} {hooks : Hooks ρ} {tail : TailHook ρ}
    (found : hooks.tail = some tail) : (conclude call hooks .execute).Silent := by
  unfold conclude
  rw [found]
  refine silent_bind (silent_bind (fun e => trivial) fun armed => ?_) fun _ => trivial
  cases armed with
  | first => trivial
  | again count => trivial
  | overflow => trivial

end Engine

/-! ### Single steps -/

/-- The records are changed by a call that is let run, or by a return; otherwise they are dropped, or none
    of them changes. -/
theorem Stage.Permits.records {s : Stage ρ} {c : Change ρ} (permitted : s.Permits c) (stays : s.drops = false) :
    (∃ call hooks tail, s = .conclude call hooks .execute ∧ hooks.tail = some tail ∧ c = .arm tail call) ∨
      (∃ pc, s = .takeReturn pc ∧ c = .arrive pc) ∨
      (∀ r a, (c.onReturns r).get? a = r.get? a) ∧ (∀ a, s.armsAt a = false) ∧ ∀ pc, s ≠ .takeReturn pc := by
  have lookup (looks : c.IsLookup) (r : Returns ρ) (a : UInt32) : (c.onReturns r).get? a = r.get? a := by
    cases c <;> first | rfl | exact looks.elim
  have edit (edits : c.IsEdit) (r : Returns ρ) (a : UInt32) : (c.onReturns r).get? a = r.get? a := by
    cases c <;> first | rfl | exact edits.elim
  cases s with
  | conclude call hooks decision =>
    obtain ⟨tail, found, rfl, rfl⟩ := permitted
    exact .inl ⟨call, hooks, tail, rfl, found, rfl⟩
  | takeReturn pc => exact .inr (.inl ⟨pc, rfl, permitted⟩)
  | dispatch call => exact .inr (.inr ⟨lookup permitted, fun _ => rfl, fun _ => nofun⟩)
  | resolve call => exact .inr (.inr ⟨lookup permitted, fun _ => rfl, fun _ => nofun⟩)
  | handle call hooks => exact .inr (.inr ⟨edit permitted, fun _ => rfl, fun _ => nofun⟩)
  | returned => exact permitted.elim
  | start =>
    refine .inr (.inr ⟨?_, fun _ => rfl, fun _ => nofun⟩)
    rcases permitted with rfl | rfl | rfl <;> exact fun _ _ => rfl
  | load file => cases stays
  | reset => cases stays
  | dispose => cases stays
  | _ => cases permitted; exact .inr (.inr ⟨fun _ _ => rfl, fun _ => rfl, fun _ => nofun⟩)

namespace Returns

variable {r : Returns ρ}

/-- One return more, as far as the count can tell. -/
theorem waiting_arm (hook : TailHook ρ) (call : Call) (a : UInt32) : (r.arm hook call).2.waiting a =
    if call.returnPc = a then min (r.waiting a + 1) (2 ^ 32 - 1) else r.waiting a := by
  unfold waiting
  rw [get?_arm]
  by_cases same : call.returnPc = a
  · rw [if_pos same, if_pos same]
    cases found : r.get? a with
    | none => rfl
    | some record =>
      have := record.count.toNat_lt
      show ((sum? record.count 1).getD record.count).toNat = min (record.count.toNat + 1) (2 ^ 32 - 1)
      cases more : sum? record.count 1 with
      | none =>
        have beyond : 2 ^ 32 ≤ record.count.toNat + 1 := sum?_eq_none_iff.mp more
        rw [Option.getD_none]
        omega
      | some count =>
        have exact := sum?_eq_some_iff.mp more
        rw [UInt32.toNat_one] at exact
        have := count.toNat_lt
        rw [Option.getD_some]
        omega
  · rw [if_neg same, if_neg same]

theorem Bounded.waiting (bounded : r.Bounded) (a : UInt32) : r.waiting a < 2 ^ 32 - 1 := by
  unfold Returns.waiting
  split
  · rename_i record found
    exact bounded a record found
  · decide

theorem waiting_arrive (counted : r.Counted) (pc a : UInt32) :
    r.waiting a = (r.arrive pc).2.waiting a + (pc == a && (r.get? a).isSome).toNat := by
  unfold waiting
  rw [get?_arrive]
  by_cases same : pc = a
  · rw [if_pos same, beq_iff_eq.mpr same]
    cases found : r.get? a with
    | none => rfl
    | some record =>
      have some := counted a record found
      have fewer := toNat_remaining some
      by_cases last : remaining record.count = 0
      · rw [last] at fewer
        simp only [Option.bind_some, left, if_pos last]
        show record.count.toNat = 0 + 1
        have : (0 : UInt32).toNat = 0 := rfl
        omega
      · simp only [Option.bind_some, left, if_neg last]
        show record.count.toNat = (remaining record.count).toNat + 1
        omega
  · rw [if_neg same, beq_false_of_ne same]
    rfl

end Returns

namespace Machine

variable {m n : Machine ρ} {event : Event ρ}

/-- The returns that an address waits for change where a tail hook starts to wait, and where a return is
    taken. -/
theorem Step.waiting (step : m.Step event n) (keeps : m.Keeps) (bounded : m.engine.returns.Bounded)
    (counted : m.engine.returns.Counted) (stays : event.stage.drops = false) (a : UInt32) :
    m.engine.returns.waiting a + (event.arms a).toNat = (event.takes a).toNat + n.engine.returns.waiting a := by
  rcases step.engine keeps with ⟨same, silent⟩ | ⟨s, c, rfl, permitted, changed⟩
  · have arms : event.arms a = false := by
      cases event with
      | acted s action =>
        cases action with
        | changed before after => exact absurd rfl (silent s before after)
        | _ => exact Bool.and_false _
      | _ => rfl
    have takes : event.takes a = false := by
      unfold Event.takes
      split
      · exact absurd rfl (silent _ _ _)
      · rfl
    rw [same, arms, takes]
    exact Nat.add_comm ..
  · rw [changed, Change.returns_apply]
    rcases permitted.records stays with ⟨call, hooks, tail, rfl, found, rfl⟩ | ⟨pc, rfl, rfl⟩ | ⟨same, arms, takes⟩
    · have fits := bounded.waiting a
      have waits : (m.engine.returns.arm tail call).2.waiting a =
          m.engine.returns.waiting a + (call.returnPc == a).toNat := by
        rw [Returns.waiting_arm]
        by_cases here : call.returnPc = a
        · rw [if_pos here, beq_iff_eq.mpr here, Bool.toNat_true]
          omega
        · rw [if_neg here, beq_false_of_ne here]
          rfl
      rw [Change.onReturns, waits]
      simp [Event.arms, Event.takes, Stage.armsAt, Action.changes, found, Nat.add_comm]
    · rw [Returns.waiting_arrive counted pc]
      simp [Event.arms, Event.takes, Stage.armsAt, Change.onReturns, Nat.add_comm]
    · have waits : (c.onReturns m.engine.returns).waiting a = m.engine.returns.waiting a := by
        rw [Returns.waiting, Returns.waiting, same]
      have none : (Event.acted s (.changed m.engine (c.apply m.engine))).takes a = false := by
        unfold Event.takes
        split
        · rename_i eq
          cases eq
          exact absurd rfl (takes _)
        · rfl
      rw [waits, Event.arms, arms, none]
      exact Nat.add_comm ..

/-- How many tail hooks were had wait at an address by calls that are not through yet. -/
def pending (a : UInt32) (m : Machine ρ) : Nat :=
  (m.tasks.map fun t => t.done.countP fun action => t.stage.armsAt a && action.changes).sum

theorem Step.pending (step : m.Step event n) (orderly : m.Orderly) (a : UInt32) :
    m.pending a + (event.arms a).toNat = (event.completes a).toNat + n.pending a := by
  cases step with
  | enter m s entry rests => simp [Machine.pending, Event.arms, Event.completes, Task.begin]
  | @act e e' s p p' action acts done below =>
    have one : [action].countP (fun action => s.armsAt a && action.changes) =
        (s.armsAt a && action.changes).toNat := by
      rw [List.countP_singleton]
      cases s.armsAt a && action.changes <;> rfl
    simp only [Machine.pending, List.map_cons, List.sum_cons, List.countP_append, one, Event.arms, Event.completes,
      Bool.toNat_false]
    omega
  | finish e s result done below =>
    have begins : (((s.next result).map Task.begin).toList.map fun t => t.done.countP fun action =>
        t.stage.armsAt a && action.changes).sum = 0 := by
      cases s.next result <;> rfl
    have does := orderly.does _ List.mem_cons_self
    have settled : done.countP (fun action => s.armsAt a && action.changes) = (s.armsAt a).toNat := by
      cases arms : s.armsAt a with
      | false => simp
      | true =>
        obtain ⟨call, hooks, tail, rfl, found, -⟩ := Stage.armsAt_iff.mp arms
        obtain ⟨e, n, rfl⟩ := Engine.does_conclude_execute found does
        rfl
    simp only [Machine.pending, List.map_append, List.sum_append, begins, List.map_cons, List.sum_cons, settled,
      Event.arms, Event.completes, Bool.toNat_false]
    omega

/-- When it is not the engine's turn, every call that had its tail hook wait is through. -/
theorem Orderly.pending_eq_zero (orderly : m.Orderly) (rests : m.AtRest) (a : UInt32) : m.pending a = 0 := by
  refine List.sum_eq_zero_iff_forall_eq_nat.mpr fun n member => ?_
  obtain ⟨t, there, rfl⟩ := List.mem_map.mp member
  have arms : t.stage.armsAt a = false := by
    by_contra arms
    obtain ⟨call, hooks, tail, stage, found, -⟩ := Stage.armsAt_iff.mp (Bool.eq_true_of_not_eq_false arms)
    obtain ⟨s, rest, done⟩ := t
    subst stage
    exact ((orderly.does _ there).silent (Engine.silent_conclude_execute found)).not_waits
      (orderly.waits_of_atRest rests _ there)
  simp [arms]

/-- A record goes on from the one before, with its hook and call, or is made by a call that is let run. -/
theorem Step.record (step : m.Step event n) (keeps : m.Keeps) (stays : event.stage.drops = false) {a : UInt32}
    {record : PendingTail ρ} (found : n.engine.returns.get? a = some record) :
    (∃ old, m.engine.returns.get? a = some old ∧ old.hook = record.hook ∧ old.call = record.call) ∨
      ∃ call hooks, event = .acted (.conclude call hooks .execute) (.changed m.engine n.engine) ∧
        m.engine.returns.get? a = none ∧ call.returnPc = a ∧ record.call = call ∧ record.hook = hooks.tail := by
  rcases step.engine keeps with ⟨same, -⟩ | ⟨s, c, rfl, permitted, changed⟩
  · rw [same] at found
    exact .inl ⟨record, found, rfl, rfl⟩
  · rw [changed, Change.returns_apply] at found
    rcases permitted.records stays with ⟨call, hooks, tail, rfl, has, rfl⟩ | ⟨pc, rfl, rfl⟩ | ⟨same, -, -⟩
    · rw [Change.onReturns, Returns.get?_arm] at found
      split at found
      · rename_i here
        cases found
        cases was : m.engine.returns.get? a with
        | some old => exact .inl ⟨old, rfl, rfl, rfl⟩
        | none => exact .inr ⟨call, hooks, rfl, rfl, here, rfl, has.symm⟩
      · exact .inl ⟨record, found, rfl, rfl⟩
    · rw [Change.onReturns, Returns.get?_arrive] at found
      split at found
      · obtain ⟨old, was, found⟩ := Option.bind_eq_some_iff.mp found
        unfold Returns.left at found
        split at found
        · cases found
        · cases found
          exact .inl ⟨old, was, rfl, rfl⟩
      · exact .inl ⟨record, found, rfl, rfl⟩
    · rw [same] at found
      exact .inl ⟨record, found, rfl, rfl⟩

end Machine

/-! ### Runs -/

/-- Where the hook and the call of an address's record come from: from the record that the address had when
    the run began, if it has had one ever since, or else from the call by which it last came to have one. -/
def Arises (m : Machine ρ) (trace : List (Moment ρ)) (a : UInt32) (hook : Option (TailHook ρ)) (call : Call) :
    Prop :=
  (∃ first, m.engine.returns.get? a = some first ∧ first.hook = hook ∧ first.call = call ∧
      ∀ x ∈ trace, a ∈ x.after.engine.returns.records) ∨
    ∃ earlier x later hooks before, trace = earlier ++ x :: later ∧
      x.event = .acted (.conclude call hooks .execute) (.changed before x.after.engine) ∧
      before.returns.get? a = none ∧ call.returnPc = a ∧ hook = hooks.tail ∧
      ∀ y ∈ x :: later, a ∈ y.after.engine.returns.records

theorem Arises.snoc {m : Machine ρ} {trace : List (Moment ρ)} {a : UInt32} {hook : Option (TailHook ρ)}
    {call : Call} (arises : Arises m trace a hook call) {x : Moment ρ}
    (present : a ∈ x.after.engine.returns.records) :
    Arises m (trace ++ [x]) a hook call := by
  rcases arises with ⟨first, found, hooked, called, since⟩ | ⟨earlier, y, later, hooks, before, rfl, made, rest⟩
  · refine .inl ⟨first, found, hooked, called, fun y member => ?_⟩
    rcases List.mem_append.mp member with member | member
    · exact since y member
    · rw [List.mem_singleton.mp member]
      exact present
  · obtain ⟨absent, here, hooked, since⟩ := rest
    refine .inr ⟨earlier, y, later ++ [x], hooks, before, by simp, made, absent, here, hooked, fun z member => ?_⟩
    rw [← List.cons_append] at member
    rcases List.mem_append.mp member with member | member
    · exact since z member
    · rw [List.mem_singleton.mp member]
      exact present

section
variable {m n : Machine ρ} {trace : List (Moment ρ)}

theorem Run.arises (run : Run m trace n) (keeps : m.Keeps) (stays : ∀ x ∈ trace, x.event.stage.drops = false)
    {a : UInt32} {record : PendingTail ρ} (found : n.engine.returns.get? a = some record) :
    Arises m trace a record.hook record.call := by
  induction run generalizing record with
  | nil => exact .inl ⟨record, found, rfl, rfl, by simp⟩
  | @snoc trace k l event run step ih =>
    have present : a ∈ l.engine.returns.records := Returns.mem_records.mpr ⟨record, found⟩
    have last := stays ⟨event, l⟩ (List.mem_append_right _ (List.mem_singleton_self _))
    rcases step.record (run.keeps keeps) last found with ⟨old, was, hooked, called⟩ | ⟨call, hooks, made, rest⟩
    · rw [← hooked, ← called]
      exact (ih (fun x member => stays x (List.mem_append_left _ member)) was).snoc present
    · obtain ⟨absent, here, called, hooked⟩ := rest
      subst called
      exact .inr ⟨trace, ⟨event, l⟩, [], hooks, k.engine, rfl, made, absent, here, hooked, by simpa using present⟩

/-- What a task has done, it did in the run, or before the run began. -/
theorem Run.made (run : Run m trace n) {t : Task ρ} (member : t ∈ n.tasks) {action : Action ρ}
    (done : action ∈ t.done) :
    (∃ x ∈ trace, x.event = .acted t.stage action) ∨ ∃ u ∈ m.tasks, u.stage = t.stage ∧ action ∈ u.done := by
  induction run generalizing t with
  | nil => exact .inr ⟨t, member, rfl, done⟩
  | @snoc trace k l event run step ih =>
    have before {u : Task ρ} (there : u ∈ k.tasks) (did : action ∈ u.done) :
        (∃ x ∈ trace ++ [⟨event, l⟩], x.event = .acted u.stage action) ∨
          ∃ v ∈ m.tasks, v.stage = u.stage ∧ action ∈ v.done :=
      (ih there did).imp_left fun ⟨x, earlier, made⟩ => ⟨x, List.mem_append_left _ earlier, made⟩
    cases step with
    | enter k s entry rests =>
      rcases List.mem_cons.mp member with rfl | member
      · cases done
      · exact before member done
    | @act e e' s p p' now acts past below =>
      rcases List.mem_cons.mp member with rfl | member
      · rcases List.mem_append.mp done with done | done
        · exact before (u := ⟨s, p, past⟩) List.mem_cons_self done
        · rw [List.mem_singleton.mp done]
          exact .inl ⟨_, List.mem_append_right _ (List.mem_singleton_self _), rfl⟩
      · exact before (List.mem_cons_of_mem _ member) done
    | finish e s result past below =>
      rcases List.mem_append.mp member with member | member
      · obtain ⟨next, -, rfl⟩ := Option.map_eq_some_iff.mp (Option.mem_toList.mp member)
        cases done
      · exact before (List.mem_cons_of_mem _ member) done

theorem Run.made_of_finished (run : Run m trace n) {s : Stage ρ} {result : s.Result} {done : List (Action ρ)}
    {x : Moment ρ} (member : x ∈ trace) (finished : x.event = .finished s result done) {action : Action ρ}
    (did : action ∈ done) :
    (∃ y ∈ trace, y.event = .acted s action) ∨ ∃ u ∈ m.tasks, u.stage = s ∧ action ∈ u.done := by
  obtain ⟨earlier, later, k, rfl, before, step⟩ := run.step_of_mem member
  rw [finished] at step
  exact (before.made step.mem_tasks did).imp_left fun ⟨y, there, made⟩ => ⟨y, List.mem_append_left _ there, made⟩

theorem Run.does_of_finished (run : Run m trace n) (orderly : m.Orderly) {s : Stage ρ} {result : s.Result}
    {done : List (Action ρ)} {x : Moment ρ} (member : x ∈ trace) (finished : x.event = .finished s result done) :
    s.program.Does done (.done result) := by
  obtain ⟨_, _, k, -, before, step⟩ := run.step_of_mem member
  rw [finished] at step
  exact step.does (before.orderly orderly)

/-- The returns that an address waits for at the beginning, and those that calls have it wait for, are the
    returns that are taken there and those that it waits for at the end. -/
theorem Run.waiting (run : Run m trace n) (keeps : m.Keeps) (orderly : m.Orderly)
    (rests : m.AtRest) (ends : n.AtRest) (start : m.engine.returns.Bounded) (counted : m.engine.returns.Counted)
    (bounded : ∀ x ∈ trace, x.after.engine.returns.Bounded) (stays : ∀ x ∈ trace, x.event.stage.drops = false)
    (a : UInt32) :
    m.engine.returns.waiting a + trace.countP (fun x => x.event.completes a) =
      trace.countP (fun x => x.event.takes a) + n.engine.returns.waiting a := by
  -- A tail hook starts to wait before its call is through, and other calls may come between. Those that are
  -- not through yet are pending: the records balance with the armings, the armings with the calls.
  have records := run.balance (p := Event.arms a) (q := Event.takes a) (f := fun k => k.engine.returns.waiting a)
    fun {earlier later x k} split before step => by
      subst split
      have past (y : Moment ρ) (there : y ∈ earlier) := bounded y (List.mem_append_left _ there)
      exact step.waiting (before.keeps keeps) (before.last (P := fun k => k.engine.returns.Bounded) start past)
        (before.counted keeps counted) (stays x (by simp)) a
  have tasks := run.balance (p := Event.arms a) (q := Event.completes a) (f := Machine.pending a)
    fun _ before step => step.pending (before.orderly orderly) a
  rw [orderly.pending_eq_zero rests, (run.orderly orderly).pending_eq_zero ends] at tasks
  omega

end

/-- No waiting tail hook is lost or called twice. From any engine that others can meet, as long as no session
    is loaded, nothing is dropped and no count comes to its end:

    * the waiting returns of an address balance with the calls that are through and the returns taken;
    * each return that is taken calls what is due at it, once, and nothing happens where nothing waits;
    * the hook and the call of a record that is found come from the call that made the record, or from the
      record that was there when the run began;
    * a call that is skipped calls its own tail hook, once, on itself, and has nothing wait. -/
theorem Run.tail_hooks_conserved {config : Config} {registry : Registry ρ} {own : Marks}
    {past trace : List (Moment ρ)} {m n : Machine ρ} (history : Run (.fresh config registry own) past m)
    (rests : m.AtRest) (run : Run m trace n) (ends : n.AtRest)
    (bounded : ∀ x ∈ past ++ trace, x.after.engine.returns.Bounded)
    (stays : ∀ x ∈ trace, x.event.stage.drops = false) :
    (∀ a, m.engine.returns.waiting a + trace.countP (fun x => x.event.completes a) =
      trace.countP (fun x => x.event.takes a) + n.engine.returns.waiting a) ∧
    (∀ x ∈ trace, ∀ pc done, x.event = .finished (.takeReturn pc) () done →
      ∃ before others, done = .changed before (before.onReturns (Returns.arrive pc)).2 :: others ∧
        tailCalls others = before.returns.due pc ∧
        (before.returns.get? pc = none → others = [] ∧ (before.onReturns (Returns.arrive pc)).2 = before) ∧
        ∀ action ∈ done, (∃ y ∈ trace, y.event = .acted (.takeReturn pc) action) ∨
          ∃ u ∈ m.tasks, u.stage = .takeReturn pc ∧ action ∈ u.done) ∧
    (∀ earlier x later pc before after record, trace = earlier ++ x :: later →
      x.event = .acted (.takeReturn pc) (.changed before after) → before.returns.get? pc = some record →
      Arises m earlier pc record.hook record.call) ∧
    (∀ x ∈ trace, ∀ call hooks tail decision done, x.event = .finished (.conclude call hooks .skip) decision done →
      hooks.tail = some tail →
      tailCalls done = [(tail.routine, call)] ∧ ∀ before after, .changed before after ∉ done) := by
  have fresh := Machine.keeps_fresh config registry own
  have keeps := history.keeps fresh
  have orderly := history.orderly (Machine.orderly_fresh config registry own)
  have earlier (x : Moment ρ) (there : x ∈ past) := bounded x (List.mem_append_left _ there)
  have later (x : Moment ρ) (there : x ∈ trace) := bounded x (List.mem_append_right _ there)
  have start := history.last (P := fun k => k.engine.returns.Bounded) Machine.records_fresh earlier
  have counted := history.counted fresh Machine.records_fresh
  refine ⟨fun a => ?_, fun x member pc done finished => ?_, ?_, ?_⟩
  · exact run.waiting keeps orderly rests ends start counted later stays a
  · obtain ⟨before, others, shape, called, unknown⟩ :=
      Engine.does_takeReturn (run.does_of_finished orderly member finished)
    exact ⟨before, others, shape, called, unknown, fun action did => run.made_of_finished member finished did⟩
  · intro before x later pc engine after record split acted found
    subst split
    obtain ⟨k, first, step⟩ := run.split
    rw [acted] at step
    rw [← step.engine_before] at found
    exact first.arises keeps (fun y there => stays y (List.mem_append_left _ there)) found
  · intro x member call hooks tail decision done finished found
    exact Engine.does_conclude_skip found (run.does_of_finished orderly member finished)

/-! ### A call that is entered again -/

namespace Engine

open Program

/-- A tail hook that is called does nothing but switch the measuring off and on again. -/
def calling (hook : TailHook ρ) (call : Call) : List (Action ρ) :=
  [.told (.tailCalled hook.table hook.index), .replied (.setProfiling false) true, .tailRan hook.routine call,
    .replied (.setProfiling true) true]

theorem yields_callTail (hook : TailHook ρ) (call : Call) (e : Engine ρ) :
    (callTail hook call).Yields e (calling hook call) e () :=
  .act (.notice ..) <| .act (.reply ..) <| .act (.tail ..) <| .act (.reply ..) <| .done ..

/-- A return that finds a record with a hook, and is not its last, has the hook called. -/
theorem yields_takeReturn {pc : UInt32} {e : Engine ρ} {hook : TailHook ρ} {call : Call}
    (arrives : (e.returns.arrive pc).1 = .returned (some (hook, call)) false) :
    (takeReturn pc).Yields e (.changed e (e.onReturns (Returns.arrive pc)).2 :: calling hook call)
      (e.onReturns (Returns.arrive pc)).2 () := by
  refine (yields_modifyGet (onReturns (Returns.arrive pc)) e).bind ?_
  rw [show (e.onReturns (Returns.arrive pc)).1 = .returned (some (hook, call)) false from arrives]
  exact yields_callTail ..

/-- A call that is skipped has its tail hook called at once. -/
theorem yields_conclude_skip {hooks : Hooks ρ} {tail : TailHook ρ} (found : hooks.tail = some tail) (call : Call)
    (e : Engine ρ) :
    (conclude call hooks .skip).Yields e (calling tail call ++ [.told (.handled call .skip)]) e .skip := by
  unfold conclude
  rw [found]
  exact (yields_callTail ..).bind ((yields_notice ..).bind (.done ..))

end Engine

/-- A return that is not the last comes through by itself, if the hook that it calls does not enter the engine. -/
theorem Run.arrival (rests : m.AtRest) {pc : UInt32} {hook : TailHook ρ} {call : Call}
    (arrives : (m.engine.returns.arrive pc).1 = .returned (some (hook, call)) false) :
    ∃ trace done, Run m trace ⟨(m.engine.onReturns (Returns.arrive pc)).2, m.tasks⟩ ∧
      done = .changed m.engine (m.engine.onReturns (Returns.arrive pc)).2 :: Engine.calling hook call ∧
      trace.map (·.event) =
        [.entered .returned, .acted .returned (.replied .programCounter pc),
          .finished .returned pc [.replied .programCounter pc]] ++
          done.map (.acted (.takeReturn pc)) ++ [.finished (.takeReturn pc) () done] ∧
      ∀ x ∈ trace, x.after.engine = m.engine ∨ x.after.engine = (m.engine.onReturns (Returns.arrive pc)).2 := by
  have told : (Stage.returned (ρ := ρ)).program.Yields m.engine [.replied .programCounter pc] m.engine pc :=
    .act (.reply ..) (.done ..)
  have takes : (Stage.takeReturn pc).program.Yields m.engine _ _ () := Engine.yields_takeReturn arrives
  obtain ⟨first, asked, events, engines⟩ := Run.stage rfl rests told
  obtain ⟨last, called, events', engines'⟩ := Run.through takes [] m.tasks
  refine ⟨_, _, asked.trans called, rfl, by simp [events, events'], fun x member => ?_⟩
  rcases List.mem_append.mp member with member | member
  · exact .inl ((engines x member).resolve_right (by simp))
  · refine (engines' x member).imp_right ?_
    rintro ⟨before, changed⟩
    rcases List.mem_cons.mp changed with same | called
    · exact (Action.changed.inj same).2
    · simp [Engine.calling] at called

/-- A call that a foreign hook has skipped comes through by itself, if neither of its hooks enters the engine. -/
theorem Run.skipping (rests : m.AtRest) {hooks : Hooks ρ} {head : HeadHook ρ} {tail : TailHook ρ} {routine : ρ}
    (headed : hooks.head = some head) (foreign : head.routine = .foreign routine) (tailed : hooks.tail = some tail)
    (call : Call) :
    ∃ trace decided done, Run m trace m ∧
      decided = [.replied (.setProfiling false) true, .headRan routine call .skip, .replied (.setProfiling true) true] ∧
      done = Engine.calling tail call ++ [.told (.handled call .skip)] ∧
      trace.map (·.event) =
        .entered (.handle call hooks) :: decided.map (.acted (.handle call hooks)) ++
          [.finished (.handle call hooks) .skip decided] ++
          done.map (.acted (.conclude call hooks .skip)) ++ [.finished (.conclude call hooks .skip) .skip done] ∧
      ∀ x ∈ trace, x.after.engine = m.engine := by
  have decides : (Stage.handle call hooks).program.Yields m.engine
      [.replied (.setProfiling false) true, .headRan routine call .skip, .replied (.setProfiling true) true]
      m.engine Decision.skip := by
    show (Engine.headDecision call hooks).Yields _ _ _ _
    rw [Engine.headDecision, headed]
    show (Engine.unmeasured (Engine.headProgram call head.routine)).Yields _ _ _ _
    rw [foreign]
    exact .act (.reply ..) <| .act (.head ..) <| .act (.reply ..) <| .done ..
  have concludes : (Stage.conclude call hooks .skip).program.Yields m.engine _ _ Decision.skip :=
    Engine.yields_conclude_skip tailed call m.engine
  obtain ⟨first, handled, events, engines⟩ := Run.stage rfl rests decides
  obtain ⟨last, concluded, events', engines'⟩ := Run.through concludes [] m.tasks
  refine ⟨_, _, _, handled.trans concluded, rfl, rfl, by simp [events, events'], fun x member => ?_⟩
  rcases List.mem_append.mp member with member | member
  · exact (engines x member).resolve_right (by simp)
  · exact (engines' x member).resolve_right (by simp [Engine.calling])

theorem Returns.IsSingle.bounded {r : Returns ρ} {address : UInt32} {record : PendingTail ρ}
    (single : r.IsSingle address record) (small : record.count.toNat < 2 ^ 32 - 1) : r.Bounded := by
  intro a found there
  obtain ⟨rfl, rfl⟩ := single.only there
  exact small

/-- A call is entered twice before it returns, the second time by another trap, and then returns once; another call is
    skipped. The first call's hook is called at the return, and it waits for the second. -/
theorem Run.tail_hooks_conserved_reentered :
    ∃ (trace : List (Moment Bool)) (n : Machine Bool) (call skipped : Call) (hooks : Hooks Bool),
      (Run (.fresh {} {} ∅) trace n ∧ n.AtRest ∧ (∀ x ∈ trace, x.after.engine.returns.Bounded) ∧
        ∀ x ∈ trace, x.event.stage.drops = false) ∧
      trace.countP (fun x => x.event.completes 0x1002) = 2 ∧ trace.countP (fun x => x.event.takes 0x1002) = 1 ∧
      n.engine.returns.waiting 0x1002 = 1 ∧
      (∃ x ∈ trace, ∃ done, x.event = .finished (.takeReturn 0x1002) () done ∧ tailCalls done = [(true, call)]) ∧
      ∃ x ∈ trace, ∃ done, x.event = .finished (.conclude skipped hooks .skip) .skip done ∧
        tailCalls done = [(false, skipped)] := by
  let first : TailHook Bool := { table := "system", index := 0, routine := true }
  let second : TailHook Bool := { table := "system", index := 1, routine := false }
  let call : Call := { pc := 0x1000, returnPc := 0x1002 }
  let again : Call := { pc := 0x2000, returnPc := 0x1002 }
  let skipped : Call := { returnPc := 0x3002 }
  let hooks : Hooks Bool := { head := some ⟨"system", 1, .foreign false⟩, tail := some second }
  let start : Machine Bool := .fresh {} {} ∅
  let armed : Engine Bool := (start.engine.onReturns (Returns.arm first call)).2
  let twice : Engine Bool := (armed.onReturns (Returns.arm second again)).2
  let taken : Engine Bool := (twice.onReturns (Returns.arrive 0x1002)).2
  let record (count : UInt32) : PendingTail Bool := { call := call, hook := some first, count := count }
  -- There is one record at most at any time.
  have fresh (a : UInt32) : start.engine.returns.get? a = none := Machine.get?_fresh ..
  have one : armed.returns.IsSingle 0x1002 (record 1) := Returns.isSingle_arm fresh first call
  have two : twice.returns.IsSingle 0x1002 (record 2) := one.arm second rfl
  have left : taken.returns.IsSingle 0x1002 (record 1) := two.arrive (by decide)
  have idle (e : Engine Bool) : (Machine.mk e []).AtRest := Machine.atRest_of_idle rfl
  have counts : (start.engine.returns.arm first call).1 ≠ .overflow := Returns.arm_ne_overflow_of_none (fresh _)
  obtain ⟨trace₁, _, _, run₁, rfl, events₁, engines₁⟩ := Run.arming (idle start.engine) counts
  have counts : (armed.returns.arm second again).1 ≠ .overflow := Returns.arm_ne_overflow_iff.mpr fun found there => by
    rw [← (one.only there).2]
    decide
  obtain ⟨trace₂, _, _, run₂, rfl, events₂, engines₂⟩ := Run.arming (idle armed) counts
  have arrives : (twice.returns.arrive 0x1002).1 = .returned (some (first, call)) false := by
    rw [Returns.arrive_of_some two.found, decide_eq_false (by decide)]
    rfl
  obtain ⟨trace₃, _, run₃, rfl, events₃, engines₃⟩ := Run.arrival (idle twice) arrives
  have headed : hooks.head = some ⟨"system", 1, .foreign false⟩ := rfl
  have tailed : hooks.tail = some second := rfl
  obtain ⟨trace₄, _, _, run₄, rfl, rfl, events₄, engines₄⟩ := Run.skipping (idle taken) headed rfl tailed skipped
  let trace := trace₁ ++ trace₂ ++ trace₃ ++ trace₄
  have run : Run start trace ⟨taken, []⟩ := ((run₁.trans run₂).trans run₃).trans run₄
  have zero : start.engine.returns.Bounded := Machine.records_fresh
  have full : twice.returns.Bounded := two.bounded (by decide)
  have once : armed.returns.Bounded := one.bounded (by decide)
  have last : taken.returns.Bounded := left.bounded (by decide)
  have either {e before after : Engine Bool} (is : e = before ∨ e = after) (small : before.returns.Bounded)
      (small' : after.returns.Bounded) : e.returns.Bounded := by
    rcases is with rfl | rfl
    · exact small
    · exact small'
  have bounded (x : Moment Bool) (member : x ∈ trace) : x.after.engine.returns.Bounded := by
    simp only [trace, List.mem_append] at member
    rcases member with ((member | member) | member) | member
    · exact either (engines₁ x member) zero once
    · exact either (engines₂ x member) once full
    · exact either (engines₃ x member) full last
    · exact engines₄ x member ▸ last
  have count (p : Event Bool → Bool) : trace.countP (fun x => p x.event) = (trace.map (·.event)).countP p := by
    rw [List.countP_map]
    rfl
  have events : trace.map (·.event) = trace₁.map (·.event) ++ trace₂.map (·.event) ++ trace₃.map (·.event) ++
      trace₄.map (·.event) := by
    simp only [trace, List.map_append]
  rw [events₁, events₂, events₃, events₄] at events
  have completes : trace.countP (fun x => x.event.completes 0x1002) = 2 := by
    rw [count, events]
    rfl
  have takes : trace.countP (fun x => x.event.takes 0x1002) = 1 := by
    rw [count, events]
    simp [Event.takes, two.found, Engine.calling]
  have kept : (trace.map (·.event)).all (fun e => !e.stage.drops) = true := by
    rw [events]
    rfl
  have stays (x : Moment Bool) (member : x ∈ trace) : x.event.stage.drops = false :=
    Bool.not_eq_true' _ ▸ List.all_eq_true.mp kept x.event (List.mem_map_of_mem member)
  obtain ⟨balanced, each, -, skipping⟩ :=
    Run.tail_hooks_conserved .nil (idle start.engine) run (idle taken) bounded stays
  have happens (e : Event Bool) (there : e ∈ trace.map (·.event)) : ∃ x ∈ trace, x.event = e :=
    List.mem_map.mp there
  obtain ⟨x, returned, taking⟩ := happens (.finished (.takeReturn 0x1002) ()
    (.changed twice taken :: Engine.calling first call)) (by rw [events]; simp [taken])
  obtain ⟨y, concluded, skips⟩ := happens (.finished (.conclude skipped hooks .skip) .skip
    (Engine.calling second skipped ++ [.told (.handled skipped .skip)])) (by rw [events]; simp)
  refine ⟨trace, _, call, skipped, hooks, ⟨run, idle taken, bounded, stays⟩, completes, takes, ?_,
    ⟨x, returned, _, taking, ?_⟩, y, concluded, _, skips, (skipping y concluded _ _ _ _ _ skips tailed).1⟩
  · have waits := balanced 0x1002
    have none : start.engine.returns.waiting 0x1002 = 0 := by
      rw [Returns.waiting, fresh]
    rw [completes, takes, none] at waits
    omega
  · obtain ⟨before, others, shape, called, -⟩ := each x returned _ _ taking
    obtain ⟨same, rfl⟩ := List.cons.inj shape
    rw [← (Action.changed.inj same).1, Returns.due, two.found] at called
    exact called

end TrapHooks
