import Mathlib.Data.List.Induction
import Mathlib.Logic.Function.Iterate
import TrapHooks.Proofs.Returns.Conservation
import TrapHooks.Proofs.Returns.Order

/-! How far a record's count can be trusted. A count of thirty-two bits agrees with the number of returns that are to
    come, as long as there are never as many as 2^32. A return that would make them so many cannot be counted: the
    record is left as it is, and the call that was to return has no outcome. -/

namespace TrapHooks.Returns

variable {ρ : Type}

/-! ### Histories -/

/-- What is done to the waiting tail hooks: something at one address, or all of them are dropped. -/
inductive Act (ρ : Type)
  | operate (op : Operation ρ)
  | clear

def Act.perform : Act ρ → Returns ρ → Returns ρ
  | operate op, r => (op.perform r).2
  | clear, r => r.clear

/-- What there is after a history that starts with no record; the marks are the interpreter's. -/
def after (marks : Marks) (history : List (Act ρ)) : Returns ρ :=
  history.foldl (fun r act => act.perform r) { marks := marks }

/-- How many returns are to come at an address, in numbers without a bound, if there were so many before. -/
def Act.due (a : UInt32) : Act ρ → Nat → Nat
  | operate (.arm _ call), n => if call.returnPc = a then n + 1 else n
  | operate (.arrive pc), n => if pc = a then n - 1 else n
  | operate (.restore record), n => if record.count ≠ 0 ∧ record.call.returnPc = a then record.count.toNat else n
  | clear, _ => 0

def dueAfter (a : UInt32) (history : List (Act ρ)) : Nat :=
  history.foldl (fun n act => act.due a n) 0

@[simp] theorem after_snoc (marks : Marks) (history : List (Act ρ)) (act : Act ρ) :
    after marks (history ++ [act]) = act.perform (after marks history) := by
  simp [after]

@[simp] theorem dueAfter_snoc (a : UInt32) (history : List (Act ρ)) (act : Act ρ) :
    dueAfter a (history ++ [act]) = act.due a (dueAfter a history) := by
  simp [dueAfter]

/-! ### Counts -/

section
variable {a : UInt32} {r : Returns ρ}

theorem waiting_restore (record : PendingTail ρ) (a : UInt32) (r : Returns ρ) : (r.restore record).2.waiting a =
    if record.count ≠ 0 ∧ record.call.returnPc = a then record.count.toNat else r.waiting a := by
  by_cases some : record.count = 0
  · rw [Returns.restore, if_pos some]
    simp [some]
  · rw [waiting, get?_restore some]
    by_cases here : record.call.returnPc = a
    · simp [some, here]
    · simp [here, waiting]

@[simp] theorem waiting_clear (a : UInt32) (r : Returns ρ) : r.clear.waiting a = 0 := by
  rw [waiting, get?_clear]

theorem waiting_of_some {record : PendingTail ρ} (found : r.get? a = some record) :
    r.waiting a = record.count.toNat := by
  rw [waiting, found]

theorem waiting_arrive_here (counted : r.Counted) (a : UInt32) : (r.arrive a).2.waiting a = r.waiting a - 1 := by
  have left := waiting_arrive counted a a
  cases found : r.get? a with
  | none =>
    rw [arrive_of_none found, waiting, found]
    rfl
  | some record =>
    rw [left, found, beq_self_eq_true]
    rfl

/-- A step keeps the count right if it leaves fewer than 2^32 returns to come. -/
theorem waiting_perform (counted : r.Counted) (act : Act ρ) (fits : act.due a (r.waiting a) < 2 ^ 32) :
    (act.perform r).waiting a = act.due a (r.waiting a) := by
  cases act with
  | clear => exact waiting_clear a r
  | operate op =>
    cases op with
    | arm hook call =>
      show (r.arm hook call).2.waiting a = _
      simp only [Act.due] at fits ⊢
      rw [waiting_arm]
      split
      · rename_i here
        rw [if_pos here] at fits
        omega
      · rfl
    | arrive pc =>
      show (r.arrive pc).2.waiting a = _
      simp only [Act.due]
      split
      · rename_i here
        exact here ▸ waiting_arrive_here counted pc
      · rename_i elsewhere
        rw [waiting_arrive counted pc a, beq_false_of_ne elsewhere]
        rfl
    | restore record => exact waiting_restore record a r

theorem Counted.act (counted : r.Counted) (act : Act ρ) : (act.perform r).Counted := by
  cases act with
  | clear => exact counted_clear r
  | operate op =>
    cases op with
    | arm hook call => exact counted.arm hook call
    | arrive pc => exact counted.arrive pc
    | restore record => exact counted.restore record

end

/-- Whatever was done, each record waits for some return. -/
theorem counted_after (marks : Marks) (history : List (Act ρ)) : (after marks history).Counted := by
  induction history using List.reverseRecOn with
  | nil =>
    intro a record found
    rw [after, List.foldl_nil, get?_empty] at found
    cases found
  | append_singleton history act ih =>
    rw [after_snoc]
    exact ih.act act

theorem waiting_after (marks : Marks) (a : UInt32) (history : List (Act ρ))
    (fits : ∀ earlier, earlier <+: history → dueAfter a earlier < 2 ^ 32) :
    (after marks history).waiting a = dueAfter a history := by
  induction history using List.reverseRecOn with
  | nil => rw [after, List.foldl_nil, waiting, get?_empty, dueAfter, List.foldl_nil]
  | append_singleton history act ih =>
    have before := ih fun earlier begins => fits earlier (begins.trans (List.prefix_append _ _))
    have now := fits _ List.prefix_rfl
    rw [dueAfter_snoc, ← before] at now ⊢
    rw [after_snoc]
    exact waiting_perform (counted_after marks history) act now

/-! ### Arrivals -/

/-- What so many arrivals at an address leave. -/
def arrivals (a : UInt32) (n : Nat) (r : Returns ρ) : Returns ρ :=
  (fun r => (r.arrive a).2)^[n] r

/-- The address has a record for so many arrivals, and none after the last of them. -/
def GoneAfter (a : UInt32) (n : Nat) (r : Returns ρ) : Prop :=
  ∀ m, (r.arrivals a m).get? a = none ↔ n ≤ m

section
variable {a : UInt32} {r : Returns ρ}

theorem get?_eq_none_iff (counted : r.Counted) : r.get? a = none ↔ r.waiting a = 0 := by
  cases found : r.get? a with
  | none => simp [waiting, found]
  | some record =>
    have := counted a record found
    rw [waiting_of_some found]
    simp only [reduceCtorEq, false_iff]
    omega

theorem waiting_arrivals (counted : r.Counted) (a : UInt32) (m : Nat) :
    (r.arrivals a m).waiting a = r.waiting a - m ∧ (r.arrivals a m).Counted := by
  induction m generalizing r with
  | zero => exact ⟨rfl, counted⟩
  | succ m ih =>
    obtain ⟨fewer, later⟩ := ih (counted.arrive a)
    refine ⟨?_, later⟩
    show ((r.arrive a).2.arrivals a m).waiting a = _
    rw [fewer, waiting_arrive_here counted]
    omega

/-- A record goes with the last return that it counts. -/
theorem goneAfter_waiting (counted : r.Counted) (a : UInt32) : r.GoneAfter a (r.waiting a) := by
  intro m
  obtain ⟨fewer, later⟩ := waiting_arrivals counted a m
  rw [get?_eq_none_iff later, fewer]
  omega

end

/-- A tail hook is to wait where there is a record. Its count is that of the returns until it goes, and it is that of
    the returns that are to come, unless these were as many as 2^32 at some time. If one return more is still less than
    that, the record counts it, is otherwise as it was, and needs one arrival more until it goes. If not, the record is
    left as it is, and the return is not counted. -/
theorem arm_exact_iff (marks : Marks) (history : List (Act ρ)) (hook : TailHook ρ) (call : Call) :
    let r := after marks history
    ∀ record, r.get? call.returnPc = some record →
      r.GoneAfter call.returnPc record.count.toNat ∧
      ((∀ earlier, earlier <+: history → dueAfter call.returnPc earlier < 2 ^ 32) →
        record.count.toNat = dueAfter call.returnPc history) ∧
      (record.count.toNat + 1 < 2 ^ 32 ∧
          (∃ count, count.toNat = record.count.toNat + 1 ∧ (r.arm hook call).1 = .again count ∧
            (r.arm hook call).2.get? call.returnPc = some { record with count := count }) ∧
          (r.arm hook call).2.GoneAfter call.returnPc (record.count.toNat + 1) ∨
        record.count.toNat + 1 = 2 ^ 32 ∧ r.arm hook call = (.overflow, r)) := by
  intro r record found
  have counted : r.Counted := counted_after marks history
  have small := record.count.toNat_lt
  have waits : r.waiting call.returnPc = record.count.toNat := waiting_of_some found
  have there : r.records[call.returnPc]? = some record := found
  refine ⟨waits ▸ goneAfter_waiting counted _, fun fits => ?_, ?_⟩
  · rw [← waits]
    exact waiting_after marks call.returnPc history fits
  · cases more : sum? record.count 1 with
    | some count =>
      have exact := sum?_eq_some_iff.mp more
      rw [UInt32.toNat_one] at exact
      have stored : (r.arm hook call).2.get? call.returnPc = some { record with count := count } := by
        rw [get?_arm, if_pos rfl, found, armed, more]
        rfl
      have gone := goneAfter_waiting (counted.arm hook call) call.returnPc
      rw [waiting_of_some stored] at gone
      refine .inl ⟨exact ▸ count.toNat_lt, ⟨count, exact, ?_, stored⟩, exact ▸ gone⟩
      simp [arm, there, more]
    | none =>
      have beyond : 2 ^ 32 ≤ record.count.toNat + 1 := sum?_eq_none_iff.mp more
      refine .inr ⟨by omega, ?_⟩
      simp [arm, there, more]

/-- A saved record that waits for 2^32 - 2 returns: one more fits. -/
theorem arm_exact_iff_last :
    let hook : TailHook Unit := { table := "~system", index := 3, routine := () }
    let call : Call := { returnPc := 0x1002 }
    let saved : PendingTail Unit := { call := call, hook := some hook, count := 0xFFFFFFFE }
    let r : Returns Unit := after ∅ [.operate (.restore saved)]
    r.get? 0x1002 = some saved ∧ (r.arm hook call).1 = .again 0xFFFFFFFF ∧
      (r.arm hook call).2.GoneAfter 0x1002 (2 ^ 32 - 1) := by
  intro hook call saved r
  have found : r.get? 0x1002 = some saved := get?_restore (by decide) _ _
  obtain ⟨-, -, ⟨-, ⟨count, more, answered, -⟩, gone⟩ | ⟨full, -⟩⟩ :=
    arm_exact_iff ∅ [.operate (.restore saved)] hook call saved found
  · obtain rfl : count = 0xFFFFFFFF := UInt32.toNat_inj.mp (more.trans (by decide))
    exact ⟨found, answered, gone⟩
  · exact absurd full (by decide)

/-- A saved record that waits for 2^32 - 1 returns, and one more, which nobody counts. -/
theorem arm_runs_over :
    let hook : TailHook Unit := { table := "~system", index := 3, routine := () }
    let call : Call := { returnPc := 0x1002 }
    let saved : PendingTail Unit := { call := call, hook := some hook, count := 0xFFFFFFFF }
    let r : Returns Unit := after ∅ [.operate (.restore saved)]
    r.get? 0x1002 = some saved ∧ r.arm hook call = (.overflow, r) := by
  intro hook call saved r
  have found : r.get? call.returnPc = some saved := get?_restore (by decide) _ _
  have more : sum? saved.count 1 = none := by decide
  refine ⟨found, ?_⟩
  simp [arm, show r.records[call.returnPc]? = some saved from found, more]

end TrapHooks.Returns
