import TrapHooks.Proofs.Returns.Marks

/-! The order in which the waiting tail hooks are worked on. There is a cell for each return address, which holds the
    record and the mark, and an operation reads and changes the cell of its own address only. So two operations at
    different addresses may change places: what each answers, what is left in the end and what is saved of it depend
    on the order at each single address. -/

namespace TrapHooks.Returns

variable {ρ σ : Type}

/-! ### Cells -/

/-- What there is at one address. -/
structure Cell (ρ : Type) where
  record : Option (PendingTail ρ)
  marked : Bool

def cell (a : UInt32) (r : Returns ρ) : Cell ρ where
  record := r.get? a
  marked := r.isMarked a

theorem isMarked_iff {a : UInt32} {r : Returns ρ} : r.isMarked a = true ↔ a ∈ r.marks :=
  Std.ExtTreeSet.contains_iff_mem

theorem ext_cell {r r' : Returns ρ} (same : ∀ a, r.cell a = r'.cell a) : r = r' := by
  have records : r.records = r'.records := Std.ExtTreeMap.ext_getElem? fun a => congrArg Cell.record (same a)
  have marks : r.marks = r'.marks := Std.ExtTreeSet.ext_mem fun a => by
    rw [← isMarked_iff, ← isMarked_iff]
    exact iff_of_eq (congrArg (·.marked = true) (same a))
  cases r
  cases r'
  exact congr (congrArg Returns.mk records) marks

/-- What is done to the waiting tail hooks. -/
inductive Operation (ρ : Type)
  | arm (hook : TailHook ρ) (call : Call)
  | arrive (pc : UInt32)
  | restore (record : PendingTail ρ)

inductive Answer (ρ : Type)
  | armed (outcome : Armed)
  | arrived (outcome : Arrival ρ)
  | restored (outcome : Restored)

namespace Operation

/-- The return address at which the operation works. -/
def address : Operation ρ → UInt32
  | arm _ call => call.returnPc
  | arrive pc => pc
  | restore record => record.call.returnPc

def perform : Operation ρ → Returns ρ → Answer ρ × Returns ρ
  | arm hook call, r => (.armed (r.arm hook call).1, (r.arm hook call).2)
  | arrive pc, r => (.arrived (r.arrive pc).1, (r.arrive pc).2)
  | restore record, r => (.restored (r.restore record).1, (r.restore record).2)

/-- The operation, for one who sees nothing but the cell at its address. -/
def onCell : Operation ρ → Cell ρ → Answer ρ × Cell ρ
  | arm hook call, c =>
    (.armed (c.record.elim .first fun record => (sum? record.count 1).elim .overflow .again),
      { record := some (armed hook call c.record), marked := c.marked || c.record.isNone })
  | arrive _, c =>
    match c.record with
    | none => (.arrived .unknown, c)
    | some record =>
      (.arrived (.returned (record.hook.map fun hook => (hook, record.call)) (left record).isNone),
        { record := left record, marked := c.marked && (left record).isSome })
  | restore record, c =>
    if record.count = 0 then (.restored .nothingDue, c)
    else (.restored (.stored c.record.isSome), { record := some record, marked := true })

theorem answer_perform (op : Operation ρ) (r : Returns ρ) : (op.perform r).1 = (op.onCell (r.cell op.address)).1 := by
  cases op with
  | arm hook call =>
    simp only [perform, onCell, cell, address, Returns.arm, get?]
    cases r.records[call.returnPc]? with
    | none => rfl
    | some record => cases more : sum? record.count 1 <;> simp [more]
  | arrive pc =>
    simp only [perform, onCell, cell, address, Returns.arrive, get?]
    cases found : r.records[pc]? with
    | none => rfl
    | some record => by_cases last : remaining record.count = 0 <;> simp [left, last]
  | restore record =>
    simp only [perform, onCell, cell, address, Returns.restore, get?]
    by_cases none : record.count = 0
    · simp [none]
    · simp [none, Std.ExtTreeMap.isSome_getElem?_eq_contains]

theorem cell_arm (hook : TailHook ρ) (call : Call) (a : UInt32) (r : Returns ρ) :
    (r.arm hook call).2.cell a =
      if call.returnPc = a then ((arm hook call).onCell (r.cell a)).2 else r.cell a := by
  have marks : (r.arm hook call).2.isMarked a =
      (r.isMarked a || decide (call.returnPc = a) && (r.get? a).isNone) := by
    rw [Bool.eq_iff_iff, isMarked_iff, mem_marks_arm, not_mem_records]
    simp [isMarked_iff]
  by_cases here : call.returnPc = a <;> simp [cell, onCell, get?_arm, marks, here]

theorem cell_arrive (pc a : UInt32) (r : Returns ρ) :
    (r.arrive pc).2.cell a = if pc = a then ((arrive pc).onCell (r.cell a)).2 else r.cell a := by
  cases found : r.get? pc with
  | none =>
    rw [arrive_of_none found]
    split
    · rename_i here
      subst here
      simp [cell, onCell, found]
    · rfl
  | some record =>
    have marks : (r.arrive pc).2.isMarked a = (r.isMarked a && !(decide (pc = a) && (left record).isNone)) := by
      rw [Bool.eq_iff_iff, isMarked_iff, mem_marks_arrive, not_mem_records, get?_arrive]
      by_cases here : pc = a
      · subst here
        simp [isMarked_iff, found, mem_records, Option.isSome_iff_ne_none]
      · simp [isMarked_iff, here]
    by_cases here : pc = a
    · subst here
      cases later : left record <;> simp [cell, onCell, get?_arrive, marks, found, later]
    · simp [cell, get?_arrive, marks, here]

theorem cell_restore (record : PendingTail ρ) (a : UInt32) (r : Returns ρ) :
    (r.restore record).2.cell a =
      if record.call.returnPc = a then ((restore record).onCell (r.cell a)).2 else r.cell a := by
  by_cases none : record.count = 0
  · simp [Returns.restore, onCell, none]
  · have marks : (r.restore record).2.isMarked a = (r.isMarked a || decide (record.call.returnPc = a)) := by
      rw [Bool.eq_iff_iff, isMarked_iff, mem_marks_restore none]
      simp [isMarked_iff]
    by_cases here : record.call.returnPc = a <;> simp [cell, onCell, get?_restore none, marks, here, none]

/-- Only the cell at its address changes. -/
theorem cell_perform (op : Operation ρ) (a : UInt32) (r : Returns ρ) :
    (op.perform r).2.cell a = if op.address = a then (op.onCell (r.cell a)).2 else r.cell a := by
  cases op with
  | arm hook call => exact cell_arm hook call a r
  | arrive pc => exact cell_arrive pc a r
  | restore record => exact cell_restore record a r

end Operation

/-! ### Operations one after the other -/

/-- Does the operations in turn: each with its answer, and what is left in the end. -/
def inTurn (act : Operation ρ → σ → Answer ρ × σ) : List (Operation ρ) → σ → List (Operation ρ × Answer ρ) × σ
  | [], s => ([], s)
  | op :: ops, s =>
    let later := inTurn act ops (act op s).2
    ((op, (act op s).1) :: later.1, later.2)

def performAll (ops : List (Operation ρ)) (r : Returns ρ) : List (Operation ρ × Answer ρ) × Returns ρ :=
  inTurn Operation.perform ops r

/-- A cell goes through the operations at its address, as if there were no others. -/
theorem inTurn_cell (ops : List (Operation ρ)) (a : UInt32) (r : Returns ρ) :
    inTurn Operation.onCell (ops.filter (·.address = a)) (r.cell a) =
      ((performAll ops r).1.filter (·.1.address = a), (performAll ops r).2.cell a) := by
  induction ops generalizing r with
  | nil => rfl
  | cons op ops ih =>
    have next := ih (op.perform r).2
    rw [Operation.cell_perform] at next
    simp only [performAll, inTurn] at next ⊢
    -- An operation at another address leaves the cell as it was, and is not among those of the cell.
    by_cases here : op.address = a
    · subst here
      simp only [List.filter_cons, decide_true, if_true, inTurn] at next ⊢
      rw [next, Operation.answer_perform]
    · simpa [here] using next

/-- The operations are the same, and at each address they come in the same order. -/
def Reorders (ops ops' : List (Operation ρ)) : Prop :=
  ∀ a, ops.filter (·.address = a) = ops'.filter (·.address = a)

section
variable {ops ops' : List (Operation ρ)} {r : Returns ρ}

theorem Reorders.inTurn_eq (reorders : Reorders ops ops') (a : UInt32) (r : Returns ρ) :
    (performAll ops r).1.filter (·.1.address = a) = (performAll ops' r).1.filter (·.1.address = a) ∧
      (performAll ops r).2.cell a = (performAll ops' r).2.cell a := by
  have same := inTurn_cell ops a r
  rw [reorders a, inTurn_cell ops' a r] at same
  exact (Prod.mk.inj same).imp Eq.symm Eq.symm

theorem Reorders.left_eq (reorders : Reorders ops ops') (r : Returns ρ) :
    (performAll ops r).2 = (performAll ops' r).2 :=
  ext_cell fun a => (reorders.inTurn_eq a r).2

theorem Keyed.perform (keyed : r.Keyed) (op : Operation ρ) : (op.perform r).2.Keyed := by
  cases op with
  | arm hook call => exact keyed.arm hook call
  | arrive pc => exact keyed.arrive pc
  | restore record => exact keyed.restore record

theorem Keyed.performAll (keyed : r.Keyed) (ops : List (Operation ρ)) : (performAll ops r).2.Keyed := by
  induction ops generalizing r with
  | nil => exact keyed
  | cons op ops ih => exact ih (keyed.perform op)

/-! ### Snapshots -/

theorem Keyed.mem_toList_iff (keyed : r.Keyed) {record : PendingTail ρ} :
    record ∈ r.toList ↔ r.get? record.call.returnPc = some record := by
  rw [mem_toList]
  constructor
  · rintro ⟨a, found⟩
    rwa [keyed a record found]
  · exact fun found => ⟨_, found⟩

theorem Keyed.ascending (keyed : r.Keyed) : r.toList.Pairwise (·.call.returnPc < ·.call.returnPc) := by
  have own {a : UInt32} {record : PendingTail ρ} (member : (a, record) ∈ r.records.toList) :
      record.call.returnPc = a :=
    keyed a record (Std.ExtTreeMap.mem_toList_iff_getElem?_eq_some.mp member)
  rw [toList_eq, List.pairwise_map]
  refine Std.ExtTreeMap.ordered_keys_toList.imp_of_mem fun first second before => ?_
  rw [own first, own second]
  exact Std.compare_eq_lt.mp before

/-- Two lists of operations that are the same at each address, whatever stands between: each operation answers the
    same, so that a count that overflows does so in both, the same records and marks are left, and the same bytes are
    saved. The records, each stored under its own address as the operations leave them, are listed by ascending return
    address, and each that is stored is listed. -/
theorem performAll_of_reorders (reorders : Reorders ops ops') (r : Returns ρ) :
    (∀ a, (performAll ops r).1.filter (·.1.address = a) = (performAll ops' r).1.filter (·.1.address = a)) ∧
    (performAll ops r).2.toList = (performAll ops' r).2.toList ∧
    (performAll ops r).2.marked = (performAll ops' r).2.marked ∧
    (∀ e : Engine ρ, { e with returns := (performAll ops r).2 }.chunk.encode =
      { e with returns := (performAll ops' r).2 }.chunk.encode) ∧
    (r.Keyed → (performAll ops r).2.toList.Pairwise (·.call.returnPc < ·.call.returnPc) ∧
      ∀ record, record ∈ (performAll ops r).2.toList ↔
        (performAll ops r).2.get? record.call.returnPc = some record) := by
  have left := reorders.left_eq r
  refine ⟨fun a => (reorders.inTurn_eq a r).1, by rw [left], by rw [left], fun e => by rw [left], fun keyed => ?_⟩
  have kept := keyed.performAll ops
  exact ⟨kept.ascending, fun record => kept.mem_toList_iff⟩

end

/-- Two calls of one hook and a saved record at the address of the second; the interpreter has a mark of its own. -/
theorem performAll_of_reorders_interleaved :
    let hook : TailHook Unit := { table := "~system", index := 5, routine := () }
    let near : Call := { returnPc := 0x1002 }
    let far : Call := { returnPc := 0x2002 }
    let saved : PendingTail Unit := { call := far, hook := none, count := 3 }
    let ops : List (Operation Unit) := [.arm hook near, .arm hook far, .arrive 0x1002, .restore saved, .arrive 0x2002]
    let ops' : List (Operation Unit) := [.arm hook far, .restore saved, .arrive 0x2002, .arm hook near, .arrive 0x1002]
    let start : Returns Unit := { marks := (∅ : Marks).insert 0x3000 }
    Reorders ops ops' ∧ start.Keyed ∧ (performAll ops start).2.toList = (performAll ops' start).2.toList ∧
      (performAll ops' start).2.toList.Pairwise (·.call.returnPc < ·.call.returnPc) := by
  intro hook near far saved ops ops' start
  have reorders : Reorders ops ops' := by
    intro a
    by_cases atNear : (0x1002 : UInt32) = a
    · subst atNear
      rfl
    · by_cases atFar : (0x2002 : UInt32) = a
      · subst atFar
        rfl
      · simp [ops, ops', near, far, saved, Operation.address, atNear, atFar]
  have keyed : start.Keyed := fun a record found => by
    rw [get?_empty] at found
    cases found
  obtain ⟨-, records, -, -, listed⟩ := performAll_of_reorders reorders start
  exact ⟨reorders, keyed, records, records ▸ (listed keyed).1⟩

end TrapHooks.Returns
