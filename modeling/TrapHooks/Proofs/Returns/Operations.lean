import TrapHooks.Returns

/-! What each operation on the waiting tail hooks does to the record and to the mark of an address, and what the
    snapshot of all records lists. No proof about runs opens an operation: it reads the operation's effect here. -/

namespace TrapHooks.Returns

variable {ρ : Type}

theorem mem_records {r : Returns ρ} {a : UInt32} : a ∈ r.records ↔ ∃ record, r.get? a = some record := by
  rw [Std.ExtTreeMap.mem_iff_isSome_getElem?, Option.isSome_iff_exists]
  rfl

theorem not_mem_records {r : Returns ρ} {a : UInt32} : a ∉ r.records ↔ r.get? a = none := by
  rw [mem_records, Option.eq_none_iff_forall_ne_some]
  exact not_exists

/-! ### Records -/

/-- The record that an address has once a tail hook waits there: a record that was there counts one return
    more, if its count can tell so many, and keeps its call and hook. -/
def armed (hook : TailHook ρ) (call : Call) : Option (PendingTail ρ) → PendingTail ρ
  | some record => { record with count := (sum? record.count 1).getD record.count }
  | none => { call := call, hook := some hook, count := 1 }

/-- What one return leaves of a record. -/
def left (record : PendingTail ρ) : Option (PendingTail ρ) :=
  if remaining record.count = 0 then none else some { record with count := remaining record.count }

theorem get?_arm (hook : TailHook ρ) (call : Call) (a : UInt32) (r : Returns ρ) :
    (r.arm hook call).2.get? a = if call.returnPc = a then some (armed hook call (r.get? a)) else r.get? a := by
  by_cases same : call.returnPc = a
  · subst same
    unfold arm get?
    cases found : r.records[call.returnPc]? with
    | none => simp [armed]
    | some record => cases more : sum? record.count 1 <;> simp [armed, found, more]
  · rw [if_neg same, get?_arm_of_ne (Ne.symm same)]

/-- Another tail hook can wait at an address unless the record there has the largest count. -/
theorem arm_ne_overflow_iff {hook : TailHook ρ} {call : Call} {r : Returns ρ} :
    (r.arm hook call).1 ≠ .overflow ↔
      ∀ record, r.get? call.returnPc = some record → record.count.toNat + 1 < UInt32.size := by
  unfold arm get?
  cases r.records[call.returnPc]? with
  | none => simp
  | some record => cases more : sum? record.count 1 <;> grind [sum?_eq_none_iff]

theorem arm_ne_overflow_of_none {hook : TailHook ρ} {call : Call} {r : Returns ρ}
    (unknown : r.get? call.returnPc = none) : (r.arm hook call).1 ≠ .overflow :=
  arm_ne_overflow_iff.mpr fun record found => by simp [unknown] at found

theorem get?_arrive (pc a : UInt32) (r : Returns ρ) :
    (r.arrive pc).2.get? a = if pc = a then (r.get? a).bind left else r.get? a := by
  unfold arrive get?
  cases found : r.records[pc]? with
  | none =>
    by_cases same : pc = a
    · subst same
      simp [found]
    · simp [same]
  | some record =>
    by_cases same : pc = a
    · subst same
      by_cases last : remaining record.count = 0
      · simp [found, left, last]
      · simp [found, left, last]
    · by_cases last : remaining record.count = 0
      · simp [last, same, Std.ExtTreeMap.getElem?_erase]
      · simp [last, same, Std.ExtTreeMap.getElem?_insert]

theorem arrive_of_none {pc : UInt32} {r : Returns ρ} (unknown : r.get? pc = none) :
    r.arrive pc = (.unknown, r) := by
  unfold arrive
  rw [show r.records[pc]? = none from unknown]

/-- A return that finds a record has the record's hook to run, on the record's call. -/
theorem arrive_of_some {pc : UInt32} {r : Returns ρ} {record : PendingTail ρ} (found : r.get? pc = some record) :
    (r.arrive pc).1 =
      .returned (record.hook.map fun hook => (hook, record.call)) (decide (remaining record.count = 0)) := by
  unfold arrive
  rw [show r.records[pc]? = some record from found]
  by_cases none : remaining record.count = 0 <;> simp [none]

/-! ### A single record -/

/-- There is one record, at this address. -/
def IsSingle (address : UInt32) (record : PendingTail ρ) (r : Returns ρ) : Prop :=
  ∀ a, r.get? a = if address = a then some record else none

section
variable {r : Returns ρ} {address : UInt32} {record : PendingTail ρ}

theorem isSingle_of_records (same : r.records = (∅ : Std.ExtTreeMap UInt32 (PendingTail ρ)).insert address record) :
    r.IsSingle address record :=
  fun a => by simp [get?, same, Std.ExtTreeMap.getElem?_insert]

theorem IsSingle.found (single : r.IsSingle address record) : r.get? address = some record :=
  (single address).trans (if_pos rfl)

theorem IsSingle.only (single : r.IsSingle address record) {a : UInt32} {other : PendingTail ρ}
    (there : r.get? a = some other) : address = a ∧ record = other := by
  rw [single, Option.ite_none_right_eq_some] at there
  exact there.imp_right Option.some.inj

theorem isSingle_arm (empty : ∀ a, r.get? a = none) (hook : TailHook ρ) (call : Call) :
    (r.arm hook call).2.IsSingle call.returnPc { call := call, hook := some hook, count := 1 } := by
  intro a
  rw [get?_arm, empty]
  rfl

theorem IsSingle.arm (single : r.IsSingle address record) (hook : TailHook ρ) {call : Call}
    (here : call.returnPc = address) : (r.arm hook call).2.IsSingle address (armed hook call (some record)) := by
  intro a
  rw [get?_arm, single, here]
  split <;> rfl

theorem IsSingle.arrive (single : r.IsSingle address record) {fewer : PendingTail ρ} (more : left record = some fewer) :
    (r.arrive address).2.IsSingle address fewer := by
  intro a
  rw [get?_arrive, single]
  split
  · exact more
  · rfl

end

/-! ### The other operations -/

@[simp] theorem records_install (r : Returns ρ) : r.install.records = r.records := rfl

@[simp] theorem records_uninstall (r : Returns ρ) : r.uninstall.records = r.records := rfl

@[simp] theorem records_clear (r : Returns ρ) : r.clear.records = ∅ := rfl

/-! ### Marks -/

theorem mem_foldl_insert (addresses : List UInt32) (marks : Marks) (a : UInt32) :
    a ∈ addresses.foldl (fun marks address => marks.insert address) marks ↔ a ∈ marks ∨ a ∈ addresses := by
  induction addresses generalizing marks with
  | nil => simp
  | cons address addresses ih =>
    rw [List.foldl_cons, ih, Std.ExtTreeSet.mem_insert, Std.LawfulEqCmp.compare_eq_iff_eq, List.mem_cons]
    grind

theorem mem_foldl_erase (addresses : List UInt32) (marks : Marks) (a : UInt32) :
    a ∈ addresses.foldl (fun marks address => marks.erase address) marks ↔ a ∈ marks ∧ a ∉ addresses := by
  induction addresses generalizing marks with
  | nil => simp
  | cons address addresses ih =>
    rw [List.foldl_cons, ih, Std.ExtTreeSet.mem_erase, Ne, Std.LawfulEqCmp.compare_eq_iff_eq, List.mem_cons]
    grind

theorem mem_marks_arm (hook : TailHook ρ) (call : Call) (a : UInt32) (r : Returns ρ) :
    a ∈ (r.arm hook call).2.marks ↔ a ∈ r.marks ∨ call.returnPc = a ∧ a ∉ r.records := by
  unfold arm
  cases found : r.records[call.returnPc]? with
  | none =>
    rw [Std.ExtTreeSet.mem_insert, Std.LawfulEqCmp.compare_eq_iff_eq]
    have absent : call.returnPc ∉ r.records := not_mem_records.mpr found
    grind
  | some record =>
    have present : call.returnPc ∈ r.records := mem_records.mpr ⟨record, found⟩
    cases sum? record.count 1 <;> grind

theorem mem_marks_arrive (pc a : UInt32) (r : Returns ρ) :
    a ∈ (r.arrive pc).2.marks ↔ a ∈ r.marks ∧ ¬(pc = a ∧ a ∈ r.records ∧ a ∉ (r.arrive pc).2.records) := by
  rw [not_mem_records, get?_arrive]
  unfold arrive
  cases found : r.records[pc]? with
  | none =>
    have absent : pc ∉ r.records := not_mem_records.mpr found
    grind
  | some record =>
    have present : pc ∈ r.records := mem_records.mpr ⟨record, found⟩
    have here : r.get? pc = some record := found
    by_cases last : remaining record.count = 0
    · simp only [last, if_true]
      rw [Std.ExtTreeSet.mem_erase, Ne, Std.LawfulEqCmp.compare_eq_iff_eq]
      grind [left]
    · simp only [last, if_false]
      grind [left]

theorem mem_marks_restore {record : PendingTail ρ} (waits : record.count ≠ 0) (a : UInt32) (r : Returns ρ) :
    a ∈ (r.restore record).2.marks ↔ a ∈ r.marks ∨ record.call.returnPc = a := by
  rw [restore, if_neg waits, Std.ExtTreeSet.mem_insert, Std.LawfulEqCmp.compare_eq_iff_eq]
  exact or_comm

theorem mem_marks_install (a : UInt32) (r : Returns ρ) : a ∈ r.install.marks ↔ a ∈ r.marks ∨ a ∈ r.records := by
  rw [install, mem_foldl_insert, Std.ExtTreeMap.mem_keys]

theorem mem_marks_uninstall (a : UInt32) (r : Returns ρ) :
    a ∈ r.uninstall.marks ↔ a ∈ r.marks ∧ a ∉ r.records := by
  rw [uninstall, mem_foldl_erase, Std.ExtTreeMap.mem_keys]

theorem mem_marks_clear (a : UInt32) (r : Returns ρ) : a ∈ r.clear.marks ↔ a ∈ r.marks ∧ a ∉ r.records :=
  mem_marks_uninstall a r

/-! ### Snapshots -/

theorem toList_eq (r : Returns ρ) : r.toList = r.records.toList.map Prod.snd := by
  have folded : r.records.values = r.records.foldr (fun _ record records => record :: records) [] := by
    rcases r.records with ⟨⟨inner⟩⟩
    rfl
  rw [toList, folded, Std.ExtTreeMap.foldr_eq_foldr_toList]
  induction r.records.toList with
  | nil => rfl
  | cons entry entries ih => rw [List.foldr_cons, ih, List.map_cons]

theorem length_toList (r : Returns ρ) : r.toList.length = r.records.size := by
  rw [toList_eq, List.length_map, Std.ExtTreeMap.length_toList]

theorem mem_toList {r : Returns ρ} {record : PendingTail ρ} : record ∈ r.toList ↔ ∃ a, r.get? a = some record := by
  rw [toList_eq, List.mem_map]
  constructor
  · rintro ⟨⟨a, record⟩, member, rfl⟩
    exact ⟨a, Std.ExtTreeMap.mem_toList_iff_getElem?_eq_some.mp member⟩
  · rintro ⟨a, found⟩
    exact ⟨(a, record), Std.ExtTreeMap.mem_toList_iff_getElem?_eq_some.mpr found, rfl⟩

/-- Records that correspond address by address have corresponding snapshots. -/
theorem toList_of_map {r r' : Returns ρ} {f : PendingTail ρ → PendingTail ρ}
    (same : ∀ a, r'.get? a = (r.get? a).map f) : r'.toList = r.toList.map f := by
  have mapped : r'.records = r.records.map fun _ record => f record := by
    refine Std.ExtTreeMap.ext_getElem? fun a => ?_
    rw [Std.ExtTreeMap.getElem?_map]
    exact same a
  rw [toList_eq, toList_eq, mapped, Std.ExtTreeMap.toList_map, List.map_map, List.map_map]
  rfl

end TrapHooks.Returns
