import Mathlib.Data.List.Induction
import TrapHooks.Hook.LibraryCache
import TrapHooks.Hook.Registry

/-! What is remembered of libraries after any history. The slots stand for a map from handles to tables: a handle has
    an entry exactly if it was refreshed last, whatever slots came with those of larger handles, and its entry may say
    that it has no table. How many slots there are depends on what was looked at, and never on what was marked. -/

namespace TrapHooks.LibraryCache

variable {ρ : Type}

/-- What is done to the memory of libraries. -/
inductive Operation (ρ : Type)
  | visit (refnum : UInt16)
  /-- The table of the handle is looked up anew, under the name that the handle has now. -/
  | refresh (refnum : UInt16) (name : Option String) (registry : Registry ρ)
  | markDirty (refnum : UInt16)
  | markAllDirty
  | clear

namespace Operation

def perform : Operation ρ → LibraryCache ρ → LibraryCache ρ
  | visit refnum, c => (c.visit refnum).2
  | refresh refnum name registry, c => c.refresh refnum (name.bind registry.table?)
  | markDirty refnum, c => c.markDirty refnum
  | markAllDirty, c => c.markAllDirty
  | clear, _ => {}

/-- The handle that it is about, unless it is about all of them. -/
def handle? : Operation ρ → Option UInt16
  | visit refnum | refresh refnum _ _ | markDirty refnum => some refnum
  | markAllDirty | clear => none

/-- Whether it says something of the handle: a visit only asks. -/
def concerns (refnum : UInt16) : Operation ρ → Bool
  | visit _ => false
  | refresh other _ _ | markDirty other => other == refnum
  | markAllDirty | clear => true

/-- What is known, once it is done, of a handle that it concerns. -/
def told : Operation ρ → Option (Option (HookTable ρ))
  | refresh _ name registry => some (name.bind registry.table?)
  | _ => none

/-- The handle that has a slot from then on. -/
def reached? : Operation ρ → Option UInt16
  | visit refnum | refresh refnum _ _ => some refnum
  | _ => none

theorem concerns_of_handle_ne {op : Operation ρ} {refnum other : UInt16} (about : op.handle? = some other)
    (ne : other ≠ refnum) : op.concerns refnum = false := by
  cases op <;> simp_all [handle?, concerns]

theorem told_eq_some_iff {op : Operation ρ} {refnum : UInt16} {table : Option (HookTable ρ)}
    (concerned : op.concerns refnum = true) :
    op.told = some table ↔ ∃ name registry, op = .refresh refnum name registry ∧ table = name.bind registry.table? := by
  cases op with
  | refresh other name registry =>
    obtain rfl : other = refnum := beq_iff_eq.mp concerned
    simp only [told, Option.some.injEq, refresh.injEq, true_and]
    constructor
    · rintro rfl
      exact ⟨name, registry, ⟨rfl, rfl⟩, rfl⟩
    · rintro ⟨-, -, ⟨rfl, rfl⟩, rfl⟩
      rfl
  | _ => simp [told]

theorem find?_perform (op : Operation ρ) (refnum : UInt16) (c : LibraryCache ρ) :
    (op.perform c).find? refnum = if op.concerns refnum then op.told else c.find? refnum := by
  cases op with
  | visit other => exact find?_reach refnum other c
  | refresh other name registry => simp [perform, concerns, told, find?_refresh]
  | markDirty other => simp [perform, concerns, told, find?_markDirty]
  | markAllDirty => exact find?_markAllDirty refnum c
  | clear => exact find?_empty refnum

end Operation

/-- What is remembered after a history that starts with nothing. -/
def after (history : List (Operation ρ)) : LibraryCache ρ :=
  history.foldl (fun c op => op.perform c) {}

@[simp] theorem after_snoc (history : List (Operation ρ)) (op : Operation ρ) :
    after (history ++ [op]) = op.perform (after history) := by
  simp [after]

/-! ### Entries -/

/-- What is known of a handle is what the last operation told that concerned it. -/
theorem find?_after (history : List (Operation ρ)) (refnum : UInt16) :
    (after history).find? refnum = (history.filter (·.concerns refnum)).getLast?.bind (·.told) := by
  induction history using List.reverseRecOn with
  | nil => exact find?_empty refnum
  | append_singleton history op ih =>
    rw [after_snoc, Operation.find?_perform, ih, List.filter_append]
    cases concerned : op.concerns refnum <;> simp [concerned]

/-! ### Slots -/

/-- The handle was looked at, and nothing was cleared since. -/
def InUse (refnum : UInt16) (history : List (Operation ρ)) : Prop :=
  ∃ before op since, history = before ++ op :: since ∧ op.reached? = some refnum ∧ .clear ∉ since

theorem inUse_snoc {refnum : UInt16} {history : List (Operation ρ)} {op : Operation ρ} :
    InUse refnum (history ++ [op]) ↔ op.reached? = some refnum ∨ op ≠ .clear ∧ InUse refnum history := by
  constructor
  · rintro ⟨before, first, since, split, reached, kept⟩
    rcases List.eq_nil_or_concat since with rfl | ⟨since, last, rfl⟩
    · obtain ⟨-, same⟩ := List.append_inj' split rfl
      obtain rfl : op = first := List.singleton_inj.mp same
      exact .inl reached
    · rw [List.concat_eq_append, ← List.cons_append, ← List.append_assoc] at split
      obtain ⟨rfl, same⟩ := List.append_inj' split rfl
      obtain rfl : op = last := List.singleton_inj.mp same
      simp only [List.concat_eq_append, List.mem_append, List.mem_singleton, not_or] at kept
      exact .inr ⟨Ne.symm kept.2, before, first, since, rfl, reached, kept.1⟩
  · rintro (reached | ⟨kept, before, first, since, rfl, reached, unbroken⟩)
    · exact ⟨history, op, [], rfl, reached, List.not_mem_nil⟩
    · refine ⟨before, first, since ++ [op], by simp, reached, ?_⟩
      simpa [unbroken] using Ne.symm kept

/-- There are so many slots that each of the handles has one, and no more. -/
structure Spans (used : UInt16 → Prop) (size : Nat) : Prop where
  inside : ∀ refnum, used refnum → refnum.toNat < size
  last : size ≠ 0 → ∃ refnum, used refnum ∧ size = refnum.toNat + 1

theorem Spans.grow {used : UInt16 → Prop} {size : Nat} (spans : Spans used size) (refnum : UInt16) :
    Spans (fun other => refnum = other ∨ used other) (max size (refnum.toNat + 1)) where
  inside other := by
    rintro (rfl | was)
    · omega
    · have := spans.inside other was
      omega
  last _ := by
    rcases Nat.lt_or_ge refnum.toNat size with below | beyond
    · obtain ⟨other, was, most⟩ := spans.last (Nat.ne_zero_of_lt below)
      exact ⟨other, .inr was, by omega⟩
    · exact ⟨refnum, .inl rfl, by omega⟩

theorem spans_after (history : List (Operation ρ)) : Spans (InUse · history) (after history).size := by
  induction history using List.reverseRecOn with
  | nil =>
    refine ⟨?_, fun some => (some rfl).elim⟩
    rintro refnum ⟨before, op, since, split, -⟩
    simp at split
  | append_singleton history op ih =>
    simp only [after_snoc, inUse_snoc]
    cases op with
    | visit refnum => simpa [Operation.perform, visit, Operation.reached?] using ih.grow refnum
    | refresh refnum name registry => simpa [Operation.perform, Operation.reached?] using ih.grow refnum
    | markDirty refnum => simpa [Operation.perform, Operation.reached?] using ih
    | markAllDirty => simpa [Operation.perform, Operation.reached?] using ih
    | clear => exact ⟨by simp [Operation.reached?], fun some => (some rfl).elim⟩

/-- After any history that starts with nothing, a handle is known to have a table, or none, exactly if the last
    operation that concerned it was a refresh, which then looked that up; else it is stale. What is done about other
    handles changes nothing of that. There is no slot, or one for each handle up to the largest that was looked at
    since the last clearing, and marking makes no slot. -/
theorem visit_after (history : List (Operation ρ)) :
    (∀ refnum table, ((after history).visit refnum).1 = some table ↔
      ∃ name registry, (history.filter (·.concerns refnum)).getLast? = some (.refresh refnum name registry) ∧
        table = name.bind registry.table?) ∧
    (∀ refnum op other, op.handle? = some other → other ≠ refnum →
      ((after (history ++ [op])).visit refnum).1 = ((after history).visit refnum).1) ∧
    ((after history).size = 0 ∧ (∀ refnum, ¬InUse refnum history) ∨
      ∃ refnum, InUse refnum history ∧ (after history).size = refnum.toNat + 1 ∧
        ∀ other, InUse other history → other ≤ refnum) ∧
    (∀ refnum, (after (history ++ [.markDirty refnum])).size = (after history).size) ∧
    (after (history ++ [.markAllDirty])).size = (after history).size := by
  have spans := spans_after history
  refine ⟨fun refnum table => ?_, fun refnum op other about ne => ?_, ?_, fun refnum => ?_, ?_⟩
  · show (after history).find? refnum = some table ↔ _
    rw [find?_after]
    cases last : (history.filter (·.concerns refnum)).getLast? with
    | none => simp
    | some op =>
      have concerned := (List.mem_filter.mp (List.mem_of_getLast? last)).2
      simpa using Operation.told_eq_some_iff concerned
  · show (after (history ++ [op])).find? refnum = (after history).find? refnum
    rw [after_snoc, Operation.find?_perform, Operation.concerns_of_handle_ne about ne]
    rfl
  · by_cases empty : (after history).size = 0
    · exact .inl ⟨empty, fun refnum used => by have := spans.inside refnum used; omega⟩
    · obtain ⟨refnum, used, most⟩ := spans.last empty
      refine .inr ⟨refnum, used, most, fun other also => ?_⟩
      have := spans.inside other also
      rw [UInt16.le_iff_toNat_le]
      omega
  · rw [after_snoc]
    exact size_markDirty refnum _
  · rw [after_snoc]
    exact size_markAllDirty _

end TrapHooks.LibraryCache
