import TrapHooks.Proofs.Returns.Operations
import TrapHooks.Proofs.Run.Permits
import TrapHooks.Proofs.Run.Undisturbed

/-! The marks and the records along a run. The interpreter has marks of its own, at addresses where no tail
    hook ever waits, and only the engine touches the others. Then each record stands under the return
    address of its own call and waits for some return; a mark is the interpreter's or a record's; and all
    records are marked unless the marks were taken off and not put back since. This holds between any two
    steps, however hooks and routines of the guest enter the engine again. -/

namespace TrapHooks

variable {ρ : Type}

namespace Returns

/-! ### Records -/

/-- Each record stands under the return address of its call. -/
def Keyed (r : Returns ρ) : Prop :=
  ∀ a record, r.get? a = some record → record.call.returnPc = a

/-- Each record waits for some return. -/
def Counted (r : Returns ρ) : Prop :=
  ∀ a record, r.get? a = some record → 1 ≤ record.count.toNat

/-- No record waits for so many returns that one more could not be counted. -/
def Bounded (r : Returns ρ) : Prop :=
  ∀ a record, r.get? a = some record → record.count.toNat < 2 ^ 32 - 1

theorem get?_empty (marks : Marks) (a : UInt32) : ({ marks := marks } : Returns ρ).get? a = none := by
  simp [get?]

section
variable {r : Returns ρ}

theorem Keyed.arm (keyed : r.Keyed) (hook : TailHook ρ) (call : Call) : (r.arm hook call).2.Keyed := by
  intro a record found
  rw [get?_arm] at found
  split at found
  · rename_i same
    cases found
    cases was : r.get? a with
    | none => exact same
    | some old => exact keyed a old was
  · exact keyed a record found

theorem Keyed.arrive (keyed : r.Keyed) (pc : UInt32) : (r.arrive pc).2.Keyed := by
  intro a record found
  rw [get?_arrive] at found
  split at found
  · obtain ⟨old, was, found⟩ := Option.bind_eq_some_iff.mp found
    unfold left at found
    split at found
    · cases found
    · cases found
      exact keyed a old was
  · exact keyed a record found

theorem Keyed.restore (keyed : r.Keyed) (saved : PendingTail ρ) : (r.restore saved).2.Keyed := by
  by_cases waits : saved.count = 0
  · rw [Returns.restore, if_pos waits]
    exact keyed
  · intro a record found
    rw [get?_restore waits] at found
    split at found
    · cases found
      assumption
    · exact keyed a record found

theorem keyed_clear (r : Returns ρ) : r.clear.Keyed := by
  intro a record found
  rw [get?_clear] at found
  cases found

theorem Keyed.change (keyed : r.Keyed) (c : Change ρ) : (c.onReturns r).Keyed := by
  cases c with
  | arm hook call => exact keyed.arm hook call
  | arrive pc => exact keyed.arrive pc
  | restore saved => exact keyed.restore saved
  | reset => exact keyed_clear r
  | evict => exact keyed_clear r
  | _ => exact keyed

theorem toNat_remaining {count : UInt32} (some : 1 ≤ count.toNat) : (remaining count).toNat = count.toNat - 1 := by
  have nonzero : count ≠ 0 := by
    rintro rfl
    simp at some
  have atLeast : (1 : UInt32) ≤ count := UInt32.le_iff_toNat_le.mpr some
  rw [remaining, if_neg nonzero, UInt32.toNat_sub_of_le _ _ atLeast, UInt32.toNat_one]

theorem Counted.arm (counted : r.Counted) (hook : TailHook ρ) (call : Call) : (r.arm hook call).2.Counted := by
  intro a record found
  rw [get?_arm] at found
  split at found
  · cases found
    cases was : r.get? a with
    | none => exact Nat.le_refl 1
    | some old =>
      have before := counted a old was
      show 1 ≤ ((sum? old.count 1).getD old.count).toNat
      cases more : sum? old.count 1 with
      | none => exact before
      | some count =>
        rw [Option.getD_some, sum?_eq_some_iff.mp more]
        omega
  · exact counted a record found

theorem Counted.arrive (counted : r.Counted) (pc : UInt32) : (r.arrive pc).2.Counted := by
  intro a record found
  rw [get?_arrive] at found
  split at found
  · obtain ⟨old, was, found⟩ := Option.bind_eq_some_iff.mp found
    unfold left at found
    split at found
    · cases found
    · rename_i others
      cases found
      have nonzero : (remaining old.count).toNat ≠ 0 := fun zero => others (UInt32.toNat_inj.mp zero)
      exact Nat.one_le_iff_ne_zero.mpr nonzero
  · exact counted a record found

theorem Counted.restore (counted : r.Counted) (saved : PendingTail ρ) : (r.restore saved).2.Counted := by
  by_cases waits : saved.count = 0
  · rw [Returns.restore, if_pos waits]
    exact counted
  · intro a record found
    rw [get?_restore waits] at found
    split at found
    · cases found
      exact Nat.one_le_iff_ne_zero.mpr fun zero => waits (UInt32.toNat_inj.mp zero)
    · exact counted a record found

theorem counted_clear (r : Returns ρ) : r.clear.Counted := by
  intro a record found
  rw [get?_clear] at found
  cases found

/-- Every change leaves each record some return to wait for. -/
theorem Counted.change (counted : r.Counted) (c : Change ρ) : (c.onReturns r).Counted := by
  cases c with
  | arm hook call => exact counted.arm hook call
  | arrive pc => exact counted.arrive pc
  | restore saved => exact counted.restore saved
  | reset => exact counted_clear r
  | evict => exact counted_clear r
  | _ => exact counted

/-! ### Marks -/

/-- The marks are those that the interpreter has of its own, and marks of records; they are the marks of all
    records if these are held. -/
structure Marked (own : Marks) (held : Bool) (r : Returns ρ) : Prop where
  kept : ∀ a ∈ own, a ∈ r.marks
  justified : ∀ a ∈ r.marks, a ∈ own ∨ a ∈ r.records
  complete : held = true → ∀ a ∈ r.records, a ∈ r.marks

theorem marked_empty (own : Marks) : ({ marks := own } : Returns ρ).Marked own true where
  kept _ member := member
  justified _ member := .inl member
  complete _ a member := by simp at member

variable {own : Marks} {held : Bool}

theorem Marked.arm (marked : r.Marked own held) (hook : TailHook ρ) (call : Call) :
    (r.arm hook call).2.Marked own held := by
  have records (a : UInt32) : a ∈ (r.arm hook call).2.records ↔ call.returnPc = a ∨ a ∈ r.records := by
    rw [mem_records, mem_records, get?_arm]
    split <;> simp_all
  refine ⟨fun a member => ?_, fun a member => ?_, fun holds a member => ?_⟩
  · exact (mem_marks_arm ..).mpr (.inl (marked.kept a member))
  · rcases (mem_marks_arm ..).mp member with old | ⟨same, -⟩
    · exact (marked.justified a old).imp_right fun present => (records a).mpr (.inr present)
    · exact .inr ((records a).mpr (.inl same))
  · by_cases present : a ∈ r.records
    · exact (mem_marks_arm ..).mpr (.inl (marked.complete holds a present))
    · exact (mem_marks_arm ..).mpr (.inr ⟨((records a).mp member).resolve_right present, present⟩)

theorem Marked.arrive (marked : r.Marked own held) (apart : ∀ a ∈ own, a ∉ r.records) (pc : UInt32) :
    (r.arrive pc).2.Marked own held := by
  have records (a : UInt32) (member : a ∈ (r.arrive pc).2.records) : a ∈ r.records := by
    rw [mem_records, get?_arrive] at member
    obtain ⟨record, found⟩ := member
    split at found
    · obtain ⟨old, was, -⟩ := Option.bind_eq_some_iff.mp found
      exact mem_records.mpr ⟨old, was⟩
    · exact mem_records.mpr ⟨record, found⟩
  have others (a : UInt32) (ne : pc ≠ a) (member : a ∈ r.records) : a ∈ (r.arrive pc).2.records := by
    rwa [mem_records, get?_arrive, if_neg ne, ← mem_records]
  -- Only the mark of a record that has gone is taken off, and no record stands at a mark of the interpreter.
  refine ⟨fun a member => ?_, fun a member => ?_, fun holds a member => ?_⟩
  · exact (mem_marks_arrive ..).mpr ⟨marked.kept a member, fun gone => apart a member gone.2.1⟩
  · obtain ⟨old, stays⟩ := (mem_marks_arrive ..).mp member
    refine (marked.justified a old).imp_right fun present => ?_
    by_contra gone
    by_cases same : pc = a
    · exact stays ⟨same, present, gone⟩
    · exact gone (others a same present)
  · exact (mem_marks_arrive ..).mpr ⟨marked.complete holds a (records a member), fun gone => gone.2.2 member⟩

theorem Marked.restore (marked : r.Marked own held) (saved : PendingTail ρ) :
    (r.restore saved).2.Marked own held := by
  by_cases waits : saved.count = 0
  · rw [Returns.restore, if_pos waits]
    exact marked
  · have records (a : UInt32) : a ∈ (r.restore saved).2.records ↔ saved.call.returnPc = a ∨ a ∈ r.records := by
      rw [mem_records, mem_records, get?_restore waits]
      split <;> simp_all
    refine ⟨fun a member => ?_, fun a member => ?_, fun holds a member => ?_⟩
    · exact (mem_marks_restore waits ..).mpr (.inl (marked.kept a member))
    · rcases (mem_marks_restore waits ..).mp member with old | same
      · exact (marked.justified a old).imp_right fun present => (records a).mpr (.inr present)
      · exact .inr ((records a).mpr (.inl same))
    · exact (mem_marks_restore waits ..).mpr (((records a).mp member).symm.imp_left (marked.complete holds a))

theorem Marked.install (marked : r.Marked own held) : r.install.Marked own true where
  kept a member := (mem_marks_install a r).mpr (.inl (marked.kept a member))
  justified a member := ((mem_marks_install a r).mp member).elim (marked.justified a) .inr
  complete _ a member := (mem_marks_install a r).mpr (.inr member)

theorem Marked.uninstall (marked : r.Marked own held) (apart : ∀ a ∈ own, a ∉ r.records) :
    r.uninstall.Marked own false where
  kept a member := (mem_marks_uninstall a r).mpr ⟨marked.kept a member, apart a member⟩
  justified a member := marked.justified a ((mem_marks_uninstall a r).mp member).1
  complete holds := by cases holds

theorem Marked.clear (marked : r.Marked own held) (apart : ∀ a ∈ own, a ∉ r.records) :
    r.clear.Marked own held where
  kept a member := (mem_marks_clear a r).mpr ⟨marked.kept a member, apart a member⟩
  justified a member := by
    obtain ⟨old, gone⟩ := (mem_marks_clear a r).mp member
    exact .inl ((marked.justified a old).resolve_right gone)
  complete _ a member := by simp at member

end

end Returns

/-- Whether the records' marks are held after a change, if `held` says so of the time before it. -/
def Change.holds (held : Bool) : Change ρ → Bool
  | install => true
  | uninstall => false
  | _ => held

theorem Returns.Marked.change {r : Returns ρ} {own : Marks} {held : Bool} (marked : r.Marked own held)
    (apart : ∀ a ∈ own, a ∉ r.records) (c : Change ρ) : (c.onReturns r).Marked own (c.holds held) := by
  cases c with
  | arm hook call => exact marked.arm hook call
  | arrive pc => exact marked.arrive apart pc
  | restore saved => exact marked.restore saved
  | install => exact marked.install
  | uninstall => exact marked.uninstall apart
  | reset => exact marked.clear apart
  | evict => exact marked.clear apart
  | _ => exact marked

/-! ### Runs -/

def Event.holds (held : Bool) : Event ρ → Bool
  | acted .installMarks (.changed _ _) => true
  | acted .uninstallMarks (.changed _ _) => false
  | _ => held

theorem Event.holds_of_silent {event : Event ρ} (silent : ∀ s before after, event ≠ .acted s (.changed before after))
    (held : Bool) : event.holds held = held := by
  unfold holds
  split
  · exact absurd rfl (silent _ _ _)
  · exact absurd rfl (silent _ _ _)
  · rfl

/-- Whether the records' marks are held after a run of a new engine: they are, unless they were taken off and
    not put back since. -/
def marksHeld (trace : List (Moment ρ)) : Bool :=
  trace.foldl (fun held x => x.event.holds held) true

theorem Machine.get?_fresh (config : Config) (registry : Registry ρ) (own : Marks) (a : UInt32) :
    (fresh config registry own).engine.returns.get? a = none := Returns.get?_empty own a

/-- A new engine has no records, so anything holds of them. -/
theorem Machine.records_fresh {config : Config} {registry : Registry ρ} {own : Marks}
    {P : UInt32 → PendingTail ρ → Prop} (a : UInt32) (record : PendingTail ρ)
    (found : (fresh config registry own).engine.returns.get? a = some record) : P a record := by
  rw [get?_fresh] at found
  cases found

theorem Stage.Permits.holds {s : Stage ρ} {c : Change ρ} (permitted : s.Permits c) (before after : Engine ρ)
    (held : Bool) : (Event.acted s (.changed before after)).holds held = c.holds held := by
  cases s <;> cases c <;> simp_all [Permits, Change.IsLookup, Change.IsEdit, Event.holds, Change.holds]

section
variable {m n : Machine ρ} {trace : List (Moment ρ)}

theorem Run.last (run : Run m trace n) {P : Machine ρ → Prop} (start : P m) (all : ∀ x ∈ trace, P x.after) : P n := by
  cases run with
  | nil => exact start
  | snoc run step => exact all _ (List.mem_append_right _ (List.mem_singleton_self _))

theorem Run.keyed (run : Run m trace n) (keeps : m.Keeps) (keyed : m.engine.returns.Keyed) :
    n.engine.returns.Keyed := by
  induction run with
  | nil => exact keyed
  | snoc run step ih =>
    rcases step.engine (run.keeps keeps) with ⟨same, -⟩ | ⟨s, c, -, -, changed⟩
    · rw [same]
      exact ih
    · rw [changed, Change.returns_apply]
      exact ih.change c

theorem Run.counted (run : Run m trace n) (keeps : m.Keeps) (counted : m.engine.returns.Counted) :
    n.engine.returns.Counted := by
  induction run with
  | nil => exact counted
  | snoc run step ih =>
    rcases step.engine (run.keeps keeps) with ⟨same, -⟩ | ⟨s, c, -, -, changed⟩
    · rw [same]
      exact ih
    · rw [changed, Change.returns_apply]
      exact ih.change c

theorem Run.marked {config : Config} {registry : Registry ρ} {own : Marks}
    (run : Run (.fresh config registry own) trace n)
    (apart : ∀ x ∈ trace, ∀ a ∈ own, a ∉ x.after.engine.returns.records) :
    n.engine.returns.Marked own (marksHeld trace) := by
  induction run with
  | nil => exact Returns.marked_empty own
  | @snoc trace m k event run step ih =>
    have before (x : Moment ρ) (member : x ∈ trace) := apart x (List.mem_append_left _ member)
    have now : marksHeld (trace ++ [⟨event, k⟩]) = event.holds (marksHeld trace) := by
      rw [marksHeld, List.foldl_append]
      rfl
    rw [now]
    rcases step.engine (run.keeps (Machine.keeps_fresh config registry own)) with
      ⟨same, silent⟩ | ⟨s, c, acted, permitted, changed⟩
    · rw [same, event.holds_of_silent silent]
      exact ih before
    · have apartBefore := run.last (P := fun m => ∀ a ∈ own, a ∉ m.engine.returns.records)
        (fun a _ => Returns.not_mem_records.mpr (Machine.get?_fresh config registry own a)) before
      rw [acted, permitted.holds, changed, Change.returns_apply]
      exact (ih before).change apartBefore c

end

/-- The first call of a new engine comes through by itself: its tail hook is the only one that waits. -/
theorem Run.first_arming (config : Config) (registry : Registry ρ) (own : Marks) (call : Call) (hook : TailHook ρ) :
    ∃ trace n actions m, Run (.fresh config registry own) trace m ∧ m.tasks = [] ∧
      actions = [.changed { config := config, registry := registry, returns := { marks := own } } m.engine, .told n,
        .told (.handled call .execute)] ∧
      trace.map (·.event) =
        [.entered (.handle call { tail := some hook }), .finished (.handle call { tail := some hook }) .execute []] ++
          actions.map (.acted (.conclude call { tail := some hook } .execute)) ++
          [.finished (.conclude call { tail := some hook } .execute) .execute actions] ∧
      (∀ x ∈ trace, x.after.engine.returns.Bounded) ∧
      (∀ x ∈ trace, ∀ a ∈ x.after.engine.returns.records, a = call.returnPc) ∧
      m.engine.returns.get? call.returnPc = some { call := call, hook := some hook, count := 1 } := by
  let start : Machine ρ := .fresh config registry own
  have rests : start.AtRest := by simp [Machine.AtRest, start, Machine.fresh]
  have nothing (a : UInt32) : start.engine.returns.get? a = none := Machine.get?_fresh config registry own a
  have counts : (start.engine.returns.arm hook call).1 ≠ .overflow :=
    Returns.arm_ne_overflow_of_none (nothing _)
  obtain ⟨trace, n, actions, run, did, events, engines⟩ := Run.arming rests counts
  have single := Returns.isSingle_arm nothing hook call
  have only (x : Moment ρ) (member : x ∈ trace) (a : UInt32) (found : PendingTail ρ)
      (there : x.after.engine.returns.get? a = some found) :
      a = call.returnPc ∧ found = { call := call, hook := some hook, count := 1 } := by
    rcases engines x member with same | same
    · rw [same, nothing] at there
      cases there
    · rw [same] at there
      exact (single.only there).imp .symm .symm
  refine ⟨trace, n, actions, _, run, rfl, did, events, fun x member a found there => ?_, fun x member a there => ?_,
    single.found⟩
  · obtain ⟨-, rfl⟩ := only x member a found there
    show 1 < 2 ^ 32 - 1
    decide
  · obtain ⟨found, there⟩ := Returns.mem_records.mp there
    exact (only x member a found there).1

/-- The index of the waiting tail hooks and the marks, after any run of a new engine that leaves the
    interpreter's own marks alone. -/
theorem Run.marks_follow_records {config : Config} {registry : Registry ρ} {own : Marks} {trace : List (Moment ρ)}
    {m : Machine ρ} (run : Run (.fresh config registry own) trace m)
    (apart : ∀ x ∈ trace, ∀ a ∈ own, a ∉ x.after.engine.returns.records) :
    m.engine.returns.Keyed ∧ m.engine.returns.Counted ∧
      (∀ a ∈ own, a ∈ m.engine.returns.marks) ∧
      (∀ a ∈ m.engine.returns.marks, a ∈ own ∨ a ∈ m.engine.returns.records) ∧
      (marksHeld trace = true → ∀ a, a ∈ m.engine.returns.marks ↔ a ∈ own ∨ a ∈ m.engine.returns.records) := by
  have keeps := Machine.keeps_fresh config registry own
  have keyed := run.keyed keeps Machine.records_fresh
  have counted := run.counted keeps Machine.records_fresh
  have marked := run.marked apart
  refine ⟨keyed, counted, marked.kept, marked.justified, fun held a => ⟨marked.justified a, ?_⟩⟩
  rintro (member | member)
  · exact marked.kept a member
  · exact marked.complete held a member

/-- A tail hook comes to wait at one address while the interpreter has marked another. -/
theorem Run.marks_follow_records_arming :
    ∃ (trace : List (Moment Unit)) (m : Machine Unit),
      (Run (.fresh {} {} ((∅ : Marks).insert 0x4000)) trace m ∧
        (∀ x ∈ trace, ∀ a ∈ (∅ : Marks).insert 0x4000, a ∉ x.after.engine.returns.records) ∧
        marksHeld trace = true) ∧
      0x1002 ∈ m.engine.returns.records ∧
      ∀ a, a ∈ m.engine.returns.marks ↔ a ∈ (∅ : Marks).insert 0x4000 ∨ a ∈ m.engine.returns.records := by
  let hook : TailHook Unit := { table := "system", index := 0, routine := () }
  obtain ⟨trace, n, actions, m, run, -, rfl, events, -, alone, waits⟩ :=
    Run.first_arming {} {} ((∅ : Marks).insert 0x4000) { returnPc := 0x1002 } hook
  have apart : ∀ x ∈ trace, ∀ a ∈ (∅ : Marks).insert 0x4000, a ∉ x.after.engine.returns.records := by
    intro x member a marked there
    rw [alone x member a there] at marked
    exact absurd marked (by decide)
  have held : marksHeld trace = true := by
    have folded : marksHeld trace = (trace.map (·.event)).foldl Event.holds true := by
      rw [marksHeld, List.foldl_map]
    rw [folded, events]
    rfl
  exact ⟨trace, m, ⟨run, apart, held⟩, Returns.mem_records.mpr ⟨_, waits⟩,
    (Run.marks_follow_records run apart).2.2.2.2 held⟩

end TrapHooks
