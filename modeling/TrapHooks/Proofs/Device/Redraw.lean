import Mathlib.Data.List.DropRight
import TrapHooks.Proofs.Device.Memory

/-! A display need not look at more of the frame buffer than the dirty interval. Outside of the interval that waits to
    be taken, the display shows what the image has; the interval is the least one that covers what was stored since it
    was taken last. -/

namespace TrapHooks.FrameBuffer

variable {b : FrameBuffer} {name : String} {base size : UInt32} {ranges : List (Nat × Nat)} {image screen : List UInt8}
  {first last : Nat}

/-! ### What is dirty -/

/-- The part of the image that an operation stores into, from its first byte up to before its end. -/
def Operation.touches (base size : UInt32) (op : Operation) : Option (Nat × Nat) :=
  (op.stores base size).map fun (start, data) => (start - base.toNat, start - base.toNat + data.length)

/-- The parts that were stored into since the dirty interval was taken last. -/
def touchedSince (base size : UInt32) (past : List Operation) : List (Nat × Nat) :=
  (past.rtakeWhile fun op => op ≠ .takeDirty).filterMap (Operation.touches base size)

/-- The interval covers all of these. -/
def Covers (interval : Nat × Nat) (ranges : List (Nat × Nat)) : Prop :=
  ∀ range ∈ ranges, interval.1 ≤ range.1 ∧ range.2 ≤ interval.2

/-- The least interval that covers all of these; none if there is nothing to cover. -/
structure IsHull (ranges : List (Nat × Nat)) (dirty : Option (Nat × Nat)) : Prop where
  none_iff : dirty = none ↔ ranges = []
  covers : ∀ interval, dirty = some interval → Covers interval ranges
  least : ∀ interval, dirty = some interval → ∀ other, Covers other ranges →
    other.1 ≤ interval.1 ∧ interval.2 ≤ other.2

theorem isHull_nil : IsHull [] none := ⟨by simp, nofun, nofun⟩

theorem covers_append {interval range : Nat × Nat} :
    Covers interval (ranges ++ [range]) ↔ Covers interval ranges ∧ interval.1 ≤ range.1 ∧ range.2 ≤ interval.2 := by
  simp only [Covers, List.forall_mem_append, List.forall_mem_singleton]

theorem IsHull.touch (hull : IsHull ranges b.dirty) (offset length : Nat) :
    IsHull (ranges ++ [(offset, offset + length)]) (b.touch offset length).dirty := by
  unfold FrameBuffer.touch
  cases dirty : b.dirty with
  | none =>
    obtain rfl := hull.none_iff.mp dirty
    refine ⟨by simp, fun interval same => ?_, fun interval same other covers => ?_⟩
    · cases same
      exact covers_append.mpr ⟨by simp [Covers], Nat.le_refl _, Nat.le_refl _⟩
    · cases same
      exact (covers_append.mp covers).2
  | some interval =>
    have before := hull.covers interval dirty
    refine ⟨by simp, fun interval' same => ?_, fun interval' same other covers => ?_⟩
    · cases same
      refine covers_append.mpr ⟨fun range member => ?_, Nat.min_le_right _ _, Nat.le_max_right _ _⟩
      obtain ⟨first, last⟩ := before range member
      exact ⟨Nat.le_trans (Nat.min_le_left _ _) first, Nat.le_trans last (Nat.le_max_left _ _)⟩
    · cases same
      obtain ⟨others, first, last⟩ := covers_append.mp covers
      obtain ⟨first', last'⟩ := hull.least interval dirty other others
      exact ⟨Nat.le_min.mpr ⟨first', first⟩, Nat.max_le.mpr ⟨last', last⟩⟩

theorem touchedSince_snoc (base size : UInt32) (past : List Operation) (op : Operation) :
    touchedSince base size (past ++ [op]) =
      if op = .takeDirty then [] else touchedSince base size past ++ (op.touches base size).toList := by
  by_cases takes : op = .takeDirty
  · simp [touchedSince, takes]
  · cases touched : op.touches base size <;> simp [touchedSince, takes, touched]

/-- All along, the dirty interval is the least one that covers what was stored since it was taken last. -/
theorem isHull_after (name : String) (base size : UInt32) (past : List Operation) :
    IsHull (touchedSince base size past) ((blank name base size).after past).dirty := by
  induction past using List.reverseRecOn with
  | nil => exact isHull_nil
  | append_singleton past op ih =>
    rw [after_snoc, op.work_on_snd (lies_after name base size past), touchedSince_snoc]
    cases stored : op.stores base size with
    | none =>
      by_cases takes : op = .takeDirty
      · simp only [takes, if_true]
        exact isHull_nil
      · simpa [takes, Operation.touches, stored] using ih
    | some stored' =>
      obtain ⟨start, data⟩ := stored'
      have stays : op ≠ .takeDirty := by
        rintro rfl
        cases stored
      simp only [stays, if_false, Operation.touches, stored, Option.map_some, Option.toList_some]
      exact IsHull.touch ih _ _

theorem touches_inside {op : Operation} {range : Nat × Nat} (touched : op.touches base size = some range) :
    range.1 ≤ range.2 ∧ range.2 ≤ size.toNat := by
  obtain ⟨⟨start, data⟩, stored, rfl⟩ := Option.map_eq_some_iff.mp touched
  have inside := Operation.stores_inside stored
  dsimp only
  omega

/-- The dirty interval lies in the image. -/
theorem dirty_inside (name : String) (base size : UInt32) (past : List Operation) (first last : Nat)
    (dirty : ((blank name base size).after past).dirty = some (first, last)) :
    first ≤ last ∧ last ≤ ((blank name base size).after past).image.length := by
  rw [(lies_after name base size past).size]
  have hull := isHull_after name base size past
  have some : touchedSince base size past ≠ [] := fun none => by
    rw [hull.none_iff.mpr none] at dirty
    cases dirty
  have inside : ∀ range ∈ touchedSince base size past, range.1 ≤ range.2 ∧ range.2 ≤ size.toNat := by
    intro range member
    obtain ⟨op, -, touched⟩ := List.mem_filterMap.mp member
    exact touches_inside touched
  obtain ⟨range, member⟩ := List.exists_mem_of_ne_nil _ some
  obtain ⟨ordered, -⟩ := inside range member
  obtain ⟨early, late⟩ := hull.covers _ dirty range member
  obtain ⟨-, whole⟩ := hull.least _ dirty (0, size.toNat) fun range member => ⟨Nat.zero_le _, (inside range member).2⟩
  exact ⟨Nat.le_trans early (Nat.le_trans ordered late), whole⟩

/-! ### The display -/

/-- A part of the image is copied to the display. -/
def redraw (first last : Nat) (image screen : List UInt8) : List UInt8 :=
  screen.take first ++ (image.take last).drop first ++ screen.drop last

theorem getElem?_redraw (ordered : first ≤ last) (fits : last ≤ image.length)
    (sized : screen.length = image.length) (i : Nat) :
    (redraw first last image screen)[i]? = if first ≤ i ∧ i < last then image[i]? else screen[i]? := by
  have length : ((image.take last).drop first).length = last - first := by simp [fits]
  have part : redraw first last image screen = overwrite first ((image.take last).drop first) screen := by
    rw [redraw, overwrite, length, Nat.add_sub_of_le ordered]
  rw [part, getElem?_overwrite (by omega), length, Nat.add_sub_of_le ordered]
  split
  · rw [List.getElem?_drop, List.getElem?_take_of_lt (by omega), Nat.add_sub_of_le (by omega)]
  · rfl

/-- The display after the dirty interval is taken: it has copied that part of the image and nothing else. -/
def catchUp (b : FrameBuffer) (screen : List UInt8) : List UInt8 :=
  match b.takeDirty.1 with
  | some (first, last) => redraw first last b.image screen
  | none => screen

/-- What an operation makes of the buffer and of the display beside it. -/
def watch (shown : FrameBuffer × List UInt8) (op : Operation) : FrameBuffer × List UInt8 :=
  ((op.work.on shown.1).2, if op = .takeDirty then catchUp shown.1 shown.2 else shown.2)

/-- A new buffer, and a display that is blank at first, after all these operations. -/
def shown (name : String) (base size : UInt32) (past : List Operation) : FrameBuffer × List UInt8 :=
  past.foldl watch (blank name base size, List.replicate size.toNat 0)

theorem shown_snoc (name : String) (base size : UInt32) (past : List Operation) (op : Operation) :
    shown name base size (past ++ [op]) = watch (shown name base size past) op := List.foldl_append

theorem shown_fst (name : String) (base size : UInt32) (past : List Operation) :
    (shown name base size past).1 = (blank name base size).after past := by
  induction past using List.reverseRecOn with
  | nil => rfl
  | append_singleton past op ih => rw [shown_snoc, after_snoc, ← ih, watch]

def Outside (i : Nat) (dirty : Option (Nat × Nat)) : Prop :=
  ∀ first last, dirty = some (first, last) → i < first ∨ last ≤ i

/-- What lies outside of the dirty interval, once some more bytes are in it, is none of them and lay outside before. -/
theorem Outside.of_touch {i offset length : Nat} (outside : Outside i (b.touch offset length).dirty) :
    (i < offset ∨ offset + length ≤ i) ∧ Outside i b.dirty := by
  cases dirty : b.dirty with
  | none =>
    refine ⟨outside offset (offset + length) (by simp [touch, dirty]), fun first last same => ?_⟩
    cases same
  | some interval =>
    have := outside (min interval.1 offset) (max interval.2 (offset + length)) (by simp [touch, dirty])
    refine ⟨by omega, fun first last same => ?_⟩
    cases same
    omega

/-- Byte by byte the display is the image, but for what waits to be taken. -/
structure UpToDate (b : FrameBuffer) (screen : List UInt8) : Prop where
  size : screen.length = b.image.length
  same : ∀ i, Outside i b.dirty → screen[i]? = b.image[i]?

theorem UpToDate.catchUp (current : b.UpToDate screen)
    (inside : ∀ first last, b.dirty = some (first, last) → first ≤ last ∧ last ≤ b.image.length) :
    catchUp b screen = b.image := by
  obtain ⟨sized, same⟩ := current
  simp only [FrameBuffer.catchUp, takeDirty]
  cases dirty : b.dirty with
  | none => exact List.ext_getElem? fun i => same i (by simp [Outside, dirty])
  | some interval =>
    obtain ⟨first, last⟩ := interval
    obtain ⟨ordered, fits⟩ := inside first last dirty
    refine List.ext_getElem? fun i => ?_
    show (redraw first last b.image screen)[i]? = _
    rw [getElem?_redraw ordered fits sized]
    split
    · rfl
    · refine same i fun first' last' dirty' => ?_
      cases dirty.symm.trans dirty'
      omega

theorem UpToDate.store {place : Nat} {data : List UInt8} (current : b.UpToDate screen)
    (fits : place + data.length ≤ b.image.length) :
    ({ b with image := overwrite place data b.image }.touch place data.length).UpToDate screen := by
  obtain ⟨sized, same⟩ := current
  refine ⟨sized.trans (length_overwrite fits).symm, fun i outside => ?_⟩
  obtain ⟨other, before⟩ := outside.of_touch
  show screen[i]? = (overwrite place data b.image)[i]?
  rw [getElem?_overwrite fits, if_neg (by omega), same i before]

theorem upToDate_shown (name : String) (base size : UInt32) (past : List Operation) :
    ((blank name base size).after past).UpToDate (shown name base size past).2 := by
  induction past using List.reverseRecOn with
  | nil => exact ⟨rfl, fun i _ => rfl⟩
  | append_singleton past op ih =>
    have lies := lies_after name base size past
    rw [after_snoc, shown_snoc, op.work_on_snd lies, watch, shown_fst]
    cases stored : op.stores base size with
    | none =>
      by_cases takes : op = .takeDirty
      · have caught := ih.catchUp (dirty_inside name base size past)
        simp only [takes, if_true, caught]
        exact ⟨rfl, fun i _ => rfl⟩
      · simpa only [takes, if_false] using ih
    | some stored' =>
      obtain ⟨start, data⟩ := stored'
      obtain ⟨first, last⟩ := Operation.stores_inside stored
      have stays : op ≠ .takeDirty := by
        rintro rfl
        cases stored
      simp only [stays, if_false]
      exact ih.store (by rw [lies.size]; omega)

/-- A write or a load that is granted, and only such a one, counts as touching the part that it stores into. -/
theorem touches_write (lies : b.Lies name base size) (address : UInt32) (data : List UInt8) :
    (Operation.write address data).touches base size =
      match ((write address data).on b).1 with
      | .ok () => some (address.toNat - base.toNat, address.toNat - base.toNat + data.length)
      | .error _ => none := by
  rw [write_on lies]
  simp only [Operation.touches, Operation.stores, ← refusal_eq_none_iff name]
  cases refusal name base size address data.length <;> rfl

theorem touches_load (lies : b.Lies name base size) (image : Option (List UInt8)) :
    (Operation.load image).touches base size =
      match ((load image).on b).1 with
      | .ok () => some (0, b.image.length)
      | .error _ => none := by
  rw [load_on lies, lies.size]
  cases image with
  | none => rfl
  | some bytes => by_cases same : bytes.length = size.toNat <;> simp [Operation.touches, Operation.stores, same]

/-- A display beside a frame buffer need not look at more of it than what it is told is dirty. It is blank at first, as
    the buffer is, and copies the dirty interval whenever that is taken; whatever else is asked of the buffer in
    between, granted or refused, it shows all of the image each time. The interval lies in the image. It is the least
    one that covers what was written and loaded since the last time, and there is none exactly if nothing was. -/
theorem redrawn_by_dirty (name : String) (base size : UInt32) (past : List Operation) :
    let b := (blank name base size).after past
    let ranges := touchedSince base size past
    (shown name base size (past ++ [.takeDirty])).2 = ((blank name base size).after (past ++ [.takeDirty])).image ∧
      (b.takeDirty.1 = none ↔ ranges = []) ∧
      (∀ first last, b.takeDirty.1 = some (first, last) →
        first ≤ last ∧ last ≤ b.image.length ∧ Covers (first, last) ranges ∧
          ∀ other, Covers other ranges → other.1 ≤ first ∧ last ≤ other.2) ∧
      (∀ address data, (Operation.write address data).touches base size =
        match ((write address data).on b).1 with
        | .ok () => some (address.toNat - base.toNat, address.toNat - base.toNat + data.length)
        | .error _ => none) ∧
      ∀ image, (Operation.load image).touches base size =
        match ((load image).on b).1 with
        | .ok () => some (0, b.image.length)
        | .error _ => none := by
  have lies := lies_after name base size past
  have hull := isHull_after name base size past
  refine ⟨?_, hull.none_iff, fun first last dirty => ?_, touches_write lies, touches_load lies⟩
  · rw [shown_snoc, watch, if_pos rfl, shown_fst, after_snoc]
    exact (upToDate_shown name base size past).catchUp (dirty_inside name base size past)
  · obtain ⟨ordered, fits⟩ := dirty_inside name base size past first last dirty
    exact ⟨ordered, fits, hull.covers _ dirty, hull.least _ dirty⟩

/-- Two writes, the later at the earlier address, and what is refused beside them. -/
theorem redrawn_by_dirty_twice :
    let b := (blank "lcd" 0 16).after
      [.write 12 [1, 2], .takeDirty, .write 8 [3, 4], .load none, .write 2 [5], .write 16 [6]]
    b.takeDirty.1 = some (2, 10) ∧ 10 ≤ b.image.length ∧ Covers (2, 10) [(8, 10), (2, 3)] := by
  obtain ⟨-, -, dirty, -⟩ := redrawn_by_dirty "lcd" 0 16
    [.write 12 [1, 2], .takeDirty, .write 8 [3, 4], .load none, .write 2 [5], .write 16 [6]]
  obtain ⟨-, fits, covers, -⟩ := dirty 2 10 rfl
  exact ⟨rfl, fits, covers⟩

end TrapHooks.FrameBuffer
