import Mathlib.Algebra.GroupWithZero.Nat
import Mathlib.Data.List.Induction
import TrapHooks.Device.FrameBuffer

/-! The frame buffer is a plain memory of bytes. Whatever is asked of it, in any order, each of its bytes is the one
    that was stored last at its address. An access is granted if its width is one that the buffer has and its bytes lie
    within the buffer, also where that goes beyond the addresses of thirty-two bits; what is refused leaves the buffer
    as it was. -/

namespace TrapHooks

namespace Region

theorem toNat_end (r : Region) : (r.start.toUInt64 + r.size.toUInt64).toNat = r.start.toNat + r.size.toNat := by
  have start := r.start.toNat_lt
  have length := r.size.toNat_lt
  rw [UInt64.toNat_add, UInt32.toNat_toUInt64, UInt32.toNat_toUInt64]
  omega

theorem toNat_last {address : UInt32} {size : UInt64} (fits : address.toNat + size.toNat < 2 ^ 64) :
    (address.toUInt64 + size).toNat = address.toNat + size.toNat := by
  rw [UInt64.toNat_add, UInt32.toNat_toUInt64, Nat.mod_eq_of_lt fits]

/-- The test in numbers without an end. -/
theorem contains_eq (r : Region) (address : UInt32) (size : UInt64) : r.contains address size =
    if r.start.toNat ≤ address.toNat then
      if address.toNat + size.toNat < 2 ^ 64 then
        some (decide (address.toNat + size.toNat ≤ r.start.toNat + r.size.toNat))
      else none
    else some false := by
  have first : r.start.toUInt64 ≤ address.toUInt64 ↔ r.start.toNat ≤ address.toNat := by
    rw [UInt64.le_iff_toNat_le, UInt32.toNat_toUInt64, UInt32.toNat_toUInt64]
  have bits : UInt64.size = 2 ^ 64 := rfl
  simp only [contains, first, bits]
  split
  · split
    · rename_i fits
      simp only [UInt64.le_iff_toNat_le, toNat_end, toNat_last fits]
    · rfl
  · rfl

/-- There is an answer as long as the access itself ends within sixty-four bits. -/
theorem contains_of_short (r : Region) {address : UInt32} {width : Nat} (short : address.toNat + width < 2 ^ 64) :
    r.contains address (UInt64.ofNat width) =
      some (decide (r.start.toNat ≤ address.toNat ∧ address.toNat + width ≤ r.start.toNat + r.size.toNat)) := by
  have fits : (UInt64.ofNat width).toNat = width := by rw [UInt64.toNat_ofNat', Nat.mod_eq_of_lt (by omega)]
  rw [contains_eq, fits, if_pos short]
  split <;> simp [*]

end Region

namespace FrameBuffer

variable {α β : Type} {b : FrameBuffer} {name : String} {base size address : UInt32} {width start place : Nat}
  {data image : List UInt8}

/-! ### Work on the buffer -/

theorem on_bind (work : Work α) (f : α → Work β) (b : FrameBuffer) :
    (work >>= f).on b =
      match work.on b with
      | (.ok a, b) => (f a).on b
      | (.error e, b) => (.error e, b) := by
  show ExceptT.bindCont f (work.on b).1 (work.on b).2 = _
  obtain ⟨answer, b'⟩ := work.on b
  cases answer <;> rfl

theorem on_pure (a : α) (b : FrameBuffer) : (pure a : Work α).on b = (.ok a, b) := rfl

theorem on_get (b : FrameBuffer) : (get : Work FrameBuffer).on b = (.ok b, b) := rfl

theorem on_modify (f : FrameBuffer → FrameBuffer) (b : FrameBuffer) : (modify f : Work Unit).on b = (.ok (), f b) := rfl

theorem on_throw (e : DeviceError) (b : FrameBuffer) : (throw e : Work α).on b = (.error e, b) := rfl

theorem on_ofExcept (answer : Except DeviceError α) (b : FrameBuffer) :
    (ofExcept answer : Work α).on b = (answer, b) := by
  cases answer <;> rfl

/-- The bytes of an access lie in the `size` bytes from `base` on, where addresses are numbers without an end. -/
def Within (base size address : UInt32) (width : Nat) : Prop :=
  base.toNat ≤ address.toNat ∧ address.toNat + width ≤ base.toNat + size.toNat

instance (base size address : UInt32) (width : Nat) : Decidable (Within base size address width) :=
  inferInstanceAs (Decidable (_ ∧ _))

/-- Why an access is refused, if it is. The width is looked at first. -/
def refusal (name : String) (base size address : UInt32) (width : Nat) : Option DeviceError :=
  if width ∉ widths then some (.unsupportedWidth name width)
  else if Within base size address width then none
  else some (.outOfRange name address)

theorem refusal_eq_none_iff (name : String) :
    refusal name base size address width = none ↔ width ∈ widths ∧ Within base size address width := by
  unfold refusal
  split
  · simp_all
  · split <;> simp_all

/-- The buffer has this name, its first byte is at this address, and it has so many bytes. -/
structure Lies (name : String) (base size : UInt32) (b : FrameBuffer) : Prop where
  name : b.name = name
  base : b.base = base
  size : b.image.length = size.toNat

theorem offset_eq (lies : b.Lies name base size) (address : UInt32) (width : Nat) :
    b.offset address width =
      match refusal name base size address width with
      | some e => .error e
      | none => .ok (address.toNat - base.toNat) := by
  obtain ⟨rfl, rfl, sized⟩ := lies
  unfold offset refusal
  by_cases has : width ∈ widths
  · have small : width ≤ 4 := by
      have : width = 1 ∨ width = 2 ∨ width = 4 := by simpa [widths] using has
      omega
    have here := address.toNat_lt
    have exact : b.region.contains address (UInt64.ofNat width) = some true ↔ Within b.base size address width := by
      rw [Region.contains_of_short b.region (by omega)]
      simp [region, sized, Within]
    simp only [has, not_true_eq_false, if_false, exact]
    by_cases within : Within b.base size address width
    · simp only [within, if_true]
      rw [UInt32.toNat_sub_of_le _ _ (UInt32.le_iff_toNat_le.mpr within.1)]
    · simp only [within, if_false]
  · simp only [has, not_false_eq_true, if_true]

/-- The place of an access that is granted is found without a number running over, and its bytes lie in the image. -/
theorem offset_inside (lies : b.Lies name base size) (found : b.offset address width = .ok place) :
    base ≤ address ∧ place = address.toNat - base.toNat ∧ place + width ≤ b.image.length := by
  rw [offset_eq lies] at found
  cases refused : refusal name base size address width with
  | some e => simp [refused] at found
  | none =>
    obtain ⟨-, first, last⟩ := (refusal_eq_none_iff name).mp refused
    obtain rfl : address.toNat - base.toNat = place := by simpa [refused] using found
    refine ⟨UInt32.le_iff_toNat_le.mpr first, rfl, ?_⟩
    rw [lies.size]
    omega

theorem read_on (lies : b.Lies name base size) (address : UInt32) (width : Nat) :
    (read address width).on b =
      match refusal name base size address width with
      | some e => (.error e, b)
      | none => (.ok ((b.image.drop (address.toNat - base.toNat)).take width), b) := by
  simp only [read, on_bind, on_get, on_ofExcept, on_pure, offset_eq lies]
  cases refusal name base size address width <;> rfl

theorem write_on (lies : b.Lies name base size) (address : UInt32) (data : List UInt8) :
    (write address data).on b =
      match refusal name base size address data.length with
      | some e => (.error e, b)
      | none =>
        (.ok (), { b with image := overwrite (address.toNat - base.toNat) data b.image }.touch
          (address.toNat - base.toNat) data.length) := by
  simp only [write, on_bind, on_get, on_ofExcept, on_modify, offset_eq lies]
  cases refusal name base size address data.length <;> rfl

/-- A saved image is taken over if it has the buffer's size. -/
theorem load_on (lies : b.Lies name base size) (image : Option (List UInt8)) :
    (load image).on b =
      match image with
      | none => (.error (.missingImage name), b)
      | some bytes =>
        if bytes.length = size.toNat then (.ok (), { b with image := bytes }.touch 0 bytes.length)
        else (.error (.imageSize name size.toNat bytes.length), b) := by
  obtain ⟨rfl, rfl, sized⟩ := lies
  cases image with
  | none => rfl
  | some bytes =>
    by_cases same : bytes.length = size.toNat
    · simp only [load, on_bind, on_get, on_modify, sized, same, ne_eq, not_true_eq_false, if_false, if_true]
    · simp only [load, on_bind, on_get, sized, same, ne_eq, not_false_eq_true, if_true, if_false, on_throw]

/-! ### Operations -/

/-- What others do with the frame buffer. -/
inductive Operation
  | read (address : UInt32) (width : Nat)
  | write (address : UInt32) (data : List UInt8)
  | load (image : Option (List UInt8))
  | save
  | reset (hardware : Bool)
  | takeDirty
deriving DecidableEq

inductive Answer
  | done
  | bytes (data : List UInt8)
  | saved (image : Option (List UInt8))
  | dirty (interval : Option (Nat × Nat))

namespace Operation

def work : Operation → Work Answer
  | read address width => return .bytes (← FrameBuffer.read address width)
  | write address data => do
    FrameBuffer.write address data
    return .done
  | load image => do
    FrameBuffer.load image
    return .done
  | save => return .saved (device.save (← get))
  | reset hardware => do
    modify (device.reset hardware)
    return .done
  | takeDirty => return .dirty (← modifyGet FrameBuffer.takeDirty)

/-- Where an operation stores bytes, and which, if it is granted. -/
def stores (base size : UInt32) : Operation → Option (Nat × List UInt8)
  | write address data =>
    if data.length ∈ widths ∧ Within base size address data.length then some (address.toNat, data) else none
  | load (some image) => if image.length = size.toNat then some (base.toNat, image) else none
  | _ => none

/-- The byte that an operation stores at an address, if it stores one. -/
def byteAt (base size : UInt32) (place : Nat) (op : Operation) : Option UInt8 :=
  (op.stores base size).bind fun (start, data) => if start ≤ place then data[place - start]? else none

end Operation

/-- The frame buffer after all these operations, the first first. -/
def after (b : FrameBuffer) (past : List Operation) : FrameBuffer :=
  past.foldl (fun b op => (op.work.on b).2) b

/-- The byte that was stored last at an address; zero if none was. -/
def lastByte (base size : UInt32) (past : List Operation) (place : Nat) : UInt8 :=
  (past.reverse.findSome? (Operation.byteAt base size place)).getD 0

theorem lastByte_snoc (base size : UInt32) (past : List Operation) (op : Operation) (place : Nat) :
    lastByte base size (past ++ [op]) place = (op.byteAt base size place).getD (lastByte base size past place) := by
  simp only [lastByte, List.reverse_append, List.reverse_singleton, List.singleton_append, List.findSome?_cons]
  cases op.byteAt base size place <;> rfl

/-- What an operation makes of the buffer: it stores its bytes and marks them, if it is granted and stores any. -/
theorem Operation.work_on_snd (lies : b.Lies name base size) (op : Operation) :
    (op.work.on b).2 =
      match op.stores base size with
      | some (start, data) =>
        { b with image := overwrite (start - base.toNat) data b.image }.touch (start - base.toNat) data.length
      | none => if op = .takeDirty then { b with dirty := none } else b := by
  cases op with
  | read address width =>
    simp only [work, on_bind, read_on lies]
    cases refusal name base size address width <;> rfl
  | write address data =>
    simp only [work, on_bind, write_on lies, stores, ← refusal_eq_none_iff name]
    cases refusal name base size address data.length <;> simp [on_pure]
  | load image =>
    simp only [work, on_bind, load_on lies]
    cases image with
    | none => rfl
    | some bytes =>
      by_cases same : bytes.length = size.toNat
      · have whole : overwrite 0 bytes b.image = bytes := by simp [overwrite, lies.size, same]
        simp [stores, same, on_pure, whole]
      · simp [stores, same]
  | save => rfl
  | reset hardware => rfl
  | takeDirty => rfl

theorem Operation.work_on_error (lies : b.Lies name base size) {op : Operation} {e : DeviceError}
    (refused : (op.work.on b).1 = .error e) : (op.work.on b).2 = b := by
  cases op with
  | read address width =>
    simp only [work, on_bind, read_on lies] at refused ⊢
    cases h : refusal name base size address width <;> simp_all [on_pure]
  | write address data =>
    simp only [work, on_bind, write_on lies] at refused ⊢
    cases h : refusal name base size address data.length <;> simp_all [on_pure]
  | load image =>
    simp only [work, on_bind, load_on lies] at refused ⊢
    cases image with
    | none => rfl
    | some bytes =>
      by_cases same : bytes.length = size.toNat
      · simp [same, on_pure] at refused
      · simp [same]
  | save => rfl
  | reset hardware => rfl
  | takeDirty => cases refused

/-- What is stored lies in the buffer. -/
theorem Operation.stores_inside {op : Operation} (stored : op.stores base size = some (start, data)) :
    base.toNat ≤ start ∧ start + data.length ≤ base.toNat + size.toNat := by
  cases op with
  | write address bytes =>
    simp only [stores, Option.ite_none_right_eq_some, Option.some.injEq, Prod.mk.injEq] at stored
    obtain ⟨⟨-, within⟩, rfl, rfl⟩ := stored
    exact within
  | load image =>
    cases image with
    | none => cases stored
    | some bytes =>
      simp only [stores, Option.ite_none_right_eq_some, Option.some.injEq, Prod.mk.injEq] at stored
      obtain ⟨same, rfl, rfl⟩ := stored
      exact ⟨Nat.le_refl _, by omega⟩
  | _ => cases stored

theorem getElem?_overwrite (fits : place + data.length ≤ image.length) (i : Nat) :
    (overwrite place data image)[i]? =
      if place ≤ i ∧ i < place + data.length then data[i - place]? else image[i]? := by
  have before : (image.take place).length = place := by
    rw [List.length_take]
    omega
  rw [overwrite, List.append_assoc]
  rcases Nat.lt_or_ge i place with first | later
  · rw [List.getElem?_append_left (by omega), List.getElem?_take_of_lt first, if_neg (by omega)]
  rw [List.getElem?_append_right (by omega), before]
  rcases Nat.lt_or_ge i (place + data.length) with inside | behind
  · rw [List.getElem?_append_left (by omega), if_pos ⟨later, inside⟩]
  · rw [List.getElem?_append_right (by omega), List.getElem?_drop, if_neg (by omega)]
    congr 1
    omega

theorem after_snoc (b : FrameBuffer) (past : List Operation) (op : Operation) :
    b.after (past ++ [op]) = (op.work.on (b.after past)).2 := List.foldl_append

theorem lies_after (name : String) (base size : UInt32) (past : List Operation) :
    ((blank name base size).after past).Lies name base size := by
  induction past using List.reverseRecOn with
  | nil => exact ⟨rfl, rfl, List.length_replicate⟩
  | append_singleton past op ih =>
    rw [after_snoc, op.work_on_snd ih]
    cases stored : op.stores base size with
    | none =>
      dsimp only
      split
      · exact ⟨ih.name, ih.base, ih.size⟩
      · exact ih
    | some stored' =>
      obtain ⟨start, data⟩ := stored'
      have inside := Operation.stores_inside stored
      refine ⟨ih.name, ih.base, ?_⟩
      show (overwrite _ data _).length = _
      rw [length_overwrite, ih.size]
      rw [ih.size]
      omega

/-- All along, each byte of the image is the one that was stored last at its address. -/
theorem image_after (name : String) (base size : UInt32) (past : List Operation) {i : Nat} (inside : i < size.toNat) :
    ((blank name base size).after past).image[i]? = some (lastByte base size past (base.toNat + i)) := by
  induction past using List.reverseRecOn with
  | nil => simp [after, blank, lastByte, inside]
  | append_singleton past op ih =>
    have lies := lies_after name base size past
    rw [after_snoc, op.work_on_snd lies, lastByte_snoc, Operation.byteAt]
    cases stored : op.stores base size with
    | none =>
      dsimp only
      split <;> exact ih
    | some stored' =>
      obtain ⟨start, data⟩ := stored'
      obtain ⟨first, last⟩ := Operation.stores_inside stored
      show (overwrite _ data _)[i]? = _
      rw [getElem?_overwrite (by rw [lies.size]; omega), ih]
      grind

theorem slice_after (name : String) (base size : UInt32) (past : List Operation) (first width : Nat)
    (inside : first + width ≤ size.toNat) :
    (((blank name base size).after past).image.drop first).take width =
      (List.range width).map fun i => lastByte base size past (base.toNat + first + i) := by
  refine List.ext_getElem? fun i => ?_
  rcases Nat.lt_or_ge i width with early | late
  · rw [List.getElem?_take_of_lt early, List.getElem?_drop, image_after name base size past (by omega)]
    simp [early, Nat.add_assoc]
  · rw [List.getElem?_take_eq_none late, List.getElem?_eq_none (by simpa using late)]

theorem image_after_eq (name : String) (base size : UInt32) (past : List Operation) :
    ((blank name base size).after past).image =
      (List.range size.toNat).map fun i => lastByte base size past (base.toNat + i) := by
  have whole := slice_after name base size past 0 size.toNat (Nat.le_of_eq (Nat.zero_add size.toNat))
  rwa [List.drop_zero, ← (lies_after name base size past).size, List.take_length, (lies_after name base size past).size,
    Nat.add_zero] at whole

theorem read_after (name : String) (base size : UInt32) (past : List Operation) (address : UInt32) (width : Nat) :
    ((read address width).on ((blank name base size).after past)).1 =
      match refusal name base size address width with
      | some e => .error e
      | none => .ok ((List.range width).map fun i => lastByte base size past (address.toNat + i)) := by
  rw [read_on (lies_after name base size past)]
  cases granted : refusal name base size address width with
  | some e => rfl
  | none =>
    obtain ⟨-, first, last⟩ := (refusal_eq_none_iff name).mp granted
    have place : base.toNat + (address.toNat - base.toNat) = address.toNat := by omega
    have bytes := slice_after name base size past (address.toNat - base.toNat) width (by omega)
    rw [place] at bytes
    rw [bytes]

/-- A wide access reads what accesses of one byte would, where these have an address. -/
theorem read_bytes (name : String) (base size : UInt32) (past : List Operation) {address : UInt32} {width : Nat}
    {data : List UInt8} (granted : ((read address width).on ((blank name base size).after past)).1 = .ok data) :
    data.length = width ∧ ∀ i < width, address.toNat + i < 2 ^ 32 → ∃ byte, data[i]? = some byte ∧
      ((read (address + UInt32.ofNat i) 1).on ((blank name base size).after past)).1 = .ok [byte] := by
  rw [read_after] at granted
  cases refused : refusal name base size address width with
  | some e => simp [refused] at granted
  | none =>
    obtain rfl : (List.range width).map _ = data := by simpa [refused] using granted
    obtain ⟨-, first, last⟩ := (refusal_eq_none_iff name).mp refused
    refine ⟨by simp, fun i early short => ⟨lastByte base size past (address.toNat + i), by simp [early], ?_⟩⟩
    have place : (address + UInt32.ofNat i).toNat = address.toNat + i := by
      rw [UInt32.toNat_add, UInt32.toNat_ofNat']
      omega
    have granted : refusal name base size (address + UInt32.ofNat i) 1 = none := by
      refine (refusal_eq_none_iff name).mpr ⟨by decide, ?_⟩
      rw [Within, place]
      omega
    rw [read_after, granted, place]
    rfl

/-- After whatever was asked of it, a frame buffer that was blank at first is a plain memory:

    * an access that is given a place has an address that is not before the buffer's, and its bytes lie in the image;
    * a read or a write is granted exactly if its width is one of the buffer's and its bytes lie within the buffer, and
      the width is looked at first;
    * each byte that is read or saved is the one that was stored last at its address, so that a wide access reads what
      accesses of one byte would, where these have an address;
    * an image is taken over exactly if it has the buffer's size, and is what is saved then;
    * whatever is refused leaves everything as it was, the dirty interval included. -/
theorem memory_of_bytes (name : String) (base size : UInt32) (past : List Operation) :
    let b := (blank name base size).after past
    let last := lastByte base size past
    (∀ address width place, b.offset address width = .ok place →
      base ≤ address ∧ place = address.toNat - base.toNat ∧ place + width ≤ b.image.length) ∧
    (∀ address width, ((read address width).on b).1 =
      match refusal name base size address width with
      | some e => .error e
      | none => .ok ((List.range width).map fun i => last (address.toNat + i))) ∧
    (∀ address data, ((write address data).on b).1 =
      match refusal name base size address data.length with
      | some e => .error e
      | none => .ok ()) ∧
    (∀ address width data, ((read address width).on b).1 = .ok data → data.length = width ∧
      ∀ i < width, address.toNat + i < 2 ^ 32 →
        ∃ byte, data[i]? = some byte ∧ ((read (address + UInt32.ofNat i) 1).on b).1 = .ok [byte]) ∧
    device.save b = some ((List.range size.toNat).map fun i => last (base.toNat + i)) ∧
    ((load none).on b).1 = .error (.missingImage name) ∧
    (∀ image, image.length ≠ size.toNat →
      ((load (some image)).on b).1 = .error (.imageSize name size.toNat image.length)) ∧
    (∀ image, image.length = size.toNat →
      ((load (some image)).on b).1 = .ok () ∧ device.save ((load (some image)).on b).2 = some image) ∧
    ∀ (op : Operation) (e : DeviceError), (op.work.on b).1 = .error e → (op.work.on b).2 = b := by
  have lies := lies_after name base size past
  have reads := read_after name base size past
  refine ⟨fun address width place found => offset_inside lies found, reads, fun address data => ?_,
    fun address width data granted => ?_, ?_, ?_, fun image other => ?_, fun image same => ?_,
    fun op e refused => Operation.work_on_error lies refused⟩
  · rw [write_on lies]
    cases refusal name base size address data.length <;> rfl
  · exact read_bytes name base size past granted
  · exact congrArg some (image_after_eq name base size past)
  · rw [load_on lies]
  · rw [load_on lies]
    simp [other]
  · rw [load_on lies]
    simp only [same, if_true, true_and]
    rfl

/-- Where the buffer goes beyond the addresses of thirty-two bits, so may an access, but not beyond the buffer. -/
theorem memory_of_bytes_beyond :
    let b := (blank "lcd" 0xFFFFFFFE 4).after [.write 0xFFFFFFFE [1, 2, 3, 4], .write 0xFFFFFFFD [9]]
    ((read 0xFFFFFFFF 2).on b).1 = .ok [2, 3] ∧
      ((read 0xFFFFFFFF 4).on b).1 = .error (.outOfRange "lcd" 0xFFFFFFFF) ∧
      ∃ byte, ([2, 3] : List UInt8)[0]? = some byte ∧ ((read 0xFFFFFFFF 1).on b).1 = .ok [byte] := by
  obtain ⟨-, reads, -, bytes, -⟩ := memory_of_bytes "lcd" 0xFFFFFFFE 4
    [.write 0xFFFFFFFE [1, 2, 3, 4], .write 0xFFFFFFFD [9]]
  have two := reads 0xFFFFFFFF 2
  obtain ⟨-, each⟩ := bytes 0xFFFFFFFF 2 [2, 3] two
  exact ⟨two, reads 0xFFFFFFFF 4, each 0 (by decide) (by decide)⟩

end FrameBuffer

end TrapHooks
