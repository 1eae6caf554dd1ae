import TrapHooks.Proofs.Chunk.RoundTrip

/-! Which byte strings are chunks. A chunk is described without the readers, by the widths of its parts and
    the signs of its numbers, and so is what is wrong with bytes that do not begin with a chunk: the first
    fault in the order of the bytes. Every byte string is of one of the two kinds. The reader takes a chunk off
    the front, whatever follows it, and otherwise reports the fault; and a chunk is written again as it was,
    but for its two flags, of which every byte other than zero is a yes. -/

namespace TrapHooks

/-! ### Numbers -/

namespace BigEndian

theorem foldl_eq (bytes : List UInt8) (start : Nat) :
    bytes.foldl (fun n b => n * 256 + b.toNat) start = start * 256 ^ bytes.length + decode bytes := by
  induction bytes generalizing start with
  | nil => simp [decode]
  | cons b bytes ih =>
    rw [decode, List.foldl_cons, List.foldl_cons, ih, ih (0 * 256 + b.toNat), List.length_cons]
    ring

theorem decode_cons (b : UInt8) (bytes : List UInt8) :
    decode (b :: bytes) = b.toNat * 256 ^ bytes.length + decode bytes := by
  rw [decode, List.foldl_cons, foldl_eq, Nat.zero_mul, Nat.zero_add]

theorem decode_lt (bytes : List UInt8) : decode bytes < 256 ^ bytes.length := by
  induction bytes with
  | nil => simp [decode]
  | cons b bytes ih =>
    have byte : b.toNat + 1 ≤ 256 := b.toNat_lt
    calc decode (b :: bytes) = b.toNat * 256 ^ bytes.length + decode bytes := decode_cons b bytes
      _ < (b.toNat + 1) * 256 ^ bytes.length := by rw [Nat.add_one_mul]; omega
      _ ≤ 256 * 256 ^ bytes.length := Nat.mul_le_mul_right _ byte
      _ = 256 ^ (b :: bytes).length := by rw [List.length_cons, Nat.pow_succ, Nat.mul_comm]

theorem encode_mod {width wide : Nat} (fits : width ≤ wide) (n : Nat) :
    encode width (n % 256 ^ wide) = encode width n := by
  induction width with
  | zero => rfl
  | succ width ih =>
    have digit : n % 256 ^ wide / 256 ^ width % 256 = n / 256 ^ width % 256 := by
      obtain ⟨more, rfl⟩ := Nat.exists_eq_add_of_le fits
      rw [Nat.add_assoc, Nat.pow_add, Nat.mod_mul_right_div_self, Nat.add_comm 1 more, Nat.pow_succ',
        Nat.mod_mul_right_mod]
    rw [encode, encode, ih (by omega), Nat.shiftRight_eq_div_pow, Nat.shiftRight_eq_div_pow, Nat.pow_mul,
      show (2 : Nat) ^ 8 = 256 from rfl, ← UInt8.ofNat_mod_size, digit, UInt8.ofNat_mod_size]

/-- At a given width, bytes are the only writing of the number that they stand for. -/
theorem encode_decode (bytes : List UInt8) : encode bytes.length (decode bytes) = bytes := by
  induction bytes with
  | nil => rfl
  | cons b bytes ih =>
    have first : decode (b :: bytes) / 256 ^ bytes.length = b.toNat := by
      rw [decode_cons, Nat.mul_comm, Nat.mul_add_div (Nat.pow_pos (by decide)), Nat.div_eq_of_lt (decode_lt bytes),
        Nat.add_zero]
    have others : decode (b :: bytes) % 256 ^ bytes.length = decode bytes := by
      rw [decode_cons, Nat.mul_add_mod_of_lt (decode_lt bytes)]
    rw [List.length_cons, encode, ← encode_mod (Nat.le_refl _) (decode (b :: bytes)), others, ih,
      Nat.shiftRight_eq_div_pow, Nat.pow_mul, show (2 : Nat) ^ 8 = 256 from rfl, first, UInt8.ofNat_toNat]

end BigEndian

namespace Chunk

def longOf (bytes : List UInt8) : UInt32 :=
  UInt32.ofNat (BigEndian.decode bytes)

def wordOf (bytes : List UInt8) : UInt16 :=
  UInt16.ofNat (BigEndian.decode bytes)

theorem encodeLong_longOf {bytes : List UInt8} (full : bytes.length = 4) : encodeLong (longOf bytes) = bytes := by
  have fits : BigEndian.decode bytes < 2 ^ 32 := by
    have := BigEndian.decode_lt bytes
    rw [full] at this
    exact this
  have again := BigEndian.encode_decode bytes
  rw [full] at again
  rw [encodeLong, longOf, UInt32.toNat_ofNat_of_lt' fits, again]

theorem encodeWord_wordOf {bytes : List UInt8} (full : bytes.length = 2) : encodeWord (wordOf bytes) = bytes := by
  have fits : BigEndian.decode bytes < 2 ^ 16 := by
    have := BigEndian.decode_lt bytes
    rw [full] at this
    exact this
  have again := BigEndian.encode_decode bytes
  rw [full] at again
  rw [encodeWord, wordOf, UInt16.toNat_ofNat_of_lt' fits, again]

theorem exists_encodeInt {bytes : List UInt8} (full : bytes.length = 4) : ∃ n, bytes = encodeInt n :=
  ⟨(longOf bytes).toInt32, by rw [encodeInt, UInt32.toUInt32_toInt32, encodeLong_longOf full]⟩

/-! ### The grammar -/

/-- The bytes that a version of one or later has of the guest state in a phase. -/
def stateWidth (version : Int32) : Phase → Nat
  | .beforeRecords => 2 + (if 2 ≤ version then 2 else 0) + (if 4 ≤ version then 4 else 0)
  | .afterRecords => if 3 ≤ version then 6 else 0

/-- How a chunk with records begins. -/
structure Opening where
  version : Int32
  state : List UInt8
  /-- The number of records that are to follow. -/
  count : Int32
  new : 1 ≤ version
  state_length : state.length = stateWidth version .beforeRecords

def Opening.bytes (o : Opening) : List UInt8 :=
  encodeInt o.version ++ o.state ++ encodeInt o.count

/-- Twenty-four bytes that stand for a record. -/
structure Slot where
  before : List UInt8
  returnPc : UInt32
  between : List UInt8
  count : Int32
  before_length : before.length = 8
  between_length : between.length = 8

def Slot.bytes (s : Slot) : List UInt8 :=
  s.before ++ encodeLong s.returnPc ++ s.between ++ encodeInt s.count

/-- The bytes of a chunk, from its first to its last. -/
inductive IsChunk : List UInt8 → Prop
  | old {version : Int32} (old : version ≤ 0) : IsChunk (encodeInt version)
  | new (o : Opening) {slots : List Slot} {last : List UInt8} (counted : o.count.toInt = slots.length)
      (waits : ∀ s ∈ slots, 0 < s.count) (full : last.length = stateWidth o.version .afterRecords) :
    IsChunk (o.bytes ++ slots.flatMap Slot.bytes ++ last)

/-- What is wrong with bytes that do not begin with a chunk, the first fault that they have. -/
inductive Faulty : List UInt8 → ChunkError → Prop
  /-- The bytes end within the version. -/
  | noVersion {bytes : List UInt8} (short : bytes.length < 4) : Faulty bytes .truncated
  /-- The bytes end before the number of records does. -/
  | noCount {version : Int32} {bytes : List UInt8} (new : 1 ≤ version)
      (short : bytes.length < stateWidth version .beforeRecords + 4) :
    Faulty (encodeInt version ++ bytes) .truncated
  | negativeCount (o : Opening) (negative : o.count < 0) (rest : List UInt8) :
    Faulty (o.bytes ++ rest) (.recordCount o.count)
  /-- The bytes end within a record. -/
  | noRecord (o : Opening) {slots : List Slot} {bytes : List UInt8} (more : slots.length < o.count.toInt)
      (waits : ∀ s ∈ slots, 0 < s.count) (short : bytes.length < 24) :
    Faulty (o.bytes ++ slots.flatMap Slot.bytes ++ bytes) .truncated
  /-- A record waits for no return, or for a negative number. -/
  | noReturns (o : Opening) {slots : List Slot} {slot : Slot} (more : slots.length < o.count.toInt)
      (waits : ∀ s ∈ slots, 0 < s.count) (none : slot.count ≤ 0) (rest : List UInt8) :
    Faulty (o.bytes ++ slots.flatMap Slot.bytes ++ (slot.bytes ++ rest)) (.useCount slot.returnPc slot.count)
  /-- The bytes end within the second phase of the guest state. -/
  | noState (o : Opening) {slots : List Slot} {bytes : List UInt8} (counted : o.count.toInt = slots.length)
      (waits : ∀ s ∈ slots, 0 < s.count) (short : bytes.length < stateWidth o.version .afterRecords) :
    Faulty (o.bytes ++ slots.flatMap Slot.bytes ++ bytes) .truncated

def asFlag (b : UInt8) : UInt8 :=
  if b = 0 then 0 else 1

/-- A chunk as it is written: its flags, which stand behind the version, are zero or one. -/
def canonical (bytes : List UInt8) : List UInt8 :=
  (bytes.modify 4 asFlag).modify 5 asFlag

/-! ### Every byte string is of one kind -/

theorem exists_split (width : Nat) (bytes : List UInt8) (enough : width ≤ bytes.length) :
    ∃ part rest, bytes = part ++ rest ∧ part.length = width :=
  ⟨bytes.take width, bytes.drop width, (List.take_append_drop width bytes).symm, List.length_take_of_le enough⟩

theorem Slot.exists_bytes {bytes : List UInt8} (full : bytes.length = 24) : ∃ s : Slot, bytes = s.bytes := by
  obtain ⟨before, bytes, rfl, width₁⟩ := exists_split 8 bytes (by omega)
  obtain ⟨address, bytes, rfl, width₂⟩ := exists_split 4 bytes (by simp at full; omega)
  obtain ⟨between, bytes, rfl, width₃⟩ := exists_split 8 bytes (by simp at full; omega)
  obtain ⟨count, rfl⟩ := exists_encodeInt (show bytes.length = 4 by simp at full; omega)
  refine ⟨⟨before, longOf address, between, count, width₁, width₃⟩, ?_⟩
  simp only [Slot.bytes, encodeLong_longOf width₂, List.append_assoc]

/-- Records are read until enough were found, the bytes end, or one waits for no return. -/
theorem records_cases (n : Nat) (bytes : List UInt8) :
    (∃ slots : List Slot, ∃ rest, bytes = slots.flatMap Slot.bytes ++ rest ∧ slots.length = n ∧
        ∀ s ∈ slots, 0 < s.count) ∨
      ∃ slots : List Slot, ∃ rest, bytes = slots.flatMap Slot.bytes ++ rest ∧ slots.length < n ∧
        (∀ s ∈ slots, 0 < s.count) ∧
        (rest.length < 24 ∨ ∃ (slot : Slot) (rest' : List UInt8), rest = slot.bytes ++ rest' ∧ slot.count ≤ 0) := by
  induction n generalizing bytes with
  | zero => exact .inl ⟨[], bytes, rfl, rfl, by simp⟩
  | succ n ih =>
    by_cases short : bytes.length < 24
    · exact .inr ⟨[], bytes, rfl, by simp, by simp, .inl short⟩
    · obtain ⟨part, bytes, rfl, full⟩ := exists_split 24 bytes (by omega)
      obtain ⟨slot, rfl⟩ := Slot.exists_bytes full
      by_cases none : slot.count ≤ 0
      · exact .inr ⟨[], _, rfl, by simp, by simp, .inr ⟨slot, bytes, rfl, none⟩⟩
      · have first : 0 < slot.count := Int32.not_le.mp none
        rcases ih bytes with ⟨slots, rest, rfl, found, waits⟩ | ⟨slots, rest, rfl, more, waits, ends⟩
        · refine .inl ⟨slot :: slots, rest, by simp, by simp [found], ?_⟩
          exact List.forall_mem_cons.mpr ⟨first, waits⟩
        · refine .inr ⟨slot :: slots, rest, by simp, by simpa using more, ?_, ends⟩
          exact List.forall_mem_cons.mpr ⟨first, waits⟩

theorem isChunk_or_faulty (bytes : List UInt8) :
    (∃ used rest, bytes = used ++ rest ∧ IsChunk used) ∨ ∃ e, Faulty bytes e := by
  by_cases short : bytes.length < 4
  · exact .inr ⟨_, .noVersion short⟩
  obtain ⟨part, bytes, rfl, full⟩ := exists_split 4 bytes (by omega)
  obtain ⟨version, rfl⟩ := exists_encodeInt full
  by_cases old : version ≤ 0
  · exact .inl ⟨_, bytes, rfl, .old old⟩
  have new : 1 ≤ version := by
    rw [Int32.le_iff_toInt_le] at old ⊢
    have zero : (0 : Int32).toInt = 0 := rfl
    have one : (1 : Int32).toInt = 1 := rfl
    omega
  by_cases short : bytes.length < stateWidth version .beforeRecords + 4
  · exact .inr ⟨_, .noCount new short⟩
  obtain ⟨state, bytes, rfl, width⟩ :=
    exists_split (stateWidth version .beforeRecords) bytes (by omega)
  obtain ⟨part, bytes, rfl, full⟩ := exists_split 4 bytes (by simp at short; omega)
  obtain ⟨count, rfl⟩ := exists_encodeInt full
  let o : Opening := ⟨version, state, count, new, width⟩
  have begins : encodeInt version ++ (state ++ (encodeInt count ++ bytes)) = o.bytes ++ bytes := by
    simp [o, Opening.bytes]
  rw [begins]
  by_cases negative : count < 0
  · exact .inr ⟨_, .negativeCount o negative bytes⟩
  have value : (count.toInt.toNat : Int) = count.toInt := by
    rw [Int32.lt_iff_toInt_lt, Int32.toInt_zero] at negative
    omega
  rcases records_cases count.toInt.toNat bytes with
    ⟨slots, rest, rfl, found, waits⟩ | ⟨slots, rest, rfl, more, waits, ends⟩
  · have counted : o.count.toInt = slots.length := by rw [found, value]
    rw [← List.append_assoc]
    by_cases short : rest.length < stateWidth version .afterRecords
    · exact .inr ⟨_, .noState o counted waits short⟩
    · obtain ⟨last, rest, rfl, full⟩ :=
        exists_split (stateWidth version .afterRecords) rest (by omega)
      exact .inl ⟨_, rest, (List.append_assoc ..).symm, .new o counted waits full⟩
  · have fewer : slots.length < o.count.toInt := by
      rw [← value]
      exact Int.ofNat_lt.mpr more
    rw [← List.append_assoc]
    rcases ends with short | ⟨slot, rest, rfl, none⟩
    · exact .inr ⟨_, .noRecord o fewer waits short⟩
    · exact .inr ⟨_, .noReturns o fewer waits none rest⟩

end Chunk

end TrapHooks
