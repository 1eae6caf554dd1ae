import Mathlib.Tactic.Ring
import TrapHooks.Chunk.Codec

/-! What the readers of a chunk make of written bytes. A number reads back modulo its width, so a field
    of the guest state and every part of a record read back as they were written; a record whose count
    is none, or too large for a signed number, is refused. Each reader leaves what follows its bytes. -/

namespace TrapHooks

/-! ### Numbers -/

namespace BigEndian

theorem foldl_encode (width n start : Nat) :
    (encode width n).foldl (fun n b => n * 256 + b.toNat) start = start * 256 ^ width + n % 256 ^ width := by
  induction width generalizing start with
  | zero => simp [encode, Nat.mod_one]
  | succ width ih =>
    have byte : (UInt8.ofNat (n >>> (8 * width))).toNat = n / 256 ^ width % 256 := by
      rw [UInt8.toNat_ofNat', Nat.shiftRight_eq_div_pow, Nat.pow_mul]
    rw [encode, List.foldl_cons, ih, byte, Nat.mod_pow_succ]
    ring

/-- A number reads back modulo what its width can hold. -/
theorem decode_encode_mod (width n : Nat) : decode (encode width n) = n % 256 ^ width := by
  simp [decode, foldl_encode]

theorem read?_encode {width n : Nat} (fits : n < 256 ^ width) (rest : List UInt8) :
    read? width (encode width n ++ rest) = some (n, rest) := by
  rw [read?_append (length_encode width n), decode_encode_mod, Nat.mod_eq_of_lt fits]

end BigEndian

/-- A signed reading is not positive exactly for zero and for what needs the sign bit. -/
theorem toInt32_nonpos_iff (v : UInt32) : v.toInt32 ≤ 0 ↔ ¬(1 ≤ v.toNat ∧ v.toNat < 2 ^ 31) := by
  have bound := v.toNat_lt
  have signed : v.toInt32.toInt = (v.toNat : Int).bmod (2 ^ 32) := BitVec.toInt_eq_toNat_bmod _
  rw [Int32.le_iff_toInt_le, signed, Int32.toInt_zero, Int.bmod_def]
  split <;> omega

theorem toInt_toInt32 {v : UInt32} (small : v.toNat < 2 ^ 31) : v.toInt32.toInt = v.toNat := by
  have signed : v.toInt32.toInt = (v.toNat : Int).bmod (2 ^ 32) := BitVec.toInt_eq_toNat_bmod _
  rw [signed, Int.bmod_def]
  split <;> omega

/-! ### Fields of the guest state -/

namespace GuestState

def takeOver (fields : List Field) (source s : GuestState) : GuestState :=
  fields.foldl (fun s f => f.set (f.get source) s) s

theorem Field.get_lt (f : Field) (s : GuestState) : f.get s < 256 ^ f.width := by
  cases f with
  | uiReady => cases h : s.uiReady <;> simp [get, width, h]
  | heapReady => cases h : s.heapReady <;> simp [get, width, h]
  | lastEventTrap => exact s.lastEventTrap.toNat_lt
  | romVersion => exact s.romVersion.toNat_lt
  | nextCard => exact s.nextCard.toNat_lt
  | nextId => exact s.nextId.toNat_lt

/-- Fields read back as they were written; those that were not written stay. -/
theorem decodeFields_encode (fields : List Field) (source s : GuestState) (rest : List UInt8) :
    decodeFields fields (fields.flatMap (Field.encode source) ++ rest) s = (takeOver fields source s, some rest) := by
  induction fields generalizing s with
  | nil => rfl
  | cons f fields ih =>
    rw [List.flatMap_cons, List.append_assoc, decodeFields, Field.encode,
      BigEndian.read?_encode (Field.get_lt f source)]
    exact ih (f.set (f.get source) s)

/-- What a version keeps of the guest state: a field that came in later is at its default. -/
def keptBy (version : Int32) (s : GuestState) : GuestState where
  uiReady := if 1 ≤ version then s.uiReady else false
  heapReady := if 1 ≤ version then s.heapReady else false
  lastEventTrap := if 2 ≤ version then s.lastEventTrap else 0
  romVersion := if 4 ≤ version then s.romVersion else 0
  nextCard := if 3 ≤ version then s.nextCard else 0
  nextId := if 3 ≤ version then s.nextId else 0

theorem takeOver_phases (version : Int32) (s : GuestState) :
    takeOver (fieldsOf version .afterRecords) s (takeOver (fieldsOf version .beforeRecords) s {}) =
      s.keptBy version := by
  by_cases h1 : 1 ≤ version <;> by_cases h2 : 2 ≤ version <;> by_cases h3 : 3 ≤ version <;>
    by_cases h4 : 4 ≤ version <;>
    simp [keptBy, takeOver, fieldsOf, Field.all, Field.since, Field.phase, Field.set, Field.get, h1, h2, h3, h4]

theorem Field.get_keptBy {f : Field} {version : Int32} (has : f.since ≤ version) (s : GuestState) :
    f.get (s.keptBy version) = f.get s := by
  cases f <;> simp_all [get, keptBy, since]

theorem encode_keptBy (version : Int32) (p : Phase) (s : GuestState) :
    (s.keptBy version).encode version p = s.encode version p := by
  rw [encode, encode, List.flatMap_def, List.flatMap_def]
  refine congrArg List.flatten (List.map_congr_left fun f member => ?_)
  have has : f.since ≤ version := by
    have := (List.mem_filter.mp member).2
    simp only [Bool.decide_and, Bool.and_eq_true, decide_eq_true_eq] at this
    exact this.1
  rw [Field.encode, Field.encode, Field.get_keptBy has]

theorem fieldsOf_afterRecords_eq_nil {version : Int32} (old : version ≤ 0) :
    fieldsOf version .afterRecords = [] := by
  have new : ¬(3 : Int32) ≤ version := by
    intro h
    rw [Int32.le_iff_toInt_le] at h old
    have : (3 : Int32).toInt = 3 := rfl
    have : (0 : Int32).toInt = 0 := rfl
    omega
  simp [fieldsOf, Field.all, Field.since, Field.phase, new]

end GuestState

/-! ### Readers -/

/-- The count is one that a session can keep: at least one return, and no sign bit. -/
def SavedTail.Storable (t : SavedTail) : Prop :=
  1 ≤ t.count.toNat ∧ t.count.toNat < 2 ^ 31

instance (t : SavedTail) : Decidable t.Storable :=
  inferInstanceAs (Decidable (_ ∧ _))

/-- The call as a session keeps it: the second target address is not written. -/
def Call.asSaved (c : Call) : Call :=
  { c with secondDest := c.dest }

def SavedTail.asSaved (t : SavedTail) : SavedTail :=
  { t with call := t.call.asSaved }

namespace Chunk.Reader

variable {α β : Type}

theorem bind_ok {r : Reader α} {f : α → Reader β} {bytes rest : List UInt8} {a : α}
    (h : r bytes = .ok (a, rest)) : (r >>= f) bytes = f a rest := by
  show (r bytes >>= fun x => f x.1 x.2) = _
  rw [h]
  rfl

theorem bind_error {r : Reader α} {f : α → Reader β} {bytes : List UInt8} {e : ChunkError}
    (h : r bytes = .error e) : (r >>= f) bytes = .error e := by
  show (r bytes >>= fun x => f x.1 x.2) = _
  rw [h]
  rfl

theorem of_bind_ok {r : Reader α} {f : α → Reader β} {bytes : List UInt8} {x : β × List UInt8}
    (h : (r >>= f) bytes = .ok x) : ∃ a rest, r bytes = .ok (a, rest) ∧ f a rest = .ok x := by
  cases read : r bytes with
  | error e => rw [bind_error read] at h; cases h
  | ok y => exact ⟨y.1, y.2, rfl, by rwa [bind_ok read] at h⟩

theorem pure_run (a : α) (bytes : List UInt8) : (pure a : Reader α) bytes = .ok (a, bytes) := rfl

theorem throw_run (e : ChunkError) (bytes : List UInt8) : (throw e : Reader α) bytes = .error e := rfl

theorem number_encode {width n : Nat} (fits : n < 256 ^ width) (rest : List UInt8) :
    number width (BigEndian.encode width n ++ rest) = .ok (n, rest) := by
  simp [number, BigEndian.read?_encode fits]

theorem long_encodeLong (v : UInt32) (rest : List UInt8) : long (encodeLong v ++ rest) = .ok (v, rest) := by
  rw [long, encodeLong, bind_ok (number_encode v.toNat_lt rest), pure_run, UInt32.ofNat_toNat]

theorem word_encodeWord (w : UInt16) (rest : List UInt8) : word (encodeWord w ++ rest) = .ok (w, rest) := by
  rw [word, encodeWord, bind_ok (number_encode w.toNat_lt rest), pure_run, UInt16.ofNat_toNat]

theorem int_encodeLong (v : UInt32) (rest : List UInt8) :
    int (encodeLong v ++ rest) = .ok (v.toInt32, rest) := by
  rw [int, bind_ok (long_encodeLong v rest), pure_run]

theorem int_encodeInt (n : Int32) (rest : List UInt8) : int (encodeInt n ++ rest) = .ok (n, rest) := by
  rw [encodeInt, int_encodeLong, Int32.toInt32_toUInt32]

theorem phase_encode (version : Int32) (p : Phase) (source s : GuestState) (rest : List UInt8) :
    phase version p s (source.encode version p ++ rest) =
      .ok (GuestState.takeOver (GuestState.fieldsOf version p) source s, rest) := by
  simp [phase, GuestState.decode, GuestState.encode, GuestState.decodeFields_encode]

/-- A record reads back as it is kept, or is refused for its count, which is looked at last. -/
theorem tail_encodeTail (t : SavedTail) (rest : List UInt8) :
    tail (encodeTail t ++ rest) =
      if t.Storable then .ok (t.asSaved, rest) else .error (.useCount t.call.returnPc t.count.toInt32) := by
  simp only [tail, encodeTail, List.append_assoc]
  rw [bind_ok (long_encodeLong ..), bind_ok (long_encodeLong ..), bind_ok (long_encodeLong ..),
    bind_ok (long_encodeLong ..), bind_ok (word_encodeWord ..), bind_ok (word_encodeWord ..),
    bind_ok (int_encodeLong ..)]
  by_cases storable : t.Storable
  · rw [if_neg (fun h => (toInt32_nonpos_iff t.count).mp h storable), if_pos storable, pure_run,
      UInt32.toUInt32_toInt32]
    rfl
  · rw [if_pos ((toInt32_nonpos_iff t.count).mpr storable), if_neg storable]
    exact bind_error (throw_run ..)

theorem tails_encode {ts : List SavedTail} (storable : ∀ t ∈ ts, t.Storable) (rest : List UInt8) :
    tails ts.length (ts.flatMap encodeTail ++ rest) = .ok (ts.map SavedTail.asSaved, rest) := by
  induction ts with
  | nil => rfl
  | cons t ts ih =>
    have first : tail (encodeTail t ++ (ts.flatMap encodeTail ++ rest)) =
        .ok (t.asSaved, ts.flatMap encodeTail ++ rest) := by
      rw [tail_encodeTail, if_pos (storable t List.mem_cons_self)]
    rw [List.length_cons, List.flatMap_cons, List.append_assoc, tails, bind_ok first,
      bind_ok (ih fun u hu => storable u (List.mem_cons_of_mem t hu)), pure_run, List.map_cons]

/-- The first record whose count cannot be kept ends the reading, whatever stands behind it. -/
theorem tails_encode_refused {before after : List SavedTail} {t : SavedTail}
    (storable : ∀ u ∈ before, u.Storable) (refused : ¬t.Storable) (rest : List UInt8) :
    tails (before ++ t :: after).length ((before ++ t :: after).flatMap encodeTail ++ rest) =
      .error (.useCount t.call.returnPc t.count.toInt32) := by
  induction before with
  | nil =>
    rw [List.nil_append, List.length_cons, List.flatMap_cons, List.append_assoc, tails]
    exact bind_error (by rw [tail_encodeTail, if_neg refused])
  | cons u before ih =>
    have first : ∀ bytes, tail (encodeTail u ++ bytes) = .ok (u.asSaved, bytes) := fun bytes => by
      rw [tail_encodeTail, if_pos (storable u List.mem_cons_self)]
    rw [List.cons_append, List.length_cons, List.flatMap_cons, List.append_assoc, tails, bind_ok (first _)]
    exact bind_error (ih fun v hv => storable v (List.mem_cons_of_mem u hv))

theorem countedTails_encode {n : Nat} (few : n < 2 ^ 31) (rest : List UInt8) :
    countedTails (BigEndian.encode 4 n ++ rest) = tails n rest := by
  have fits : n < 2 ^ 32 := by omega
  have written : BigEndian.encode 4 n = encodeLong (UInt32.ofNat n) := by
    rw [encodeLong, UInt32.toNat_ofNat_of_lt' fits]
  have value : (UInt32.ofNat n).toInt32.toInt = n := by
    rw [toInt_toInt32 (by rwa [UInt32.toNat_ofNat_of_lt' fits]), UInt32.toNat_ofNat_of_lt' fits]
  have nonneg : ¬(UInt32.ofNat n).toInt32 < 0 := by
    rw [Int32.lt_iff_toInt_lt, value, Int32.toInt_zero]
    omega
  rw [countedTails, written, bind_ok (int_encodeLong ..)]
  show (if (UInt32.ofNat n).toInt32 < 0 then _ else tails (UInt32.ofNat n).toInt32.toInt.toNat) rest = _
  rw [if_neg nonneg, value, Int.toNat_natCast]

/-! ### What readers can give -/

theorem storable_of_tail {bytes rest : List UInt8} {t : SavedTail} (h : tail bytes = .ok (t, rest)) :
    t.Storable := by
  -- Six parts are taken as they are; only the count that follows them is looked at.
  obtain ⟨_, _, -, h⟩ := of_bind_ok h
  obtain ⟨_, _, -, h⟩ := of_bind_ok h
  obtain ⟨_, _, -, h⟩ := of_bind_ok h
  obtain ⟨_, _, -, h⟩ := of_bind_ok h
  obtain ⟨_, _, -, h⟩ := of_bind_ok h
  obtain ⟨_, _, -, h⟩ := of_bind_ok h
  obtain ⟨count, _, -, h⟩ := of_bind_ok h
  by_cases refused : count ≤ 0
  · rw [if_pos refused, bind_error (throw_run ..)] at h
    cases h
  · rw [if_neg refused] at h
    cases h
    rw [← Int32.toInt32_toUInt32 count, toInt32_nonpos_iff, not_not] at refused
    exact refused

theorem storable_of_tails {n : Nat} {bytes rest : List UInt8} {ts : List SavedTail}
    (h : tails n bytes = .ok (ts, rest)) : ∀ t ∈ ts, t.Storable := by
  induction n generalizing bytes ts with
  | zero => cases h; simp
  | succ n ih =>
    obtain ⟨t, _, first, h⟩ := of_bind_ok h
    obtain ⟨ts, _, others, h⟩ := of_bind_ok h
    cases h
    exact List.forall_mem_cons.mpr ⟨storable_of_tail first, ih others⟩

theorem storable_of_countedTails {bytes rest : List UInt8} {ts : List SavedTail}
    (h : countedTails bytes = .ok (ts, rest)) : ∀ t ∈ ts, t.Storable := by
  obtain ⟨n, mid, -, h⟩ := of_bind_ok h
  by_cases negative : n < 0
  · have : (throw (.recordCount n) >>= fun _ : Unit => tails n.toInt.toNat) mid = .ok (ts, rest) := by
      simpa [negative] using h
    rw [bind_error (throw_run ..)] at this
    cases this
  · exact storable_of_tails (n := n.toInt.toNat) (by simpa [negative] using h)

end Chunk.Reader

/-- Every record of a chunk that was read has a count that can be kept. -/
theorem Chunk.storable_of_decode {bytes : List UInt8} {c : Chunk} (h : decode bytes = .ok c) :
    ∀ t ∈ c.tails, t.Storable := by
  unfold decode at h
  cases read : Reader.chunk bytes with
  | error e => rw [read] at h; cases h
  | ok x =>
    rw [read] at h
    cases h
    obtain ⟨version, mid, -, h⟩ := Reader.of_bind_ok read
    obtain ⟨⟨s, ts⟩, _, body, h⟩ := Reader.of_bind_ok h
    obtain ⟨_, _, -, h⟩ := Reader.of_bind_ok h
    cases h
    by_cases has : hasRecords version
    · rw [Reader.body, if_pos has] at body
      obtain ⟨_, _, -, body⟩ := Reader.of_bind_ok body
      obtain ⟨_, _, counted, body⟩ := Reader.of_bind_ok body
      cases body
      exact Reader.storable_of_countedTails counted
    · rw [Reader.body, if_neg has] at body
      cases body
      simp

end TrapHooks
