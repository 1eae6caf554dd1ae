import TrapHooks.Proofs.Chunk.Phases

/-! The reader against the grammar. A chunk is taken off the front of any bytes that begin with one, and is
    written again as it was but for its flags; any other bytes are refused for their first fault. -/

namespace TrapHooks.Chunk

open GuestState

/-! ### Records -/

def Slot.saved (s : Slot) : SavedTail where
  call :=
    { pc := longOf (s.between.take 4), returnPc := s.returnPc, dest := longOf (s.before.take 4),
      secondDest := longOf (s.before.take 4), trap := wordOf ((s.between.drop 4).drop 2),
      index := wordOf ((s.between.drop 4).take 2), extra := longOf (s.before.drop 4) }
  count := s.count.toUInt32

theorem Slot.encodeTail_saved (s : Slot) : encodeTail s.saved = s.bytes := by
  have eight := s.before_length
  have eight' := s.between_length
  have dest : encodeLong s.saved.call.dest = s.before.take 4 := encodeLong_longOf (by simp [eight])
  have extra : encodeLong s.saved.call.extra = s.before.drop 4 := encodeLong_longOf (by simp [eight])
  have pc : encodeLong s.saved.call.pc = s.between.take 4 := encodeLong_longOf (by simp [eight'])
  have index : encodeWord s.saved.call.index = (s.between.drop 4).take 2 := encodeWord_wordOf (by simp [eight'])
  have trap : encodeWord s.saved.call.trap = (s.between.drop 4).drop 2 := encodeWord_wordOf (by simp [eight'])
  calc encodeTail s.saved
      = s.before.take 4 ++ s.before.drop 4 ++ encodeLong s.returnPc ++ s.between.take 4
          ++ (s.between.drop 4).take 2 ++ (s.between.drop 4).drop 2 ++ encodeInt s.count := by
        rw [encodeTail, dest, extra, pc, index, trap]
        rfl
    _ = s.before ++ encodeLong s.returnPc ++ (s.between.take 4 ++ ((s.between.drop 4).take 2
          ++ (s.between.drop 4).drop 2)) ++ encodeInt s.count := by
        simp only [List.take_append_drop, List.append_assoc]
    _ = s.bytes := by rw [List.take_append_drop, List.take_append_drop, Slot.bytes]

theorem Slot.storable_saved {s : Slot} : s.saved.Storable ↔ 0 < s.count := by
  have refused := toInt32_nonpos_iff s.count.toUInt32
  rw [Int32.toInt32_toUInt32] at refused
  rw [← Int32.not_le, refused, not_not]
  rfl

theorem flatMap_encodeTail_saved (slots : List Slot) :
    (slots.map Slot.saved).flatMap encodeTail = slots.flatMap Slot.bytes := by
  rw [List.flatMap_map]
  exact congrArg slots.flatMap (funext Slot.encodeTail_saved)

namespace Reader

variable {α β : Type}

theorem tail_slot {s : Slot} (waits : 0 < s.count) (rest : List UInt8) :
    tail (s.bytes ++ rest) = .ok (s.saved, rest) := by
  rw [← s.encodeTail_saved, tail_encodeTail, if_pos (Slot.storable_saved.mpr waits)]
  rfl

theorem tail_slot_refused {s : Slot} (none : s.count ≤ 0) (rest : List UInt8) :
    tail (s.bytes ++ rest) = .error (.useCount s.returnPc s.count) := by
  have refused : ¬s.saved.Storable := by rwa [Slot.storable_saved, Int32.not_lt]
  rw [← s.encodeTail_saved, tail_encodeTail, if_neg refused]
  show Except.error (ChunkError.useCount s.returnPc s.count.toUInt32.toInt32) = _
  rw [Int32.toInt32_toUInt32]

theorem tails_slots {slots : List Slot} (waits : ∀ s ∈ slots, 0 < s.count) (rest : List UInt8) :
    tails slots.length (slots.flatMap Slot.bytes ++ rest) = .ok (slots.map Slot.saved, rest) := by
  have storable : ∀ t ∈ slots.map Slot.saved, t.Storable :=
    List.forall_mem_map.mpr fun s member => Slot.storable_saved.mpr (waits s member)
  have read := tails_encode storable rest
  rw [flatMap_encodeTail_saved, List.length_map, List.map_map] at read
  exact read

theorem tails_error {slots : List Slot} (waits : ∀ s ∈ slots, 0 < s.count) {n : Nat} (more : slots.length < n)
    {bytes : List UInt8} {e : ChunkError} (next : tail bytes = .error e) :
    tails n (slots.flatMap Slot.bytes ++ bytes) = .error e := by
  obtain ⟨n, rfl⟩ := Nat.exists_eq_succ_of_ne_zero (Nat.ne_zero_of_lt more)
  induction slots generalizing n with
  | nil => exact bind_error next
  | cons s slots ih =>
    rw [List.length_cons, Nat.succ_lt_succ_iff] at more
    obtain ⟨n, rfl⟩ := Nat.exists_eq_succ_of_ne_zero (Nat.ne_zero_of_lt more)
    rw [List.flatMap_cons, List.append_assoc, tails, bind_ok (tail_slot (waits s List.mem_cons_self) _)]
    exact bind_error (ih (fun t member => waits t (List.mem_cons_of_mem s member)) n more)

/-- The reader ends too early on fewer bytes than these. -/
def Needs (width : Nat) (r : Reader α) : Prop :=
  ∀ bytes, bytes.length < width → r bytes = .error .truncated

/-- The reader takes this number of bytes, whatever they are. -/
def Takes (width : Nat) (r : Reader α) : Prop :=
  Needs width r ∧ ∀ bytes, width ≤ bytes.length → ∃ a rest, r bytes = .ok (a, rest) ∧ rest.length + width = bytes.length

theorem Takes.bind {width : Nat} {r : Reader α} {f : α → Reader β} (first : Takes width r) (more : Nat)
    (next : ∀ a, Needs more (f a)) : Needs (width + more) (r >>= f) := by
  intro bytes short
  by_cases ends : bytes.length < width
  · exact bind_error (first.1 bytes ends)
  · obtain ⟨a, rest, read, left⟩ := first.2 bytes (Nat.not_lt.mp ends)
    rw [bind_ok read]
    exact next a rest (by omega)

theorem Takes.map {width : Nat} {r : Reader α} (h : Takes width r) (f : α → β) :
    Takes width (r >>= fun a => pure (f a)) := by
  refine ⟨fun bytes short => bind_error (h.1 bytes short), fun bytes enough => ?_⟩
  obtain ⟨a, rest, read, left⟩ := h.2 bytes enough
  exact ⟨f a, rest, bind_ok read, left⟩

theorem takes_number (width : Nat) : Takes width (number width) := by
  refine ⟨fun bytes short => ?_, fun bytes enough => ?_⟩
  · rw [number, BigEndian.read?_eq_none_iff.mpr short]
  · obtain ⟨part, rest, rfl, full⟩ := exists_split width bytes enough
    refine ⟨BigEndian.decode part, rest, ?_, ?_⟩
    · rw [number, BigEndian.read?_append full]
    · rw [List.length_append, full, Nat.add_comm]

theorem takes_long : Takes 4 long :=
  (takes_number 4).map _

theorem takes_word : Takes 2 word :=
  (takes_number 2).map _

theorem takes_int : Takes 4 int :=
  takes_long.map _

theorem needs_tail : Needs 24 tail := by
  refine takes_long.bind 20 fun dest => ?_
  refine takes_long.bind 16 fun extra => ?_
  refine takes_long.bind 12 fun returnPc => ?_
  refine takes_long.bind 8 fun pc => ?_
  refine takes_word.bind 6 fun index => ?_
  refine takes_word.bind 4 fun trap => ?_
  exact takes_int.bind 0 fun count bytes none => absurd none (Nat.not_lt_zero _)

theorem countedTails_of_neg {n : Int32} (negative : n < 0) (rest : List UInt8) :
    countedTails (encodeInt n ++ rest) = .error (.recordCount n) := by
  rw [countedTails, bind_ok (int_encodeInt ..)]
  show (if n < 0 then _ else _ : Reader _) rest = _
  rw [if_pos negative]
  exact bind_error (throw_run ..)

theorem countedTails_of_nonneg {n : Int32} (nonneg : 0 ≤ n.toInt) (rest : List UInt8) :
    countedTails (encodeInt n ++ rest) = tails n.toInt.toNat rest := by
  have positive : ¬n < 0 := by
    rw [Int32.lt_iff_toInt_lt, Int32.toInt_zero]
    omega
  rw [countedTails, bind_ok (int_encodeInt ..)]
  show (if n < 0 then _ else _ : Reader _) rest = _
  rw [if_neg positive]

theorem countedTails_slots {n : Int32} {slots : List Slot} (counted : n.toInt = slots.length)
    (waits : ∀ s ∈ slots, 0 < s.count) (rest : List UInt8) :
    countedTails (encodeInt n ++ (slots.flatMap Slot.bytes ++ rest)) = .ok (slots.map Slot.saved, rest) := by
  rw [countedTails_of_nonneg (by omega), counted, Int.toNat_natCast, tails_slots waits]

theorem countedTails_error {n : Int32} {slots : List Slot} (more : slots.length < n.toInt)
    (waits : ∀ s ∈ slots, 0 < s.count) {bytes : List UInt8} {e : ChunkError} (next : tail bytes = .error e) :
    countedTails (encodeInt n ++ (slots.flatMap Slot.bytes ++ bytes)) = .error e := by
  rw [countedTails_of_nonneg (by omega)]
  exact tails_error waits (by omega) next

end Reader

/-! ### Chunks -/

open Reader

theorem body_opening (o : Opening) :
    ∃ s, s.encode o.version .beforeRecords = (o.state.modify 0 asFlag).modify 1 asFlag ∧
      ∀ bytes, body o.version (o.state ++ encodeInt o.count ++ bytes) =
        (countedTails (encodeInt o.count ++ bytes)).map fun x => ((s, x.1), x.2) := by
  obtain ⟨s, reads, written⟩ := phase_before o.new o.state_length {}
  refine ⟨s, written, fun bytes => ?_⟩
  rw [body, if_pos (hasRecords_iff.mpr o.new), List.append_assoc, bind_ok (reads _)]
  cases read : countedTails (encodeInt o.count ++ bytes) with
  | error e => exact bind_error read
  | ok x => exact bind_ok read

theorem chunk_of_body_error {version : Int32} {bytes : List UInt8} {e : ChunkError}
    (h : body version bytes = .error e) : chunk (encodeInt version ++ bytes) = .error e := by
  rw [chunk, bind_ok (int_encodeInt ..)]
  exact bind_error h

theorem chunk_opening_error {o : Opening} {bytes : List UInt8} {e : ChunkError}
    (h : countedTails (encodeInt o.count ++ bytes) = .error e) : chunk (o.bytes ++ bytes) = .error e := by
  obtain ⟨s, -, reads⟩ := body_opening o
  rw [Opening.bytes, List.append_assoc, List.append_assoc, ← List.append_assoc o.state]
  refine chunk_of_body_error ?_
  rw [reads bytes, h]
  rfl

theorem encodeInt_of_toInt {n : Int32} {k : Nat} (value : n.toInt = k) : encodeInt n = BigEndian.encode 4 k := by
  have bound := n.toUInt32.toNat_lt
  have signed : n.toUInt32.toInt32.toInt = (n.toUInt32.toNat : Int).bmod (2 ^ 32) := BitVec.toInt_eq_toNat_bmod _
  rw [Int32.toInt32_toUInt32, value, Int.bmod_def] at signed
  have same : n.toUInt32.toNat = k := by split at signed <;> omega
  rw [encodeInt, encodeLong, same]

theorem length_encodeInt (n : Int32) : (encodeInt n).length = 4 :=
  BigEndian.length_encode 4 _

theorem canonical_encodeInt (version : Int32) : canonical (encodeInt version) = encodeInt version := by
  rw [canonical, List.modify_eq_self, List.modify_eq_self] <;> simp [length_encodeInt]

theorem canonical_opening (version : Int32) {state : List UInt8} (flags : 2 ≤ state.length) (bytes : List UInt8) :
    canonical (encodeInt version ++ state ++ bytes) =
      encodeInt version ++ (state.modify 0 asFlag).modify 1 asFlag ++ bytes := by
  obtain ⟨first, state, rfl, two⟩ := exists_split 2 state flags
  obtain ⟨ui, heap, rfl⟩ := List.length_eq_two.mp two
  rfl

theorem two_le_stateWidth (version : Int32) : 2 ≤ stateWidth version .beforeRecords := by
  rw [stateWidth]
  omega

theorem chunk_new (o : Opening) {slots : List Slot} {last : List UInt8} (counted : o.count.toInt = slots.length)
    (waits : ∀ s ∈ slots, 0 < s.count) (full : last.length = stateWidth o.version .afterRecords) :
    ∃ c, (∀ rest, chunk (o.bytes ++ slots.flatMap Slot.bytes ++ last ++ rest) = .ok (c, rest)) ∧
      c.encode = canonical (o.bytes ++ slots.flatMap Slot.bytes ++ last) := by
  obtain ⟨s, before, reads⟩ := body_opening o
  obtain ⟨s', phase, after, stay⟩ := phase_after o.new full s
  refine ⟨⟨o.version, s', slots.map Slot.saved⟩, fun rest => ?_, ?_⟩
  · have inner := reads (slots.flatMap Slot.bytes ++ (last ++ rest))
    rw [countedTails_slots counted waits] at inner
    simp only [Opening.bytes, List.append_assoc] at inner ⊢
    rw [chunk, bind_ok (int_encodeInt ..), bind_ok inner]
    exact bind_ok (phase rest)
  · have wide : 2 ≤ o.state.length := by
      rw [o.state_length]
      exact two_le_stateWidth _
    have canon := canonical_opening o.version wide (encodeInt o.count ++ slots.flatMap Slot.bytes ++ last)
    rw [encode, if_pos (hasRecords_iff.mpr o.new)]
    simp only [Opening.bytes, List.append_assoc] at canon ⊢
    rw [canon, stay, before, after, flatMap_encodeTail_saved, List.length_map, encodeInt_of_toInt counted]

theorem chunk_old {version : Int32} (old : version ≤ 0) :
    ∃ c, (∀ rest, chunk (encodeInt version ++ rest) = .ok (c, rest)) ∧ c.encode = encodeInt version := by
  have none := hasRecords_eq_false old
  have last (rest : List UInt8) : phase version .afterRecords {} rest = .ok ({}, rest) := by
    simp [phase, GuestState.decode, fieldsOf_afterRecords_eq_nil old, decodeFields]
  refine ⟨⟨version, {}, []⟩, fun rest => ?_, ?_⟩
  · have nothing : body version rest = .ok (({}, []), rest) := by
      simp [body, none, pure_run]
    rw [chunk, bind_ok (int_encodeInt ..), bind_ok nothing]
    exact bind_ok (last rest)
  · simp [encode, none, GuestState.encode, fieldsOf_afterRecords_eq_nil old]

/-- A chunk is taken off the front of the bytes, and is written again as it was but for its flags. -/
theorem IsChunk.read {used : List UInt8} (h : IsChunk used) :
    ∃ c, (∀ rest, chunk (used ++ rest) = .ok (c, rest)) ∧ c.encode = canonical used := by
  cases h with
  | old old =>
    rw [canonical_encodeInt]
    exact chunk_old old
  | new o counted waits full => exact chunk_new o counted waits full

theorem Faulty.read {bytes : List UInt8} {e : ChunkError} (h : Faulty bytes e) : chunk bytes = .error e := by
  cases h with
  | noVersion short => exact bind_error (takes_int.1 bytes short)
  | @noCount version bytes new short =>
    refine chunk_of_body_error ?_
    rw [body, if_pos (hasRecords_iff.mpr new)]
    by_cases ends : bytes.length < stateWidth version .beforeRecords
    · exact bind_error (phase_short new ends {})
    · obtain ⟨state, bytes, rfl, full⟩ :=
        exists_split (stateWidth version .beforeRecords) bytes (by omega)
      obtain ⟨s, reads, -⟩ := phase_before new full {}
      rw [bind_ok (reads bytes)]
      rw [List.length_append] at short
      exact bind_error (bind_error (takes_int.1 bytes (by omega)))
  | negativeCount o negative rest => exact chunk_opening_error (countedTails_of_neg negative rest)
  | noRecord o more waits short =>
    rw [List.append_assoc]
    exact chunk_opening_error (countedTails_error more waits (needs_tail _ short))
  | noReturns o more waits none rest =>
    rw [List.append_assoc]
    exact chunk_opening_error (countedTails_error more waits (tail_slot_refused none rest))
  | @noState o slots bytes counted waits short =>
    obtain ⟨s, -, reads⟩ := body_opening o
    have inner := reads (slots.flatMap Slot.bytes ++ bytes)
    rw [countedTails_slots counted waits] at inner
    simp only [Opening.bytes, List.append_assoc] at inner ⊢
    rw [chunk, bind_ok (int_encodeInt ..), bind_ok inner]
    exact bind_error (phase_short o.new short s)

/-- A fault other than the end of the bytes is there whatever comes behind it. -/
theorem Faulty.append {bytes : List UInt8} {e : ChunkError} (h : Faulty bytes e) (known : e ≠ .truncated)
    (more : List UInt8) : Faulty (bytes ++ more) e := by
  cases h with
  | noVersion _ => exact absurd rfl known
  | noCount _ _ => exact absurd rfl known
  | noRecord _ _ _ _ => exact absurd rfl known
  | noState _ _ _ _ => exact absurd rfl known
  | negativeCount o negative rest =>
    rw [List.append_assoc]
    exact .negativeCount o negative (rest ++ more)
  | @noReturns o slots slot fewer waits none rest =>
    rw [List.append_assoc, List.append_assoc (slot.bytes)]
    exact .noReturns o fewer waits none (rest ++ more)

theorem decode_of_chunk_ok {bytes rest : List UInt8} {c : Chunk} (h : chunk bytes = .ok (c, rest)) :
    decode bytes = .ok c := by
  rw [decode, h]
  rfl

theorem decode_of_chunk_error {bytes : List UInt8} {e : ChunkError} (h : chunk bytes = .error e) :
    decode bytes = .error e := by
  rw [decode, h]
  rfl

/-- No part of a chunk begins with a chunk of its own. -/
theorem IsChunk.eq_nil {used rest more : List UInt8} (part : IsChunk used)
    (whole : IsChunk (used ++ rest ++ more)) : more = [] := by
  obtain ⟨c, reads, -⟩ := part.read
  obtain ⟨c', reads', -⟩ := whole.read
  have read := reads' []
  rw [List.append_nil, List.append_assoc, reads] at read
  have left : rest ++ more = [] := (Prod.mk.inj (Except.ok.inj read)).2
  exact (List.append_eq_nil_iff.mp left).2

theorem decode_error_iff (bytes : List UInt8) (e : ChunkError) : decode bytes = .error e ↔ Faulty bytes e := by
  refine ⟨fun refused => ?_, fun h => decode_of_chunk_error h.read⟩
  rcases isChunk_or_faulty bytes with ⟨used, rest, rfl, h⟩ | ⟨e', h⟩
  · obtain ⟨c, reads, -⟩ := h.read
    rw [decode_of_chunk_ok (reads rest)] at refused
    cases refused
  · rw [decode_of_chunk_error h.read] at refused
    cases refused
    exact h

theorem decode_ok_iff (bytes : List UInt8) :
    (∃ c, decode bytes = .ok c) ↔ ∃ used rest, bytes = used ++ rest ∧ IsChunk used := by
  refine ⟨fun ⟨c, accepted⟩ => ?_, fun ⟨used, rest, split, h⟩ => ?_⟩
  · rcases isChunk_or_faulty bytes with begins | ⟨e, h⟩
    · exact begins
    · rw [decode_of_chunk_error h.read] at accepted
      cases accepted
  · obtain ⟨c, reads, -⟩ := h.read
    exact ⟨c, split ▸ decode_of_chunk_ok (reads rest)⟩

theorem decode_of_prefix {first more : List UInt8} (whole : IsChunk (first ++ more)) (proper : more ≠ []) :
    decode first = .error .truncated := by
  rcases isChunk_or_faulty first with ⟨used, rest, rfl, h⟩ | ⟨e, h⟩
  · exact absurd (h.eq_nil whole) proper
  · by_cases ends : e = .truncated
    · exact ends ▸ decode_of_chunk_error h.read
    · -- Any other fault of the part would be one of the whole.
      obtain ⟨c, reads, -⟩ := whole.read
      have refused := (h.append ends more).read
      rw [← List.append_nil (first ++ more), reads] at refused
      cases refused

/-- The reader takes exactly the chunks, whatever follows them, and writes them again but for their flags; it
    refuses other bytes for their first fault; and a chunk that is cut short ends too early. -/
theorem decode_grammar (bytes : List UInt8) :
    ((∃ c, decode bytes = .ok c) ↔ ∃ used rest, bytes = used ++ rest ∧ IsChunk used) ∧
    (IsChunk bytes → ∃ c, (∀ rest, decode (bytes ++ rest) = .ok c) ∧ c.encode = canonical bytes) ∧
    (∀ e, decode bytes = .error e ↔ Faulty bytes e) ∧
    (IsChunk bytes → ∀ first more, bytes = first ++ more → more ≠ [] → decode first = .error .truncated) := by
  refine ⟨decode_ok_iff bytes, fun h => ?_, decode_error_iff bytes, fun h first more split proper => ?_⟩
  · obtain ⟨c, reads, written⟩ := h.read
    exact ⟨c, fun rest => decode_of_chunk_ok (reads rest), written⟩
  · subst split
    exact decode_of_prefix h proper

/-- A chunk of version one whose first flag is seven, with one record that waits for two returns. -/
def flagged : List UInt8 :=
  [0, 0, 0, 1, 7, 0, 0, 0, 0, 1,
    0, 0, 0, 5, 0, 0, 0, 0, 0, 0, 0x10, 2, 0, 0, 0x10, 0, 0, 3, 0xA1, 0x1D, 0, 0, 0, 2]

theorem decode_grammar_flagged :
    (∃ c, (∀ rest, decode (flagged ++ rest) = .ok c) ∧ c.encode = flagged.set 4 1) ∧
    decode (flagged.take 30) = .error .truncated := by
  let opening : Opening := ⟨1, [7, 0], 1, by decide, by decide⟩
  let slot : Slot := ⟨[0, 0, 0, 5, 0, 0, 0, 0], 0x1002, [0, 0, 0x10, 0, 0, 3, 0xA1, 0x1D], 2, rfl, rfl⟩
  have parts : flagged = opening.bytes ++ [slot].flatMap Slot.bytes ++ [] := by decide +kernel
  have isChunk : IsChunk flagged := parts ▸ .new opening rfl (by decide) rfl
  exact ⟨(decode_grammar flagged).2.1 isChunk,
    (decode_grammar flagged).2.2.2 isChunk (flagged.take 30) (flagged.drop 30) rfl (by decide)⟩

end TrapHooks.Chunk
