import TrapHooks.Proofs.Chunk.Reading

/-! Reading a chunk that was written. A version without records keeps nothing but its number. From
    version one on the chunk reads back as it was, less what its version does not write, unless a record
    waits for a number of returns that a session cannot keep: then the first such record is refused. -/

namespace TrapHooks.Chunk

open Reader GuestState

/-- The chunk as a session keeps it: fields that its version does not have are at their defaults. -/
def asSaved (c : Chunk) : Chunk where
  version := c.version
  state := c.state.keptBy c.version
  tails := c.tails.map SavedTail.asSaved

theorem hasRecords_iff {version : Int32} : hasRecords version = true ↔ 1 ≤ version :=
  decide_eq_true_iff

theorem hasRecords_eq_false {version : Int32} (old : version ≤ 0) : hasRecords version = false := by
  have new : ¬(1 : Int32) ≤ version := by
    rw [Int32.le_iff_toInt_le] at old ⊢
    have one : (1 : Int32).toInt = 1 := rfl
    have zero : (0 : Int32).toInt = 0 := rfl
    omega
  exact decide_eq_false new

/-- A written chunk with records reads back as far as its records do. -/
theorem decode_encode_new {c : Chunk} (new : 1 ≤ c.version) (few : c.tails.length < 2 ^ 31)
    {outcome : Except ChunkError (List SavedTail)}
    (read : ∀ rest, Reader.tails c.tails.length (c.tails.flatMap encodeTail ++ rest) = outcome.map (·, rest)) :
    decode c.encode =
      outcome.map fun ts => { version := c.version, state := c.state.keptBy c.version, tails := ts } := by
  -- The second phase goes on from the state that the first one left, over the records between them.
  have first := phase_encode c.version .beforeRecords c.state {} (BigEndian.encode 4 c.tails.length ++
    (c.tails.flatMap encodeTail ++ c.state.encode c.version .afterRecords))
  have last := phase_encode c.version .afterRecords c.state
    (takeOver (fieldsOf c.version .beforeRecords) c.state {}) []
  rw [List.append_nil, takeOver_phases] at last
  have records := (countedTails_encode few (c.tails.flatMap encodeTail ++ _)).trans
    (read (c.state.encode c.version .afterRecords))
  rw [decode, encode, if_pos (hasRecords_iff.mpr new)]
  simp only [List.append_assoc]
  rw [chunk, bind_ok (int_encodeInt ..), body, if_pos (hasRecords_iff.mpr new)]
  cases outcome with
  | error e => rw [bind_error ((bind_ok first).trans (bind_error records))]; rfl
  | ok ts =>
    rw [bind_ok ((bind_ok first).trans (bind_ok records))]
    show Except.map _ ((phase _ _ _ >>= fun s => pure _) _) = _
    rw [bind_ok last]
    rfl

theorem decode_encode_old {c : Chunk} (old : c.version ≤ 0) :
    decode c.encode = .ok { version := c.version, state := {}, tails := [] } := by
  have none := hasRecords_eq_false old
  have last : phase c.version .afterRecords {} [] = .ok ({}, []) := by
    simp [phase, GuestState.decode, fieldsOf_afterRecords_eq_nil old, decodeFields]
  have written : c.encode = encodeInt c.version ++ [] := by
    simp [encode, none, GuestState.encode, fieldsOf_afterRecords_eq_nil old]
  have nothing : body c.version [] = .ok (({}, []), []) := by
    simp [body, none, pure_run]
  rw [decode, written, chunk, bind_ok (int_encodeInt ..), bind_ok nothing]
  show Except.map _ ((phase _ _ _ >>= fun s => pure _) _) = _
  rw [bind_ok last]
  rfl

theorem decode_encode_storable {c : Chunk} (new : 1 ≤ c.version) (few : c.tails.length < 2 ^ 31)
    (storable : ∀ t ∈ c.tails, t.Storable) : decode c.encode = .ok c.asSaved := by
  have read (rest : List UInt8) : Reader.tails c.tails.length (c.tails.flatMap encodeTail ++ rest) =
      (Except.ok (c.tails.map SavedTail.asSaved)).map (·, rest) := tails_encode storable rest
  exact decode_encode_new new few read

/-- What is not kept is not written either. -/
theorem encode_asSaved (c : Chunk) : c.asSaved.encode = c.encode := by
  have tails : (c.tails.map SavedTail.asSaved).flatMap encodeTail = c.tails.flatMap encodeTail :=
    List.flatMap_map ..
  simp only [encode, asSaved, encode_keptBy, List.length_map, tails]

/-- What a written chunk reads back as: nothing but its version before version one; from then on the chunk
    as it is kept, if every count can be kept, and otherwise the error of the first record whose count
    cannot. -/
theorem decode_encode (c : Chunk) (few : c.tails.length < 2 ^ 31) :
    (c.version ≤ 0 → decode c.encode = .ok { version := c.version, state := {}, tails := [] }) ∧
    (1 ≤ c.version → (∀ t ∈ c.tails, t.Storable) → decode c.encode = .ok c.asSaved) ∧
    (1 ≤ c.version → ∀ before t after, c.tails = before ++ t :: after → (∀ u ∈ before, u.Storable) →
      ¬t.Storable → decode c.encode = .error (.useCount t.call.returnPc t.count.toInt32)) := by
  refine ⟨decode_encode_old, fun new storable => ?_, fun new before t after split storable refused => ?_⟩
  · exact decode_encode_storable new few storable
  · have read (rest : List UInt8) : Reader.tails c.tails.length (c.tails.flatMap encodeTail ++ rest) =
        (Except.error (.useCount t.call.returnPc t.count.toInt32)).map (·, rest) := by
      rw [split]
      exact tails_encode_refused storable refused rest
    exact decode_encode_new new few read

/-- A chunk whose second record waits for one return more than a session can keep. -/
def overfull : Chunk where
  version := 2
  state := { uiReady := true, lastEventTrap := Trap.getEvent, nextId := 7 }
  tails := [{ call := { returnPc := 0x1002, dest := 5 }, count := 0x7FFFFFFF },
    { call := { returnPc := 0x2002 }, count := 0x80000000 }]

theorem decode_encode_overfull : decode overfull.encode = .error (.useCount 0x2002 (-0x80000000)) :=
  (decode_encode overfull (by decide)).2.2 (by decide) [_] _ [] rfl (by decide) (by decide)

end TrapHooks.Chunk
