import Mathlib.Data.List.Basic
import TrapHooks.Proofs.Chunk.Grammar

/-! What the reader of the guest state makes of given bytes. On the width of its fields it reads a state that
    is written as those bytes again, but for the two flags, which keep no more of a byte than whether it is
    zero; on fewer bytes it fails. -/

namespace TrapHooks

/-! ### Fields of given bytes -/

namespace GuestState

theorem Field.get_set_of_ne {f g : Field} (apart : f ≠ g) (n : Nat) (s : GuestState) :
    f.get (g.set n s) = f.get s := by
  cases f <;> cases g <;> first | rfl | exact absurd rfl apart

/-- A number of two bytes or more is kept whole. -/
theorem Field.encode_set {f : Field} (wide : 1 < f.width) {bytes : List UInt8} (full : bytes.length = f.width)
    (s : GuestState) : f.encode (f.set (BigEndian.decode bytes) s) = bytes := by
  have fits := BigEndian.decode_lt bytes
  have kept : f.get (f.set (BigEndian.decode bytes) s) = BigEndian.decode bytes := by
    rw [full] at fits
    cases f with
    | uiReady => exact absurd wide (by decide)
    | heapReady => exact absurd wide (by decide)
    | lastEventTrap => exact UInt16.toNat_ofNat_of_lt' fits
    | romVersion => exact UInt32.toNat_ofNat_of_lt' fits
    | nextCard => exact UInt16.toNat_ofNat_of_lt' fits
    | nextId => exact UInt32.toNat_ofNat_of_lt' fits
  rw [Field.encode, kept, ← full, BigEndian.encode_decode]

theorem Field.encode_set_flag {f : Field} (narrow : f.width = 1) (b : UInt8) (s : GuestState) :
    f.encode (f.set (BigEndian.decode [b]) s) = [Chunk.asFlag b] := by
  have value : BigEndian.decode [b] = b.toNat := by simp [BigEndian.decode]
  rw [Field.encode, value, narrow]
  by_cases zero : b = 0
  · subst zero
    cases f with
    | uiReady => rfl
    | heapReady => rfl
    | _ => cases narrow
  · have some : (b.toNat != 0) = true := by
      rw [bne_iff_ne, Ne, ← UInt8.toNat_zero, UInt8.toNat_inj]
      exact zero
    cases f with
    | uiReady => simp [set, get, some, Chunk.asFlag, zero, BigEndian.encode]
    | heapReady => simp [set, get, some, Chunk.asFlag, zero, BigEndian.encode]
    | _ => cases narrow

theorem encode_congr {version : Int32} {p : Phase} {s s' : GuestState}
    (same : ∀ f ∈ fieldsOf version p, f.get s = f.get s') : s.encode version p = s'.encode version p := by
  rw [encode, encode, List.flatMap_def, List.flatMap_def]
  refine congrArg List.flatten (List.map_congr_left fun f member => ?_)
  rw [Field.encode, Field.encode, same f member]

theorem decodeFields_exact {fields : List Field} (nodup : fields.Nodup) (wide : ∀ f ∈ fields, 1 < f.width)
    {part : List UInt8} (full : part.length = (fields.map Field.width).sum) (s : GuestState) :
    ∃ s', (∀ rest, decodeFields fields (part ++ rest) s = (s', some rest)) ∧
      fields.flatMap (Field.encode s') = part ∧ ∀ g ∉ fields, g.get s' = g.get s := by
  induction fields generalizing part s with
  | nil =>
    obtain rfl := List.eq_nil_of_length_eq_zero full
    exact ⟨s, fun rest => rfl, rfl, fun g _ => rfl⟩
  | cons f fields ih =>
    rw [List.map_cons, List.sum_cons] at full
    obtain ⟨first, part, rfl, width⟩ := Chunk.exists_split f.width part (by omega)
    obtain ⟨others, distinct⟩ := List.nodup_cons.mp nodup
    have rest_full : part.length = (fields.map Field.width).sum := by
      rw [List.length_append] at full
      omega
    obtain ⟨s', reads, written, stay⟩ := ih distinct (fun g hg => wide g (List.mem_cons_of_mem f hg)) rest_full
      (f.set (BigEndian.decode first) s)
    refine ⟨s', fun rest => ?_, ?_, fun g absent => ?_⟩
    · rw [List.append_assoc, decodeFields, BigEndian.read?_append width]
      exact reads rest
    · -- The fields behind it do not touch the one that was read first.
      have kept : f.encode s' = first := by
        rw [Field.encode, stay f others, ← Field.encode, Field.encode_set (wide f List.mem_cons_self) width]
      rw [List.flatMap_cons, kept, written]
    · rw [List.mem_cons, not_or] at absent
      rw [stay g absent.2, Field.get_set_of_ne absent.1]

theorem decodeFields_short {fields : List Field} {bytes : List UInt8}
    (short : bytes.length < (fields.map Field.width).sum) (s : GuestState) :
    (decodeFields fields bytes s).2 = none := by
  induction fields generalizing bytes s with
  | nil => exact absurd short (Nat.not_lt_zero _)
  | cons f fields ih =>
    rw [List.map_cons, List.sum_cons] at short
    rw [decodeFields]
    by_cases ends : bytes.length < f.width
    · rw [BigEndian.read?_eq_none_iff.mpr ends]
    · obtain ⟨first, bytes, rfl, width⟩ := Chunk.exists_split f.width bytes (by omega)
      rw [BigEndian.read?_append width]
      rw [List.length_append] at short
      exact ih (by omega) _

/-- A field that is not read stays, whatever the bytes. -/
theorem get_decodeFields {f : Field} {fields : List Field} (absent : f ∉ fields) (bytes : List UInt8)
    (s : GuestState) : f.get (decodeFields fields bytes s).1 = f.get s := by
  induction fields generalizing bytes s with
  | nil => rfl
  | cons g fields ih =>
    rw [List.mem_cons, not_or] at absent
    rw [decodeFields]
    split
    · rfl
    · rw [ih absent.2, Field.get_set_of_ne absent.1]

end GuestState

namespace Chunk

open GuestState

/-! ### The two phases -/

theorem nodup_fieldsOf (version : Int32) (p : Phase) : (fieldsOf version p).Nodup :=
  List.Pairwise.filter _ (show Field.all.Nodup by decide)

theorem mem_fieldsOf {version : Int32} {p : Phase} {f : Field} :
    f ∈ fieldsOf version p ↔ f.since ≤ version ∧ f.phase = p := by
  have listed : f ∈ Field.all := by cases f <;> decide
  simp [fieldsOf, listed]

/-- From version one on the two flags stand first. -/
def wideFields (version : Int32) : List Field :=
  [.lastEventTrap, .romVersion].filter fun f => f.since ≤ version

theorem fieldsOf_beforeRecords {version : Int32} (new : 1 ≤ version) :
    fieldsOf version .beforeRecords = .uiReady :: .heapReady :: wideFields version := by
  by_cases two : (2 : Int32) ≤ version <;> by_cases four : (4 : Int32) ≤ version <;>
    simp [fieldsOf, wideFields, Field.all, Field.since, Field.phase, new, two, four]

theorem sum_width_wideFields (version : Int32) :
    ((wideFields version).map Field.width).sum + 2 = stateWidth version .beforeRecords := by
  by_cases two : (2 : Int32) ≤ version <;> by_cases four : (4 : Int32) ≤ version <;>
    simp [wideFields, stateWidth, Field.since, Field.width, two, four]

theorem sum_width {version : Int32} (new : 1 ≤ version) (p : Phase) :
    ((fieldsOf version p).map Field.width).sum = stateWidth version p := by
  cases p with
  | beforeRecords =>
    rw [fieldsOf_beforeRecords new, ← sum_width_wideFields, List.map_cons, List.map_cons, List.sum_cons,
      List.sum_cons, Field.width, Field.width]
    omega
  | afterRecords =>
    by_cases three : (3 : Int32) ≤ version <;>
      simp [fieldsOf, stateWidth, Field.all, Field.since, Field.phase, Field.width, three]

namespace Reader

theorem phase_short {version : Int32} (new : 1 ≤ version) {p : Phase} {bytes : List UInt8}
    (short : bytes.length < stateWidth version p) (s : GuestState) :
    phase version p s bytes = .error .truncated := by
  have ends := decodeFields_short (by rwa [sum_width new p]) s
  rw [phase, GuestState.decode]
  generalize decodeFields (fieldsOf version p) bytes s = found at ends ⊢
  obtain ⟨s', left⟩ := found
  subst ends
  rfl

theorem phase_of_decodeFields {version : Int32} {p : Phase} {s s' : GuestState} {bytes rest : List UInt8}
    (h : decodeFields (fieldsOf version p) bytes s = (s', some rest)) :
    phase version p s bytes = .ok (s', rest) := by
  rw [phase, GuestState.decode, h]

/-- The flags are all that the first phase does not keep whole. -/
theorem phase_before {version : Int32} (new : 1 ≤ version) {bytes : List UInt8}
    (full : bytes.length = stateWidth version .beforeRecords) (s : GuestState) :
    ∃ s', (∀ rest, phase version .beforeRecords s (bytes ++ rest) = .ok (s', rest)) ∧
      s'.encode version .beforeRecords = (bytes.modify 0 asFlag).modify 1 asFlag := by
  rw [← sum_width_wideFields] at full
  obtain ⟨flags, part, rfl, two⟩ := exists_split 2 bytes (by omega)
  obtain ⟨ui, heap, rfl⟩ := List.length_eq_two.mp two
  have wide : ∀ f ∈ wideFields version, 1 < f.width := by
    intro f member
    have listed : ∀ g ∈ [Field.lastEventTrap, Field.romVersion], 1 < g.width := by decide
    exact listed f (List.mem_filter.mp member).1
  have absent (f : Field) (narrow : f.width = 1) : f ∉ wideFields version := fun member => by
    have := wide f member
    omega
  have nodup : (wideFields version).Nodup := List.Pairwise.filter _ (show List.Nodup _ by decide)
  have others : part.length = ((wideFields version).map Field.width).sum := by
    simp at full
    omega
  obtain ⟨s', reads, written, stay⟩ := decodeFields_exact nodup wide others
    (Field.heapReady.set (BigEndian.decode [heap]) (Field.uiReady.set (BigEndian.decode [ui]) s))
  refine ⟨s', fun rest => phase_of_decodeFields ?_, ?_⟩
  · rw [fieldsOf_beforeRecords new]
    exact reads rest
  · have kept₁ : Field.uiReady.encode s' = [asFlag ui] := by
      rw [Field.encode, stay .uiReady (absent _ rfl), Field.get_set_of_ne (by decide), ← Field.encode,
        Field.encode_set_flag rfl]
    have kept₂ : Field.heapReady.encode s' = [asFlag heap] := by
      rw [Field.encode, stay .heapReady (absent _ rfl), ← Field.encode, Field.encode_set_flag rfl]
    rw [GuestState.encode, fieldsOf_beforeRecords new, List.flatMap_cons, List.flatMap_cons, written, kept₁, kept₂]
    rfl

theorem phase_after {version : Int32} (new : 1 ≤ version) {bytes : List UInt8}
    (full : bytes.length = stateWidth version .afterRecords) (s : GuestState) :
    ∃ s', (∀ rest, phase version .afterRecords s (bytes ++ rest) = .ok (s', rest)) ∧
      s'.encode version .afterRecords = bytes ∧
      s'.encode version .beforeRecords = s.encode version .beforeRecords := by
  have wide : ∀ f ∈ fieldsOf version .afterRecords, 1 < f.width := by
    intro f member
    have behind := (mem_fieldsOf.mp member).2
    cases f with
    | nextCard => decide
    | nextId => decide
    | _ => cases behind
  obtain ⟨s', reads, written, stay⟩ :=
    decodeFields_exact (nodup_fieldsOf version .afterRecords) wide (by rwa [sum_width new]) s
  refine ⟨s', fun rest => phase_of_decodeFields (reads rest), written, encode_congr fun f member => stay f ?_⟩
  intro behind
  have := (mem_fieldsOf.mp member).2.symm.trans (mem_fieldsOf.mp behind).2
  cases this

theorem get_of_phase {version : Int32} {p : Phase} {s s' : GuestState} {bytes rest : List UInt8} {f : Field}
    (h : phase version p s bytes = .ok (s', rest)) (later : ¬f.since ≤ version) : f.get s' = f.get s := by
  have absent : f ∉ fieldsOf version p := fun member => later (mem_fieldsOf.mp member).1
  have kept := get_decodeFields absent bytes s
  rw [phase, GuestState.decode] at h
  generalize decodeFields (fieldsOf version p) bytes s = found at h kept
  obtain ⟨state, _ | left⟩ := found
  · cases h
  · cases h
    exact kept

end Reader

/-- A field that came in after the chunk's version is at its default. -/
theorem get_state_of_decode {bytes : List UInt8} {c : Chunk} (h : decode bytes = .ok c) {f : Field}
    (later : ¬f.since ≤ c.version) : f.get c.state = f.get {} := by
  unfold decode at h
  cases read : Reader.chunk bytes with
  | error e => rw [read] at h; cases h
  | ok x =>
    rw [read] at h
    cases h
    obtain ⟨version, mid, -, h⟩ := Reader.of_bind_ok read
    obtain ⟨⟨s, ts⟩, _, body, h⟩ := Reader.of_bind_ok h
    obtain ⟨s', _, after, h⟩ := Reader.of_bind_ok h
    cases h
    have last : f.get s' = f.get s := Reader.get_of_phase after later
    rw [Reader.body] at body
    split at body
    · obtain ⟨_, _, before, body⟩ := Reader.of_bind_ok body
      obtain ⟨_, _, -, body⟩ := Reader.of_bind_ok body
      cases body
      exact last.trans (Reader.get_of_phase before later)
    · cases body
      exact last

end Chunk

end TrapHooks
