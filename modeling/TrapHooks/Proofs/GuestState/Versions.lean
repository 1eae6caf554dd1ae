import TrapHooks.Proofs.Chunk.Phases

/-! What the written guest state is worth to another version and to a reader that finds only a part of it. A reader
    sets the fields that its version has in the phases it reads, and no others; when the bytes end too early, it has
    set the fields before that point, in the order in which they were written. A later version writes all that an
    earlier one does, and more behind it. -/

namespace TrapHooks.GuestState

variable {version : Int32} {fields : List Field} {s t : GuestState}

/-! ### Fields -/

/-- Nothing is known of a guest but its fields. -/
theorem ext_get (same : ∀ f : Field, f.get s = f.get t) : s = t := by
  have flag {a b : Bool} (h : a.toNat = b.toNat) : a = b := by cases a <;> cases b <;> first | rfl | cases h
  have ui := flag (same .uiReady)
  have heap := flag (same .heapReady)
  have trap := UInt16.toNat_inj.mp (same .lastEventTrap)
  have rom := UInt32.toNat_inj.mp (same .romVersion)
  have card := UInt16.toNat_inj.mp (same .nextCard)
  have id := UInt32.toNat_inj.mp (same .nextId)
  cases s
  cases t
  simp_all

theorem Field.get_set_self (f : Field) (s t : GuestState) : f.get (f.set (f.get s) t) = f.get s := by
  cases f with
  | uiReady => cases h : s.uiReady <;> simp [get, set, h]
  | heapReady => cases h : s.heapReady <;> simp [get, set, h]
  | _ => simp [get, set]

theorem get_takeOver (fields : List Field) (s t : GuestState) (f : Field) :
    f.get (takeOver fields s t) = if f ∈ fields then f.get s else f.get t := by
  induction fields generalizing t with
  | nil => simp [takeOver]
  | cons g fields ih =>
    rw [takeOver, List.foldl_cons, ← takeOver, ih]
    by_cases same : f = g
    · subst same
      simp [Field.get_set_self]
    · simp [Field.get_set_of_ne same, same]

/-! ### Phases -/

theorem mem_fieldsOfPhases {phases : List Phase} {f : Field} :
    f ∈ phases.flatMap (fieldsOf version) ↔ f.since ≤ version ∧ f.phase ∈ phases := by
  simp only [List.mem_flatMap, Chunk.mem_fieldsOf]
  constructor
  · rintro ⟨phase, member, has, rfl⟩
    exact ⟨has, member⟩
  · rintro ⟨has, member⟩
    exact ⟨_, member, has, rfl⟩

/-- Phases are written by their fields. -/
theorem encodePhases_eq (version : Int32) (phases : List Phase) (s : GuestState) :
    encodePhases version phases s = (phases.flatMap (fieldsOf version)).flatMap (Field.encode s) := by
  rw [List.flatMap_assoc]
  rfl

/-- What reading leaves of a guest that was known as `t`, when what was written is `s`. -/
def readOver (version : Int32) (phases : List Phase) (s t : GuestState) : GuestState where
  uiReady := if 1 ≤ version ∧ .beforeRecords ∈ phases then s.uiReady else t.uiReady
  heapReady := if 1 ≤ version ∧ .beforeRecords ∈ phases then s.heapReady else t.heapReady
  lastEventTrap := if 2 ≤ version ∧ .beforeRecords ∈ phases then s.lastEventTrap else t.lastEventTrap
  romVersion := if 4 ≤ version ∧ .beforeRecords ∈ phases then s.romVersion else t.romVersion
  nextCard := if 3 ≤ version ∧ .afterRecords ∈ phases then s.nextCard else t.nextCard
  nextId := if 3 ≤ version ∧ .afterRecords ∈ phases then s.nextId else t.nextId

theorem takeOver_fieldsOf (version : Int32) (phases : List Phase) (s t : GuestState) :
    takeOver (phases.flatMap (fieldsOf version)) s t = readOver version phases s t := by
  refine ext_get fun f => ?_
  rw [get_takeOver]
  simp only [mem_fieldsOfPhases]
  cases f with
  | uiReady | heapReady => exact (apply_ite Bool.toNat ..).symm
  | lastEventTrap | nextCard => exact (apply_ite UInt16.toNat ..).symm
  | romVersion | nextId => exact (apply_ite UInt32.toNat ..).symm

/-! ### Bytes that end too early -/

/-- So many bytes end within a field: those before it are whole. -/
structure EndsIn (length : Nat) (done : List Field) (f : Field) : Prop where
  whole : (done.map Field.width).sum ≤ length
  cut : length < (done.map Field.width).sum + f.width

theorem decodeFields_cut {part : List UInt8} (first : part <+: fields.flatMap (Field.encode s))
    (short : part ≠ fields.flatMap (Field.encode s)) (t : GuestState) :
    ∃ done f later, fields = done ++ f :: later ∧ EndsIn part.length done f ∧
      decodeFields fields part t = (takeOver done s t, none) := by
  induction fields generalizing part t with
  | nil => exact absurd (List.prefix_nil.mp first) short
  | cons g fields ih =>
    have width : (g.encode s).length = g.width := BigEndian.length_encode ..
    rw [List.flatMap_cons] at first short
    -- Either the bytes end within the first field, or it is whole and they end in one of those behind it.
    by_cases ends : part.length < g.width
    · refine ⟨[], g, fields, rfl, ⟨Nat.zero_le _, by simpa using ends⟩, ?_⟩
      rw [decodeFields, BigEndian.read?_eq_none_iff.mpr ends]
      rfl
    · obtain ⟨rest, rfl⟩ : g.encode s <+: part :=
        List.prefix_of_prefix_length_le (List.prefix_append ..) first (by omega)
      obtain ⟨done, f, later, rfl, inside, reads⟩ := ih ((List.prefix_append_right_inj _).mp first)
        (fun same => short (by rw [same])) (g.set (g.get s) t)
      refine ⟨g :: done, f, later, rfl, ⟨?_, ?_⟩, ?_⟩
      · have := inside.whole
        simp only [List.map_cons, List.sum_cons, List.length_append]
        omega
      · have := inside.cut
        simp only [List.map_cons, List.sum_cons, List.length_append]
        omega
      · rw [decodeFields, Field.encode, BigEndian.read?_encode (Field.get_lt g s)]
        exact reads

/-! ### Versions -/

/-- Of fields in the order in which they came in, an earlier version has the first ones. -/
theorem filter_since_prefix {v w : Int32} (newer : v ≤ w) {fields : List Field}
    (rising : fields.Pairwise (·.since ≤ ·.since)) :
    (fields.filter (·.since ≤ v)) <+: fields.filter (·.since ≤ w) := by
  induction fields with
  | nil => exact List.nil_prefix
  | cons f fields ih =>
    obtain ⟨before, others⟩ := List.pairwise_cons.mp rising
    by_cases has : f.since ≤ v
    · have kept : f.since ≤ w := Int32.le_trans has newer
      simpa [has, kept] using ih others
    · have none : fields.filter (·.since ≤ v) = [] :=
        List.filter_eq_nil_iff.mpr fun g member early =>
          has (Int32.le_trans (before g member) (of_decide_eq_true early))
      simp [has, none]

theorem fieldsOf_eq (version : Int32) (phase : Phase) :
    fieldsOf version phase = (Field.all.filter (·.phase = phase)).filter (·.since ≤ version) := by
  rw [List.filter_filter, fieldsOf]
  exact List.filter_congr fun f _ => by simp

theorem encode_prefix {v w : Int32} (newer : v ≤ w) (phase : Phase) (s : GuestState) :
    s.encode v phase <+: s.encode w phase := by
  have rising : (Field.all.filter (·.phase = phase)).Pairwise (·.since ≤ ·.since) := by
    cases phase <;> simp [Field.all, Field.phase, Field.since]
  obtain ⟨further, fields⟩ := filter_since_prefix newer rising
  rw [encode, encode, fieldsOf_eq, fieldsOf_eq, ← fields, List.flatMap_append]
  exact List.prefix_append ..

/-- A reader of the version and the phases that were written takes over their fields, keeps its own, and leaves what
    follows. Of fewer bytes it fails, and what it has set by then are the fields before the one in which the bytes end.
    What a later version writes in a phase begins with what an earlier one writes there. -/
theorem decodePhases_encodePhases (version : Int32) (phases : List Phase) (s t : GuestState) :
    (∀ rest, decodePhases version phases (encodePhases version phases s ++ rest) t =
      (readOver version phases s t, some rest)) ∧
    (∀ part, part <+: encodePhases version phases s → part ≠ encodePhases version phases s →
      ∃ done f later, phases.flatMap (fieldsOf version) = done ++ f :: later ∧ EndsIn part.length done f ∧
        (decodePhases version phases part t).2 = none ∧
        ∀ g : Field, g.get (decodePhases version phases part t).1 = if g ∈ done then g.get s else g.get t) ∧
    ∀ w, version ≤ w → ∀ phase, s.encode version phase <+: s.encode w phase := by
  refine ⟨fun rest => ?_, fun part first short => ?_, fun w newer phase => encode_prefix newer phase s⟩
  · rw [decodePhases, encodePhases_eq, decodeFields_encode, takeOver_fieldsOf]
  · rw [encodePhases_eq] at first short
    obtain ⟨done, f, later, fields, inside, reads⟩ := decodeFields_cut first short t
    rw [decodePhases, reads]
    exact ⟨done, f, later, fields, inside, rfl, get_takeOver done s t⟩

/-- Five bytes of the first phase of version five end within the version of the ROM, so that the trap of the last event
    is known and the ROM is still that of before. -/
theorem decodePhases_encodePhases_cut :
    let s : GuestState := { uiReady := true, lastEventTrap := Trap.getPen, romVersion := 0x04103000 }
    let t : GuestState := { heapReady := true, romVersion := 0x03503000, nextId := 7 }
    let part : List UInt8 := [1, 0, 0xA1, 0x1E, 0x04]
    part <+: encodePhases 5 [.beforeRecords] s ∧ part ≠ encodePhases 5 [.beforeRecords] s ∧
      (decodePhases 5 [.beforeRecords] part t).2 = none ∧
      (∃ done f later, fieldsOf 5 .beforeRecords = done ++ f :: later ∧ EndsIn 5 done f) := by
  intro s t part
  have first : part <+: encodePhases 5 [.beforeRecords] s := by decide
  have short : part ≠ encodePhases 5 [.beforeRecords] s := by decide
  obtain ⟨done, f, later, fields, inside, fails, -⟩ :=
    (decodePhases_encodePhases 5 [.beforeRecords] s t).2.1 part first short
  exact ⟨first, short, fails, done, f, later, by simpa using fields, inside⟩

end TrapHooks.GuestState
