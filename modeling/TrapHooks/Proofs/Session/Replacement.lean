import TrapHooks.Proofs.Chunk.Phases
import TrapHooks.Proofs.Session.RoundTrip

/-! Loading as a fresh start. If all marks are marks of records, clearing leaves nothing of the past, and what
    is put back is told by the chunk, by the tables and by the libraries' names: of the records of an address the
    last, each with the hook that a look-up finds which remembers nothing. Two engines of the same settings and
    tables are therefore alike once they have loaded the same chunk. -/

namespace TrapHooks

variable {ρ : Type}

namespace Returns

variable {r : Returns ρ}

theorem clear_of_marked (marked : ∀ a, a ∈ r.marks ↔ a ∈ r.records) : r.clear = {} := by
  have marks : r.clear.marks = ∅ := by
    refine Std.ExtTreeSet.ext_mem fun a => ?_
    rw [mem_marks_clear, marked a]
    simp
  cases cleared : r.clear with
  | mk records left =>
    rw [cleared] at marks
    obtain rfl : left = ∅ := marks
    obtain rfl : records = ∅ := (congrArg Returns.records cleared).symm.trans (records_clear r)
    rfl

theorem mem_marks_restoreAll {records : List (PendingTail ρ)} (waits : ∀ x ∈ records, x.count ≠ 0) (a : UInt32)
    (r : Returns ρ) : a ∈ (r.restoreAll records).marks ↔ a ∈ r.marks ∨ ∃ x ∈ records, x.call.returnPc = a := by
  induction records generalizing r with
  | nil => simp [restoreAll]
  | cons x records ih =>
    obtain ⟨here, others⟩ := List.forall_mem_cons.mp waits
    rw [restoreAll, List.foldl_cons, ← restoreAll, ih others, mem_marks_restore here, or_assoc]
    simp

end Returns

/-- The record that the chunk has for an address; the last, if there are several. -/
def Chunk.tailAt (a : UInt32) (c : Chunk) : Option SavedTail :=
  c.tails.reverse.find? (·.call.returnPc == a)

namespace Engine

open Program

/-- The engine that remembers no tables and no libraries. -/
def unremembering (e : Engine ρ) : Engine ρ :=
  { e.forgetTables with libraries := {} }

section
variable {answers : Answers ρ} {e e' : Engine ρ}

theorem resolve_unremembering (answers : Answers ρ) (call : Call) (e : Engine ρ) :
    ∃ after, (resolve call).alone answers e.unremembering = some (e.hooksOf answers.names call, after) := by
  have ready : e.unremembering.Ready answers.names :=
    { toCurrent := current_of_forgotten rfl rfl
      libraries := fun refnum table known => by cases (LibraryCache.find?_empty refnum).symm.trans known }
  obtain ⟨after, found, -⟩ := resolve_alone ready call
  exact ⟨after, found⟩

/-- What an engine has waiting after loading, if all its marks were marks of records. -/
def adopted (names : UInt16 → Option String) (e : Engine ρ) (chunk : Chunk) : Returns ρ :=
  ({} : Returns ρ).restoreAll (chunk.tails.map (recordOf names e))

theorem waits_of_storable {tails : List SavedTail} (storable : ∀ t ∈ tails, t.Storable) :
    ∀ record ∈ tails.map (recordOf answers.names e), record.count ≠ 0 := by
  intro record member
  obtain ⟨t, there, rfl⟩ := List.mem_map.mp member
  intro none
  have some : 1 ≤ t.count.toNat := (storable t there).1
  rw [show t.count = 0 from none] at some
  cases some

theorem get?_adopted {chunk : Chunk} (storable : ∀ t ∈ chunk.tails, t.Storable) (a : UInt32) :
    (adopted answers.names e chunk).get? a = (chunk.tailAt a).map (recordOf answers.names e) := by
  rw [adopted, Returns.get?_restoreAll (waits_of_storable storable), Returns.get?_empty, Option.or_none,
    ← List.map_reverse, List.find?_map]
  rfl

theorem mem_marks_adopted {chunk : Chunk} (storable : ∀ t ∈ chunk.tails, t.Storable) (a : UInt32) :
    a ∈ (adopted answers.names e chunk).marks ↔ ∃ t ∈ chunk.tails, t.call.returnPc = a := by
  rw [adopted, Returns.mem_marks_restoreAll (waits_of_storable storable)]
  simp [recordOf]

theorem load_adopts (answers : Answers ρ) (current : e.Current)
    (marked : ∀ a, a ∈ e.returns.marks ↔ a ∈ e.returns.records) {bytes : List UInt8} {chunk : Chunk}
    (read : Chunk.decode bytes = .ok chunk) (new : 1 ≤ chunk.version) {file : SessionFile}
    (holds : file.chunk = some bytes) :
    ∃ loaded, (load file).alone answers e = some ((file, .ok ()), loaded) ∧ loaded.config = e.config ∧
      loaded.returns = adopted answers.names e chunk ∧ loaded.state = chunk.state := by
  obtain ⟨loaded, loads, config, -, returns, state⟩ := load_alone answers current read new file holds
  rw [Returns.clear_of_marked marked] at returns
  exact ⟨loaded, loads, config, returns, state⟩

/-- Loading a chunk replaces all that it restores. Of an engine whose marks are those of its records, nothing is
    left: each address has the last record that the chunk has for it, with the hook that a look-up without memory
    finds for its call; the guest state is the chunk's, and what the chunk's version does not have is at its
    default; the marks are those of the records. Any other engine of the same settings and tables is alike after
    loading the same, and saves the same. -/
theorem Reachable.load_replaces (reachable : e.Reachable) (marked : ∀ a, a ∈ e.returns.marks ↔ a ∈ e.returns.records)
    {file : SessionFile} {bytes : List UInt8} {chunk : Chunk} (holds : file.chunk = some bytes)
    (read : Chunk.decode bytes = .ok chunk) (new : 1 ≤ chunk.version) (answers : Answers ρ) :
    ∃ (loaded : Engine ρ) (hooks : Call → Hooks ρ), (load file).alone answers e = some ((file, .ok ()), loaded) ∧
      (∀ call, ∃ after, (resolve call).alone answers e.unremembering = some (hooks call, after)) ∧
      (∀ a, loaded.returns.get? a = (chunk.tailAt a).map fun t =>
        { call := t.call, hook := (hooks t.call).tail, count := t.count }) ∧
      loaded.state = chunk.state ∧
      (∀ f : GuestState.Field, chunk.version < f.since → f.get loaded.state = f.get {}) ∧
      (∀ a, a ∈ loaded.returns.marks ↔ ∃ t ∈ chunk.tails, t.call.returnPc = a) ∧
      ∀ e' : Engine ρ, e'.Reachable → (∀ a, a ∈ e'.returns.marks ↔ a ∈ e'.returns.records) → e'.config = e.config →
        e'.registry = e.registry →
        ∃ loaded', (load file).alone answers e' = some ((file, .ok ()), loaded') ∧ loaded'.returns = loaded.returns ∧
          loaded'.state = loaded.state ∧
          ∀ other, ∃ saved, (save other).alone answers loaded' = some (saved, loaded') ∧
            (save other).alone answers loaded = some (saved, loaded) := by
  have storable := Chunk.storable_of_decode read
  obtain ⟨loaded, loads, config, returns, state⟩ := load_adopts answers reachable.current marked read new holds
  refine ⟨loaded, (e.hooksOf answers.names ·), loads, fun call => resolve_unremembering answers call e, fun a => ?_,
    state, fun f later => ?_, fun a => ?_, ?_⟩
  · rw [returns, get?_adopted storable]
    rfl
  · rw [state]
    exact Chunk.get_state_of_decode read (Int32.not_le.mpr later)
  · rw [returns, mem_marks_adopted storable]
  · intro e' reachable' marked' config' registry'
    obtain ⟨loaded', loads', kept, returns', state'⟩ := load_adopts answers reachable'.current marked' read new holds
    have same : loaded'.returns = loaded.returns := by
      rw [returns', returns, adopted, adopted, recordOf_congr config' registry']
    have chunks : loaded'.chunk = loaded.chunk := by
      rw [Engine.chunk, Engine.chunk, kept, config, config', state', state, same]
    refine ⟨loaded', loads', same, state'.trans state.symm, fun other => ⟨_, save_alone other, ?_⟩⟩
    rw [save_alone, chunks]

end

/-- A session of two records of one address is loaded where a tail hook waits at another, and into a new engine:
    the second record is there, and nothing waits at the other address. -/
theorem load_replaces_repeated :
    ∃ (e : Engine Unit) (file : SessionFile) (answers : Answers Unit) (loaded loaded' : Engine Unit),
      (e.Reachable ∧ 0x2002 ∈ e.returns.records) ∧ (load file).alone answers e = some ((file, .ok ()), loaded) ∧
      (load file).alone answers (Machine.fresh {} {} ∅).engine = some ((file, .ok ()), loaded') ∧
      loaded.returns.get? 0x2002 = none ∧ (loaded.returns.get? 0x1002).map (·.count) = some 2 ∧
      loaded'.returns = loaded.returns ∧ loaded'.state = loaded.state := by
  let call : Call := { returnPc := 0x2002 }
  let hook : TailHook Unit := { table := "~system", index := 0, routine := () }
  let start : Machine Unit := .fresh {} {} ∅
  obtain ⟨answers, -⟩ := Answers.exists_names (ρ := Unit) fun _ => none
  have counts : (start.engine.returns.arm hook call).1 ≠ .overflow :=
    Returns.arm_ne_overflow_of_none (Machine.get?_fresh ..)
  obtain ⟨trace, n, actions, run, -⟩ := Run.arming (Machine.atRest_of_idle rfl) counts
  let e : Engine Unit := (start.engine.onReturns (Returns.arm hook call)).2
  have reachable : e.Reachable := ⟨{}, {}, ∅, trace, _, run, Machine.atRest_of_idle rfl, rfl⟩
  have records (a : UInt32) : a ∈ e.returns.records ↔ call.returnPc = a := by
    rw [Returns.mem_records]
    show (∃ record, (Returns.arm hook call {}).2.get? a = some record) ↔ _
    rw [Returns.get?_arm, Returns.get?_empty]
    simp
  have marked (a : UInt32) : a ∈ e.returns.marks ↔ a ∈ e.returns.records := by
    rw [records]
    show a ∈ (Returns.arm hook call {}).2.marks ↔ _
    rw [Returns.mem_marks_arm]
    simp
  let tail (count : UInt32) : SavedTail := { call := { returnPc := 0x1002 }, count := count }
  let chunk : Chunk := { version := 2, state := { lastEventTrap := 0xA11D }, tails := [tail 1, tail 2] }
  have read := Chunk.decode_encode_storable (c := chunk) (by decide) (by decide) (by decide)
  have filed : (SessionFile.ofChunk chunk.encode).chunk = some chunk.encode := rfl
  obtain ⟨loaded, hooks, loads, -, found, -, -, -, others⟩ :=
    reachable.load_replaces marked filed read (by decide) answers
  obtain ⟨loaded', loads', same, state, -⟩ :=
    others start.engine (reachable_fresh {} {} ∅) (by simp [start, Machine.fresh]) rfl rfl
  refine ⟨e, .ofChunk chunk.encode, answers, loaded, loaded', ⟨reachable, (records _).mpr rfl⟩, loads, loads', ?_, ?_,
    same, state⟩
  · have absent : chunk.asSaved.tailAt 0x2002 = none := by decide
    rw [found, absent, Option.map_none]
  · have last : chunk.asSaved.tailAt 0x1002 = some (tail 2).asSaved := by decide
    rw [found, last]
    rfl

end Engine

end TrapHooks
