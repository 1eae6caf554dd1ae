import TrapHooks.Proofs.Chunk.RoundTrip
import TrapHooks.Proofs.Returns.Marks
import TrapHooks.Proofs.Session.Lookup

/-! Saving the engine and loading what was saved. The snapshot of the waiting tail hooks is ordered by return
    address; loading puts its records back one after the other, each with the hook that its call has now. If
    the hooks are still those that the records had, the engine that loads has the records of the one that
    saved, and saves the same bytes again. -/

namespace TrapHooks

variable {ρ : Type}

/-! ### Snapshots -/

/-- The record as a session keeps it. -/
def PendingTail.asSaved (record : PendingTail ρ) : PendingTail ρ :=
  { record with call := record.call.asSaved }

namespace Returns

variable {r r' : Returns ρ}

def restoreAll (records : List (PendingTail ρ)) (r : Returns ρ) : Returns ρ :=
  records.foldl (fun r record => (r.restore record).2) r

/-- Of the records that are put back one after the other, the last of an address stays. -/
theorem get?_restoreAll {records : List (PendingTail ρ)} (waits : ∀ x ∈ records, x.count ≠ 0) (a : UInt32)
    (r : Returns ρ) :
    (r.restoreAll records).get? a = (records.reverse.find? fun x => x.call.returnPc == a).or (r.get? a) := by
  induction records generalizing r with
  | nil => rfl
  | cons x records ih =>
    have later := ih (fun y member => waits y (List.mem_cons_of_mem _ member)) (r.restore x).2
    rw [restoreAll, List.foldl_cons, ← restoreAll, later, get?_restore (waits x List.mem_cons_self),
      List.reverse_cons, List.find?_append, Option.or_assoc, List.find?_singleton]
    by_cases here : x.call.returnPc = a
    · rw [if_pos here, if_pos (beq_iff_eq.mpr here), Option.some_or]
    · rw [if_neg here, if_neg (by simpa using here), Option.none_or]

/-- A snapshot that is put back where nothing waits gives the records as they were, each with its change. -/
theorem get?_restoreAll_toList {f : PendingTail ρ → PendingTail ρ} (keyed : r.Keyed)
    (address : ∀ x, (f x).call.returnPc = x.call.returnPc) (waits : ∀ x ∈ r.toList, (f x).count ≠ 0) (a : UInt32)
    (empty : r'.get? a = none) : (r'.restoreAll (r.toList.map f)).get? a = (r.get? a).map f := by
  have keys {x : PendingTail ρ} (member : x ∈ r.toList) : r.get? x.call.returnPc = some x := by
    obtain ⟨a, found⟩ := mem_toList.mp member
    rwa [keyed a x found]
  have finds : r.toList.reverse.find? (fun x => (f x).call.returnPc == a) = r.get? a := by
    cases found : r.toList.reverse.find? fun x => (f x).call.returnPc == a with
    | some x =>
      have here : (f x).call.returnPc = a :=
        beq_iff_eq.mp (List.find?_some (p := fun x => (f x).call.returnPc == a) found)
      rw [← here, address, keys (List.mem_reverse.mp (List.mem_of_find?_eq_some found))]
    | none =>
      cases there : r.get? a with
      | none => rfl
      | some x =>
        have absent := List.find?_eq_none.mp found x (List.mem_reverse.mpr (mem_toList.mpr ⟨a, there⟩))
        rw [address, keyed a x there] at absent
        exact absurd (beq_self_eq_true a) absent
  rw [get?_restoreAll, empty, Option.or_none]
  · rw [← List.map_reverse, List.find?_map, ← finds]
    rfl
  · exact fun x member => by
      obtain ⟨y, there, rfl⟩ := List.mem_map.mp member
      exact waits y there

end Returns

/-! ### Loading -/

namespace Engine

open Program

/-- The record that is put back for a saved one: it has the hook that its call has now. -/
def recordOf (names : UInt16 → Option String) (e : Engine ρ) (saved : SavedTail) : PendingTail ρ where
  call := saved.call
  hook := (e.hooksOf names saved.call).tail
  count := saved.count

theorem recordOf_congr {names : UInt16 → Option String} {e e' : Engine ρ} (config : e'.config = e.config)
    (registry : e'.registry = e.registry) : recordOf names e' = recordOf names e := by
  funext saved
  simp only [recordOf, hooksOf, tableOf, config, registry]

section
variable {answers : Answers ρ} {e : Engine ρ}

theorem putBack_alone (record : PendingTail ρ) :
    (putBack record).alone answers e = some ((), (e.onReturns (Returns.restore record)).2) := by
  rw [putBack, alone_bind_of (alone_modifyGet _ e)]
  split <;> rfl

/-- With nobody in between, a record is put back with the hook that a look-up without memory finds. -/
theorem restoreTail_alone (ready : e.Ready answers.names) (saved : SavedTail) :
    ∃ e', (restoreTail saved).alone answers e = some ((), e') ∧ e'.Ready answers.names ∧ e'.config = e.config ∧
      e'.registry = e.registry ∧ e'.returns = (e.returns.restore (recordOf answers.names e saved)).2 := by
  obtain ⟨e', found, ready', unchanged⟩ := resolve_alone ready saved.call
  let record := recordOf answers.names e saved
  refine ⟨(e'.onReturns (Returns.restore record)).2, ?_, ⟨⟨ready'.system, ready'.protocol⟩, ready'.libraries⟩,
    unchanged.config, unchanged.registry, ?_⟩
  · rw [restoreTail, alone_bind_of found]
    dsimp only
    split
    · rw [alone_bind_of (alone_notice _ _)]
      exact putBack_alone record
    · exact putBack_alone record
  · show (e'.returns.restore record).2 = _
    rw [unchanged.returns]

theorem restoreTails_alone (ready : e.Ready answers.names) (tails : List SavedTail) :
    ∃ e', (tails.forM restoreTail).alone answers e = some ((), e') ∧ e'.config = e.config ∧ e'.registry = e.registry ∧
      e'.returns = e.returns.restoreAll (tails.map (recordOf answers.names e)) := by
  induction tails generalizing e with
  | nil => exact ⟨e, rfl, rfl, rfl, rfl⟩
  | cons saved tails ih =>
    obtain ⟨e₁, first, ready₁, config₁, registry₁, returns₁⟩ := restoreTail_alone ready saved
    obtain ⟨e₂, last, config₂, registry₂, returns₂⟩ := ih ready₁
    refine ⟨e₂, ?_, config₂.trans config₁, registry₂.trans registry₁, ?_⟩
    · show (restoreTail saved >>= fun _ => tails.forM restoreTail).alone answers e = _
      rw [alone_bind_of first]
      exact last
    · rw [returns₂, recordOf_congr config₁ registry₁, returns₁]
      rfl

theorem load_alone (answers : Answers ρ) (current : e.Current) {bytes : List UInt8} {chunk : Chunk}
    (read : Chunk.decode bytes = .ok chunk) (new : 1 ≤ chunk.version) (file : SessionFile)
    (holds : file.chunk = some bytes) :
    ∃ e', (load file).alone answers e = some ((file, .ok ()), e') ∧ e'.config = e.config ∧ e'.registry = e.registry ∧
      e'.returns = e.returns.clear.restoreAll (chunk.tails.map (recordOf answers.names e)) ∧
      e'.state = chunk.state := by
  let evicted : Engine ρ := { e with libraries := {}, returns := e.returns.clear }
  have ready : evicted.Ready answers.names :=
    ⟨⟨current.system, current.protocol⟩, fun refnum table found => by simp [evicted, LibraryCache.find?] at found⟩
  obtain ⟨e', restores, config, registry, returns⟩ := restoreTails_alone ready chunk.tails
  refine ⟨{ e' with state := chunk.state }, ?_, config, registry, returns, rfl⟩
  have adopts : (adopt chunk).alone answers e = some ((), { e' with state := chunk.state }) := by
    rw [adopt, alone_bind_of (alone_modify ..), alone_bind_of restores]
    rfl
  rw [load, holds]
  dsimp only
  rw [read]
  dsimp only
  rw [if_pos (Chunk.hasRecords_iff.mpr new), alone_bind_of adopts]
  rfl

theorem save_alone (file : SessionFile) : (save file).alone answers e = some (file.write e.chunk.encode, e) := rfl

end

/-! ### Saving and loading -/

theorem Reachable.keyed {e : Engine ρ} (reachable : e.Reachable) : e.returns.Keyed := by
  obtain ⟨config, registry, marks, trace, m, run, -, rfl⟩ := reachable
  exact run.keyed (Machine.keeps_fresh config registry marks) Machine.records_fresh

theorem chunk_storable {e : Engine ρ} (counts : ∀ a record, e.returns.get? a = some record → record.Storable) :
    ∀ t ∈ e.chunk.tails, t.Storable := by
  intro t member
  obtain ⟨record, there, rfl⟩ := List.mem_map.mp member
  obtain ⟨a, found⟩ := Returns.mem_toList.mp there
  exact counts a record found

/-- The saved records are put back as they were kept if the hooks are still those that their calls have. -/
theorem map_recordOf_chunk {e : Engine ρ} {names : UInt16 → Option String}
    (hooks : ∀ a record, e.returns.get? a = some record → record.hook = (e.hooksOf names record.call).tail) :
    e.chunk.asSaved.tails.map (recordOf names e) = e.returns.toList.map PendingTail.asSaved := by
  show ((e.returns.toList.map _).map SavedTail.asSaved).map (recordOf names e) = _
  rw [List.map_map, List.map_map]
  refine List.map_congr_left fun record member => ?_
  obtain ⟨a, found⟩ := Returns.mem_toList.mp member
  have hook : (e.hooksOf names record.call.asSaved).tail = record.hook := (hooks a record found).symm
  show ({ call := record.call.asSaved, hook := (e.hooksOf names record.call.asSaved).tail,
          count := record.count } : PendingTail ρ) = _
  rw [hook]
  rfl

/-- An engine whose records have the hooks that their calls have now is loaded as it was saved, into any
    engine of the same settings and tables: every record is there again, with its hook and count, and with
    its call as far as it is kept; the guest state has what the version keeps; and the loaded engine saves
    the same bytes. -/
theorem load_save {e e' : Engine ρ} (reachable : e.Reachable) (reachable' : e'.Reachable)
    (config : e'.config = e.config) (registry : e'.registry = e.registry) (new : 1 ≤ e.config.saveVersion)
    (few : e.returns.records.size < 2 ^ 31)
    (counts : ∀ a record, e.returns.get? a = some record → record.Storable) (answers : Answers ρ)
    (hooks : ∀ a record, e.returns.get? a = some record →
      record.hook = (e.hooksOf answers.names record.call).tail) (file other : SessionFile) :
    ∃ saved loaded resaved, (save file).alone answers e = some (saved, e) ∧
      (load saved).alone answers e' = some ((saved, .ok ()), loaded) ∧ loaded.Reachable ∧
      (∀ a, loaded.returns.get? a = (e.returns.get? a).map PendingTail.asSaved) ∧
      loaded.state = e.state.keptBy e.config.saveVersion ∧
      (save other).alone answers loaded = some (resaved, loaded) ∧ resaved.chunk = saved.chunk := by
  have length : e.chunk.tails.length < 2 ^ 31 := by
    rw [chunk, List.length_map, Returns.length_toList]
    exact few
  have read := Chunk.decode_encode_storable (c := e.chunk) new length (chunk_storable counts)
  obtain ⟨loaded, loads, config₁, -, returns, state⟩ :=
    load_alone answers reachable'.current read new (file.write e.chunk.encode) rfl
  rw [recordOf_congr config registry, map_recordOf_chunk hooks] at returns
  have records (a : UInt32) : loaded.returns.get? a = (e.returns.get? a).map PendingTail.asSaved := by
    rw [returns]
    refine Returns.get?_restoreAll_toList (f := PendingTail.asSaved) reachable.keyed (fun _ => rfl)
      (fun record member => ?_) a (Returns.get?_clear a e'.returns)
    obtain ⟨a, found⟩ := Returns.mem_toList.mp member
    rintro zero
    have := (counts a record found).1
    rw [show record.count = 0 from zero] at this
    simp at this
  have again : loaded.chunk = e.chunk.asSaved := by
    have version : loaded.config.saveVersion = e.config.saveVersion := by rw [config₁, config]
    rw [chunk, version, state, Returns.toList_of_map records, List.map_map]
    show _ = Chunk.mk _ _ ((e.returns.toList.map _).map SavedTail.asSaved)
    rw [List.map_map]
    rfl
  have reached : loaded.Reachable := reachable'.alone (s := .load (file.write e.chunk.encode)) rfl (fun _ => rfl) loads
  refine ⟨_, loaded, _, save_alone file, loads, reached, records, state, save_alone other, ?_⟩
  rw [again, Chunk.encode_asSaved]
  rfl

/-- A tail hook of a library waits while the session is saved, and waits again in a new engine. -/
theorem load_save_library :
    ∃ (registry : Registry Unit) (answers : Answers Unit) (e : Engine Unit) (record : PendingTail Unit)
      (saved : SessionFile) (loaded : Engine Unit),
      (e.Reachable ∧ e.returns.get? 0x1002 = some record ∧
        record.hook = some { table := "Serial", index := 3, routine := () }) ∧
      (save {}).alone answers e = some (saved, e) ∧
      (load saved).alone answers (Machine.fresh {} registry ∅).engine = some ((saved, .ok ()), loaded) ∧
      loaded.returns.get? 0x1002 = some record.asSaved := by
  let table : HookTable Unit := HookTable.withTail 3 () { name := "Serial" }
  let registry : Registry Unit := { tables := (∅ : Std.ExtTreeMap String (HookTable Unit)).insert "Serial" table }
  let call : Call := { returnPc := 0x1002, dest := 5, trap := 0xA801, index := 3, extra := 7 }
  let hook : TailHook Unit := { table := "Serial", index := 3, routine := () }
  let start : Machine Unit := .fresh {} registry ∅
  obtain ⟨answers, names⟩ := Answers.exists_names (ρ := Unit) fun refnum => if refnum = 7 then some "Serial" else none
  have rests : start.AtRest := by simp [Machine.AtRest, start, Machine.fresh]
  have reachable' : start.engine.Reachable := ⟨{}, registry, ∅, [], start, .nil, rests, rfl⟩
  have counts : (start.engine.returns.arm hook call).1 ≠ .overflow :=
    Returns.arm_ne_overflow_of_none (Machine.get?_fresh ..)
  obtain ⟨trace, n, actions, run, -⟩ := Run.arming rests counts
  let e : Engine Unit := (start.engine.onReturns (Returns.arm hook call)).2
  have reachable : e.Reachable := ⟨{}, registry, ∅, trace, _, run, rests, rfl⟩
  have records : e.returns.records =
      (∅ : Std.ExtTreeMap UInt32 (PendingTail Unit)).insert 0x1002 { call := call, hook := some hook, count := 1 } := by
    simp [e, start, Machine.fresh, onReturns, Returns.arm, call]
  have only (a : UInt32) (record : PendingTail Unit) (found : e.returns.get? a = some record) :
      record = { call := call, hook := some hook, count := 1 } := by
    rw [Returns.get?, records, Std.ExtTreeMap.getElem?_insert] at found
    split at found
    · exact (Option.some.inj found).symm
    · simp at found
  have finds : (e.hooksOf answers.names call).tail = some hook := by
    have home : call.home e.config.protocolMark = .library 7 := by decide
    have found : e.registry.table? "Serial" = some table := by
      show registry.table? "Serial" = some table
      simp [Registry.table?, registry]
    rw [hooksOf, tableOf, home, names]
    simp [found, HookTable.hooks, HookTable.tail?, HookTable.withTail, table, call, hook]
  have few : e.returns.records.size < 2 ^ 31 := by
    rw [records]
    simp [Std.ExtTreeMap.size_insert]
  have counts (a : UInt32) (record : PendingTail Unit) (found : e.returns.get? a = some record) : record.Storable := by
    rw [only a record found]
    exact ⟨Nat.le_refl 1, by decide⟩
  have hooks (a : UInt32) (record : PendingTail Unit) (found : e.returns.get? a = some record) :
      record.hook = (e.hooksOf answers.names record.call).tail := by
    rw [only a record found]
    exact finds.symm
  obtain ⟨saved, loaded, -, saves, loads, -, same, -⟩ :=
    load_save reachable reachable' rfl rfl (by decide) few counts answers hooks {} {}
  have there : e.returns.get? 0x1002 = some { call := call, hook := some hook, count := 1 } := by
    rw [Returns.get?, records, Std.ExtTreeMap.getElem?_insert_self]
  refine ⟨registry, answers, e, _, saved, loaded, ⟨reachable, there, rfl⟩, saves, loads, ?_⟩
  rw [same, there]
  rfl

end Engine

end TrapHooks
