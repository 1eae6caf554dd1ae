import TrapHooks.Proofs.Returns.Conservation
import TrapHooks.Proofs.Session.Memory
import TrapHooks.Proofs.Session.RoundTrip

/-! Whether a saved session can be loaded again. What loading gives is told by the file alone, whoever comes
    between. The file that a session was saved in is taken exactly if every record waits for a number of
    returns that fits the file's signed field. The engine does not see to that: it loads a record that
    waits for as many returns as fit, and lets it wait for one more. -/

namespace TrapHooks

namespace Engine

open Program

variable {ρ : Type}

/-! ### What loading gives -/

/-- The file after loading, and what loading says of it. -/
def loadOutcome (file : SessionFile) : SessionFile × Except ChunkError Unit :=
  match file.chunk with
  | none => ({ file with canReload := false }, .ok ())
  | some bytes =>
    match Chunk.decode bytes with
    | .error e => ({ file with canReload := false }, .error e)
    | .ok _ => (file, .ok ())

theorem does_load {file : SessionFile} {actions : List (Action ρ)} {outcome : SessionFile × Except ChunkError Unit}
    (does : (load file).Does actions (.done outcome)) : outcome = loadOutcome file := by
  unfold load at does
  unfold loadOutcome
  cases holds : file.chunk with
  | none =>
    rw [holds] at does
    obtain ⟨_, _, _, -, -, ends⟩ := does_bind does
    exact (does_done ends).2.symm
  | some bytes =>
    rw [holds] at does
    dsimp only at does ⊢
    cases read : Chunk.decode bytes with
    | error e =>
      rw [read] at does
      exact (does_done does).2.symm
    | ok chunk =>
      rw [read] at does
      have last {actions : List (Action ρ)} (does : (do
          notice (.loaded chunk.version (← get).returns.records.size)
          return (file, .ok ()) : Program ρ (SessionFile × Except ChunkError Unit)).Does actions (.done outcome)) :
          outcome = (file, .ok ()) := by
        obtain ⟨_, _, _, -, -, does⟩ := does_bind does
        obtain ⟨_, _, _, -, -, ends⟩ := does_bind does
        exact (does_done ends).2.symm
      dsimp only at does ⊢
      split at does
      · obtain ⟨_, _, _, -, -, does⟩ := does_bind does
        exact last does
      · exact last does

theorem lasts_restoreTail (saved : SavedTail) : (restoreTail saved : Program ρ Unit).Lasts := by
  have putsBack (record : PendingTail ρ) : (putBack record).Lasts := by
    refine lasts_bind (lasts_modifyGet _) fun restored => ?_
    split <;> trivial
  refine lasts_bind (lasts_resolve saved.call) fun hooks => ?_
  dsimp only
  split
  · exact lasts_bind (lasts_notice _) fun _ => putsBack _
  · exact putsBack _

theorem lasts_load (file : SessionFile) : (load file : Program ρ _).Lasts := by
  unfold load
  cases file.chunk with
  | none => exact lasts_bind (lasts_notice _) fun _ => lasts_pure _
  | some bytes =>
    dsimp only
    cases Chunk.decode bytes with
    | error e => exact lasts_pure _
    | ok chunk =>
      have last : (do
          notice (.loaded chunk.version (← get).returns.records.size)
          return (file, .ok ()) : Program ρ (SessionFile × Except ChunkError Unit)).Lasts :=
        lasts_bind lasts_get fun _ => lasts_bind (lasts_notice _) fun _ => lasts_pure _
      dsimp only
      split
      · refine lasts_bind ?_ fun _ => last
        exact lasts_bind (lasts_modifyGet _) fun _ =>
          lasts_bind (lasts_forM lasts_restoreTail chunk.tails) fun _ => lasts_modifyGet _
      · exact last

/-- Loading always comes to its end, and with this outcome. -/
theorem load_ends (answers : Answers ρ) (file : SessionFile) (e : Engine ρ) :
    ∃ loaded, (load file).alone answers e = some (loadOutcome file, loaded) := by
  obtain ⟨outcome, loaded, ends⟩ := (lasts_load file).alone answers e
  obtain ⟨_, yields, -⟩ := yields_alone ends
  exact ⟨loaded, does_load yields.does ▸ ends⟩

theorem loadOutcome_write_ok {file : SessionFile} {bytes : List UInt8} {chunk : Chunk}
    (read : Chunk.decode bytes = .ok chunk) : loadOutcome (file.write bytes) = (file.write bytes, .ok ()) := by
  show (match Chunk.decode bytes with | .error e => _ | .ok _ => _) = _
  rw [read]

theorem loadOutcome_write_error {file : SessionFile} {bytes : List UInt8} {e : ChunkError}
    (read : Chunk.decode bytes = .error e) :
    loadOutcome (file.write bytes) = ({ file.write bytes with canReload := false }, .error e) := by
  show (match Chunk.decode bytes with | .error e => _ | .ok _ => _) = _
  rw [read]

/-! ### Saved files -/

/-- The first of the saved records whose count does not fit. -/
theorem exists_first_unstorable {tails : List SavedTail} (some : ¬∀ t ∈ tails, t.Storable) :
    ∃ before t after, tails = before ++ t :: after ∧ (∀ u ∈ before, u.Storable) ∧ ¬t.Storable := by
  have found : (tails.find? fun t => decide ¬t.Storable).isSome := by
    rw [List.find?_isSome]
    simpa using some
  obtain ⟨t, found⟩ := Option.isSome_iff_exists.mp found
  obtain ⟨refused, before, after, split, storable⟩ := List.find?_eq_some_iff_append.mp found
  exact ⟨before, t, after, split, by simpa using storable, by simpa using refused⟩

theorem loadOutcome_saved {e : Engine ρ} (accepted : e.config.validate = .ok ())
    (few : e.returns.records.size < 2 ^ 31) (file : SessionFile) :
    (loadOutcome (file.write e.chunk.encode) = (file.write e.chunk.encode, .ok ()) ∧
        ∀ a record, e.returns.get? a = some record → record.Storable) ∨
      ∃ a record, e.returns.get? a = some record ∧ ¬record.Storable ∧
        loadOutcome (file.write e.chunk.encode) = ({ file.write e.chunk.encode with canReload := false },
          .error (.useCount record.call.returnPc record.count.toInt32)) := by
  have new : 1 ≤ e.chunk.version := (Config.validate_eq_ok_iff.mp accepted).1
  have length : e.chunk.tails.length < 2 ^ 31 := by
    rw [chunk, List.length_map, Returns.length_toList]
    exact few
  obtain ⟨-, kept, refused⟩ := Chunk.decode_encode e.chunk length
  by_cases storable : ∀ t ∈ e.chunk.tails, t.Storable
  · refine .inl ⟨loadOutcome_write_ok (kept new storable), fun a record found => ?_⟩
    exact storable _ (List.mem_map.mpr ⟨record, Returns.mem_toList.mpr ⟨a, found⟩, rfl⟩)
  · obtain ⟨before, t, after, split, earlier, unstorable⟩ := exists_first_unstorable storable
    have member : t ∈ e.chunk.tails := by rw [split]; simp
    obtain ⟨record, there, rfl⟩ := List.mem_map.mp member
    obtain ⟨a, found⟩ := Returns.mem_toList.mp there
    exact .inr ⟨a, record, found, unstorable,
      loadOutcome_write_error (refused new before _ after split earlier unstorable)⟩

/-- A saved session is loaded again, in whatever surrounding, exactly if every record waited for a number of
    returns that can be kept; if one did not, its count is refused, and the file cannot be loaded again. -/
theorem load_saved_iff {e : Engine ρ} (accepted : e.config.validate = .ok ())
    (few : e.returns.records.size < 2 ^ 31) (answers : Answers ρ) (file : SessionFile) :
    ∃ saved, (save file).alone answers e = some (saved, e) ∧ saved.canReload = file.canReload ∧
      ∀ config registry marks (trace : List (Moment ρ)) m, Run (.fresh config registry marks) trace m →
        ∀ outcome done, ∀ x ∈ trace, x.event = .finished (.load saved) outcome done →
          (outcome = (saved, .ok ()) ↔ ∀ a record, e.returns.get? a = some record → record.Storable) ∧
          (outcome ≠ (saved, .ok ()) → ∃ a record, e.returns.get? a = some record ∧ ¬record.Storable ∧
            outcome = ({ saved with canReload := false },
              .error (.useCount record.call.returnPc record.count.toInt32))) := by
  refine ⟨_, save_alone file, rfl, fun config registry marks trace m run outcome done x member finished => ?_⟩
  have does := run.does_of_finished (Machine.orderly_fresh config registry marks) member finished
  have gives : outcome = loadOutcome (file.write e.chunk.encode) := does_load does
  rw [gives]
  rcases loadOutcome_saved accepted few file with ⟨taken, storable⟩ | ⟨a, record, found, unstorable, refused⟩
  · rw [taken]
    exact ⟨iff_of_true rfl storable, fun other => absurd rfl other⟩
  · rw [refused]
    have other : ({ file.write e.chunk.encode with canReload := false }, Except.error
        (.useCount record.call.returnPc record.count.toInt32)) ≠
        ((file.write e.chunk.encode, .ok ()) : SessionFile × Except ChunkError Unit) := by simp
    exact ⟨iff_of_false other fun storable => unstorable (storable a record found),
      fun _ => ⟨a, record, found, unstorable, rfl⟩⟩

/-- A session in which one tail hook waits is saved, and a new engine loads it. -/
theorem load_saved_iff_armed :
    ∃ (e : Engine Unit) (record : PendingTail Unit) (saved : SessionFile) (answers : Answers Unit)
      (trace : List (Moment Unit)) (m : Machine Unit) (done : List (Action Unit)),
      e.returns.get? 0x1002 = some record ∧ (save {}).alone answers e = some (saved, e) ∧
      Run (.fresh {} {} ∅) trace m ∧ ∃ x ∈ trace, x.event = .finished (.load saved) (saved, .ok ()) done := by
  let call : Call := { returnPc := 0x1002, trap := 0xA003, index := 3 }
  let hook : TailHook Unit := { table := "~system", index := 3, routine := () }
  let record : PendingTail Unit := { call := call, hook := some hook, count := 1 }
  let e : Engine Unit := (({} : Engine Unit).onReturns (Returns.arm hook call)).2
  obtain ⟨answers, -⟩ := Answers.exists_names (ρ := Unit) fun _ => none
  have records : e.returns.records = (∅ : Std.ExtTreeMap UInt32 (PendingTail Unit)).insert 0x1002 record := by
    simp [e, onReturns, Returns.arm, call, record]
  have single := Returns.isSingle_of_records records
  have storable (a : UInt32) (other : PendingTail Unit) (found : e.returns.get? a = some other) : other.Storable := by
    rw [← (single.only found).2]
    exact ⟨Nat.le_refl 1, by decide⟩
  obtain ⟨saved, saves, -, loads⟩ :=
    load_saved_iff (e := e) (by decide) (by rw [records]; simp [Std.ExtTreeMap.size_insert]) answers {}
  let new : Machine Unit := .fresh {} {} ∅
  have rests : new.AtRest := Machine.atRest_of_idle rfl
  obtain ⟨loaded, ends⟩ := load_ends answers saved new.engine
  obtain ⟨done, yields, -⟩ := yields_alone ends
  obtain ⟨trace, run, events, -⟩ := Run.stage (s := .load saved) rfl rests yields
  have last : .finished (.load saved) (loadOutcome saved) done ∈ trace.map (·.event) := by
    rw [events]
    exact List.mem_append_right _ (List.mem_singleton_self _)
  obtain ⟨x, member, finished⟩ := List.mem_map.mp last
  have taken := (loads {} {} ∅ trace _ run _ done x member finished).1.mpr storable
  exact ⟨e, record, saved, answers, trace, _, done, single.found, saves, run, x, member, by rw [finished, taken]⟩

/-! ### One return too many -/

/-- A session whose only record belongs to a call of the system is loaded, and the call is entered once more
    before it returns: the record waits for one return more than it did when it was saved. -/
theorem load_dispatch_alone {e : Engine ρ} (reachable : e.Reachable) (answers : Answers ρ) {call : Call}
    (system : Trap.isSystem call.trap = true) (kept : call.asSaved = call) {tail : TailHook ρ}
    (hooks : e.hooksOf answers.names call = { tail := some tail }) (version : Int32) (new : 1 ≤ version)
    (saved : SavedTail) (same : saved.call = call) (storable : saved.Storable) :
    ∃ e', (load (.ofChunk (Chunk.encode { version := version, state := {}, tails := [saved] })) >>= fun _ =>
        dispatch call).alone answers e = some (.execute, e') ∧ e'.Reachable ∧ e'.config = e.config ∧
      e'.returns.records =
        (∅ : Std.ExtTreeMap UInt32 (PendingTail ρ)).insert call.returnPc
          { call := call, hook := some tail, count := saved.count + 1 } := by
  subst same
  let record : PendingTail ρ := { call := saved.call, hook := some tail, count := saved.count }
  have recorded : recordOf answers.names e saved = record := by rw [recordOf, hooks]
  have home (e : Engine ρ) : saved.call.home e.config.protocolMark = .system := by rw [Call.home, if_pos system]
  let chunk : Chunk := { version := version, state := {}, tails := [saved] }
  have again : chunk.asSaved.tails = [saved] := by
    show [saved.asSaved] = [saved]
    rw [SavedTail.asSaved, kept]
  have read := Chunk.decode_encode_storable (c := chunk) new (by simp [chunk]) (by simpa [chunk] using storable)
  obtain ⟨loaded, loads, config, registry, returns, -⟩ :=
    load_alone answers reachable.current read new (.ofChunk chunk.encode) rfl
  have records : loaded.returns.records =
      (∅ : Std.ExtTreeMap UInt32 (PendingTail ρ)).insert saved.call.returnPc record := by
    have some : saved.count ≠ 0 := by
      rintro none
      simp [SavedTail.Storable, none] at storable
    rw [returns, again, List.map_singleton, recorded]
    simp [Returns.restoreAll, Returns.restore, record, some]
  have reachable' : loaded.Reachable := reachable.alone (s := .load (.ofChunk chunk.encode)) rfl (fun _ => rfl) loads
  -- A call of the system does not meet what is remembered of libraries, so the same hook is found again.
  have finds : loaded.hooksFound answers.names saved.call = { tail := some tail } := by
    rw [hooksFound_eq_hooksOf (by simp [home]), ← hooks]
    simp only [hooksOf, tableOf, config, registry]
  obtain ⟨e', found, -, unchanged, -⟩ := reachable'.current.resolve_alone answers saved.call
  rw [finds] at found
  have there : e'.returns.get? saved.call.returnPc = some record := by
    rw [unchanged.returns, Returns.get?, records, Std.ExtTreeMap.getElem?_insert_self]
  have below : saved.count.toNat + 1 < 2 ^ 32 := by
    have := storable.2
    omega
  have fits : sum? saved.count 1 = some (saved.count + 1) := sum?_of_lt below
  have dispatches := dispatch_alone found rfl fun tail' same => Returns.arm_ne_overflow_iff.mpr fun other found => by
    rw [← Option.some.inj (there.symm.trans found)]
    exact below
  refine ⟨(e'.onReturns (Returns.arm tail saved.call)).2, ?_, reachable'.dispatch_alone dispatches,
    unchanged.config.trans config, ?_⟩
  · rw [alone_bind_of loads]
    exact dispatches
  · show (e'.returns.arm tail saved.call).2.records = _
    rw [unchanged.returns, Returns.arm, records, Std.ExtTreeMap.getElem?_insert_self]
    simp only [record, fits]
    exact Std.ExtTreeMap.ext_getElem? fun a => by
      simp only [Std.ExtTreeMap.getElem?_insert]
      split <;> rfl

/-- A record of as many returns as a session can keep is loaded, and its call is entered once more before it
    returns: the session that is saved then cannot be loaded. -/
theorem load_saved_refused :
    ∃ (registry : Registry Unit) (answers : Answers Unit) (file : SessionFile) (call : Call) (e : Engine Unit)
      (saved : SessionFile),
      (start >>= fun _ => load file >>= fun _ => dispatch call).alone answers (Machine.fresh {} registry ∅).engine =
        some (.execute, e) ∧
      e.Reachable ∧ e.config.validate = .ok () ∧ e.returns.records.size = 1 ∧
      (save {}).alone answers e = some (saved, e) ∧ saved.canReload = true ∧
      ∀ (answers' : Answers Unit) (e' : Engine Unit), ∃ left, (load saved).alone answers' e' =
        some (({ saved with canReload := false }, .error (.useCount 0x1002 (-0x80000000))), left) := by
  let table : HookTable Unit := HookTable.withTail 3 () { name := "~system" }
  let registry : Registry Unit := { loaders := [fun _ => table] }
  let hook : TailHook Unit := { table := "~system", index := 3, routine := () }
  let tail : SavedTail :=
    { call := { returnPc := 0x1002, dest := 0x1002, secondDest := 0x1002, trap := 0xA003, index := 3 }
      count := 0x7FFFFFFF }
  obtain ⟨answers, -⟩ := Answers.exists_names (ρ := Unit) fun _ => none
  let new : Engine Unit := (Machine.fresh {} registry ∅).engine
  let started : Engine Unit := new.reload.forgetTables.resetState
  have starts : start.alone answers new = some ((), started) := start_alone answers new
  have reachable : started.Reachable :=
    (reachable_fresh {} registry ∅).alone (s := .start) rfl (fun _ => rfl) starts
  have tables : started.registry.table? "~system" = some table :=
    (Registry.table?_load_single rfl {} "~system").trans (if_pos rfl)
  have hooks : started.hooksOf answers.names tail.call = { tail := some hook } := by
    have home : tail.call.home started.config.protocolMark = .system := by decide
    rw [hooksOf, tableOf, home]
    show ((started.registry.table? "~system").map (·.hooks 3)).getD {} = _
    rw [tables, Option.map_some, HookTable.hooks_withTail]
    rfl
  -- The record is loaded with the largest count there is, and its call makes it wait once more.
  obtain ⟨e, runs, reached, config, records⟩ :=
    load_dispatch_alone reachable answers (by decide) rfl hooks 5 (by decide) tail rfl (by decide)
  rw [show tail.count + 1 = 0x80000000 by decide] at records
  have accepted : e.config.validate = .ok () := by
    rw [config]
    rfl
  have size : e.returns.records.size = 1 := by
    rw [records]
    simp [Std.ExtTreeMap.size_insert]
  have saves : (save {}).alone answers e = some (SessionFile.write e.chunk.encode {}, e) := save_alone {}
  let file : SessionFile := .ofChunk (Chunk.encode { version := 5, state := {}, tails := [tail] })
  refine ⟨registry, answers, file, tail.call, e, _, ?_, reached, accepted, size, saves, rfl, fun answers' e' => ?_⟩
  · rw [alone_bind_of starts]
    exact runs
  · obtain ⟨left, ends⟩ := load_ends answers' (SessionFile.write e.chunk.encode {}) e'
    refine ⟨left, ends.trans ?_⟩
    -- The session has this one record, so the count that is refused is its count.
    have single := Returns.isSingle_of_records records
    rcases loadOutcome_saved accepted (by omega) {} (e := e) with ⟨-, storable⟩ | ⟨a, record, found, -, refused⟩
    · exact absurd (storable _ _ single.found).2 (by decide)
    · obtain ⟨rfl, rfl⟩ := single.only found
      rw [refused]
      rfl

end Engine

end TrapHooks
