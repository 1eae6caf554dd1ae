import TrapHooks.Proofs.Session.Memory

/-! Starting a session on an engine with a past. The tables are made anew and the two tables that are
    remembered by themselves are forgotten, so a call of the system or of the protocol finds what it would find
    on a new engine. What is remembered of the libraries stays: a library that was called before the start is
    served from the tables of that time. -/

namespace TrapHooks.Engine

open Program

variable {ρ : Type}

/-- An engine of the same settings and loaders that has done nothing yet. -/
def anew (e : Engine ρ) (marks : Marks) : Engine ρ :=
  (Machine.fresh e.config { loaders := e.registry.loaders } marks).engine

/-- The tables that the loaders make. -/
def loaded (e : Engine ρ) : Registry ρ :=
  e.registry.clear.load e.config

theorem start_resolve_alone (answers : Answers ρ) (call : Call) (e : Engine ρ) :
    ∃ left, (start >>= fun _ => resolve call).alone answers e =
      some (e.reload.forgetTables.resetState.hooksFound answers.names call, left) := by
  have current : e.reload.forgetTables.resetState.Current := current_of_forgotten rfl rfl
  obtain ⟨left, found, -⟩ := current.resolve_alone answers call
  exact ⟨left, (alone_bind_of (start_alone answers e) _).trans found⟩

theorem start_resolve_anew_alone (answers : Answers ρ) (call : Call) (e : Engine ρ) (marks : Marks) :
    ∃ left, (start >>= fun _ => resolve call).alone answers (e.anew marks) =
      some (e.reload.forgetTables.resetState.hooksOf answers.names call, left) := by
  obtain ⟨left, found⟩ := start_resolve_alone answers call (e.anew marks)
  refine ⟨left, found.trans ?_⟩
  rw [hooksFound_eq_hooksOf]
  · rfl
  · intro refnum table _ known
    cases (LibraryCache.find?_empty refnum).symm.trans known

/-- Right after the start of a session a call finds the hooks that it finds on a new engine, unless it is a
    call of a library whose handle is not stale: it then finds the hooks of the table that is remembered,
    which need not be those of the tables that were just made. -/
theorem start_resolve_iff (e : Engine ρ) (marks : Marks) (answers : Answers ρ) (call : Call) :
    ∃ hooks hooks' left left', (start >>= fun _ => resolve call).alone answers e = some (hooks, left) ∧
      (start >>= fun _ => resolve call).alone answers (e.anew marks) = some (hooks', left') ∧
      (hooks = hooks' ↔
        ∀ refnum table, call.home e.config.protocolMark = .library refnum → e.libraries.find? refnum = some table →
          (table.map (·.hooks call.index)).getD {} =
            (((answers.names refnum).bind e.loaded.table?).map (·.hooks call.index)).getD {}) := by
  let started : Engine ρ := e.reload.forgetTables.resetState
  obtain ⟨left, found⟩ := start_resolve_alone answers call e
  obtain ⟨left', found'⟩ := start_resolve_anew_alone answers call e marks
  refine ⟨_, _, left, left', found, found', ?_⟩
  show started.hooksFound answers.names call = started.hooksOf answers.names call ↔ _
  by_cases remembered : ∃ refnum table, call.home e.config.protocolMark = .library refnum ∧
      e.libraries.find? refnum = some table
  · obtain ⟨refnum, table, home, known⟩ := remembered
    have home' : call.home started.config.protocolMark = .library refnum := home
    have known' : started.libraries.find? refnum = some table := known
    have found : started.tableFound answers.names call = table := by
      rw [tableFound_library home', known', Option.getD_some]
    have plain : started.tableOf answers.names call = (answers.names refnum).bind e.loaded.table? :=
      tableOf_library home'
    rw [hooksFound, hooksOf, found, plain]
    refine ⟨fun same refnum' table' home' known' => ?_, fun same => same refnum table home known⟩
    obtain rfl : refnum = refnum' := Call.Home.library.inj (home.symm.trans home')
    obtain rfl : table = table' := Option.some.inj (known.symm.trans known')
    exact same
  · refine iff_of_true (hooksFound_eq_hooksOf fun refnum table home known => ?_) fun refnum table home known => ?_
    · exact absurd ⟨refnum, table, home, known⟩ remembered
    · exact absurd ⟨refnum, table, home, known⟩ remembered

/-- A library is called before the session starts, when there are no tables yet; the start makes its table,
    and the call goes on to find nothing. -/
theorem start_resolve_stale :
    ∃ (registry : Registry Unit) (answers : Answers Unit) (call : Call) (e : Engine Unit) (hook : TailHook Unit),
      (dispatch call).alone answers (Machine.fresh {} registry ∅).engine = some (.execute, e) ∧ e.Reachable ∧
      (∃ left, (start >>= fun _ => resolve call).alone answers e = some ({}, left)) ∧
      ∃ left, (start >>= fun _ => resolve call).alone answers (Machine.fresh {} registry ∅).engine =
        some ({ tail := some hook }, left) := by
  let table : HookTable Unit := HookTable.withTail 5 () { name := "Net.lib" }
  let registry : Registry Unit := { loaders := [fun _ => table] }
  let call : Call := { returnPc := 0x1002, trap := 0xA805, index := 5, extra := 7 }
  let hook : TailHook Unit := { table := "Net.lib", index := 5, routine := () }
  obtain ⟨answers, names⟩ := Answers.exists_names (ρ := Unit) fun refnum => if refnum = 7 then some "Net.lib" else none
  let new : Engine Unit := (Machine.fresh {} registry ∅).engine
  have home : call.home 0x666 = .library 7 := by decide
  have name : answers.names 7 = some "Net.lib" := by rw [names]; rfl
  have reachable : new.Reachable := reachable_fresh {} registry ∅
  have nothing : new.tableFound answers.names call = none := by
    rw [tableFound_library home, name]
    simp [new, Machine.fresh, Registry.table?, registry]
  obtain ⟨e, found, -, unchanged, learnt⟩ := reachable.current.resolve_alone answers call
  rw [hooksFound, nothing] at found
  have dispatches := dispatch_alone found rfl (by simp)
  refine ⟨registry, answers, call, e, hook, dispatches, reachable.dispatch_alone dispatches, ?_, ?_⟩
  · -- That there was no table is remembered, and the start does not forget it.
    have known : e.libraries.find? 7 = some none := by rw [learnt 7 home, nothing]
    have home' : call.home e.reload.forgetTables.resetState.config.protocolMark = .library 7 := by
      show call.home e.config.protocolMark = _
      rw [unchanged.config]
      exact home
    obtain ⟨left, found⟩ := start_resolve_alone answers call e
    have known' : e.reload.forgetTables.resetState.libraries.find? 7 = some none := known
    refine ⟨left, found.trans ?_⟩
    rw [hooksFound, tableFound_library home', known']
    rfl
  · have made : new.loaded.table? "Net.lib" = some table :=
      (Registry.table?_load_single rfl {} "Net.lib").trans (if_pos rfl)
    obtain ⟨left, found⟩ := start_resolve_anew_alone answers call new ∅
    have hooks : new.reload.forgetTables.resetState.hooksOf answers.names call = { tail := some hook } := by
      rw [hooksOf, tableOf_library home, name]
      show ((new.loaded.table? "Net.lib").map (·.hooks 5)).getD {} = _
      rw [made, Option.map_some, HookTable.hooks_withTail]
      rfl
    exact ⟨left, hooks ▸ found⟩

end TrapHooks.Engine
