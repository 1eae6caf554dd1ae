import TrapHooks.Proofs.Session.Lookup

/-! What an engine with a past finds. If others can meet it, its memory of tables is sound, and a look-up
    differs from one without memory by what is remembered of the call's own library, at most. A call that
    nobody disturbs goes by these hooks. -/

namespace TrapHooks.Engine

open Program

variable {ρ : Type}

/-- The table of a call: what is remembered of a library goes before what its name leads to. -/
def tableFound (names : UInt16 → Option String) (call : Call) (e : Engine ρ) : Option (HookTable ρ) :=
  match call.home e.config.protocolMark with
  | .library refnum => (e.libraries.find? refnum).getD ((names refnum).bind e.registry.table?)
  | _ => e.tableOf names call

def hooksFound (names : UInt16 → Option String) (call : Call) (e : Engine ρ) : Hooks ρ :=
  ((e.tableFound names call).map (·.hooks call.index)).getD {}

theorem tableFound_library {names : UInt16 → Option String} {call : Call} {e : Engine ρ} {refnum : UInt16}
    (home : call.home e.config.protocolMark = .library refnum) :
    e.tableFound names call = (e.libraries.find? refnum).getD ((names refnum).bind e.registry.table?) := by
  rw [tableFound, home]

theorem tableOf_library {names : UInt16 → Option String} {call : Call} {e : Engine ρ} {refnum : UInt16}
    (home : call.home e.config.protocolMark = .library refnum) :
    e.tableOf names call = (names refnum).bind e.registry.table? := by
  rw [tableOf, home]

theorem hooksFound_eq_hooksOf {names : UInt16 → Option String} {call : Call} {e : Engine ρ}
    (sound : ∀ refnum table, call.home e.config.protocolMark = .library refnum →
      e.libraries.find? refnum = some table → table = (names refnum).bind e.registry.table?) :
    e.hooksFound names call = e.hooksOf names call := by
  have same : e.tableFound names call = e.tableOf names call := by
    cases home : call.home e.config.protocolMark with
    | library refnum =>
      rw [tableFound_library home, tableOf_library home]
      cases known : e.libraries.find? refnum with
      | none => rfl
      | some table => exact sound refnum table home known
    | _ => rw [tableFound, home]
  rw [hooksFound, hooksOf, same]

section
variable {answers : Answers ρ} {e : Engine ρ}

theorem libraryTable_found (answers : Answers ρ) (refnum : UInt16) (e : Engine ρ) :
    ∃ e', (libraryTable refnum).alone answers e =
        some ((e.libraries.find? refnum).getD ((answers.names refnum).bind e.registry.table?), e') ∧
      e'.libraries.find? refnum =
        some ((e.libraries.find? refnum).getD ((answers.names refnum).bind e.registry.table?)) ∧
      e'.systemTable = e.systemTable ∧ e'.protocolTable = e.protocolTable ∧ SameButMemory e e' := by
  have visited : recallLibrary refnum e =
      (e.libraries.find? refnum, { e with libraries := e.libraries.reach refnum }) := rfl
  rw [libraryTable, alone_bind_of (alone_modifyGet _ e), visited]
  cases known : e.libraries.find? refnum with
  | some table =>
    refine ⟨{ e with libraries := e.libraries.reach refnum }, rfl, ?_, rfl, rfl, rfl, rfl, rfl, rfl⟩
    exact (LibraryCache.find?_reach refnum refnum e.libraries).trans known
  | none =>
    dsimp only
    rw [alone_bind_of (alone_request _ _)]
    let table := (answers.names refnum).bind e.registry.table?
    refine ⟨{ e with libraries := (e.libraries.reach refnum).refresh refnum table }, rfl, ?_, rfl, rfl, rfl, rfl, rfl,
      rfl⟩
    exact (LibraryCache.find?_refresh refnum refnum _ _).trans (if_pos rfl)

theorem Current.findTable_alone (current : e.Current) (answers : Answers ρ) (call : Call) :
    ∃ e', (findTable call).alone answers e = some (e.tableFound answers.names call, e') ∧ e'.Current ∧
      SameButMemory e e' ∧ ∀ refnum, call.home e.config.protocolMark = .library refnum →
        e'.libraries.find? refnum = some (e.tableFound answers.names call) := by
  rw [findTable, alone_bind_of (alone_get _), tableFound, tableOf]
  cases call.home e.config.protocolMark with
  | system =>
    refine ⟨e.findSystem.2, ?_, current.findSystem, ⟨rfl, rfl, rfl, rfl⟩, by simp⟩
    rw [← current.findSystem_eq]
    rfl
  | protocol =>
    refine ⟨e.findProtocol.2, ?_, current.findProtocol, ⟨rfl, rfl, rfl, rfl⟩, by simp⟩
    rw [← current.findProtocol_eq]
    rfl
  | library refnum =>
    obtain ⟨e', found, learnt, system, protocol, unchanged⟩ := libraryTable_found answers refnum e
    refine ⟨e', found, ⟨fun table there => ?_, fun table there => ?_⟩, unchanged, fun other same => ?_⟩
    · rw [unchanged.registry, unchanged.config]
      exact current.system table (system ▸ there)
    · rw [unchanged.registry, unchanged.config]
      exact current.protocol table (protocol ▸ there)
    · cases same
      exact learnt
  | nowhere => exact ⟨e, rfl, current, .refl e, by simp⟩

/-- Whoever looks up a call finds these hooks, and has looked at nothing but its memory; a library is
    remembered from then on. -/
theorem Current.resolve_alone (current : e.Current) (answers : Answers ρ) (call : Call) :
    ∃ e', (resolve call).alone answers e = some (e.hooksFound answers.names call, e') ∧ e'.Current ∧
      SameButMemory e e' ∧ ∀ refnum, call.home e.config.protocolMark = .library refnum →
        e'.libraries.find? refnum = some (e.tableFound answers.names call) := by
  obtain ⟨e', found, current', unchanged, learnt⟩ := current.findTable_alone answers call
  refine ⟨e', ?_, current', unchanged, learnt⟩
  rw [resolve, alone_bind_of found]
  rfl

/-! ### Calls -/

/-- A program that only looks at the engine leaves it as it is. -/
theorem alone_of_reads {α : Type} {p : Program ρ α} (reads : p.Makes (· = .read)) (lasts : p.Lasts)
    (answers : Answers ρ) (e : Engine ρ) : ∃ a, p.alone answers e = some (a, e) := by
  induction p generalizing e with
  | done a => exact ⟨a, rfl⟩
  | overflow => exact lasts.elim
  | step next rest ih =>
    obtain ⟨⟨c, rfl, eq⟩, others⟩ := reads e
    show ∃ a, (rest e).alone answers (next e) = some (a, e)
    rw [eq]
    exact ih e others (lasts e) e
  | ask r rest ih => exact ih _ (reads _) (lasts _) e
  | runHead routine call rest ih => exact ih _ (reads _) (lasts _) e
  | runTail routine call rest ih => exact ih reads lasts e
  | tell n rest ih => exact ih reads lasts e

/-- A new session has the tables that the loaders make, and knows nothing of guest and tables. -/
theorem start_alone (answers : Answers ρ) (e : Engine ρ) :
    start.alone answers e = some ((), e.reload.forgetTables.resetState) := by
  let tells (l : List (String × HookTable ρ)) : Program ρ PUnit :=
    l.forM fun x => notice (.tableLoaded x.1 x.2.size)
  have reads (l : List (String × HookTable ρ)) : (tells l).Makes (· = .read) := makes_forM fun _ _ => makes_notice _
  have lasts (l : List (String × HookTable ρ)) : (tells l).Lasts := lasts_forM (fun _ => lasts_notice _) l
  obtain ⟨_, told⟩ := alone_of_reads (reads e.reload.registry.tables.toList) (lasts _) answers e.reload
  rw [start, alone_bind_of (alone_modify ..), alone_bind_of (alone_get _), alone_bind_of told]
  rfl

theorem makes_bootstrapIfDue : (bootstrapIfDue : Program ρ Unit).Makes (· = .read) := by
  refine makes_bind (makes_request _) fun due => ?_
  split
  · exact makes_bind (makes_request _) fun _ => makes_bootstrap rfl
  · exact makes_pure _

theorem lasts_announceDebugger : (announceDebugger : Program ρ Unit).Lasts := by
  have reports (attached : Bool) (answer : Except ErrorCode Unit) :
      (reportDebugger attached answer : Program ρ Unit).Lasts := by cases answer <;> trivial
  refine lasts_bind (lasts_request _) fun attached => ?_
  cases attached
  · exact lasts_bind (lasts_request _) (reports false)
  · exact lasts_bind (lasts_request _) (reports true)

theorem lasts_assertStrictChecks : (assertStrictChecks : Program ρ Unit).Lasts := by
  have looks : (hasIntl : Program ρ Bool).Lasts := lasts_bind (lasts_request _) fun version => by
    cases version <;> trivial
  refine lasts_bind (lasts_request _) fun strict => lasts_bind looks fun has => ?_
  cases has
  · exact lasts_pure _
  · exact lasts_request _

theorem lasts_assertOverlayErrors : (assertOverlayErrors : Program ρ Unit).Lasts := by
  refine lasts_bind (lasts_request _) fun wanted => lasts_bind (lasts_request _) fun answer => ?_
  cases answer <;> trivial

theorem lasts_takeUserName : (takeUserName : Program ρ Unit).Lasts := by
  refine lasts_bind (lasts_request _) fun synced => ?_
  cases synced
  · exact lasts_pure _
  · refine lasts_bind (lasts_request _) fun user => ?_
    cases user
    · exact lasts_notice _
    · exact lasts_request _

theorem lasts_installFiles : (installFiles : Program ρ Unit).Lasts := by
  refine lasts_bind (lasts_request _) fun answer => ?_
  cases answer <;> trivial

theorem lasts_mendGuest : (mendGuest : Program ρ Unit).Lasts :=
  lasts_bind (lasts_notice _) fun _ => lasts_bind lasts_announceDebugger fun _ =>
    lasts_bind lasts_assertStrictChecks fun _ => lasts_bind lasts_assertOverlayErrors fun _ =>
      lasts_bind lasts_takeUserName fun _ => lasts_bind lasts_installFiles fun _ =>
        lasts_bind (lasts_bind (lasts_request _) fun _ => lasts_request _) fun _ => lasts_request _

theorem lasts_reopenLine (line : Line) : (reopenLine line : Program ρ Unit).Lasts := by
  refine lasts_bind (lasts_request _) fun active => ?_
  cases active
  · exact lasts_pure _
  · refine lasts_bind (lasts_request _) fun answer => ?_
    cases answer <;> trivial

/-- Whatever is answered, a bootstrap does not break off. -/
theorem lasts_bootstrap : (bootstrap : Program ρ Unit).Lasts := by
  have lines : (Line.all.forM reopenLine : Program ρ _).Lasts := lasts_forM lasts_reopenLine _
  refine lasts_bind lasts_get fun e => ?_
  split
  · exact lasts_bind lasts_mendGuest fun _ => lines
  · exact lines

theorem lasts_bootstrapIfDue : (bootstrapIfDue : Program ρ Unit).Lasts := by
  refine lasts_bind (lasts_request _) fun due => ?_
  split
  · exact lasts_bind (lasts_request _) fun _ => lasts_bootstrap
  · exact lasts_pure _

theorem lasts_resolve (call : Call) : (resolve call : Program ρ _).Lasts := by
  refine lasts_bind (lasts_bind lasts_get fun e => ?_) fun _ => lasts_pure _
  cases call.home e.config.protocolMark with
  | library refnum =>
    refine lasts_bind (lasts_modifyGet _) fun known => ?_
    cases known with
    | some table => exact lasts_pure _
    | none =>
      exact lasts_bind (lasts_request _) fun _ => lasts_bind (lasts_modifyGet _) fun _ =>
        lasts_bind (lasts_notice _) fun _ => lasts_pure _
  | system | protocol => exact lasts_modifyGet _
  | nowhere => exact lasts_pure _

theorem prepare_alone (answers : Answers ρ) (call : Call) (e : Engine ρ) :
    (prepare call).alone answers e = (resolve call).alone answers e := by
  obtain ⟨_, mended⟩ := alone_of_reads makes_bootstrapIfDue lasts_bootstrapIfDue answers e
  rw [prepare, alone_bind_of mended]

/-- A call without a head hook runs, and its tail hook waits if it has one; the program breaks off where that could not
    be counted. -/
theorem dispatch_alone {call : Call} {hooks : Hooks ρ} {e' : Engine ρ}
    (found : (resolve call).alone answers e = some (hooks, e')) (headless : hooks.head = none)
    (counts : ∀ tail, hooks.tail = some tail → (e'.returns.arm tail call).1 ≠ .overflow) :
    (dispatch call).alone answers e =
      some (.execute, (hooks.tail.map fun tail => (e'.onReturns (Returns.arm tail call)).2).getD e') := by
  obtain ⟨head, tail⟩ := hooks
  obtain rfl : head = none := headless
  rw [dispatch, alone_bind_of (prepare_alone .. ▸ found)]
  cases tail with
  | none => rfl
  | some tail =>
    have arms : (armTail tail call).alone answers e' = some ((), (e'.onReturns (Returns.arm tail call)).2) := by
      rw [armTail, alone_bind_of (alone_modifyGet _ e')]
      cases armed : (e'.onReturns (Returns.arm tail call)).1 with
      | overflow => exact absurd armed (counts tail rfl)
      | _ => rfl
    show (armTail tail call >>= fun _ => _).alone answers e' = _
    rw [alone_bind_of arms]
    rfl

/-- What a call leaves that nobody disturbs, others can meet. -/
theorem Reachable.dispatch_alone (reachable : e.Reachable) {call : Call} {decision : Decision} {e' : Engine ρ}
    (ends : (dispatch call).alone answers e = some (decision, e')) : e'.Reachable := by
  obtain ⟨config, registry, marks, past, m, run, rests, rfl⟩ := reachable
  -- The stages of a call come one after another, so each of them comes to its end.
  simp only [Stage.dispatch_eq, alone_bind, Option.bind_eq_some_iff, Prod.exists] at ends
  obtain ⟨hooks, _, prepared, _, _, handled, concluded⟩ := ends
  obtain ⟨_, prepares, -⟩ := yields_alone (p := (Stage.dispatch call).program) prepared
  obtain ⟨_, first, -, -⟩ := Run.stage (s := .dispatch call) rfl rests prepares
  obtain ⟨_, handles, -⟩ := yields_alone (p := (Stage.handle call hooks).program) handled
  obtain ⟨_, second, -, -⟩ := Run.through handles [] m.tasks
  obtain ⟨_, concludes, -⟩ := yields_alone (p := (Stage.conclude call hooks _).program) concluded
  obtain ⟨_, third, -, -⟩ := Run.through concludes [] m.tasks
  exact ⟨config, registry, marks, _, _, ((run.trans first).trans second).trans third, rests, rfl⟩

end

end TrapHooks.Engine
