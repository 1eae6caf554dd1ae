import TrapHooks.Proofs.Run.Guards
import TrapHooks.Proofs.Run.Undisturbed

/-! What the engine remembers of tables and libraries. A remembered table is always the one that the registry
    has under the settings' name when others meet the engine: it is forgotten before the registry changes in
    anybody's sight. If what is remembered of the libraries is what their names lead to as well, a look-up
    gives what it would give without any memory. -/

namespace TrapHooks.Engine

open Program

variable {ρ : Type}

/-! ### Tables -/

structure Current (e : Engine ρ) : Prop where
  system : ∀ table, e.systemTable = some table → e.registry.table? e.config.systemTable = some table
  protocol : ∀ table, e.protocolTable = some table → e.registry.table? e.config.protocolTable = some table

theorem current_of_forgotten {e : Engine ρ} (system : e.systemTable = none) (protocol : e.protocolTable = none) :
    e.Current where
  system table found := by rw [system] at found; cases found
  protocol table found := by rw [protocol] at found; cases found

theorem Current.findSystem_eq {e : Engine ρ} (current : e.Current) :
    e.findSystem.1 = e.registry.table? e.config.systemTable := by
  show e.systemTable.or _ = _
  cases found : e.systemTable with
  | none => rfl
  | some table => exact (current.system table found).symm

theorem Current.findProtocol_eq {e : Engine ρ} (current : e.Current) :
    e.findProtocol.1 = e.registry.table? e.config.protocolTable := by
  show e.protocolTable.or _ = _
  cases found : e.protocolTable with
  | none => rfl
  | some table => exact (current.protocol table found).symm

theorem Current.findSystem {e : Engine ρ} (current : e.Current) : e.findSystem.2.Current where
  system _ found := current.findSystem_eq.symm.trans found
  protocol := current.protocol

theorem Current.findProtocol {e : Engine ρ} (current : e.Current) : e.findProtocol.2.Current where
  system := current.system
  protocol _ found := current.findProtocol_eq.symm.trans found

/-- Only a change of the registry can leave a remembered table behind. -/
theorem Current.change {e : Engine ρ} (current : e.Current) {c : Change ρ} (reload : c ≠ .reload)
    (drop : c ≠ .dropTables) : (c.apply e).Current := by
  cases c with
  | findSystem => exact current.findSystem
  | findProtocol => exact current.findProtocol
  | reload => exact absurd rfl reload
  | dropTables => exact absurd rfl drop
  | forget => exact current_of_forgotten rfl rfl
  | reset => exact current_of_forgotten rfl rfl
  | _ => exact ⟨current.system, current.protocol⟩

theorem guards_forM_notice {I : Engine ρ → Prop} {α β : Type} (l : List α) (n : α → Notice) (p : Program ρ β)
    {e : Engine ρ} (guards : p.Guards I e) : ((l.forM fun a => notice (n a)) >>= fun _ => p).Guards I e := by
  induction l with
  | nil => exact guards
  | cons a l ih => exact ih

/-- Whoever meets the engine finds the remembered tables to be those that the registry has. -/
theorem guards_current (s : Stage ρ) (e : Engine ρ) (current : e.Current) : s.program.Guards Current e := by
  have kept (quiet : ∀ c, s.Permits c → c ≠ .reload ∧ c ≠ .dropTables) : s.program.Guards Current e :=
    s.makes_program.guards (fun c permitted e current => current.change (quiet c permitted).1 (quiet c permitted).2)
      current
  cases s with
  | start =>
    -- The tables are forgotten right after the registry is made anew, with nothing but notices in between.
    exact guards_forM_notice e.reload.registry.tables.toList _ _ (current_of_forgotten rfl rfl)
  | dispose => exact current_of_forgotten rfl rfl
  | conclude call hooks decision =>
    refine kept fun c permitted => ?_
    obtain ⟨tail, -, -, rfl⟩ := permitted
    exact ⟨nofun, nofun⟩
  | _ =>
    refine kept fun c permitted => ⟨?_, ?_⟩
    · rintro rfl
      simp [Stage.Permits, Change.IsLookup, Change.IsEdit] at permitted
    · rintro rfl
      simp [Stage.Permits, Change.IsLookup, Change.IsEdit] at permitted

theorem Reachable.current {e : Engine ρ} (reachable : e.Reachable) : e.Current := by
  obtain ⟨config, registry, marks, trace, m, run, rests, rfl⟩ := reachable
  have start : (Machine.fresh config registry marks).Guarded Current :=
    ⟨fun _ => current_of_forgotten rfl rfl, nofun, nofun⟩
  exact (run.guarded guards_current start).holds rests

/-! ### Looking up -/

/-- All that is remembered is what would be found anew, `names` being the libraries' names. -/
structure Ready (names : UInt16 → Option String) (e : Engine ρ) : Prop extends Current e where
  libraries : ∀ refnum table, e.libraries.find? refnum = some table → table = (names refnum).bind e.registry.table?

/-- The engines differ in what they remember of tables and libraries, at most. -/
structure SameButMemory (e e' : Engine ρ) : Prop where
  config : e'.config = e.config
  registry : e'.registry = e.registry
  returns : e'.returns = e.returns
  state : e'.state = e.state

theorem SameButMemory.refl (e : Engine ρ) : SameButMemory e e := ⟨rfl, rfl, rfl, rfl⟩

section
variable {answers : Answers ρ} {e : Engine ρ}

theorem libraryTable_alone (ready : e.Ready answers.names) (refnum : UInt16) :
    ∃ e', (libraryTable refnum).alone answers e = some ((answers.names refnum).bind e.registry.table?, e') ∧
      e'.Ready answers.names ∧ SameButMemory e e' := by
  have visited : recallLibrary refnum e =
      (e.libraries.find? refnum, { e with libraries := e.libraries.reach refnum }) := rfl
  rw [libraryTable, alone_bind_of (alone_modifyGet _ e), visited]
  cases known : e.libraries.find? refnum with
  | some table =>
    have remembered : (answers.names refnum).bind e.registry.table? = table :=
      (ready.libraries refnum table known).symm
    rw [remembered]
    refine ⟨_, rfl, ⟨⟨ready.system, ready.protocol⟩, fun r t found => ?_⟩, rfl, rfl, rfl, rfl⟩
    exact ready.libraries r t ((LibraryCache.find?_reach r refnum e.libraries).symm.trans found)
  | none =>
    have asks : ((request (.libraryName refnum) >>= fun name => modifyGet (learnLibrary refnum name) >>= fun table =>
        notice (.libraryRefreshed refnum name table.isSome) >>= fun _ => pure table : Program ρ _).alone answers
          { e with libraries := e.libraries.reach refnum }) =
        some (learnLibrary refnum (answers.names refnum) { e with libraries := e.libraries.reach refnum }) := by
      rw [alone_bind_of (alone_request _ _)]
      rfl
    refine ⟨_, asks, ⟨⟨ready.system, ready.protocol⟩, fun r t found => ?_⟩, rfl, rfl, rfl, rfl⟩
    have found : ((e.libraries.reach refnum).refresh refnum ((answers.names refnum).bind e.registry.table?)).find? r =
        some t := found
    rw [LibraryCache.find?_refresh] at found
    split at found
    · rename_i here
      rw [← here]
      exact (Option.some.inj found).symm
    · rw [LibraryCache.find?_reach] at found
      exact ready.libraries r t found

theorem findTable_alone (ready : e.Ready answers.names) (call : Call) :
    ∃ e', (findTable call).alone answers e = some (e.tableOf answers.names call, e') ∧ e'.Ready answers.names ∧
      SameButMemory e e' := by
  rw [findTable, alone_bind_of (alone_get _), tableOf]
  cases call.home e.config.protocolMark with
  | system =>
    refine ⟨e.findSystem.2, ?_, ⟨ready.findSystem, ready.libraries⟩, rfl, rfl, rfl, rfl⟩
    rw [← ready.findSystem_eq]
    rfl
  | protocol =>
    refine ⟨e.findProtocol.2, ?_, ⟨ready.findProtocol, ready.libraries⟩, rfl, rfl, rfl, rfl⟩
    rw [← ready.findProtocol_eq]
    rfl
  | library refnum => exact libraryTable_alone ready refnum
  | nowhere => exact ⟨e, rfl, ready, .refl e⟩

/-- With nobody in between, a look-up finds what it would find without any memory. -/
theorem resolve_alone (ready : e.Ready answers.names) (call : Call) :
    ∃ e', (resolve call).alone answers e = some (e.hooksOf answers.names call, e') ∧ e'.Ready answers.names ∧
      SameButMemory e e' := by
  obtain ⟨e', found, ready', unchanged⟩ := findTable_alone ready call
  refine ⟨e', ?_, ready', unchanged⟩
  rw [resolve, alone_bind_of found]
  rfl

end

end TrapHooks.Engine
