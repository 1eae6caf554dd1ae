import TrapHooks.Proofs.Run.Surrounding
import TrapHooks.Proofs.Session.Memory

/-! Looking up while the names of libraries change. The surrounding gives a handle another name whenever it
    likes, and a start makes other tables; what is remembered of a handle is then outdated. As long as no
    outdated handle is used before it was marked, or all were, a call finds the hooks that it would find
    without any memory, and a library's name is asked for when nothing is known of its handle, and only then.
    Who is asked for a name may enter the engine before giving it. -/

namespace TrapHooks

variable {ρ : Type}

/-- The names of the libraries, and the handles of which something outdated is remembered. -/
structure Naming where
  names : UInt16 → Option String
  outdated : UInt16 → Bool

namespace Naming

/-- A handle gets another name. -/
def rename (refnum : UInt16) (name : Option String) (e : Engine ρ) (w : Naming) : Naming where
  names r := if r = refnum then name else w.names r
  outdated r := w.outdated r || (r == refnum && (e.libraries.find? r).isSome)

/-- What the changes of a stage make of the names and of what is remembered of them. -/
def after (s : Stage ρ) (e : Engine ρ) (w : Naming) : Naming :=
  match s with
  | .start => { w with outdated := fun r => w.outdated r || (e.libraries.find? r).isSome }
  | .markLibrary refnum => { w with outdated := fun r => w.outdated r && r != refnum }
  | .markLibraries | .reset | .dispose => { w with outdated := fun _ => false }
  | _ => w

end Naming

/-- Names change when it is not the engine's turn; the name of a library is told as it is then; and no
    handle is used while it is outdated. -/
def naming (ρ : Type) : Surrounding ρ Naming where
  Moves e w v := ∃ refnum name, v = w.rename refnum name e
  Replies
    | w, .libraryName refnum, name, v => name = w.names refnum ∧ v = w
    | w, _, _, v => v = w
  Lets w s next e v :=
    (∀ refnum, next = (fun e => (e.recallLibrary refnum).2) → w.outdated refnum = false) ∧ v = w.after s e

/-- The change neither learns of a library nor touches the registry. -/
def Change.IsLocal : Change ρ → Prop
  | learn _ _ | reload | dropTables => False
  | _ => True

/-! ### The invariant -/

/-- What is remembered is what would be found anew, but for the handles that are outdated. -/
structure Naming.Agrees (config : Config) (w : Naming) (e : Engine ρ) : Prop where
  config : e.config = config
  current : e.Current
  libraries : ∀ refnum table, w.outdated refnum = false → e.libraries.find? refnum = some table →
    table = (w.names refnum).bind e.registry.table?

namespace Naming.Agrees

variable {config : Config} {w v : Naming} {e : Engine ρ}

theorem fresh (config : Config) (registry : Registry ρ) (marks : Marks) (w : Naming) :
    w.Agrees config (Machine.fresh config registry marks).engine where
  config := rfl
  current := Engine.current_of_forgotten rfl rfl
  libraries r _ _ known := by cases (LibraryCache.find?_empty r).symm.trans known

theorem rename (agrees : w.Agrees config e) (refnum : UInt16) (name : Option String) :
    (w.rename refnum name e).Agrees config e where
  config := agrees.config
  current := agrees.current
  libraries r table current known := by
    have ⟨was, other⟩ : w.outdated r = false ∧ ¬r = refnum := by
      simpa [Naming.rename, known] using current
    rw [agrees.libraries r table was known]
    simp [Naming.rename, other]

theorem replies (agrees : w.Agrees config e) {r : Request} {reply : r.Reply}
    (replies : (naming ρ).Replies w r reply v) : v.Agrees config e := by
  have same : v = w := by
    cases r with
    | libraryName refnum => exact replies.2
    | _ => exact replies
  rwa [same]

/-- Handles may be taken for current once nothing is remembered of them. -/
theorem forgive (agrees : w.Agrees config e) {outdated : UInt16 → Bool}
    (forgotten : ∀ r, outdated r = false → w.outdated r = true → e.libraries.find? r = none) :
    Naming.Agrees config { w with outdated := outdated } e where
  config := agrees.config
  current := agrees.current
  libraries r table current known := by
    cases was : w.outdated r with
    | false => exact agrees.libraries r table was known
    | true =>
      rw [forgotten r current was] at known
      cases known

/-- Only what is learnt of a library, and what changes the registry, can leave something outdated behind. -/
theorem change (agrees : w.Agrees config e) {c : Change ρ} (isLocal : c.IsLocal) : w.Agrees config (c.apply e) := by
  have current : (c.apply e).Current := by
    refine agrees.current.change ?_ ?_
    · rintro rfl
      exact isLocal
    · rintro rfl
      exact isLocal
  cases c with
  | visit refnum =>
    refine ⟨agrees.config, current, fun r table was known => ?_⟩
    exact agrees.libraries r table was ((LibraryCache.find?_reach r refnum e.libraries).symm.trans known)
  | learn refnum name => exact isLocal.elim
  | reload => exact isLocal.elim
  | dropTables => exact isLocal.elim
  | markLibrary refnum =>
    refine ⟨agrees.config, current, fun r table was known => ?_⟩
    have known : (e.libraries.markDirty refnum).find? r = some table := known
    rw [LibraryCache.find?_markDirty] at known
    split at known
    · cases known
    · exact agrees.libraries r table was known
  | markLibraries =>
    refine ⟨agrees.config, current, fun r table was known => ?_⟩
    have known : e.libraries.markAllDirty.find? r = some table := known
    rw [LibraryCache.find?_markAllDirty] at known
    cases known
  | reset =>
    refine ⟨agrees.config, current, fun r table was known => ?_⟩
    cases (LibraryCache.find?_empty r).symm.trans known
  | evict =>
    refine ⟨agrees.config, current, fun r table was known => ?_⟩
    cases (LibraryCache.find?_empty r).symm.trans known
  | _ => exact ⟨agrees.config, current, agrees.libraries⟩

/-- A library is learnt under the name that it has. -/
theorem learn (agrees : w.Agrees config e) (refnum : UInt16) :
    w.Agrees config (e.learnLibrary refnum (w.names refnum)).2 where
  config := agrees.config
  current := ⟨agrees.current.system, agrees.current.protocol⟩
  libraries r table was known := by
    have known : (e.libraries.refresh refnum ((w.names refnum).bind e.registry.table?)).find? r = some table := known
    rw [LibraryCache.find?_refresh] at known
    split at known
    · rename_i here
      rw [← here]
      exact (Option.some.inj known).symm
    · exact agrees.libraries r table was known

end Naming.Agrees

/-! ### Look-ups -/

/-- The handles for whose names a task has asked. -/
def namesAsked (actions : List (Action ρ)) : List UInt16 :=
  actions.filterMap fun
    | .replied (.libraryName refnum) _ => some refnum
    | _ => none

/-- The call's trap word is one of the system's. -/
def Call.IsSystem (call : Call) : Prop :=
  0xA000 ≤ call.trap.toNat ∧ call.trap.toNat < 0xA800

instance (call : Call) : Decidable call.IsSystem :=
  inferInstanceAs (Decidable (_ ∧ _))

/-- The call is neither one of the system nor one of the protocol, and carries this handle. -/
structure Call.IsLibrary (mark : UInt32) (refnum : UInt16) (call : Call) : Prop where
  other : ¬call.IsSystem
  unmarked : call.extra ≠ mark
  handle : call.extra.toNat = refnum.toNat

/-- The hooks are what a table has under a number, each known by the table's name and that number; without a table
    there are none. -/
structure Hooks.AreAt (table : Option (HookTable ρ)) (index : UInt16) (hooks : Hooks ρ) : Prop where
  head : ∀ hook, hooks.head = some hook ↔ ∃ t r, table = some t ∧ t.heads[index]? = some r ∧ hook = ⟨t.name, index, r⟩
  tail : ∀ hook, hooks.tail = some hook ↔ ∃ t r, table = some t ∧ t.tails[index]? = some r ∧ hook = ⟨t.name, index, r⟩

/-- The hooks that a call is to have, with these names of libraries and these tables: a call of the system has them in
    the table that the settings name for it, whatever else it carries; then comes the mark of the protocol, then the
    library's name; and a number that is no handle leads nowhere. -/
structure Naming.Gives (config : Config) (w : Naming) (registry : Registry ρ) (call : Call) (hooks : Hooks ρ) :
    Prop where
  system : call.IsSystem → hooks.AreAt registry.tables[config.systemTable]? call.index
  protocol : ¬call.IsSystem → call.extra = config.protocolMark →
    hooks.AreAt registry.tables[config.protocolTable]? call.index
  library : ∀ refnum, call.IsLibrary config.protocolMark refnum →
    hooks.AreAt ((w.names refnum).bind fun name => registry.tables[name]?) call.index
  nowhere : ¬call.IsSystem → call.extra ≠ config.protocolMark → 2 ^ 16 ≤ call.extra.toNat →
    hooks.head = none ∧ hooks.tail = none

/-- What a look-up of a call does: for a library it visits what is remembered of its handle, and asks for its
    name, once, if that is nothing; for anything else it asks for no name and leaves that memory alone. -/
structure LooksUp (mark : UInt32) (call : Call) (actions : List (Action ρ)) : Prop where
  library : ∀ refnum, call.IsLibrary mark refnum →
    ∃ e later, actions = .changed e e :: .changed e (e.recallLibrary refnum).2 :: later ∧
      namesAsked later = if e.libraries.find? refnum = none then [refnum] else []
  other : (∀ refnum, ¬call.IsLibrary mark refnum) →
    namesAsked actions = [] ∧ ∀ before after, .changed before after ∈ actions → after.libraries = before.libraries

namespace Call

variable {mark : UInt32} {call : Call} {refnum : UInt16}

theorem isSystem_iff : Trap.isSystem call.trap = true ↔ call.IsSystem := by
  rw [Trap.isSystem, decide_eq_true_iff, UInt16.lt_iff_toNat_lt, Trap.systemIndex, UInt16.toNat_sub]
  have bound := call.trap.toNat_lt
  simp only [Trap.systemBase, Trap.libraryBase, IsSystem, UInt16.reduceSub, UInt16.reduceToNat]
  omega

theorem home_eq_system (system : call.IsSystem) : call.home mark = .system := if_pos (isSystem_iff.mpr system)

theorem home_of_not_system (other : ¬call.IsSystem) : call.home mark =
    if call.extra = mark then .protocol
    else if call.extra.toNat < UInt16.size then .library call.extra.toUInt16
    else .nowhere :=
  if_neg fun system => other (isSystem_iff.mp system)

theorem home_eq_library_iff : call.home mark = .library refnum ↔ call.IsLibrary mark refnum := by
  refine ⟨fun home => ?_, fun library => ?_⟩
  · have other : ¬call.IsSystem := fun system => by simp [home_eq_system system] at home
    rw [home_of_not_system other] at home
    split at home
    · cases home
    · rename_i unmarked
      split at home
      · rename_i handle
        cases home
        exact ⟨other, unmarked, (Nat.mod_eq_of_lt handle).symm⟩
      · cases home
  · have handle : call.extra.toNat < UInt16.size := library.handle ▸ refnum.toNat_lt
    rw [home_of_not_system library.other, if_neg library.unmarked, if_pos handle]
    exact congrArg _ (UInt16.toNat_inj.mp ((Nat.mod_eq_of_lt handle).trans library.handle))

end Call

theorem HookTable.hooks_areAt (table : Option (HookTable ρ)) (index : UInt16) :
    Hooks.AreAt table index ((table.map (·.hooks index)).getD {}) := by
  cases table with
  | none => exact ⟨by simp, by simp⟩
  | some t => exact ⟨by simp [hooks, head?_eq_some_iff], by simp [hooks, tail?_eq_some_iff]⟩

/-- What is found without any memory is what the call is to have. -/
theorem Engine.gives_hooksOf (e : Engine ρ) (w : Naming) (call : Call) :
    w.Gives e.config e.registry call (e.hooksOf w.names call) where
  system system := by
    rw [hooksOf, tableOf, Call.home_eq_system system]
    exact HookTable.hooks_areAt ..
  protocol other marked := by
    rw [hooksOf, tableOf, Call.home_of_not_system other, if_pos marked]
    exact HookTable.hooks_areAt ..
  library refnum library := by
    rw [hooksOf, tableOf_library (Call.home_eq_library_iff.mpr library)]
    exact HookTable.hooks_areAt ..
  nowhere other unmarked beyond := by
    rw [hooksOf, tableOf, Call.home_of_not_system other, if_neg unmarked,
      if_neg (show ¬call.extra.toNat < UInt16.size from Nat.not_lt.mpr beyond)]
    exact ⟨rfl, rfl⟩

theorem LooksUp.of_library {mark : UInt32} {call : Call} {refnum : UInt16} {e : Engine ρ} {later : List (Action ρ)}
    (home : call.home mark = .library refnum)
    (asked : namesAsked later = if e.libraries.find? refnum = none then [refnum] else []) :
    LooksUp mark call (.changed e e :: .changed e (e.recallLibrary refnum).2 :: later) where
  library refnum' library := by
    obtain rfl : refnum = refnum' := Call.Home.library.inj (home.symm.trans (Call.home_eq_library_iff.mpr library))
    exact ⟨e, later, rfl, asked⟩
  other none := absurd (Call.home_eq_library_iff.mp home) (none refnum)

theorem LooksUp.of_other {mark : UInt32} {call : Call} {actions : List (Action ρ)}
    (home : ∀ refnum, call.home mark ≠ .library refnum) (unasked : namesAsked actions = [])
    (kept : ∀ before after, .changed before after ∈ actions → after.libraries = before.libraries) :
    LooksUp mark call actions where
  library refnum library := absurd (Call.home_eq_library_iff.mpr library) (home refnum)
  other _ := ⟨unasked, kept⟩

namespace Engine

open Program

variable {config : Config} {s : Stage ρ} {did : List (Action ρ)} {e : Engine ρ} {w : Naming}

theorem secures_libraryTable (quiet : ∀ (e : Engine ρ) (w : Naming), w.after s e = w) (agrees : w.Agrees config e)
    (refnum : UInt16) :
    (libraryTable refnum).Secures (naming ρ) s (fun e w => w.Agrees config e)
      (fun did' table e' w' => w'.Agrees config e' ∧ table = (w'.names refnum).bind e'.registry.table? ∧
        ∃ later, did' = did ++ .changed e (e.recallLibrary refnum).2 :: later ∧
          namesAsked later = if e.libraries.find? refnum = none then [refnum] else [])
      did e w := by
  refine secures_modifyGet fun v lets => ?_
  obtain ⟨current, rfl⟩ := lets
  have current := current refnum rfl
  rw [quiet]
  have agrees' : w.Agrees config (e.recallLibrary refnum).2 := agrees.change (c := .visit refnum) trivial
  cases known : e.libraries.find? refnum with
  | some table =>
    rw [show (e.recallLibrary refnum).1 = some table from known]
    exact ⟨agrees', agrees.libraries refnum table current known, [], rfl, rfl⟩
  | none =>
    rw [show (e.recallLibrary refnum).1 = none from known]
    -- The name is told after others may have changed everything, and is learnt at once.
    refine ⟨agrees', fun name e' w' v agrees'' replies v' lets => ?_⟩
    obtain ⟨rfl, rfl⟩ := replies
    obtain ⟨-, rfl⟩ := lets
    rw [quiet]
    let learnt := e'.learnLibrary refnum (v.names refnum)
    refine ⟨agrees''.learn refnum, rfl, [.replied (.libraryName refnum) (v.names refnum), .changed e' learnt.2,
      .told (.libraryRefreshed refnum (v.names refnum) learnt.1.isSome)], ?_, rfl⟩
    simp only [List.append_assoc]
    rfl

theorem secures_findTable (quiet : ∀ (e : Engine ρ) (w : Naming), w.after s e = w) (agrees : w.Agrees config e)
    (call : Call) :
    (findTable call).Secures (naming ρ) s (fun e w => w.Agrees config e)
      (fun did' table e' w' => w'.Agrees config e' ∧ table = e'.tableOf w'.names call ∧
        ∃ actions, did' = did ++ actions ∧ LooksUp config.protocolMark call actions)
      did e w := by
  refine secures_get fun v lets => ?_
  obtain ⟨-, rfl⟩ := lets
  rw [quiet, agrees.config]
  -- A look-up that is not one of a library makes two changes at most, and neither touches the libraries.
  have kept {e' : Engine ρ} (same : e'.libraries = e.libraries) (before after : Engine ρ)
      (member : .changed before after ∈ [.changed e e] ++ [Action.changed e e']) :
      after.libraries = before.libraries := by
    rcases List.mem_append.mp member with member | member
    · cases List.mem_singleton.mp member
      rfl
    · cases List.mem_singleton.mp member
      exact same
  cases home : call.home config.protocolMark with
  | system =>
    intro v lets
    obtain ⟨-, rfl⟩ := lets
    rw [quiet]
    have plain : e.findSystem.2.tableOf w.names call = e.registry.table? e.config.systemTable := by
      simp only [tableOf, findSystem, agrees.config, home]
    exact ⟨agrees.change (c := .findSystem) trivial, agrees.current.findSystem_eq.trans plain.symm, _,
      List.append_assoc .., .of_other (by simp [home]) rfl (kept rfl)⟩
  | protocol =>
    intro v lets
    obtain ⟨-, rfl⟩ := lets
    rw [quiet]
    have plain : e.findProtocol.2.tableOf w.names call = e.registry.table? e.config.protocolTable := by
      simp only [tableOf, findProtocol, agrees.config, home]
    exact ⟨agrees.change (c := .findProtocol) trivial, agrees.current.findProtocol_eq.trans plain.symm, _,
      List.append_assoc .., .of_other (by simp [home]) rfl (kept rfl)⟩
  | library refnum =>
    refine (secures_libraryTable quiet agrees refnum).mono fun did' table e' w' post => ?_
    obtain ⟨agrees', found, later, rfl, asked⟩ := post
    have home' : call.home e'.config.protocolMark = .library refnum := by rw [agrees'.config, home]
    exact ⟨agrees', found.trans (tableOf_library home').symm, _, List.append_assoc .., .of_library home asked⟩
  | nowhere =>
    have plain : e.tableOf w.names call = none := by simp only [tableOf, agrees.config, home]
    refine ⟨agrees, plain.symm, _, rfl, .of_other (by simp [home]) rfl fun before after member => ?_⟩
    cases List.mem_singleton.mp member
    rfl

/-- A look-up gives what is found without any memory, and asks as it should. -/
theorem secures_resolve (quiet : ∀ (e : Engine ρ) (w : Naming), w.after s e = w) (agrees : w.Agrees config e)
    (call : Call) :
    (resolve call).Secures (naming ρ) s (fun e w => w.Agrees config e)
      (fun did' hooks e' w' => w'.Agrees config e' ∧ hooks = e'.hooksOf w'.names call ∧
        ∃ actions, did' = did ++ actions ∧ LooksUp config.protocolMark call actions)
      did e w := by
  refine secures_bind ((secures_findTable quiet agrees call).mono fun did' table e' w' post => ?_)
  obtain ⟨agrees', rfl, looked⟩ := post
  exact ⟨agrees', rfl, looked⟩

/-! ### Stages -/

theorem secures_of_makes {α : Type} {P : Change ρ → Prop} {p : Program ρ α} (makes : p.Makes P)
    (isLocal : ∀ c, P c → c.IsLocal) (quiet : ∀ (e : Engine ρ) (w : Naming), w.after s e = w)
    (agrees : w.Agrees config e) :
    p.Secures (naming ρ) s (fun e w => w.Agrees config e) (fun _ _ e w => w.Agrees config e) did e w := by
  refine makes.secures (fun c made next e w v _ agrees lets => ?_) (fun r reply e w v agrees => agrees.replies) agrees
  obtain ⟨-, rfl⟩ := lets
  rw [quiet]
  exact agrees.change (isLocal c made)

theorem secures_prepare (quiet : ∀ (e : Engine ρ) (w : Naming), w.after s e = w) (agrees : w.Agrees config e)
    (call : Call) :
    (prepare call).Secures (naming ρ) s (fun e w => w.Agrees config e)
      (fun did' hooks e' w' => w'.Agrees config e' ∧ hooks = e'.hooksOf w'.names call ∧
        ∃ earlier actions, did' = earlier ++ actions ∧ LooksUp config.protocolMark call actions) did e w := by
  have reads (c : Change ρ) (read : c = .read) : c.IsLocal := by
    subst read
    trivial
  refine secures_bind ((secures_of_makes makes_bootstrapIfDue reads quiet agrees).mono fun did _ e w agrees => ?_)
  refine (secures_resolve quiet agrees call).mono fun did' hooks e' w' post => ?_
  obtain ⟨agrees', found, actions, rfl, looked⟩ := post
  exact ⟨agrees', found, did, actions, rfl, looked⟩

/-- A part of loading that neither learns of a library nor touches the registry. -/
theorem secures_loadPart {file : SessionFile} {α : Type} {p : Program ρ α} (makes : p.Makes Change.IsLocal)
    (agrees : w.Agrees config e) :
    p.Secures (naming ρ) (.load file) (fun e w => w.Agrees config e) (fun _ _ e w => w.Agrees config e) did e w :=
  secures_of_makes makes (fun _ isLocal => isLocal) (fun _ _ => rfl) agrees

theorem secures_restoreTails {file : SessionFile} (l : List SavedTail) (agrees : w.Agrees config e) :
    (l.forM restoreTail).Secures (naming ρ) (.load file) (fun e w => w.Agrees config e)
      (fun _ _ e w => w.Agrees config e) did e w := by
  induction l generalizing did e w with
  | nil => exact agrees
  | cons saved l ih =>
    -- Each record's hooks are looked up, and others may come in between.
    refine secures_bind ?_
    refine secures_bind ((secures_resolve (fun _ _ => rfl) agrees saved.call).mono fun did hooks e w post => ?_)
    refine (secures_loadPart ?_ post.1).mono fun did _ e w agrees => ih agrees
    dsimp only
    split
    · exact makes_bind (makes_notice _) fun _ => makes_putBack trivial
    · exact makes_putBack trivial

theorem secures_load (file : SessionFile) (agrees : w.Agrees config e) :
    (load file).Secures (naming ρ) (.load file) (fun e w => w.Agrees config e) (fun _ _ e w => w.Agrees config e)
      did e w := by
  unfold load
  cases file.chunk with
  | none => exact secures_loadPart (makes_bind (makes_notice _) fun _ => makes_pure _) agrees
  | some bytes =>
    dsimp only
    cases Chunk.decode bytes with
    | error e => exact agrees
    | ok chunk =>
      have last {did : List (Action ρ)} {e : Engine ρ} {w : Naming} (agrees : w.Agrees config e) :
          (do
            notice (.loaded chunk.version (← get).returns.records.size)
            return (file, .ok ()) : Program ρ (SessionFile × Except ChunkError Unit)).Secures (naming ρ) (.load file)
              (fun e w => w.Agrees config e) (fun _ _ e w => w.Agrees config e) did e w :=
        secures_loadPart (makes_bind (makes_get trivial) fun _ => makes_bind (makes_notice _) fun _ => makes_pure _)
          agrees
      dsimp only
      split
      · refine secures_bind (secures_bind ?_)
        refine (secures_loadPart (makes_modify (c := .evict) trivial fun _ => rfl) agrees).mono
          fun did _ e w agrees => ?_
        refine secures_bind ((secures_restoreTails chunk.tails agrees).mono fun did _ e w agrees => ?_)
        exact (secures_loadPart (makes_modify (c := .edit fun _ => chunk.state) trivial fun _ => rfl) agrees).mono
          fun did _ e w agrees => last agrees
      · exact last agrees

end Engine

/-- A look-up gives the hooks that there are at its end, and asks as it should. -/
def Naming.Found (config : Config) : StagePost ρ Naming
  | .resolve call, did, hooks, e, w => w.Gives config e.registry call hooks ∧ LooksUp config.protocolMark call did
  | .dispatch call, did, hooks, e, w =>
    w.Gives config e.registry call hooks ∧
      ∃ earlier later, did = earlier ++ later ∧ LooksUp config.protocolMark call later
  | _, _, _, _, _ => True

theorem Stage.secures_naming (config : Config) (s : Stage ρ) :
    s.Secures (naming ρ) (fun e w => w.Agrees config e) (Naming.Found config) := by
  intro e w agrees
  have plain {s : Stage ρ} (isLocal : ∀ c, s.Permits c → c.IsLocal)
      (quiet : ∀ (e : Engine ρ) (w : Naming), w.after s e = w)
      (nothing : ∀ did a (e : Engine ρ) w, Naming.Found config s did a e w) :
      s.program.Secures (naming ρ) s (fun e w => w.Agrees config e)
        (fun did a e w => w.Agrees config e ∧ Naming.Found config s did a e w) [] e w :=
    (Engine.secures_of_makes s.makes_program isLocal quiet agrees).mono fun did a e w agrees =>
      ⟨agrees, nothing did a e w⟩
  cases s with
  | resolve call =>
    refine (Engine.secures_resolve (fun _ _ => rfl) agrees call).mono fun did hooks e w post => ?_
    obtain ⟨agrees, rfl, actions, rfl, looked⟩ := post
    exact ⟨agrees, agrees.config ▸ e.gives_hooksOf w call, looked⟩
  | dispatch call =>
    refine (Engine.secures_prepare (fun _ _ => rfl) agrees call).mono fun did hooks e w post => ?_
    obtain ⟨agrees, rfl, looked⟩ := post
    exact ⟨agrees, agrees.config ▸ e.gives_hooksOf w call, looked⟩
  | load file => exact (Engine.secures_load file agrees).mono fun _ _ _ _ agrees => ⟨agrees, trivial⟩
  | start =>
    -- What is remembered of libraries is outdated from the moment at which the tables are made anew.
    intro v lets v' lets'
    obtain ⟨-, rfl⟩ := lets
    obtain ⟨-, rfl⟩ := lets'
    refine Program.secures_forM_notice e.reload.registry.tables.toList (fun x => .tableLoaded x.1 x.2.size) ?_ _
    intro did v lets
    obtain ⟨-, rfl⟩ := lets
    refine ⟨⟨agrees.config, Engine.current_of_forgotten rfl rfl, fun r table current known => ?_⟩, trivial⟩
    have known : e.libraries.find? r = some table := known
    have unknown : (e.libraries.find? r).isSome = false := (Bool.or_eq_false_iff.mp current).2
    rw [known] at unknown
    cases unknown
  | dispose =>
    intro v lets v' lets'
    obtain ⟨-, rfl⟩ := lets
    obtain ⟨-, rfl⟩ := lets'
    refine ⟨⟨agrees.config, Engine.current_of_forgotten rfl rfl, fun r table _ known => ?_⟩, trivial⟩
    cases (LibraryCache.find?_empty r).symm.trans known
  | reset =>
    intro v lets
    obtain ⟨-, rfl⟩ := lets
    refine ⟨(agrees.change (c := .reset) trivial).forgive fun r _ _ => ?_, trivial⟩
    exact LibraryCache.find?_empty r
  | markLibrary refnum =>
    intro v lets
    obtain ⟨-, rfl⟩ := lets
    refine ⟨(agrees.change (c := .markLibrary refnum) trivial).forgive fun r current was => ?_, trivial⟩
    have here : (w.outdated r && r != refnum) = false := current
    rw [was, Bool.true_and, bne_eq_false_iff_eq] at here
    exact (LibraryCache.find?_markDirty r refnum e.libraries).trans (if_pos here.symm)
  | markLibraries =>
    intro v lets
    obtain ⟨-, rfl⟩ := lets
    refine ⟨(agrees.change (c := .markLibraries) trivial).forgive fun r _ _ => ?_, trivial⟩
    exact LibraryCache.find?_markAllDirty r e.libraries
  | handle call hooks =>
    refine plain (fun c permitted => ?_) (fun _ _ => rfl) fun _ _ _ _ => trivial
    cases c <;> trivial
  | conclude call hooks decision =>
    refine plain (fun c permitted => ?_) (fun _ _ => rfl) fun _ _ _ _ => trivial
    obtain ⟨tail, -, -, rfl⟩ := permitted
    trivial
  | returned => exact plain (fun c permitted => permitted.elim) (fun _ _ => rfl) fun _ _ _ _ => trivial
  | _ =>
    refine plain (fun c permitted => ?_) (fun _ _ => rfl) fun _ _ _ _ => trivial
    obtain rfl := permitted
    trivial

/-! ### Runs -/

/-- Names change as they like, and no handle is used while something outdated is remembered of it. Then each
    call has, at the end of its look-up, the hooks that its table has in the registry, under the name in the
    settings or the name that its library has now; a look-up asks for the name of a library if nothing is
    known of its handle, once, and for no other name; and whenever others can meet the engine, a call whose
    handle is not outdated is looked up to its end with these hooks. -/
theorem Naming.resolve_hooksOf {config : Config} {registry : Registry ρ} {marks : Marks} {w v : Naming}
    {trace : List (Moment ρ)} {m : Machine ρ}
    (run : (naming ρ).Run (.fresh config registry marks) w trace m v) :
    (∀ call hooks done n, m.Step (.finished (.resolve call) hooks done) n →
      v.Gives config m.engine.registry call hooks ∧ LooksUp config.protocolMark call done) ∧
    (∀ call hooks done n, m.Step (.finished (.dispatch call) hooks done) n →
      v.Gives config m.engine.registry call hooks ∧
        ∃ earlier later, done = earlier ++ later ∧ LooksUp config.protocolMark call later) ∧
    (m.AtRest → ∀ call, ∀ answers : Program.Answers ρ, answers.names = v.names →
      (∀ refnum, call.IsLibrary config.protocolMark refnum → v.outdated refnum = false) →
      ∃ hooks e', (Engine.resolve call).alone answers m.engine = some (hooks, e') ∧
        v.Gives config m.engine.registry call hooks) := by
  have secured := run.secured_of_fresh (Stage.secures_naming config)
    (fun e w v agrees => by rintro ⟨refnum, name, rfl⟩; exact agrees.rename refnum name)
    (Naming.Agrees.fresh config registry marks w)
  refine ⟨fun call hooks done n step => secured.finished step, fun call hooks done n step => secured.finished step,
    fun rests call answers names current => ?_⟩
  have agrees := secured.holds rests
  obtain ⟨e', found, -⟩ := agrees.current.resolve_alone answers call
  refine ⟨_, e', found, ?_⟩
  rw [names, Engine.hooksFound_eq_hooksOf]
  · exact agrees.config ▸ m.engine.gives_hooksOf v call
  · intro refnum table home known
    rw [agrees.config] at home
    exact agrees.libraries refnum table (current refnum (Call.home_eq_library_iff.mp home)) known

/-- Nothing is outdated, and a call is looked up with nobody in between. -/
theorem Naming.run_resolve {m n : Machine ρ} {w v : Naming} {trace : List (Moment ρ)}
    (run : (naming ρ).Run m w trace n v) (rests : n.AtRest) (current : v.outdated = fun _ => false) (call : Call)
    {answers : Program.Answers ρ} (names : answers.names = v.names) {hooks : Hooks ρ} {e : Engine ρ}
    (found : (Engine.resolve call).alone answers n.engine = some (hooks, e)) :
    ∃ trace' done, (naming ρ).Run m w trace' ⟨e, ⟨.resolve call, .done hooks, done⟩ :: n.tasks⟩ v := by
  refine run.stage (s := .resolve call) rfl rests found (fun next e => ⟨fun refnum _ => ?_, rfl⟩) fun r => ?_
  · rw [current]
  · cases r with
    | libraryName refnum => exact ⟨congrFun names refnum, rfl⟩
    | _ => rfl

theorem Naming.run_markLibrary {m n : Machine ρ} {w v : Naming} {trace : List (Moment ρ)}
    (run : (naming ρ).Run m w trace n v) (rests : n.AtRest) (refnum : UInt16) :
    ∃ trace', (naming ρ).Run m w trace' ⟨(Change.markLibrary refnum).apply n.engine, n.tasks⟩
      (v.after (.markLibrary refnum) n.engine) := by
  have entered := run.snoc (.enter n (.markLibrary refnum) rfl rests) rfl
  have acted := entered.snoc (.act (.change n.engine _ _) [] n.tasks) ⟨_, ⟨_, [], n.tasks, rfl⟩, fun r same => ?_, rfl⟩
  · exact ⟨_, acted.snoc (.finish _ (.markLibrary refnum) _ _ n.tasks) rfl⟩
  · -- A mark gives no handle a slot.
    have slots := congrArg (fun e : Engine ρ => e.libraries.size) (congrFun same {})
    have slots : ({} : LibraryCache ρ).size = (({} : LibraryCache ρ).reach r).size := slots
    rw [LibraryCache.size_reach, LibraryCache.size_empty] at slots
    omega

/-- A library is looked up and remembered, its handle goes to another library and is marked, and the next
    look-up finds the other one's hooks. -/
theorem Naming.resolve_hooksOf_renamed :
    ∃ (registry : Registry Unit) (w v : Naming) (trace : List (Moment Unit)) (m n : Machine Unit) (call : Call)
      (hooks : Hooks Unit) (done : List (Action Unit)),
      (naming Unit).Run (.fresh {} registry ∅) w trace m v ∧ w.names 7 = some "Old.lib" ∧
      v.names 7 = some "New.lib" ∧ m.Step (.finished (.resolve call) hooks done) n ∧
      hooks.head = some ⟨"New.lib", 5, .noteEventTrap⟩ ∧ hooks.tail = some ⟨"New.lib", 5, ()⟩ := by
  let table : HookTable Unit := (HookTable.withTail 5 () { name := "New.lib" }).withHead 5 .noteEventTrap
  let registry : Registry Unit := { tables := (∅ : Std.ExtTreeMap String (HookTable Unit)).insert "New.lib" table }
  let call : Call := { returnPc := 0x1002, trap := 0xA805, index := 5, extra := 7 }
  let old : Naming := ⟨fun _ => some "Old.lib", fun _ => false⟩
  let new : Naming := ⟨fun r => if r = 7 then some "New.lib" else some "Old.lib", fun _ => false⟩
  let start : Machine Unit := .fresh {} registry ∅
  have rests : start.AtRest := Machine.atRest_of_idle rfl
  obtain ⟨before, names⟩ := Program.Answers.exists_names (ρ := Unit) old.names
  obtain ⟨after, names'⟩ := Program.Answers.exists_names (ρ := Unit) new.names
  -- The library is looked up under its old name.
  have current : start.engine.Current := Engine.current_of_forgotten rfl rfl
  obtain ⟨e, found, current, unchanged, -⟩ := current.resolve_alone before call
  obtain ⟨_, did, run⟩ := Naming.run_resolve (w := old) .nil rests rfl call names found
  have run := run.snoc (.finish e (.resolve call) _ did []) rfl
  -- Its handle goes to another library, and is marked.
  have rests : (Machine.mk e []).AtRest := Machine.atRest_of_idle rfl
  obtain ⟨_, run⟩ := Naming.run_markLibrary (run.move rests ⟨7, some "New.lib", rfl⟩) rests 7
  have renamed : Naming.after (.markLibrary 7) e (old.rename 7 (some "New.lib") e) = new := by
    rw [Naming.after, Naming.rename]
    congr 1
    funext r
    by_cases here : r = 7 <;> simp [here, old]
  rw [renamed] at run
  -- The library is looked up under its new name.
  let marked : Engine Unit := (Change.markLibrary 7).apply e
  have current : marked.Current := ⟨current.system, current.protocol⟩
  obtain ⟨e', found', -, unchanged', -⟩ := current.resolve_alone after call
  have rests : (Machine.mk marked []).AtRest := Machine.atRest_of_idle rfl
  obtain ⟨_, did', run⟩ := Naming.run_resolve run rests rfl call names' found'
  have step : Machine.Step _ (.finished (.resolve call) (marked.hooksFound after.names call) did') _ :=
    .finish e' (.resolve call) _ did' []
  have gives := ((Naming.resolve_hooksOf run).1 call _ did' _ step).1
  have tables : e'.registry.tables["New.lib"]? = some table := by
    rw [unchanged'.registry.trans unchanged.registry]
    simp [start, Machine.fresh, registry]
  have finds := gives.library 7 ⟨by decide, by decide, rfl⟩
  refine ⟨registry, old, new, _, _, _, call, _, did', run, rfl, rfl, step, ?_, ?_⟩
  · exact (finds.head _).mpr ⟨table, .noteEventTrap, tables, Std.ExtTreeMap.getElem?_insert_self .., rfl⟩
  · exact (finds.tail _).mpr ⟨table, (), tables, Std.ExtTreeMap.getElem?_insert_self .., rfl⟩

end TrapHooks
