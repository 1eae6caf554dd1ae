import TrapHooks.Proofs.Run.History
import TrapHooks.Proofs.Session.Reload

/-! Loads that take nothing over. A chunk that cannot be read is refused as a whole, a chunk of a version without
    records leaves nothing to do, and a file without a chunk has nothing to give. Such a load asks nobody, so nobody
    comes between, and the engine is met after it as it was before. For a file without a chunk that is too little:
    what an earlier session left in the engine is met by the new one. -/

namespace TrapHooks

variable {ρ α β : Type}

/-- Nobody is asked for it, and the engine stays as it is. -/
def Action.Still : Action ρ → Prop
  | changed before after => after = before
  | told _ => True
  | _ => False

namespace Program

/-- The program asks nobody, and leaves the engine as it is. -/
def Still : Program ρ α → Prop
  | done _ => True
  | step next rest => ∀ e, next e = e ∧ (rest e).Still
  | tell _ rest => rest.Still
  | _ => False

theorem Still.not_waits {p : Program ρ α} (still : p.Still) : ¬p.Waits := by
  intro waits
  cases p with
  | ask r rest => exact still
  | runHead routine call rest => exact still
  | runTail routine call rest => exact still
  | _ => exact waits

theorem Acts.still {e e' : Engine ρ} {p p' : Program ρ α} {action : Action ρ} (acts : p.Acts e action e' p')
    (still : p.Still) : action.Still ∧ e' = e ∧ p'.Still := by
  cases acts with
  | change next rest =>
    obtain ⟨same, later⟩ := still e
    exact ⟨same, same, later⟩
  | notice n rest => exact ⟨trivial, rfl, still⟩
  | _ => exact still.elim

theorem Still.yields {p : Program ρ α} (still : p.Still) (e : Engine ρ) :
    ∃ did a, p.Yields e did e a := by
  induction p with
  | done a => exact ⟨[], a, .done e a⟩
  | step next rest ih =>
    obtain ⟨same, later⟩ := still e
    obtain ⟨did, a, yields⟩ := ih e later
    exact ⟨_, a, .act (.change e next rest) (by rw [same]; exact yields)⟩
  | tell n rest ih =>
    obtain ⟨did, a, yields⟩ := ih still
    exact ⟨_, a, .act (.notice e n rest) yields⟩
  | _ => exact still.elim

end Program

/-! ### Stages that pass -/

/-- If the stage is entered here, it comes to its end by itself and with this result. Whatever is done until then
    is still, and then the machine is as it was. -/
structure Machine.Passes (m : Machine ρ) (s : Stage ρ) (result : s.Result) : Prop where
  ends : ∃ trace did, Run m trace m ∧
    trace.map (·.event) = .entered s :: did.map (.acted s) ++ [.finished s result did]
  always : ∀ trace n, Run ⟨m.engine, .begin s :: m.tasks⟩ trace n → ∃ did, (∀ action ∈ did, action.Still) ∧
    (n.engine = m.engine ∧ trace.map (·.event) = did.map (.acted s) ∨
      ∃ first x later, trace = first ++ x :: later ∧ first.map (·.event) = did.map (.acted s) ∧
        x.event = .finished s result did ∧ x.after = m)

/-- Nobody comes between the moments of a still stage. -/
theorem Run.of_still {m n : Machine ρ} {s : Stage ρ} {trace : List (Moment ρ)} (still : s.program.Still)
    (last : ∀ result, s.next result = none) (run : Run ⟨m.engine, .begin s :: m.tasks⟩ trace n) :
    ∃ did rest, s.program.Does did rest ∧ (∀ action ∈ did, action.Still) ∧
      (n = ⟨m.engine, ⟨s, rest, did⟩ :: m.tasks⟩ ∧ rest.Still ∧ trace.map (·.event) = did.map (.acted s) ∨
        ∃ result first x later, rest = .done result ∧ trace = first ++ x :: later ∧
          first.map (·.event) = did.map (.acted s) ∧ x.event = .finished s result did ∧ x.after = m) := by
  induction run with
  | nil => exact ⟨[], s.program, .nil _, by simp, .inl ⟨rfl, still, rfl⟩⟩
  | @snoc trace k l event run step ih =>
    obtain ⟨did, rest, does, quiet,
      ⟨rfl, waits, events⟩ | ⟨result, first, x, later, ends, rfl, events, last, same⟩⟩ := ih
    · cases step with
      | enter m s' entry rests => exact absurd (rests _ rfl) waits.not_waits
      | act acts done below =>
        obtain ⟨quiet', rfl, later⟩ := acts.still waits
        refine ⟨did ++ [_], _, does.snoc acts, ?_, .inl ⟨rfl, later, by simp [events]⟩⟩
        exact List.forall_mem_append.mpr ⟨quiet, List.forall_mem_singleton.mpr quiet'⟩
      | finish e s result done below =>
        refine ⟨did, _, does, quiet, .inr ⟨result, trace, _, [], rfl, rfl, events, rfl, ?_⟩⟩
        simp [last]
    · exact ⟨did, rest, does, quiet, .inr ⟨result, first, x, later ++ [⟨event, l⟩], ends, by simp, events, last, same⟩⟩

theorem Machine.passes_of_still {m : Machine ρ} (rests : m.AtRest) {s : Stage ρ} (entry : s.isEntry) {result : s.Result}
    (still : s.program.Still) (last : ∀ result, s.next result = none)
    (gives : ∀ did a, s.program.Does did (.done a) → a = result) : m.Passes s result where
  ends := by
    obtain ⟨did, a, yields⟩ := still.yields m.engine
    obtain rfl := gives did a yields.does
    obtain ⟨trace, run, events, -⟩ := Run.stage entry rests yields
    rw [last] at run
    exact ⟨trace, did, run, events⟩
  always trace n run := by
    obtain ⟨did, rest, does, quiet, ⟨rfl, -, events⟩ | ⟨a, first, x, later, rfl, split, events, ends, same⟩⟩ :=
      run.of_still still last
    · exact ⟨did, quiet, .inl ⟨rfl, events⟩⟩
    · obtain rfl := gives did a does
      exact ⟨did, quiet, .inr ⟨first, x, later, split, events, ends, same⟩⟩

/-- Whoever has seen it through meets the machine as it was. -/
theorem Machine.Passes.after {m n : Machine ρ} {s : Stage ρ} {result result' : s.Result} {trace : List (Moment ρ)}
    {did : List (Action ρ)} (passes : m.Passes s result) (run : Run m trace n)
    (events : trace.map (·.event) = .entered s :: did.map (.acted s) ++ [.finished s result' did]) : n = m := by
  obtain ⟨entry, rest, rfl, entered, others⟩ := List.map_eq_cons_iff.mp events
  obtain ⟨front, back, rfl, acted, last⟩ := List.map_eq_append_iff.mp others
  obtain ⟨z, rfl, ended⟩ := List.map_eq_singleton_iff.mp last
  replace run : Run m ([] ++ entry :: (front ++ [z])) n := run
  obtain ⟨k, before, step⟩ := run.split
  obtain rfl := before.eq_of_nil
  have begins : entry.after = ⟨k.engine, .begin s :: k.tasks⟩ := by
    rw [entered] at step
    generalize entry.after = k' at step
    cases step
    rfl
  have goes := run.tail
  rw [begins] at goes
  obtain ⟨did', -, ⟨-, all⟩ | ⟨first, y, later, split, -, finished, passed⟩⟩ := passes.always _ _ goes
  · obtain ⟨action, -, acts⟩ := acted_of_map all (x := z) (by simp)
    rw [ended] at acts
    cases acts
  · rcases List.eq_nil_or_concat later with rfl | ⟨middle, last, rfl⟩
    · obtain ⟨-, same⟩ := List.append_inj' split rfl
      cases same
      obtain ⟨-, -, -, ends⟩ := goes.cut_last
      exact ends.symm.trans passed
    · rw [List.concat_eq_append, ← List.cons_append, ← List.append_assoc] at split
      obtain ⟨rfl, -⟩ := List.append_inj' split rfl
      obtain ⟨action, -, acts⟩ := acted_of_map acted (x := y) (by simp)
      rw [finished] at acts
      cases acts

/-! ### Loading -/

namespace Engine

open Program

theorem still_load_missing {file : SessionFile} (missing : file.chunk = none) : (load file : Program ρ _).Still := by
  unfold load
  rw [missing]
  trivial

theorem still_load_faulty {file : SessionFile} {bytes : List UInt8} {error : ChunkError}
    (stored : file.chunk = some bytes) (read : Chunk.decode bytes = .error error) :
    (load file : Program ρ _).Still := by
  unfold load
  simp only [stored, read]
  trivial

theorem still_load_bare {file : SessionFile} {bytes : List UInt8} {chunk : Chunk} (stored : file.chunk = some bytes)
    (read : Chunk.decode bytes = .ok chunk) (old : chunk.version ≤ 0) : (load file : Program ρ _).Still := by
  unfold load
  simp only [stored, read, Chunk.hasRecords_eq_false old]
  exact fun e => ⟨rfl, trivial⟩

/-- Nothing of an earlier session is left: no tail hook waits, no address at which one has waited is marked, and the
    guest state is at its defaults. -/
structure Renewed (before after : Engine ρ) : Prop where
  records : ∀ a, after.returns.get? a = none
  marks : ∀ a record, before.returns.get? a = some record → a ∉ after.returns.marks
  state : after.state = {}

end Engine

/-- An engine in which a tail hook waits for a return, and whose guest has started its user interface. -/
def Engine.used : Engine Unit :=
  let call : Call := { returnPc := 0x1002, trap := 0xA003, index := 3 }
  let tail : TailHook Unit := { table := "~system", index := 3, routine := () }
  { (Engine.onReturns (Returns.arm tail call) {}).2 with state := { uiReady := true } }

theorem Engine.reachable_used : Engine.used.Reachable := by
  let fresh : Machine Unit := .fresh {} {} ∅
  have idle : fresh.AtRest := Machine.atRest_of_idle rfl
  let call : Call := { returnPc := 0x1002, trap := 0xA003, index := 3 }
  let tail : TailHook Unit := { table := "~system", index := 3, routine := () }
  have counts : (fresh.engine.returns.arm tail call).1 ≠ .overflow :=
    Returns.arm_ne_overflow_of_none (Machine.get?_fresh ..)
  obtain ⟨trace, _, _, arms, -⟩ := Run.arming idle counts
  obtain ⟨answers, -⟩ := Program.Answers.exists_names (ρ := Unit) fun _ => none
  have armed : Engine.Reachable _ := ⟨{}, {}, ∅, trace, _, arms, idle, rfl⟩
  have edits : (Stage.edit fun _ => { uiReady := true }).program.alone answers _ = some ((), Engine.used) := rfl
  exact armed.alone rfl (fun _ => rfl) edits

/-- A chunk that cannot be read, wherever and however it is broken, is refused, and a chunk of a version without
    records is taken; neither load touches the engine or asks anybody. -/
theorem Machine.load_passes {m : Machine ρ} (rests : m.AtRest) {file : SessionFile} {bytes : List UInt8}
    (stored : file.chunk = some bytes) :
    (∀ error, Chunk.decode bytes = .error error →
        m.Passes (.load file) ({ file with canReload := false }, .error error)) ∧
      ∀ chunk, Chunk.decode bytes = .ok chunk → chunk.version ≤ 0 → m.Passes (.load file) (file, .ok ()) := by
  constructor
  · intro error read
    refine passes_of_still rests rfl (Engine.still_load_faulty stored read) (fun _ => rfl) fun did outcome does => ?_
    rw [Engine.does_load does, Engine.loadOutcome]
    simp only [stored, read]
  · intro chunk read old
    refine passes_of_still rests rfl (Engine.still_load_bare stored read old) (fun _ => rfl) fun did outcome does => ?_
    rw [Engine.does_load does, Engine.loadOutcome]
    simp only [stored, read]

/-- Whatever waits in the engine, it waits there still when a chunk was refused that breaks off in its first phase, and
    when a chunk of version 0 was taken. -/
theorem Machine.load_passes_used :
    Engine.used.Reachable ∧
      (Machine.mk Engine.used []).Passes (.load (.ofChunk [0, 0, 0, 5, 1]))
        ({ SessionFile.ofChunk [0, 0, 0, 5, 1] with canReload := false }, .error .truncated) ∧
      (Machine.mk Engine.used []).Passes (.load (.ofChunk [0, 0, 0, 0])) (.ofChunk [0, 0, 0, 0], .ok ()) := by
  have rests : (Machine.mk Engine.used []).AtRest := atRest_of_idle rfl
  refine ⟨Engine.reachable_used, ?_, ?_⟩
  · exact (load_passes rests rfl).1 .truncated (by decide)
  · exact (load_passes rests rfl).2 { version := 0, state := {}, tails := [] } (by decide) (by decide)

theorem Machine.passes_load_missing {m : Machine ρ} (rests : m.AtRest) {file : SessionFile}
    (missing : file.chunk = none) : m.Passes (.load file) ({ file with canReload := false }, .ok ()) := by
  refine passes_of_still rests rfl (Engine.still_load_missing missing) (fun _ => rfl) fun did outcome does => ?_
  rw [Engine.does_load does, Engine.loadOutcome]
  simp only [missing]

/-- A file without a chunk is taken for one that cannot be loaded again, and the engine is left as it is; so once it
    is loaded, an earlier session is gone from the engine exactly if there was nothing of one. -/
theorem Machine.load_missing_iff {m : Machine ρ} (rests : m.AtRest) {file : SessionFile}
    (missing : file.chunk = none) :
    m.Passes (.load file) ({ file with canReload := false }, .ok ()) ∧
      ∀ trace n outcome did, Run m trace n →
        trace.map (·.event) = .entered (.load file) :: did.map (.acted (.load file)) ++
          [.finished (.load file) outcome did] →
        (m.engine.Renewed n.engine ↔ (∀ a, m.engine.returns.get? a = none) ∧ m.engine.state = {}) := by
  refine ⟨passes_load_missing rests missing, fun trace n outcome did run events => ?_⟩
  obtain rfl := (passes_load_missing rests missing).after run events
  constructor
  · exact fun renewed => ⟨renewed.records, renewed.state⟩
  · rintro ⟨records, state⟩
    refine ⟨records, fun a record found => ?_, state⟩
    rw [records] at found
    cases found

/-- A new engine is renewed by any file without a chunk. -/
theorem Machine.load_missing_fresh :
    ∃ (trace : List (Moment Unit)) (n : Machine Unit) (did : List (Action Unit)), Run (fresh {} {} ∅) trace n ∧
      trace.map (·.event) = .entered (.load {}) :: did.map (.acted (.load {})) ++
        [.finished (.load {}) ({ canReload := false }, .ok ()) did] ∧
      (fresh {} {} ∅).engine.Renewed n.engine := by
  have missing : SessionFile.chunk {} = none := rfl
  obtain ⟨passes, renews⟩ := load_missing_iff (m := fresh (ρ := Unit) {} {} ∅) (atRest_of_idle rfl) missing
  obtain ⟨trace, did, run, events⟩ := passes.ends
  refine ⟨trace, _, did, run, events, (renews trace _ _ did run events).mpr ⟨fun a => ?_, rfl⟩⟩
  simp [fresh, Returns.get?]

/-- A file without a chunk is loaded into an engine that was used: the tail hook waits as before, its address is
    marked, and the guest's user interface has started. -/
theorem Machine.load_missing_keeps :
    Engine.used.Reachable ∧ ∃ (trace : List (Moment Unit)) (n : Machine Unit) (did : List (Action Unit)),
      Run ⟨Engine.used, []⟩ trace n ∧
      trace.map (·.event) = .entered (.load {}) :: did.map (.acted (.load {})) ++
        [.finished (.load {}) ({ canReload := false }, .ok ()) did] ∧
      (∃ record, Engine.used.returns.get? 0x1002 = some record ∧ n.engine.returns.get? 0x1002 = some record) ∧
      0x1002 ∈ n.engine.returns.marks ∧ n.engine.state ≠ {} ∧ ¬Engine.used.Renewed n.engine := by
  have missing : SessionFile.chunk {} = none := rfl
  obtain ⟨trace, did, run, events⟩ :=
    (passes_load_missing (m := ⟨Engine.used, []⟩) (atRest_of_idle rfl) missing).ends
  have waits : ∃ record, Engine.used.returns.get? 0x1002 = some record := by
    simp [Engine.used, Engine.onReturns, Returns.get?_arm]
  obtain ⟨record, found⟩ := waits
  refine ⟨Engine.reachable_used, trace, _, did, run, events, ⟨record, found, found⟩, ?_, ?_, fun renewed => ?_⟩
  · simp [Engine.used, Engine.onReturns, Returns.mem_marks_arm]
  · decide
  · rw [renewed.records] at found
    cases found

end TrapHooks
