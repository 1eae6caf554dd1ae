import Mathlib.Data.List.Induction
import TrapHooks.Proofs.Session.Telling

/-! How long a mark of a library lasts. A look-up that knows nothing of a handle asks for its library's name, and
    whoever is asked may enter the engine, and mark the handle, before the name is told. The name is learnt all the
    same, and its handle is then no longer stale, no matter what was marked since the name was asked for. So a handle
    is asked for again exactly if it was marked, or everything was forgotten, after its name was last told. -/

namespace TrapHooks

variable {ρ : Type}

/-- The event tells the name of the handle's library. -/
def Event.tells (refnum : UInt16) (event : Event ρ) : Bool :=
  event.told.any (·.1 == refnum)

/-- The event makes the handle stale: it marks the handle, or all handles, or leaves no memory of any. -/
def Event.stales (refnum : UInt16) : Event ρ → Bool
  | acted (.markLibrary other) (.changed _ _) => other == refnum
  | acted .markLibraries (.changed _ _) => true
  | acted _ (.changed _ after) => after.libraries.isEmpty
  | _ => false

/-- Whether the handle's name was told and the handle not made stale since. -/
def nameKept (refnum : UInt16) (trace : List (Moment ρ)) : Bool :=
  trace.foldl (fun kept x => x.event.tells refnum || (kept && !x.event.stales refnum)) false

theorem nameKept_snoc (refnum : UInt16) (trace : List (Moment ρ)) (x : Moment ρ) :
    nameKept refnum (trace ++ [x]) = (x.event.tells refnum || (nameKept refnum trace && !x.event.stales refnum)) := by
  rw [nameKept, List.foldl_append]
  rfl

theorem nameKept_iff {refnum : UInt16} {trace : List (Moment ρ)} :
    nameKept refnum trace = true ↔ ∃ earlier x later, trace = earlier ++ x :: later ∧ x.event.tells refnum = true ∧
      ∀ y ∈ later, y.event.stales refnum = false := by
  induction trace using List.reverseRecOn with
  | nil => simp [nameKept]
  | append_singleton trace x ih =>
    rw [nameKept_snoc, Bool.or_eq_true, Bool.and_eq_true, Bool.not_eq_true']
    constructor
    · rintro (tells | ⟨kept, fresh⟩)
      · exact ⟨trace, x, [], rfl, tells, by simp⟩
      · obtain ⟨earlier, y, later, rfl, tells, stays⟩ := ih.mp kept
        refine ⟨earlier, y, later ++ [x], by simp, tells, fun z member => ?_⟩
        rcases List.mem_append.mp member with member | member
        · exact stays z member
        · rwa [List.mem_singleton.mp member]
    · rintro ⟨earlier, y, later, split, tells, stays⟩
      rcases List.eq_nil_or_concat later with rfl | ⟨front, last, rfl⟩
      · obtain ⟨-, same⟩ := List.append_inj' split rfl
        cases same
        exact .inl tells
      · rw [List.concat_eq_append, ← List.cons_append, ← List.append_assoc] at split
        obtain ⟨rfl, same⟩ := List.append_inj' split rfl
        cases same
        refine .inr ⟨ih.mpr ⟨earlier, y, front, rfl, tells, fun z member => stays z ?_⟩, stays x ?_⟩
        · rw [List.concat_eq_append]
          exact List.mem_append_left _ member
        · simp

theorem nameKept_append_of_untold {refnum : UInt16} {trace later : List (Moment ρ)}
    (stale : nameKept refnum trace = false) (untold : ∀ y ∈ later, y.event.tells refnum = false) :
    nameKept refnum (trace ++ later) = false := by
  induction later using List.reverseRecOn with
  | nil => rwa [List.append_nil]
  | append_singleton later y ih =>
    have before := ih fun z member => untold z (List.mem_append_left _ member)
    rw [← List.append_assoc, nameKept_snoc, before, untold y (by simp)]
    rfl

theorem Event.tells_of_stales {refnum : UInt16} {event : Event ρ} (stales : event.stales refnum = true) :
    event.tells refnum = false := by
  cases event with
  | acted s action =>
    cases action with
    | replied r reply => simp [Event.stales] at stales
    | _ => rfl
  | _ => rfl

/-! ### What is remembered -/

/-- Whether a change that leaves this engine makes the handle stale. -/
def Change.stales (refnum : UInt16) (after : Engine ρ) : Change ρ → Bool
  | markLibrary other => other == refnum
  | markLibraries => true
  | _ => after.libraries.isEmpty

theorem Stage.Permits.stales {s : Stage ρ} {c : Change ρ} (permitted : s.Permits c) (refnum : UInt16)
    (before after : Engine ρ) : (Event.acted s (.changed before after)).stales refnum = c.stales refnum after := by
  cases s <;> cases c <;> simp_all [Stage.Permits, Change.IsLookup, Change.IsEdit, Event.stales, Change.stales]

namespace LibraryCache

/-- Whether something is known of a handle, which has a slot then. -/
structure Recalls (refnum : UInt16) (known : Bool) (c : LibraryCache ρ) : Prop where
  handle : (c.find? refnum).isSome = known
  slot : known = true → refnum.toNat < c.size

variable {refnum other : UInt16} {known : Bool} {c : LibraryCache ρ}

theorem Recalls.reach (recalls : c.Recalls refnum known) : (c.reach other).Recalls refnum known where
  handle := by rw [find?_reach, recalls.handle]
  slot holds := by
    rw [size_reach]
    exact Nat.lt_of_lt_of_le (recalls.slot holds) (Nat.le_max_left ..)

theorem Recalls.refresh (recalls : c.Recalls refnum known) (table : Option (HookTable ρ)) :
    (c.refresh other table).Recalls refnum (other == refnum || known) where
  handle := by
    rw [find?_refresh, ← recalls.handle]
    by_cases here : other = refnum <;> simp [here]
  slot holds := by
    rw [size_refresh]
    rcases Bool.or_eq_true_iff.mp holds with here | holds
    · rw [beq_iff_eq.mp here]
      omega
    · have := recalls.slot holds
      omega

theorem Recalls.markDirty (recalls : c.Recalls refnum known) :
    (c.markDirty other).Recalls refnum (known && !(other == refnum)) where
  handle := by
    rw [find?_markDirty, ← recalls.handle]
    by_cases here : other = refnum <;> simp [here]
  slot holds := by
    rw [size_markDirty]
    exact recalls.slot (Bool.and_eq_true_iff.mp holds).1

theorem recalls_markAllDirty (refnum : UInt16) (c : LibraryCache ρ) : c.markAllDirty.Recalls refnum false where
  handle := by simp
  slot := nofun

theorem recalls_empty (refnum : UInt16) : ({} : LibraryCache ρ).Recalls refnum false where
  handle := by simp
  slot := nofun

/-- Where there is no slot, nothing is known. -/
theorem Recalls.kept (recalls : c.Recalls refnum known) : (known && !c.isEmpty) = known := by
  cases known with
  | false => rfl
  | true =>
    have some : c.slots.size ≠ 0 := Nat.ne_zero_of_lt (recalls.slot rfl)
    simp [isEmpty, ← Array.size_eq_zero_iff, some]

end LibraryCache

/-- A handle is known if it was, or if its name is learnt, unless it is made stale. -/
theorem Change.recalls_apply {refnum : UInt16} {known : Bool} {e : Engine ρ}
    (recalls : e.libraries.Recalls refnum known) (c : Change ρ) :
    (c.apply e).libraries.Recalls refnum
      ((c.learnt.any (·.1 == refnum) || known) && !c.stales refnum (c.apply e)) := by
  have kept {known : Bool} {e : Engine ρ} (recalls : e.libraries.Recalls refnum known) :
      e.libraries.Recalls refnum (known && !e.libraries.isEmpty) := by
    rw [recalls.kept]
    exact recalls
  cases c with
  | visit other => exact kept recalls.reach
  | learn other name => exact kept (recalls.refresh _)
  | markLibrary other => exact recalls.markDirty
  | markLibraries =>
    rw [show Change.markLibraries.stales refnum _ = true from rfl, Bool.not_true, Bool.and_false]
    exact LibraryCache.recalls_markAllDirty refnum e.libraries
  | reset =>
    rw [show Change.reset.stales refnum _ = true from rfl, Bool.not_true, Bool.and_false]
    exact LibraryCache.recalls_empty refnum
  | evict =>
    rw [show Change.evict.stales refnum _ = true from rfl, Bool.not_true, Bool.and_false]
    exact LibraryCache.recalls_empty refnum
  | _ => exact kept recalls

/-! ### Look-ups -/

section
variable {config : Config} {registry : Registry ρ} {marks : Marks} {trace : List (Moment ρ)} {m : Machine ρ}

theorem Run.config_eq (run : Run (.fresh config registry marks) trace m) : m.engine.config = config := by
  induction run with
  | nil => rfl
  | snoc run step ih =>
    rcases step.engine (run.keeps (Machine.keeps_fresh config registry marks)) with ⟨same, -⟩ | ⟨s, c, -, -, changed⟩
    · rw [same, ih]
    · rw [changed, ← ih]
      cases c <;> rfl

/-- Along a run, what is known of a handle is what was told and not made stale, once it is learnt. -/
theorem Run.recalls (run : Run (.fresh config registry marks) trace m) (refnum : UInt16) :
    ∃ known, m.engine.libraries.Recalls refnum known ∧
      ((toldLast trace).any (·.1 == refnum) || known) = nameKept refnum trace := by
  induction run with
  | nil => exact ⟨false, LibraryCache.recalls_empty refnum, rfl⟩
  | @snoc trace m n event run step ih =>
    obtain ⟨known, recalls, kept⟩ := ih
    rw [toldLast_snoc, nameKept_snoc, ← kept]
    obtain ⟨-, ⟨nothing, same, silent⟩ | ⟨s, c, acted, permitted, learns, changed⟩⟩ := step.heeds run.heeds
    · refine ⟨known, same ▸ recalls, ?_⟩
      have fresh : event.stales refnum = false := by
        unfold Event.stales
        split
        · exact absurd rfl (silent _ _ _)
        · exact absurd rfl (silent _ _ _)
        · exact absurd rfl (silent _ _ _)
        · rfl
      rw [nothing, fresh]
      simp [Event.tells]
    · subst acted
      refine ⟨_, changed ▸ Change.recalls_apply recalls c, ?_⟩
      rw [learns, permitted.stales]
      rfl

end

namespace Program

/-- What the program asks first, if nobody comes between before. -/
def firstAsk {α : Type} : Program ρ α → Engine ρ → Option Request
  | done _, _ | overflow, _ => none
  | step next rest, e => (rest e).firstAsk (next e)
  | ask r _, _ => some r
  | runHead _ _ _, _ | runTail _ _ _, _ => none
  | tell _ rest, e => rest.firstAsk e

theorem Acts.firstAsk {α : Type} {p q : Program ρ α} {e e' before after : Engine ρ}
    (acts : p.Acts e (.changed before after) e' q) : p.firstAsk e = q.firstAsk e' := by
  cases acts
  rfl

end Program

namespace Engine

open Program

variable {call : Call} {refnum : UInt16} {e : Engine ρ}

/-- What is left of a look-up once it has visited what is known of the handle. -/
def afterVisit (call : Call) (refnum : UInt16) : Option (Option (HookTable ρ)) → Program ρ (Hooks ρ)
  | some table => pure ((table.map (·.hooks call.index)).getD {})
  | none => do
    let name ← request (.libraryName refnum)
    let table ← modifyGet (learnLibrary refnum name)
    notice (.libraryRefreshed refnum name table.isSome)
    return (table.map (·.hooks call.index)).getD {}

theorem resolve_visits (home : call.home e.config.protocolMark = .library refnum) :
    ∃ q, (resolve call).Acts e (.changed e e) e q ∧ q.Acts e (.changed e (e.recallLibrary refnum).2)
      (e.recallLibrary refnum).2 (afterVisit call refnum (e.libraries.find? refnum)) := by
  -- Either does one thing and leaves the next: the table of the handle, and what is left once it is visited.
  have looks : ∃ q, (findTable call).Acts e (.changed e e) e q ∧ q = libraryTable refnum := by
    refine ⟨_, .change e id _, ?_⟩
    simp only [Program.bind, home]
  have visits : ∃ q, (libraryTable refnum).Acts e (.changed e (e.recallLibrary refnum).2) (e.recallLibrary refnum).2 q ∧
      (q >>= fun table => pure ((table.map (·.hooks call.index)).getD {})) =
        afterVisit call refnum (e.libraries.find? refnum) := by
    refine ⟨_, .change e (fun e => (e.recallLibrary refnum).2) _, ?_⟩
    have recalled : (e.recallLibrary refnum).1 = e.libraries.find? refnum := rfl
    simp only [Program.bind, recalled]
    cases e.libraries.find? refnum with
    | some table => rfl
    | none => rfl
  obtain ⟨_, looks, rfl⟩ := looks
  obtain ⟨_, visits, left⟩ := visits
  exact ⟨_, looks.bind _, left ▸ visits.bind _⟩

/-- A look-up of a library's call asks for its name if nothing is known of the handle, and asks nobody else. -/
theorem firstAsk_resolve (home : call.home e.config.protocolMark = .library refnum) :
    (resolve call).firstAsk e = if (e.libraries.find? refnum).isSome then none else some (.libraryName refnum) := by
  obtain ⟨q, looks, visits⟩ := resolve_visits home
  rw [looks.firstAsk, visits.firstAsk]
  cases e.libraries.find? refnum with
  | some table => rfl
  | none => rfl

end Engine

/-- How long a mark lasts. At any moment of a run at which no told name is left to learn, a look-up of a library's
    call asks for the library's name unless that was told and the handle not made stale since. So a handle that
    is marked is asked for as long as its name is not told, be it that it was asked for before the mark. -/
theorem Run.resolve_asks {config : Config} {registry : Registry ρ} {marks : Marks} {trace : List (Moment ρ)}
    {m : Machine ρ} (run : Run (.fresh config registry marks) trace m) (learnt : toldLast trace = none) {call : Call}
    {refnum : UInt16} (home : call.home config.protocolMark = .library refnum) :
    ((Engine.resolve call).firstAsk m.engine = none ↔ ∃ earlier x later, trace = earlier ++ x :: later ∧
      x.event.tells refnum = true ∧ ∀ y ∈ later, y.event.stales refnum = false) ∧
    ((Engine.resolve call).firstAsk m.engine ≠ none →
      (Engine.resolve call).firstAsk m.engine = some (.libraryName refnum)) ∧
    ∀ earlier x later, trace = earlier ++ x :: later → x.event.stales refnum = true →
      (∀ y ∈ later, y.event.tells refnum = false) →
      (Engine.resolve call).firstAsk m.engine = some (.libraryName refnum) := by
  obtain ⟨known, recalls, kept⟩ := run.recalls refnum
  rw [learnt] at kept
  have kept : known = nameKept refnum trace := kept
  rw [← run.config_eq] at home
  rw [Engine.firstAsk_resolve home, recalls.handle, kept, ← nameKept_iff]
  refine ⟨?_, ?_, fun earlier x later split stales untold => ?_⟩
  · cases nameKept refnum trace <;> simp
  · cases nameKept refnum trace <;> simp
  · have stale : nameKept refnum (earlier ++ [x]) = false := by
      rw [nameKept_snoc, Event.tells_of_stales stales, stales]
      simp
    have lost : nameKept refnum trace = false := by
      rw [split, ← List.singleton_append, ← List.append_assoc]
      exact nameKept_append_of_untold stale untold
    rw [lost]
    rfl

/-- A look-up that nobody enters learns the name that is told. -/
theorem Engine.yields_afterVisit (call : Call) (refnum : UInt16) (name : Option String) (e : Engine ρ) :
    ∃ n hooks, (afterVisit call refnum none).Yields e
      [.replied (.libraryName refnum) name, .changed e (e.learnLibrary refnum name).2, .told n]
      (e.learnLibrary refnum name).2 hooks :=
  ⟨_, _, .act (.reply e (.libraryName refnum) _ name) (.act (.change ..) (.act (.notice ..) (.done ..)))⟩

theorem Run.marking {m : Machine ρ} (rests : m.AtRest) (refnum : UInt16) :
    ∃ trace after, Run m trace ⟨after, m.tasks⟩ ∧
      after = { m.engine with libraries := m.engine.libraries.markDirty refnum } ∧
      trace.map (·.event) = [.entered (.markLibrary refnum), .acted (.markLibrary refnum) (.changed m.engine after),
        .finished (.markLibrary refnum) () [.changed m.engine after]] := by
  have yields : (Stage.markLibrary refnum).program.Yields m.engine
      [.changed m.engine { m.engine with libraries := m.engine.libraries.markDirty refnum }]
      { m.engine with libraries := m.engine.libraries.markDirty refnum } () := .act (.change ..) (.done ..)
  obtain ⟨trace, run, events, -⟩ := Run.stage (s := .markLibrary refnum) rfl rests yields
  exact ⟨trace, _, run, rfl, events⟩

/-- A library is looked up and its name told, and its handle is marked: the next look-up asks for the name again. -/
theorem Run.resolve_asks_marked :
    ∃ (call : Call) (trace : List (Moment Unit)) (m : Machine Unit), Run (.fresh {} {} ∅) trace m ∧
      toldLast trace = none ∧ call.home ({} : Config).protocolMark = .library 7 ∧
      (∃ x ∈ trace, x.event.tells 7 = true) ∧ (Engine.resolve call).firstAsk m.engine = some (.libraryName 7) := by
  let call : Call := { trap := 0xA805, index := 5, extra := 7 }
  let start : Machine Unit := .fresh {} {} ∅
  have home : call.home ({} : Config).protocolMark = .library 7 := by decide
  obtain ⟨q, looks, visits⟩ := Engine.resolve_visits (e := start.engine) home
  rw [show start.engine.libraries.find? 7 = none from LibraryCache.find?_empty 7] at visits
  obtain ⟨n, hooks, learns⟩ := Engine.yields_afterVisit call 7 (some "Net.lib") (start.engine.recallLibrary 7).2
  obtain ⟨earlier, first, events, -⟩ :=
    Run.stage (s := .resolve call) rfl (Machine.atRest_of_idle (m := start) rfl) (.act looks (.act visits learns))
  obtain ⟨later, after, last, -, events'⟩ :=
    Run.marking (m := ⟨_, []⟩) (Machine.atRest_of_idle rfl) 7
  have run := first.trans last
  have learnt : toldLast (earlier ++ later) = none := run.heeds.told_of_atRest (Machine.atRest_of_idle rfl)
  have told : ∃ x ∈ earlier, x.event.tells 7 = true := by
    have listed : .acted (.resolve call) (.replied (.libraryName 7) (some "Net.lib")) ∈ earlier.map (·.event) := by
      rw [events]
      simp
    obtain ⟨x, member, same⟩ := List.mem_map.mp listed
    exact ⟨x, member, by rw [same]; rfl⟩
  obtain ⟨x, member, tells⟩ := told
  refine ⟨call, _, _, run, learnt, home, ⟨x, List.mem_append_left _ member, tells⟩, ?_⟩
  obtain ⟨entry, _, rfl, -, events'⟩ := List.map_eq_cons_iff.mp events'
  obtain ⟨mark, _, rfl, marks, events'⟩ := List.map_eq_cons_iff.mp events'
  obtain ⟨leave, _, rfl, leaves, events'⟩ := List.map_eq_cons_iff.mp events'
  obtain rfl := List.map_eq_nil_iff.mp events'
  refine (run.resolve_asks learnt home).2.2 (earlier ++ [entry]) mark [leave] (by simp) ?_ fun y member => ?_
  · rw [marks]
    rfl
  · rw [List.mem_singleton.mp member, leaves]
    rfl

/-- A library is looked up, and its handle is marked by somebody who was asked for its name: once the name is told,
    it is as if the handle had not been marked. -/
theorem Run.resolve_asks_lost :
    ∃ (call : Call) (e₀ e₁ e₂ e₃ : Engine Unit) (n : Notice) (hooks : Hooks Unit) (done : List (Action Unit))
      (trace : List (Moment Unit)) (m : Machine Unit),
      Run (.fresh {} {} ∅) trace m ∧ m.tasks = [] ∧
      trace.map (·.event) =
        [.entered (.resolve call), .acted (.resolve call) (.changed e₀ e₀), .acted (.resolve call) (.changed e₀ e₁),
          .entered (.markLibrary 7), .acted (.markLibrary 7) (.changed e₁ e₂),
          .finished (.markLibrary 7) () [.changed e₁ e₂],
          .acted (.resolve call) (.replied (.libraryName 7) (some "Net.lib")),
          .acted (.resolve call) (.changed e₂ e₃), .acted (.resolve call) (.told n),
          .finished (.resolve call) hooks done] ∧
      call.home ({} : Config).protocolMark = .library 7 ∧ (Engine.resolve call).firstAsk m.engine = none := by
  let call : Call := { trap := 0xA805, index := 5, extra := 7 }
  let start : Machine Unit := .fresh {} {} ∅
  let visited : Engine Unit := (start.engine.recallLibrary 7).2
  have home : call.home ({} : Config).protocolMark = .library 7 := by decide
  obtain ⟨q, looks, visits⟩ := Engine.resolve_visits (e := start.engine) home
  rw [show start.engine.libraries.find? 7 = none from LibraryCache.find?_empty 7] at visits
  let asked : List (Action Unit) := [.changed start.engine start.engine, .changed start.engine visited]
  -- The look-up comes to the question for the name.
  have begins := Run.snoc .nil (.enter start (.resolve call) rfl (Machine.atRest_of_idle rfl))
  obtain ⟨asks, asking, events, -⟩ := Run.advance (s := .resolve call) (.act looks (.act visits (.here ..))) [] []
  have rests := Machine.atRest_of_waits visited (t := ⟨.resolve call, Engine.afterVisit call 7 none, asked⟩) trivial []
  -- Whoever is asked marks the handle, and tells the name.
  obtain ⟨marks, marked, marking, same, events'⟩ := Run.marking rests 7
  obtain ⟨n, hooks, learns⟩ := Engine.yields_afterVisit call 7 (some "Net.lib") marked
  obtain ⟨tells, telling, events'', -⟩ := Run.through (s := .resolve call) learns asked []
  let learnt : Engine Unit := (marked.learnLibrary 7 (some "Net.lib")).2
  refine ⟨call, start.engine, visited, marked, learnt, n, hooks,
    asked ++ [.replied (.libraryName 7) (some "Net.lib"), .changed marked learnt, .told n], _, _,
    ((begins.trans asking).trans marking).trans telling, rfl, ?_, home, ?_⟩
  · simp [events, events', events'', visited, learnt]
  · have home : call.home learnt.config.protocolMark = .library 7 := by
      subst same
      exact home
    have known : learnt.libraries.find? 7 = some none := by
      subst same
      show (LibraryCache.refresh 7 _ _).find? 7 = _
      rw [LibraryCache.find?_refresh, if_pos rfl]
      rfl
    show (Engine.resolve call).firstAsk learnt = none
    rw [Engine.firstAsk_resolve home, known]
    rfl

end TrapHooks
