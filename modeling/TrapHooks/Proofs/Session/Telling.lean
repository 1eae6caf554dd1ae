import TrapHooks.Proofs.Run.Requests
import TrapHooks.Proofs.Session.Memory

/-! Names that are told. Whoever is asked for the name of a library may enter the engine before it is told. Once
    it is told it is learnt next, with nobody in between, and nothing else is ever learnt of a library. -/

namespace TrapHooks

variable {ρ : Type}

/-- The handle whose library's name a reply tells, with the name. -/
def Request.told : (r : Request) → r.Reply → Option (UInt16 × Option String)
  | .libraryName refnum, name => some (refnum, name)
  | _, _ => none

theorem Request.told_eq_none {r : Request} (other : r.purpose ≠ .naming) (reply : r.Reply) : r.told reply = none := by
  cases r with
  | libraryName refnum => exact absurd rfl other
  | _ => rfl

/-- The handle of which a change learns, with its library's name. -/
def Change.learnt : Change ρ → Option (UInt16 × Option String)
  | learn refnum name => some (refnum, name)
  | _ => none

namespace Program

variable {α β : Type}

/-- The name that was just told is learnt next, and so is every other that will be told; nothing else is learnt, and
    all changes are of the given kind. -/
def Heeds (P : Change ρ → Prop) : Program ρ α → Option (UInt16 × Option String) → Prop
  | done _, told | overflow, told => told = none
  | step next rest, told => ∀ e, (∃ c, P c ∧ c.learnt = told ∧ next e = c.apply e) ∧ (rest e).Heeds P none
  | ask r rest, told => told = none ∧ ∀ reply, (rest reply).Heeds P (r.told reply)
  | runHead _ _ rest, told => told = none ∧ ∀ decision, (rest decision).Heeds P none
  | runTail _ _ rest, told => told = none ∧ rest.Heeds P none
  | tell _ rest, told => told = none ∧ rest.Heeds P none

variable {P Q : Change ρ → Prop} {p : Program ρ α} {told : Option (UInt16 × Option String)}

theorem heeds_bind {f : α → Program ρ β} (heeds : p.Heeds P told) (later : ∀ a, (f a).Heeds P none) :
    (p >>= f).Heeds P told := by
  induction p generalizing told with
  | done a =>
    obtain rfl := heeds
    exact later a
  | overflow => exact heeds
  | step next rest ih => exact fun e => ⟨(heeds e).1, ih e (heeds e).2⟩
  | ask r rest ih => exact ⟨heeds.1, fun reply => ih reply (heeds.2 reply)⟩
  | runHead routine call rest ih => exact ⟨heeds.1, fun decision => ih decision (heeds.2 decision)⟩
  | runTail routine call rest ih => exact ⟨heeds.1, ih heeds.2⟩
  | tell n rest ih => exact ⟨heeds.1, ih heeds.2⟩

theorem Heeds.mono (heeds : p.Heeds P told) (kinds : ∀ c, P c → Q c) : p.Heeds Q told := by
  induction p generalizing told with
  | done a => exact heeds
  | overflow => exact heeds
  | step next rest ih =>
    intro e
    obtain ⟨⟨c, kind, learns, eq⟩, others⟩ := heeds e
    exact ⟨⟨c, kinds c kind, learns, eq⟩, ih e others⟩
  | ask r rest ih => exact ⟨heeds.1, fun reply => ih reply (heeds.2 reply)⟩
  | runHead routine call rest ih => exact ⟨heeds.1, fun decision => ih decision (heeds.2 decision)⟩
  | runTail routine call rest ih => exact ⟨heeds.1, ih heeds.2⟩
  | tell n rest ih => exact ⟨heeds.1, ih heeds.2⟩

/-- A program that asks for no name and learns none. -/
theorem heeds_of_makes (makes : p.Makes P) (unlearnt : ∀ c, P c → c.learnt = none)
    (asks : p.Asks Request.Any (·.purpose ≠ .naming)) : p.Heeds P none := by
  induction p with
  | done a => rfl
  | overflow => rfl
  | step next rest ih =>
    intro e
    obtain ⟨⟨c, kind, eq⟩, others⟩ := makes e
    exact ⟨⟨c, kind, unlearnt c kind, eq⟩, ih e others (asks e)⟩
  | ask r rest ih =>
    refine ⟨rfl, fun reply => ?_⟩
    rw [Request.told_eq_none asks.1]
    exact ih reply (makes reply) (asks.2 reply trivial)
  | runHead routine call rest ih => exact ⟨rfl, fun decision => ih decision (makes decision) (asks decision)⟩
  | runTail routine call rest ih => exact ⟨rfl, ih makes asks⟩
  | tell n rest ih => exact ⟨rfl, ih makes asks⟩

theorem heeds_modifyGet {g : Engine ρ → α × Engine ρ} {c : Change ρ} (kind : P c) (unlearnt : c.learnt = none)
    (eq : ∀ e, (g e).2 = c.apply e) : (modifyGet g : Program ρ α).Heeds P none :=
  fun e => ⟨⟨c, kind, unlearnt, eq e⟩, rfl⟩

theorem heeds_modify {g : Engine ρ → Engine ρ} {c : Change ρ} (kind : P c) (unlearnt : c.learnt = none)
    (eq : ∀ e, g e = c.apply e) : (modify g : Program ρ PUnit).Heeds P none :=
  fun e => ⟨⟨c, kind, unlearnt, eq e⟩, rfl⟩

theorem heeds_get (read : P .read) : (get : Program ρ (Engine ρ)).Heeds P none :=
  fun _ => ⟨⟨.read, read, rfl, rfl⟩, rfl⟩

theorem heeds_forM {γ : Type} {g : γ → Program ρ PUnit} {l : List γ} (heeds : ∀ x ∈ l, (g x).Heeds P none) :
    (l.forM g).Heeds P none := by
  induction l with
  | nil => rfl
  | cons x l ih =>
    exact heeds_bind (heeds x List.mem_cons_self) fun _ => ih fun y member => heeds y (List.mem_cons_of_mem x member)

/-- While somebody else is at work, no name is left to learn. -/
theorem Heeds.told_of_waits (heeds : p.Heeds P told) (waits : p.Waits) : told = none := by
  cases p with
  | ask r rest => exact heeds.1
  | runHead routine call rest => exact heeds.1
  | runTail routine call rest => exact heeds.1
  | _ => exact waits.elim

end Program

namespace Engine

open Program

variable {P : Change ρ → Prop}

theorem heeds_libraryTable (lookup : ∀ c : Change ρ, c.IsLookup → P c) (refnum : UInt16) :
    (libraryTable refnum).Heeds P none := by
  refine heeds_bind (heeds_modifyGet (lookup (.visit refnum) trivial) rfl fun _ => rfl) fun known => ?_
  cases known with
  | some table => rfl
  | none => exact ⟨rfl, fun name e => ⟨⟨.learn refnum name, lookup _ trivial, rfl, rfl⟩, rfl, rfl⟩⟩

theorem heeds_resolve (lookup : ∀ c : Change ρ, c.IsLookup → P c) (call : Call) : (resolve call).Heeds P none := by
  refine heeds_bind (heeds_bind (heeds_get (lookup _ trivial)) fun e => ?_) fun _ => rfl
  cases call.home e.config.protocolMark with
  | system => exact heeds_modifyGet (lookup .findSystem trivial) rfl fun _ => rfl
  | protocol => exact heeds_modifyGet (lookup .findProtocol trivial) rfl fun _ => rfl
  | library refnum => exact heeds_libraryTable lookup refnum
  | nowhere => rfl

theorem heeds_prepare (lookup : ∀ c : Change ρ, c.IsLookup → P c) (call : Call) : (prepare call).Heeds P none := by
  refine heeds_bind ?_ fun _ => heeds_resolve lookup call
  have reads (c : Change ρ) (read : c = .read) : c.learnt = none := by rw [read]; rfl
  have mends : (bootstrapIfDue : Program ρ Unit).Asks Request.Any (·.purpose ≠ .naming) :=
    asks_bootstrapIfDue.mono (fun _ _ told => told) fun r (same : r.purpose = .mending) => by simp [same]
  exact (heeds_of_makes makes_bootstrapIfDue reads mends).mono fun c (read : c = .read) => read ▸ lookup _ trivial

theorem heeds_putBack {record : PendingTail ρ} (restores : P (.restore record)) : (putBack record).Heeds P none := by
  refine heeds_bind (heeds_modifyGet restores rfl fun _ => rfl) fun restored => ?_
  split
  · exact ⟨rfl, rfl⟩
  · rfl
  · rfl

theorem heeds_restoreTail (lookup : ∀ c : Change ρ, c.IsLookup → P c) {saved : SavedTail}
    (restores : ∀ record : PendingTail ρ, record.count = saved.count → P (.restore record)) :
    (restoreTail saved).Heeds P none := by
  refine heeds_bind (heeds_resolve lookup saved.call) fun hooks => ?_
  dsimp only
  split
  · exact ⟨rfl, heeds_putBack (restores _ rfl)⟩
  · exact heeds_putBack (restores _ rfl)

theorem heeds_adopt {chunk : Chunk} (lookup : ∀ c : Change ρ, c.IsLookup → P c) (edits : ∀ f, P (.edit f))
    (evicts : P .evict) (restores : ∀ record : PendingTail ρ, record.Storable → P (.restore record))
    (storable : ∀ t ∈ chunk.tails, t.Storable) : (adopt chunk).Heeds P none := by
  refine heeds_bind (heeds_modify evicts rfl fun _ => rfl) fun _ => heeds_bind (heeds_forM fun saved member => ?_)
    fun _ => heeds_modify (edits fun _ => chunk.state) rfl fun _ => rfl
  refine heeds_restoreTail lookup fun record same => restores record ?_
  rw [PendingTail.Storable, same]
  exact storable saved member

theorem heeds_load (lookup : ∀ c : Change ρ, c.IsLookup → P c) (edits : ∀ f, P (.edit f)) (evicts : P .evict)
    (restores : ∀ record : PendingTail ρ, record.Storable → P (.restore record)) (file : SessionFile) :
    (load file).Heeds P none := by
  unfold load
  cases file.chunk with
  | none => exact ⟨rfl, rfl⟩
  | some bytes =>
    dsimp only
    cases read : Chunk.decode bytes with
    | error e => rfl
    | ok chunk =>
      have last : (do
          notice (.loaded chunk.version (← get).returns.records.size)
          return (file, .ok ()) : Program ρ (SessionFile × Except ChunkError Unit)).Heeds P none :=
        heeds_bind (heeds_get (lookup _ trivial)) fun _ => ⟨rfl, rfl⟩
      dsimp only
      split
      · exact heeds_bind (heeds_adopt lookup edits evicts restores (Chunk.storable_of_decode read)) fun _ => last
      · exact last

end Engine

theorem Stage.heeds_program (s : Stage ρ) : s.program.Heeds s.Permits none := by
  have quiet {s : Stage ρ} (names : .naming ∉ s.purposes) (unlearnt : ∀ c, s.Permits c → c.learnt = none) :
      s.program.Heeds s.Permits none := by
    refine Program.heeds_of_makes s.makes_program unlearnt (s.asks_program.mono (fun _ _ told => told) ?_)
    intro r listed same
    rw [same] at listed
    exact names listed
  cases s with
  | dispatch call => exact Engine.heeds_prepare (fun _ lookup => lookup) call
  | resolve call => exact Engine.heeds_resolve (fun _ lookup => lookup) call
  | load file =>
    exact Engine.heeds_load (fun _ lookup => .inl lookup) (fun _ => .inr (.inl trivial)) (.inr (.inr (.inl rfl)))
      (fun record storable => .inr (.inr (.inr ⟨record, rfl, storable⟩))) file
  | _ =>
    refine quiet (by simp [Stage.purposes]) fun c permitted => ?_
    cases c with
    | learn refnum name => simp [Stage.Permits, Change.IsEdit] at permitted
    | _ => rfl

/-! ### Runs -/

/-- The handle whose library's name is told, with the name. -/
def Event.told : Event ρ → Option (UInt16 × Option String)
  | acted _ (.replied r reply) => r.told reply
  | _ => none

namespace Machine

variable {m n : Machine ρ} {event : Event ρ} {told : Option (UInt16 × Option String)}

/-- What each task has left to do heeds the names that it is told; the latest one was told this. -/
structure Heeds (m : Machine ρ) (told : Option (UInt16 × Option String)) : Prop where
  idle : m.tasks = [] → told = none
  latest : ∀ t ∈ m.tasks.head?, t.rest.Heeds t.stage.Permits told
  others : ∀ t ∈ m.tasks.tail, t.rest.Heeds t.stage.Permits none

theorem Heeds.told_of_atRest (heeds : m.Heeds told) (rests : m.AtRest) : told = none := by
  obtain ⟨e, tasks⟩ := m
  cases tasks with
  | nil => exact heeds.idle rfl
  | cons top below => exact (heeds.latest top rfl).told_of_waits (rests top rfl)

theorem heeds_of_forall (all : ∀ t ∈ m.tasks, t.rest.Heeds t.stage.Permits none) : m.Heeds none where
  idle _ := rfl
  latest t top := all t (List.mem_of_mem_head? top)
  others t member := all t (List.mem_of_mem_tail member)

theorem Heeds.all (heeds : m.Heeds none) : ∀ t ∈ m.tasks, t.rest.Heeds t.stage.Permits none := by
  obtain ⟨e, tasks⟩ := m
  cases tasks with
  | nil => simp
  | cons top below => exact List.forall_mem_cons.mpr ⟨heeds.latest top rfl, heeds.others⟩

/-- The engine is left as it is, and there is nothing to learn; or it is changed as the acting stage may change it,
    and learns what was told. -/
theorem Step.heeds (step : m.Step event n) (heeds : m.Heeds told) :
    n.Heeds event.told ∧
      (told = none ∧ n.engine = m.engine ∧ (∀ s before after, event ≠ .acted s (.changed before after)) ∨
        ∃ s c, event = .acted s (.changed m.engine n.engine) ∧ s.Permits c ∧ c.learnt = told ∧
          n.engine = c.apply m.engine) := by
  cases step with
  | enter m s entry rests =>
    obtain rfl := heeds.told_of_atRest rests
    exact ⟨heeds_of_forall (List.forall_mem_cons.mpr ⟨s.heeds_program, heeds.all⟩), .inl ⟨rfl, rfl, by simp⟩⟩
  | finish e s result done below =>
    obtain rfl : told = none := heeds.latest _ rfl
    refine ⟨heeds_of_forall ?_, .inl ⟨rfl, rfl, by simp⟩⟩
    exact Stage.forall_mem_next Stage.heeds_program s result heeds.others
  | @act e e' s p p' action acts done below =>
    have goes {told : Option (UInt16 × Option String)} (left : p'.Heeds s.Permits told) :
        (Machine.mk e' (⟨s, p', done ++ [action]⟩ :: below)).Heeds told :=
      ⟨nofun, fun t top => by cases top; exact left, heeds.others⟩
    have top := heeds.latest _ rfl
    cases acts with
    | change next rest =>
      obtain ⟨⟨c, permitted, learns, eq⟩, left⟩ := top e
      exact ⟨goes left, .inr ⟨s, c, rfl, permitted, learns, eq⟩⟩
    | reply r rest reply => exact ⟨goes (top.2 reply), .inl ⟨top.1, rfl, by simp⟩⟩
    | head routine call rest decision => exact ⟨goes (top.2 decision), .inl ⟨top.1, rfl, by simp⟩⟩
    | tail routine call rest => exact ⟨goes top.2, .inl ⟨top.1, rfl, by simp⟩⟩
    | notice n rest => exact ⟨goes top.2, .inl ⟨top.1, rfl, by simp⟩⟩

end Machine

/-- The name that was told just now. -/
def toldLast (trace : List (Moment ρ)) : Option (UInt16 × Option String) :=
  trace.getLast?.bind (·.event.told)

theorem toldLast_snoc (trace : List (Moment ρ)) (x : Moment ρ) : toldLast (trace ++ [x]) = x.event.told := by
  simp [toldLast]

/-- Along a run, the name that was told just now is the only one that is left to learn. -/
theorem Run.heeds {config : Config} {registry : Registry ρ} {marks : Marks} {trace : List (Moment ρ)} {m : Machine ρ}
    (run : Run (.fresh config registry marks) trace m) : m.Heeds (toldLast trace) := by
  induction run with
  | nil => exact Machine.heeds_of_forall (by simp [Machine.fresh])
  | snoc run step ih =>
    rw [toldLast_snoc]
    exact (step.heeds ih).1

end TrapHooks
