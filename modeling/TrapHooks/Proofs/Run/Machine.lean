import TrapHooks.Engine.Dispatch
import TrapHooks.Engine.Lifecycle
import TrapHooks.Engine.Session

/-! Runs of the engine in any surrounding. Whoever is asked a question by the engine, be it the host, a
    routine of the guest or a hook, may reply whatever it likes, and may enter the engine again before it
    replies. What the engine has begun and not finished therefore stands on a stack; all of it works on
    the same engine, and only the top of the stack moves. -/

namespace TrapHooks

/-- A stage of the engine's work. Each entry is one stage, or a few that follow each other where a
    decision falls that others can tell from what the engine does. -/
inductive Stage (ρ : Type)
  /-- The entry at a trap, until the hooks of the call are known. -/
  | dispatch (call : Call)
  /-- The hooks of a call are run, until the decision. -/
  | handle (call : Call) (hooks : Hooks ρ)
  | conclude (call : Call) (hooks : Hooks ρ) (decision : Decision)
  /-- The entry at a marked address, until the address is known. -/
  | returned
  | takeReturn (pc : UInt32)
  | bootstrap
  | resolve (call : Call)
  | start
  | reset
  | dispose
  | save (file : SessionFile)
  | load (file : SessionFile)
  | installMarks
  | uninstallMarks
  | markLibrary (refnum : UInt16)
  | markLibraries
  /-- Somebody writes into the guest state. -/
  | edit (f : GuestState → GuestState)

namespace Stage

variable {ρ : Type}

abbrev Result : Stage ρ → Type
  | dispatch _ => Hooks ρ
  | handle _ _ => Decision
  | conclude _ _ _ => Decision
  | returned => UInt32
  | resolve _ => Hooks ρ
  | save _ => SessionFile
  | load _ => SessionFile × Except ChunkError Unit
  | takeReturn _ | bootstrap | start | reset | dispose | installMarks | uninstallMarks | markLibrary _
  | markLibraries | edit _ => Unit

def program : (s : Stage ρ) → Program ρ s.Result
  | dispatch call => Engine.prepare call
  | handle call hooks => Engine.headDecision call hooks
  | conclude call hooks decision => Engine.conclude call hooks decision
  | returned => Program.request .programCounter
  | takeReturn pc => Engine.takeReturn pc
  | bootstrap => Engine.bootstrap
  | resolve call => Engine.resolve call
  | start => Engine.start
  | reset => Engine.reset
  | dispose => Engine.dispose
  | save file => Engine.save file
  | load file => Engine.load file
  | installMarks => Engine.installMarks
  | uninstallMarks => Engine.uninstallMarks
  | markLibrary refnum => Engine.markLibrary refnum
  | markLibraries => Engine.markLibraries
  | edit f => modify fun e => { e with state := f e.state }

/-- The stage that follows at once, if one does. -/
def next : (s : Stage ρ) → s.Result → Option (Stage ρ)
  | dispatch call, hooks => some (handle call hooks)
  | handle call hooks, decision => some (conclude call hooks decision)
  | returned, pc => some (takeReturn pc)
  | _, _ => none

def isEntry : Stage ρ → Bool
  | conclude _ _ _ | takeReturn _ => false
  | _ => true

/-- The entry at a trap is its stages, one after the other. -/
theorem dispatch_eq (call : Call) : Engine.dispatch (ρ := ρ) call = (do
    let hooks ← (dispatch call).program
    let decision ← (handle call hooks).program
    (conclude call hooks decision).program) := rfl

theorem runHooks_eq (call : Call) (hooks : Hooks ρ) : Engine.runHooks call hooks = (do
    let decision ← (handle call hooks).program
    (conclude call hooks decision).program) := rfl

theorem returned_eq : Engine.returned (ρ := ρ) = (do
    let pc ← (returned (ρ := ρ)).program
    (takeReturn pc).program) := rfl

end Stage

/-- One thing that a stage does. -/
inductive Action (ρ : Type)
  | changed (before after : Engine ρ)
  | replied (request : Request) (reply : request.Reply)
  /-- A foreign head routine ran on a call. -/
  | headRan (routine : ρ) (call : Call) (decision : Decision)
  | tailRan (routine : ρ) (call : Call)
  | told (notice : Notice)

def Action.asked {ρ : Type} : Action ρ → Option Request
  | replied r _ => some r
  | _ => none

namespace Program

variable {ρ α : Type}

/-- A program does one thing, by which the engine and what is left of the program change. -/
inductive Acts : Engine ρ → Program ρ α → Action ρ → Engine ρ → Program ρ α → Prop
  | change (e : Engine ρ) (next : Engine ρ → Engine ρ) (rest : Engine ρ → Program ρ α) :
    Acts e (step next rest) (.changed e (next e)) (next e) (rest e)
  | reply (e : Engine ρ) (r : Request) (rest : r.Reply → Program ρ α) (reply : r.Reply) :
    Acts e (ask r rest) (.replied r reply) e (rest reply)
  | head (e : Engine ρ) (routine : ρ) (call : Call) (rest : Decision → Program ρ α) (decision : Decision) :
    Acts e (runHead routine call rest) (.headRan routine call decision) e (rest decision)
  | tail (e : Engine ρ) (routine : ρ) (call : Call) (rest : Program ρ α) :
    Acts e (runTail routine call rest) (.tailRan routine call) e rest
  | notice (e : Engine ρ) (n : Notice) (rest : Program ρ α) : Acts e (tell n rest) (.told n) e rest

/-- The program has asked somebody, and that one is at work. -/
def Waits : Program ρ α → Prop
  | ask _ _ | runHead _ _ _ | runTail _ _ _ => True
  | _ => False

end Program

structure Task (ρ : Type) where
  stage : Stage ρ
  /-- What is left to do. -/
  rest : Program ρ stage.Result
  /-- What it has done so far, the oldest first. -/
  done : List (Action ρ) := []

def Task.begin {ρ : Type} (s : Stage ρ) : Task ρ where
  stage := s
  rest := s.program

/-- What holds of every task that begins, and of those below, holds once a stage has ended. -/
theorem Stage.forall_mem_next {ρ : Type} {P : Task ρ → Prop} (begins : ∀ s, P (.begin s)) (s : Stage ρ)
    (result : s.Result) {below : List (Task ρ)} (others : ∀ t ∈ below, P t) :
    ∀ t ∈ ((s.next result).map .begin).toList ++ below, P t := by
  intro t member
  rcases List.mem_append.mp member with member | member
  · obtain ⟨next, -, rfl⟩ := Option.map_eq_some_iff.mp (Option.mem_toList.mp member)
    exact begins next
  · exact others t member

/-- The engine with all that it has begun and not finished, the latest first. -/
structure Machine (ρ : Type) where
  engine : Engine ρ
  tasks : List (Task ρ) := []

/-- What happens in a run. -/
inductive Event (ρ : Type)
  | entered (s : Stage ρ)
  | acted (s : Stage ρ) (action : Action ρ)
  /-- A stage ended with a result, having done all this. -/
  | finished (s : Stage ρ) (result : s.Result) (done : List (Action ρ))

def Event.stage {ρ : Type} : Event ρ → Stage ρ
  | entered s | acted s _ | finished s _ _ => s

namespace Machine

variable {ρ : Type}

/-- A new engine, whose interpreter has marks already. -/
def fresh (config : Config) (registry : Registry ρ) (marks : Marks) : Machine ρ where
  engine := { config := config, registry := registry, returns := { marks := marks } }

/-- It is not the engine's turn: nothing was begun, or the latest that was has asked somebody. -/
def AtRest (m : Machine ρ) : Prop :=
  ∀ t ∈ m.tasks.head?, t.rest.Waits

theorem atRest_of_idle {m : Machine ρ} (idle : m.tasks = []) : m.AtRest := by
  simp [AtRest, idle]

theorem atRest_of_waits (e : Engine ρ) {t : Task ρ} (waits : t.rest.Waits) (below : List (Task ρ)) :
    (Machine.mk e (t :: below)).AtRest := by
  intro top member
  cases member
  exact waits

/-- How a run goes on: somebody enters the engine when it is not the engine's turn; the latest task does
    one thing; or it has ended, and the stage that follows begins. A task that broke off is the end of
    the run: it does nothing more, and nobody else has his turn again. -/
inductive Step : Machine ρ → Event ρ → Machine ρ → Prop
  | enter (m : Machine ρ) (s : Stage ρ) (entry : s.isEntry) (rests : m.AtRest) :
    Step m (.entered s) ⟨m.engine, .begin s :: m.tasks⟩
  | act {e e' : Engine ρ} {s : Stage ρ} {p p' : Program ρ s.Result} {action : Action ρ} (acts : p.Acts e action e' p')
      (done : List (Action ρ)) (below : List (Task ρ)) :
    Step ⟨e, ⟨s, p, done⟩ :: below⟩ (.acted s action) ⟨e', ⟨s, p', done ++ [action]⟩ :: below⟩
  | finish (e : Engine ρ) (s : Stage ρ) (result : s.Result) (done : List (Action ρ)) (below : List (Task ρ)) :
    Step ⟨e, ⟨s, .done result, done⟩ :: below⟩ (.finished s result done)
      ⟨e, ((s.next result).map .begin).toList ++ below⟩

end Machine

structure Moment (ρ : Type) where
  event : Event ρ
  after : Machine ρ

/-- A run from one machine to another, with all its moments. -/
inductive Run {ρ : Type} (m : Machine ρ) : List (Moment ρ) → Machine ρ → Prop
  | nil : Run m [] m
  | snoc {trace : List (Moment ρ)} {n k : Machine ρ} {event : Event ρ} (run : Run m trace n)
      (step : n.Step event k) : Run m (trace ++ [⟨event, k⟩]) k

/-- An engine that others can meet: one that some run from a new engine leads to, at rest. -/
def Engine.Reachable {ρ : Type} (e : Engine ρ) : Prop :=
  ∃ config registry marks trace m, Run (.fresh config registry marks) trace m ∧ m.AtRest ∧ m.engine = e

theorem Engine.reachable_fresh {ρ : Type} (config : Config) (registry : Registry ρ) (marks : Marks) :
    (Machine.fresh config registry marks).engine.Reachable :=
  ⟨config, registry, marks, [], _, .nil, Machine.atRest_of_idle rfl, rfl⟩

end TrapHooks
