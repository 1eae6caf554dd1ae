import TrapHooks.Engine
import TrapHooks.Notice

/-!
Programs of the engine. A program changes the engine's state in single steps that nothing can come
between, and asks others for what it cannot do itself: a request to the host, or the run of a foreign
hook. While it waits for the answer, whoever was asked may run other programs on the same state, so
nothing read before a question need hold after it. A program may also break off, where a number grows
out of its width: nothing follows then, and there is no result.
-/

namespace TrapHooks

inductive Program (ρ : Type) (α : Type) : Type
  | done (a : α)
  /-- A sum did not fit, and the program breaks off. -/
  | overflow
  /-- Replaces the state, and goes on with the state as it was. -/
  | step (next : Engine ρ → Engine ρ) (rest : Engine ρ → Program ρ α)
  | ask (request : Request) (rest : request.Reply → Program ρ α)
  | runHead (routine : ρ) (call : Call) (rest : Decision → Program ρ α)
  | runTail (routine : ρ) (call : Call) (rest : Program ρ α)
  | tell (notice : Notice) (rest : Program ρ α)

namespace Program

variable {ρ : Type}

def bind {α β : Type} : Program ρ α → (α → Program ρ β) → Program ρ β
  | done a, f => f a
  | overflow, _ => overflow
  | step next rest, f => step next fun e => (rest e).bind f
  | ask request rest, f => ask request fun reply => (rest reply).bind f
  | runHead routine call rest, f => runHead routine call fun decision => (rest decision).bind f
  | runTail routine call rest, f => runTail routine call (rest.bind f)
  | tell notice rest, f => tell notice (rest.bind f)

instance : Monad (Program ρ) where
  pure := done
  bind := bind

@[simp] theorem pure_eq {α : Type} (a : α) : (pure a : Program ρ α) = done a := rfl

@[simp] theorem bind_eq {α β : Type} (p : Program ρ α) (f : α → Program ρ β) : p >>= f = p.bind f := rfl

theorem bind_done {α : Type} (p : Program ρ α) : p.bind done = p := by
  induction p with
  | done a => rfl
  | overflow => rfl
  | step next rest ih => simp only [bind, ih]
  | ask request rest ih => simp only [bind, ih]
  | runHead routine call rest ih => simp only [bind, ih]
  | runTail routine call rest ih => simp only [bind, ih]
  | tell notice rest ih => simp only [bind, ih]

theorem bind_assoc {α β γ : Type} (p : Program ρ α) (f : α → Program ρ β) (g : β → Program ρ γ) :
    (p.bind f).bind g = p.bind fun a => (f a).bind g := by
  induction p with
  | done a => rfl
  | overflow => rfl
  | step next rest ih => simp only [bind, ih]
  | ask request rest ih => simp only [bind, ih]
  | runHead routine call rest ih => simp only [bind, ih]
  | runTail routine call rest ih => simp only [bind, ih]
  | tell notice rest ih => simp only [bind, ih]

instance : LawfulMonad (Program ρ) :=
  LawfulMonad.mk' (Program ρ) (fun p => bind_done p) (fun _ _ => rfl) (fun p f g => bind_assoc p f g)

instance : MonadStateOf (Engine ρ) (Program ρ) where
  get := step id done
  set e := step (fun _ => e) fun _ => done ()
  modifyGet f := step (fun e => (f e).2) fun e => done (f e).1

def request (r : Request) : Program ρ r.Reply :=
  ask r done

def notice (n : Notice) : Program ρ Unit :=
  tell n (done ())

/-- A sum of thirty-two bits; the program goes on if it fits. -/
def sum (a b : UInt32) : Program ρ UInt32 :=
  match sum? a b with
  | some c => done c
  | none => overflow

def foreignHead (routine : ρ) (call : Call) : Program ρ Decision :=
  runHead routine call done

def foreignTail (routine : ρ) (call : Call) : Program ρ Unit :=
  runTail routine call (done ())

end Program

end TrapHooks
