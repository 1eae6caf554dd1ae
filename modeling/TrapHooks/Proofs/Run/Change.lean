import TrapHooks.Engine.Program

/-! The changes of the engine. All that a program ever does to the engine is one of them, which a program
    is shown to keep to part by part; what they do to each part of the engine is said once. -/

namespace TrapHooks

/-- One change of the engine, with nothing in between. -/
inductive Change (ρ : Type)
  /-- The engine is looked at and left as it is. -/
  | read
  | findSystem
  | findProtocol
  | visit (refnum : UInt16)
  | learn (refnum : UInt16) (name : Option String)
  | arm (hook : TailHook ρ) (call : Call)
  | arrive (address : UInt32)
  | restore (record : PendingTail ρ)
  | install
  | uninstall
  | markLibrary (refnum : UInt16)
  | markLibraries
  | edit (f : GuestState → GuestState)
  | reload
  /-- What is known of tables and guest is forgotten. -/
  | forget
  /-- All that belongs to the session is dropped. -/
  | reset
  | dropTables
  /-- The libraries and the waiting tail hooks make room for a session's. -/
  | evict

namespace Change

variable {ρ : Type}

def apply : Change ρ → Engine ρ → Engine ρ
  | read, e => e
  | findSystem, e => e.findSystem.2
  | findProtocol, e => e.findProtocol.2
  | visit refnum, e => (e.recallLibrary refnum).2
  | learn refnum name, e => (e.learnLibrary refnum name).2
  | arm hook call, e => (e.onReturns (Returns.arm hook call)).2
  | arrive address, e => (e.onReturns (Returns.arrive address)).2
  | restore record, e => (e.onReturns (Returns.restore record)).2
  | install, e => { e with returns := e.returns.install }
  | uninstall, e => { e with returns := e.returns.uninstall }
  | markLibrary refnum, e => { e with libraries := e.libraries.markDirty refnum }
  | markLibraries, e => { e with libraries := e.libraries.markAllDirty }
  | edit f, e => { e with state := f e.state }
  | reload, e => e.reload
  | forget, e => e.forgetTables.resetState
  | reset, e => { e.forgetTables.resetState with returns := e.returns.clear, libraries := {} }
  | dropTables, e => { e with registry := e.registry.clear }
  | evict, e => { e with libraries := {}, returns := e.returns.clear }

def onReturns : Change ρ → Returns ρ → Returns ρ
  | arm hook call, r => (r.arm hook call).2
  | arrive address, r => (r.arrive address).2
  | restore record, r => (r.restore record).2
  | install, r => r.install
  | uninstall, r => r.uninstall
  | reset, r | evict, r => r.clear
  | _, r => r

theorem returns_apply (c : Change ρ) (e : Engine ρ) : (c.apply e).returns = c.onReturns e.returns := by
  cases c <;> rfl

def IsLookup : Change ρ → Prop
  | read | findSystem | findProtocol | visit _ | learn _ _ => True
  | _ => False

/-- The change writes the guest state, at most. -/
def IsEdit : Change ρ → Prop
  | read | edit _ => True
  | _ => False

end Change

/-! ### Programs -/

namespace Program

variable {ρ α β : Type}

/-- Whatever is replied, all changes that the program makes are of the given kind. -/
def Makes (P : Change ρ → Prop) : Program ρ α → Prop
  | done _ | overflow => True
  | step next rest => ∀ e, (∃ c, P c ∧ next e = c.apply e) ∧ (rest e).Makes P
  | ask _ rest => ∀ reply, (rest reply).Makes P
  | runHead _ _ rest => ∀ decision, (rest decision).Makes P
  | runTail _ _ rest => rest.Makes P
  | tell _ rest => rest.Makes P

section
variable {P : Change ρ → Prop} {p : Program ρ α} {f : α → Program ρ β}

theorem makes_bind (h : p.Makes P) (hf : ∀ a, (f a).Makes P) : (p >>= f).Makes P := by
  induction p with
  | done a => exact hf a
  | overflow => trivial
  | step next rest ih => exact fun e => ⟨(h e).1, ih e (h e).2⟩
  | ask request rest ih => exact fun reply => ih reply (h reply)
  | runHead routine call rest ih => exact fun decision => ih decision (h decision)
  | runTail routine call rest ih => exact ih h
  | tell notice rest ih => exact ih h

theorem makes_pure (a : α) : (pure a : Program ρ α).Makes P := trivial

theorem makes_request (r : Request) : (request r : Program ρ _).Makes P := fun _ => trivial

theorem makes_sum (a b : UInt32) : (sum a b : Program ρ _).Makes P := by
  unfold sum
  cases sum? a b <;> trivial

theorem makes_notice (n : Notice) : (notice n : Program ρ _).Makes P := trivial

theorem makes_modifyGet {g : Engine ρ → α × Engine ρ} (h : ∀ e, ∃ c, P c ∧ (g e).2 = c.apply e) :
    (modifyGet g : Program ρ α).Makes P := fun e => ⟨h e, trivial⟩

theorem makes_modify {g : Engine ρ → Engine ρ} {c : Change ρ} (h : P c) (eq : ∀ e, g e = c.apply e) :
    (modify g : Program ρ PUnit).Makes P := fun e => ⟨⟨c, h, eq e⟩, trivial⟩

theorem makes_get (h : P .read) : (get : Program ρ (Engine ρ)).Makes P := fun _ => ⟨⟨_, h, rfl⟩, trivial⟩

theorem makes_forM {γ : Type} {g : γ → Program ρ PUnit} {l : List γ} (h : ∀ x ∈ l, (g x).Makes P) :
    (l.forM g).Makes P := by
  induction l with
  | nil => exact makes_pure _
  | cons x l ih =>
    exact makes_bind (h x List.mem_cons_self) fun _ => ih fun y hy => h y (List.mem_cons_of_mem x hy)

end

end Program

end TrapHooks
