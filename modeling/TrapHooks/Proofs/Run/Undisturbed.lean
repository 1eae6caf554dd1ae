import TrapHooks.Proofs.Run.Accounts

/-! Stages that run to their end with nobody entering the engine meanwhile. What a program does by itself
    is a run of the machine, in which the tasks below stay as they are. -/

namespace TrapHooks

namespace Program

variable {ρ α β : Type}

/-- The program runs to its end with nobody in between, and does these things on the way. -/
inductive Yields : Engine ρ → Program ρ α → List (Action ρ) → Engine ρ → α → Prop
  | done (e : Engine ρ) (a : α) : Yields e (done a) [] e a
  | act {e e' e'' : Engine ρ} {p p' : Program ρ α} {action : Action ρ} {actions : List (Action ρ)} {a : α}
    (acts : p.Acts e action e' p') (rest : Yields e' p' actions e'' a) : Yields e p (action :: actions) e'' a

theorem Yields.does {e e' : Engine ρ} {p : Program ρ α} {actions : List (Action ρ)} {a : α}
    (yields : p.Yields e actions e' a) : p.Does actions (.done a) := by
  induction yields with
  | done e a => exact .nil _
  | act acts rest ih => exact .cons acts ih

theorem Acts.bind {e e' : Engine ρ} {p p' : Program ρ α} {action : Action ρ} (acts : p.Acts e action e' p')
    (f : α → Program ρ β) : (p >>= f).Acts e action e' (p' >>= f) := by
  cases acts with
  | change next rest => exact .change e next _
  | reply r rest reply => exact .reply e r _ reply
  | head routine call rest decision => exact .head e routine call _ decision
  | tail routine call rest => exact .tail e routine call _
  | notice n rest => exact .notice e n _

theorem Yields.bind {e e' e'' : Engine ρ} {p : Program ρ α} {f : α → Program ρ β} {first last : List (Action ρ)}
    {a : α} {b : β} (begins : p.Yields e first e' a) (ends : (f a).Yields e' last e'' b) :
    (p >>= f).Yields e (first ++ last) e'' b := by
  induction begins with
  | done e a => exact ends
  | act acts rest ih => exact .act (acts.bind f) (ih ends)

theorem yields_modifyGet (g : Engine ρ → α × Engine ρ) (e : Engine ρ) :
    (modifyGet g : Program ρ α).Yields e [.changed e (g e).2] (g e).2 (g e).1 :=
  .act (.change ..) (.done ..)

theorem yields_notice (n : Notice) (e : Engine ρ) : (notice n : Program ρ _).Yields e [.told n] e () :=
  .act (.notice ..) (.done ..)

/-- With nobody in between, the program comes so far, and does these things on the way. -/
inductive Advances : Engine ρ → Program ρ α → List (Action ρ) → Engine ρ → Program ρ α → Prop
  | here (e : Engine ρ) (p : Program ρ α) : Advances e p [] e p
  | act {e e' e'' : Engine ρ} {p p' q : Program ρ α} {action : Action ρ} {actions : List (Action ρ)}
    (acts : p.Acts e action e' p') (rest : Advances e' p' actions e'' q) : Advances e p (action :: actions) e'' q

theorem Advances.does {e e' : Engine ρ} {p q : Program ρ α} {actions : List (Action ρ)}
    (advances : p.Advances e actions e' q) : p.Does actions q := by
  induction advances with
  | here e p => exact .nil p
  | act acts rest ih => exact .cons acts ih

/-! ### With fixed answers -/

/-- Others that answer always the same, and never enter the engine. -/
structure Answers (ρ : Type) where
  reply : (r : Request) → r.Reply
  decide : ρ → Call → Decision

def Answers.names (answers : Answers ρ) (refnum : UInt16) : Option String :=
  answers.reply (.libraryName refnum)

/-- What the program gives, and the engine that it leaves, if nobody comes between; nothing, if it breaks off. -/
def alone (answers : Answers ρ) : Program ρ α → Engine ρ → Option (α × Engine ρ)
  | done a, e => some (a, e)
  | overflow, _ => none
  | step next rest, e => (rest e).alone answers (next e)
  | ask r rest, e => (rest (answers.reply r)).alone answers e
  | runHead routine call rest, e => (rest (answers.decide routine call)).alone answers e
  | runTail _ _ rest, e => rest.alone answers e
  | tell _ rest, e => rest.alone answers e

/-- What the program does until it asks for one of these, if nobody comes between; the engine is as it left it then,
    and this is left of it. -/
def upTo (answers : Answers ρ) (stops : Request → Bool) :
    Program ρ α → Engine ρ → List (Action ρ) × Engine ρ × Program ρ α
  | done a, e => ([], e, done a)
  | overflow, e => ([], e, overflow)
  | step next rest, e =>
    let later := (rest e).upTo answers stops (next e)
    (.changed e (next e) :: later.1, later.2)
  | ask r rest, e =>
    if stops r then ([], e, ask r rest) else
      let later := (rest (answers.reply r)).upTo answers stops e
      (.replied r (answers.reply r) :: later.1, later.2)
  | runHead routine call rest, e =>
    let later := (rest (answers.decide routine call)).upTo answers stops e
    (.headRan routine call (answers.decide routine call) :: later.1, later.2)
  | runTail routine call rest, e =>
    let later := rest.upTo answers stops e
    (.tailRan routine call :: later.1, later.2)
  | tell n rest, e =>
    let later := rest.upTo answers stops e
    (.told n :: later.1, later.2)

theorem advances_upTo (answers : Answers ρ) (stops : Request → Bool) (p : Program ρ α) (e : Engine ρ) :
    p.Advances e (p.upTo answers stops e).1 (p.upTo answers stops e).2.1 (p.upTo answers stops e).2.2 := by
  induction p generalizing e with
  | done a => exact .here ..
  | overflow => exact .here ..
  | step next rest ih => exact .act (.change ..) (ih e (next e))
  | ask r rest ih =>
    unfold upTo
    split
    · exact .here ..
    · exact .act (.reply ..) (ih _ e)
  | runHead routine call rest ih => exact .act (.head ..) (ih _ e)
  | runTail routine call rest ih => exact .act (.tail ..) (ih e)
  | tell n rest ih => exact .act (.notice ..) (ih e)

/-- If the program is not stopped, it ends, or it breaks off. -/
theorem upTo_never (answers : Answers ρ) (p : Program ρ α) (e : Engine ρ) :
    (∃ a, (p.upTo answers (fun _ => false) e).2.2 = done a) ∨ (p.upTo answers (fun _ => false) e).2.2 = overflow := by
  induction p generalizing e with
  | done a => exact .inl ⟨a, rfl⟩
  | overflow => exact .inr rfl
  | step next rest ih => exact ih e (next e)
  | ask r rest ih => exact ih (answers.reply r) e
  | runHead routine call rest ih => exact ih (answers.decide routine call) e
  | runTail routine call rest ih => exact ih e
  | tell n rest ih => exact ih e

theorem reply_of_mem_upTo {answers : Answers ρ} {stops : Request → Bool} {p : Program ρ α} {e : Engine ρ} {r : Request}
    {reply : r.Reply} (member : .replied r reply ∈ (p.upTo answers stops e).1) : reply = answers.reply r := by
  induction p generalizing e with
  | done a => simp [upTo] at member
  | overflow => simp [upTo] at member
  | step next rest ih => exact ih _ (by simpa [upTo] using member)
  | ask r' rest ih =>
    unfold upTo at member
    split at member
    · simp at member
    · rcases List.mem_cons.mp member with same | member
      · cases same
        rfl
      · exact ih _ member
  | runHead routine call rest ih => exact ih _ (by simpa [upTo] using member)
  | runTail routine call rest ih => exact ih (by simpa [upTo] using member)
  | tell n rest ih => exact ih (by simpa [upTo] using member)

/-- There is something to reply to every request. -/
theorem nonempty_reply (r : Request) : Nonempty r.Reply := by
  cases r <;> first | exact ⟨default⟩ | exact ⟨{}⟩ | exact ⟨.error ⟨0⟩⟩

theorem Answers.exists_names (names : UInt16 → Option String) : ∃ answers : Answers ρ, answers.names = names :=
  ⟨{ reply := fun
       | .libraryName refnum => names refnum
       | r => Classical.choice (nonempty_reply r)
     decide := fun _ _ => .execute }, rfl⟩

section
variable {answers : Answers ρ}

/-- With fixed answers, a program that comes to its end does so by itself, and all that it is replied is one of them. -/
theorem yields_alone {p : Program ρ α} {e e' : Engine ρ} {a : α} (ends : p.alone answers e = some (a, e')) :
    ∃ actions, p.Yields e actions e' a ∧ ∀ r reply, .replied r reply ∈ actions → reply = answers.reply r := by
  have other {actions : List (Action ρ)} {action : Action ρ} (different : ∀ r reply, action ≠ .replied r reply)
      (replied : ∀ r reply, .replied r reply ∈ actions → reply = answers.reply r) :
      ∀ r reply, .replied r reply ∈ action :: actions → reply = answers.reply r := fun r reply member =>
    (List.mem_cons.mp member).elim (fun same => absurd same.symm (different r reply)) (replied r reply)
  induction p generalizing e with
  | done a =>
    cases ends
    exact ⟨_, .done .., by simp⟩
  | overflow => cases ends
  | step next rest ih =>
    obtain ⟨actions, yields, replied⟩ := ih e ends
    exact ⟨_, .act (.change ..) yields, other (fun _ _ => by simp) replied⟩
  | ask r rest ih =>
    obtain ⟨actions, yields, replied⟩ := ih _ ends
    refine ⟨_, .act (.reply e r rest (answers.reply r)) yields, fun r' reply member => ?_⟩
    rcases List.mem_cons.mp member with same | member
    · cases same
      rfl
    · exact replied r' reply member
  | runHead routine call rest ih =>
    obtain ⟨actions, yields, replied⟩ := ih _ ends
    exact ⟨_, .act (.head ..) yields, other (fun _ _ => by simp) replied⟩
  | runTail routine call rest ih =>
    obtain ⟨actions, yields, replied⟩ := ih ends
    exact ⟨_, .act (.tail ..) yields, other (fun _ _ => by simp) replied⟩
  | tell n rest ih =>
    obtain ⟨actions, yields, replied⟩ := ih ends
    exact ⟨_, .act (.notice ..) yields, other (fun _ _ => by simp) replied⟩

theorem alone_bind (p : Program ρ α) (f : α → Program ρ β) (e : Engine ρ) :
    (p >>= f).alone answers e = (p.alone answers e).bind fun ended => (f ended.1).alone answers ended.2 := by
  induction p generalizing e with
  | done a => rfl
  | overflow => rfl
  | step next rest ih => exact ih e (next e)
  | ask r rest ih => exact ih _ e
  | runHead routine call rest ih => exact ih _ e
  | runTail routine call rest ih => exact ih e
  | tell n rest ih => exact ih e

/-- Of two programs in a row, the second goes on from what the first has left. -/
theorem alone_bind_of {p : Program ρ α} {e e' : Engine ρ} {a : α} (first : p.alone answers e = some (a, e'))
    (f : α → Program ρ β) : (p >>= f).alone answers e = (f a).alone answers e' := by
  rw [alone_bind, first]
  rfl

theorem alone_get (e : Engine ρ) : (get : Program ρ (Engine ρ)).alone answers e = some (e, e) := rfl

theorem alone_modifyGet (g : Engine ρ → α × Engine ρ) (e : Engine ρ) :
    (modifyGet g : Program ρ α).alone answers e = some ((g e).1, (g e).2) := rfl

theorem alone_modify (g : Engine ρ → Engine ρ) (e : Engine ρ) :
    (modify g : Program ρ PUnit).alone answers e = some ((), g e) := rfl

theorem alone_request (r : Request) (e : Engine ρ) :
    (request r : Program ρ _).alone answers e = some (answers.reply r, e) := rfl

theorem alone_notice (n : Notice) (e : Engine ρ) : (notice n : Program ρ _).alone answers e = some ((), e) := rfl

end

/-! ### Programs without sums -/

/-- Whatever is replied, the program does not break off. -/
def Lasts : Program ρ α → Prop
  | done _ => True
  | overflow => False
  | step _ rest => ∀ e, (rest e).Lasts
  | ask _ rest => ∀ reply, (rest reply).Lasts
  | runHead _ _ rest => ∀ decision, (rest decision).Lasts
  | runTail _ _ rest => rest.Lasts
  | tell _ rest => rest.Lasts

theorem lasts_bind {p : Program ρ α} {f : α → Program ρ β} (h : p.Lasts) (hf : ∀ a, (f a).Lasts) :
    (p >>= f).Lasts := by
  induction p with
  | done a => exact hf a
  | overflow => exact h.elim
  | step next rest ih => exact fun e => ih e (h e)
  | ask r rest ih => exact fun reply => ih reply (h reply)
  | runHead routine call rest ih => exact fun decision => ih decision (h decision)
  | runTail routine call rest ih => exact ih h
  | tell n rest ih => exact ih h

theorem lasts_pure (a : α) : (pure a : Program ρ α).Lasts := trivial

theorem lasts_get : (get : Program ρ (Engine ρ)).Lasts := fun _ => trivial

theorem lasts_modifyGet (g : Engine ρ → α × Engine ρ) : (modifyGet g : Program ρ α).Lasts := fun _ => trivial

theorem lasts_request (r : Request) : (request r : Program ρ _).Lasts := fun _ => trivial

theorem lasts_notice (n : Notice) : (notice n : Program ρ _).Lasts := trivial

theorem lasts_forM {γ : Type} {g : γ → Program ρ PUnit} (h : ∀ x, (g x).Lasts) (l : List γ) : (l.forM g).Lasts := by
  induction l with
  | nil => exact lasts_pure _
  | cons x l ih => exact lasts_bind (h x) fun _ => ih

/-- With fixed answers, a program that does not break off comes to its end. -/
theorem Lasts.alone {p : Program ρ α} (lasts : p.Lasts) (answers : Answers ρ) (e : Engine ρ) :
    ∃ a e', p.alone answers e = some (a, e') := by
  induction p generalizing e with
  | done a => exact ⟨a, e, rfl⟩
  | overflow => exact lasts.elim
  | step next rest ih => exact ih e (lasts e) (next e)
  | ask r rest ih => exact ih _ (lasts _) e
  | runHead routine call rest ih => exact ih _ (lasts _) e
  | runTail routine call rest ih => exact ih lasts e
  | tell n rest ih => exact ih lasts e

end Program

namespace Engine

open Program

variable {ρ : Type}

/-- A call whose routine is let run has its tail hook wait, if that can be counted. -/
theorem yields_conclude {call : Call} {hooks : Hooks ρ} {tail : TailHook ρ} (found : hooks.tail = some tail)
    {e : Engine ρ} (counts : (e.returns.arm tail call).1 ≠ .overflow) :
    ∃ n, (conclude call hooks .execute).Yields e
      [.changed e (e.onReturns (Returns.arm tail call)).2, .told n, .told (.handled call .execute)]
      (e.onReturns (Returns.arm tail call)).2 .execute := by
  unfold conclude
  rw [found]
  have arms : ∃ n, (armTail tail call).Yields e [.changed e (e.onReturns (Returns.arm tail call)).2, .told n]
      (e.onReturns (Returns.arm tail call)).2 () := by
    cases armed : (e.onReturns (Returns.arm tail call)).1 with
    | first =>
      exact ⟨_, (yields_modifyGet _ e).bind (by rw [armed]; exact yields_notice ..)⟩
    | again count =>
      exact ⟨_, (yields_modifyGet _ e).bind (by rw [armed]; exact yields_notice ..)⟩
    | overflow => exact absurd armed counts
  obtain ⟨n, arms⟩ := arms
  exact ⟨n, arms.bind ((yields_notice ..).bind (.done ..))⟩

end Engine

section
variable {ρ : Type} {m n k : Machine ρ} {trace trace' : List (Moment ρ)}

theorem Run.trans (run : Run m trace n) (run' : Run n trace' k) : Run m (trace ++ trace') k := by
  induction run' with
  | nil =>
    rw [List.append_nil]
    exact run
  | snoc run' step ih =>
    rw [← List.append_assoc]
    exact .snoc ih step

theorem acted_of_map {s : Stage ρ} {actions : List (Action ρ)}
    (events : trace.map (·.event) = actions.map (.acted s)) {x : Moment ρ} (member : x ∈ trace) :
    ∃ action ∈ actions, x.event = .acted s action := by
  have listed := List.mem_map_of_mem (f := (·.event)) member
  rw [events] at listed
  obtain ⟨action, done, same⟩ := List.mem_map.mp listed
  exact ⟨action, done, same.symm⟩

/-- The latest task goes on for a while, and stays the latest. -/
theorem Run.advance {e e' : Engine ρ} {s : Stage ρ} {p q : Program ρ s.Result} {actions : List (Action ρ)}
    (advances : p.Advances e actions e' q) (done : List (Action ρ)) (below : List (Task ρ)) :
    ∃ trace, Run ⟨e, ⟨s, p, done⟩ :: below⟩ trace ⟨e', ⟨s, q, done ++ actions⟩ :: below⟩ ∧
      trace.map (·.event) = actions.map (.acted s) ∧
      ∀ x ∈ trace, ∃ rest did, x.after.tasks = ⟨s, rest, did⟩ :: below := by
  induction advances generalizing done with
  | here e p =>
    rw [List.append_nil]
    exact ⟨[], .nil, rfl, by simp⟩
  | @act e e' e'' p p' q action actions acts rest ih =>
    obtain ⟨trace, run, events, tasks⟩ := ih (done ++ [action])
    rw [List.append_assoc] at run
    refine ⟨_, (Run.snoc .nil (.act acts done below)).trans run, by simp [events], fun x member => ?_⟩
    rcases List.mem_append.mp member with member | member
    · rw [List.nil_append, List.mem_singleton] at member
      subst member
      exact ⟨_, _, rfl⟩
    · exact tasks x member

/-- Somebody enters, and comes so far with nobody in between. -/
theorem Run.enter_upTo (answers : Program.Answers ρ) (stops : Request → Bool) {s : Stage ρ} (entry : s.isEntry)
    (rests : m.AtRest) : ∃ trace,
      Run m trace ⟨(s.program.upTo answers stops m.engine).2.1,
        ⟨s, (s.program.upTo answers stops m.engine).2.2, (s.program.upTo answers stops m.engine).1⟩ :: m.tasks⟩ ∧
      trace.map (·.event) = .entered s :: (s.program.upTo answers stops m.engine).1.map (.acted s) ∧
      ∀ x ∈ trace, x.after.tasks.tail = m.tasks := by
  obtain ⟨trace, run, events, tasks⟩ :=
    Run.advance (Program.advances_upTo answers stops s.program m.engine) [] m.tasks
  refine ⟨_, (Run.snoc .nil (.enter m s entry rests)).trans run, by simp [events], fun x member => ?_⟩
  rcases List.mem_append.mp member with member | member
  · obtain rfl := List.mem_singleton.mp member
    rfl
  · obtain ⟨rest, did, stack⟩ := tasks x member
    rw [stack]
    rfl

/-- What is left of the latest task runs to its end, and the stage that follows begins. The engine is on
    the way as it was, or as some change of the task left it. -/
theorem Run.through {e e' : Engine ρ} {s : Stage ρ} {p : Program ρ s.Result} {actions : List (Action ρ)}
    {result : s.Result} (yields : p.Yields e actions e' result) (done : List (Action ρ)) (below : List (Task ρ)) :
    ∃ trace, Run ⟨e, ⟨s, p, done⟩ :: below⟩ trace ⟨e', ((s.next result).map .begin).toList ++ below⟩ ∧
      trace.map (·.event) = actions.map (.acted s) ++ [.finished s result (done ++ actions)] ∧
      ∀ x ∈ trace, x.after.engine = e ∨ ∃ before, .changed before x.after.engine ∈ actions := by
  induction yields generalizing done with
  | done e a =>
    refine ⟨_, .snoc .nil (.finish e s a done below), ?_, ?_⟩
    · simp
    · simp
  | @act e e' e'' p p' action actions a acts rest ih =>
    obtain ⟨trace, run, events, engines⟩ := ih (done ++ [action])
    refine ⟨_, (Run.snoc .nil (.act acts done below)).trans run, ?_, ?_⟩
    · simp [events]
    · have first : e' = e ∨ ∃ before, .changed before e' ∈ action :: actions := by
        cases acts with
        | change next rest => exact .inr ⟨e, List.mem_cons_self⟩
        | _ => exact .inl rfl
      intro x member
      rcases List.mem_append.mp member with member | member
      · rw [List.nil_append, List.mem_singleton] at member
        rw [member]
        exact first
      · rcases engines x member with same | ⟨before, changed⟩
        · rw [same]
          exact first
        · exact .inr ⟨before, List.mem_cons_of_mem action changed⟩

theorem Run.stage {s : Stage ρ} (entry : s.isEntry) (rests : m.AtRest) {e' : Engine ρ} {actions : List (Action ρ)}
    {result : s.Result} (yields : s.program.Yields m.engine actions e' result) :
    ∃ trace, Run m trace ⟨e', ((s.next result).map .begin).toList ++ m.tasks⟩ ∧
      trace.map (·.event) = .entered s :: actions.map (.acted s) ++ [.finished s result actions] ∧
      ∀ x ∈ trace, x.after.engine = m.engine ∨ ∃ before, .changed before x.after.engine ∈ actions := by
  obtain ⟨trace, run, events, engines⟩ := Run.through yields [] m.tasks
  refine ⟨_, (Run.snoc .nil (.enter m s entry rests)).trans run, ?_, ?_⟩
  · simp [events]
  · intro x member
    rcases List.mem_append.mp member with member | member
    · rw [List.nil_append, List.mem_singleton] at member
      rw [member]
      exact .inl rfl
    · exact engines x member

/-- What a stage leaves that nobody disturbs, others can meet. -/
theorem Engine.Reachable.alone {e e' : Engine ρ} (reachable : e.Reachable) {s : Stage ρ} (entry : s.isEntry)
    (last : ∀ result, s.next result = none) {answers : Program.Answers ρ} {result : s.Result}
    (ends : s.program.alone answers e = some (result, e')) : e'.Reachable := by
  obtain ⟨config, registry, marks, past, m, run, rests, rfl⟩ := reachable
  obtain ⟨actions, yields, -⟩ := Program.yields_alone ends
  obtain ⟨trace, later, -, -⟩ := Run.stage entry rests yields
  rw [last] at later
  exact ⟨config, registry, marks, _, _, run.trans later, rests, rfl⟩

/-- A call without a head hook comes through by itself: its tail hook waits, if that can be counted, and nobody is
    asked. -/
theorem Run.arming (rests : m.AtRest) {call : Call} {tail : TailHook ρ}
    (counts : (m.engine.returns.arm tail call).1 ≠ .overflow) :
    ∃ trace n actions, Run m trace ⟨(m.engine.onReturns (Returns.arm tail call)).2, m.tasks⟩ ∧
      actions = [.changed m.engine (m.engine.onReturns (Returns.arm tail call)).2, .told n,
        .told (.handled call .execute)] ∧
      trace.map (·.event) =
        [.entered (.handle call { tail := some tail }), .finished (.handle call { tail := some tail }) .execute []] ++
          actions.map (.acted (.conclude call { tail := some tail } .execute)) ++
          [.finished (.conclude call { tail := some tail } .execute) .execute actions] ∧
      ∀ x ∈ trace, x.after.engine = m.engine ∨ x.after.engine = (m.engine.onReturns (Returns.arm tail call)).2 := by
  let hooks : Hooks ρ := { tail := some tail }
  let after := (m.engine.onReturns (Returns.arm tail call)).2
  have decides : (Stage.handle call hooks).program.Yields m.engine [] m.engine Decision.execute := .done ..
  have found : hooks.tail = some tail := rfl
  obtain ⟨n, concludes⟩ : ∃ n, (Stage.conclude call hooks .execute).program.Yields m.engine
      [.changed m.engine after, .told n, .told (.handled call .execute)] after Decision.execute :=
    Engine.yields_conclude found counts
  obtain ⟨first, handled, events, engines⟩ := Run.stage rfl rests decides
  obtain ⟨last, concluded, events', engines'⟩ := Run.through concludes [] m.tasks
  refine ⟨_, n, _, handled.trans concluded, rfl, ?_, ?_⟩
  · simp [events, events', hooks, after]
  · intro x member
    rcases List.mem_append.mp member with member | member
    · exact .inl ((engines x member).resolve_right (by simp))
    · refine (engines' x member).imp_right ?_
      rintro ⟨before, changed⟩
      rcases List.mem_cons.mp changed with same | told
      · exact (Action.changed.inj same).2
      · simp at told

end

end TrapHooks
