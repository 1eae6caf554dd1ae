import TrapHooks.Proofs.Run.Requests

/-! The span of a task: all that happens from the moment at which it begins until it ends. While it is at the top
    it goes on; while it waits, others come and go above it, and leave it as it is. What it has done is therefore
    spread over the run in order. If others come only while the task has the guest run a routine, the task also
    meets the engine as it left it after any other question. -/

namespace TrapHooks

variable {ρ α β : Type}

theorem Stage.next_ne (s : Stage ρ) (result : s.Result) : s.next result ≠ some s := by
  cases s <;> simp [Stage.next]

namespace Run

variable {m n : Machine ρ}

/-- What follows one of the moments of a run is a run. -/
theorem tail {earlier later : List (Moment ρ)} {x : Moment ρ} (run : Run m (earlier ++ x :: later) n) :
    Run x.after later n := by
  generalize whole : earlier ++ x :: later = trace at run
  induction run generalizing later with
  | nil => simp at whole
  | @snoc trace k l event run step ih =>
    rcases List.eq_nil_or_concat later with rfl | ⟨front, last, rfl⟩
    · obtain ⟨-, same⟩ := List.append_inj' whole rfl
      cases same
      exact .nil
    · rw [List.concat_eq_append, ← List.cons_append, ← List.append_assoc] at whole
      obtain ⟨before, same⟩ := List.append_inj' whole rfl
      cases same
      rw [List.concat_eq_append]
      exact .snoc (ih before) step

end Run

/-! ### Spans -/

/-- All that happens while a task of this stage is at work on top of others: which tasks are above it then, what is
    left of it, and what it has done. -/
inductive Span (s : Stage ρ) (below : List (Task ρ)) (start : Engine ρ) :
    List (Moment ρ) → Engine ρ → List (Task ρ) → Program ρ s.Result → List (Action ρ) → Prop
  | begin : Span s below start [] start [] s.program []
  | enter {trace : List (Moment ρ)} {e : Engine ρ} {above : List (Task ρ)} {rest : Program ρ s.Result}
    {did : List (Action ρ)} (span : Span s below start trace e above rest did) (s' : Stage ρ)
    (rests : (Machine.mk e (above ++ ⟨s, rest, did⟩ :: below)).AtRest) :
    Span s below start (trace ++ [⟨.entered s', ⟨e, .begin s' :: above ++ ⟨s, rest, did⟩ :: below⟩⟩]) e
      (.begin s' :: above) rest did
  | own {trace : List (Moment ρ)} {e e' : Engine ρ} {rest rest' : Program ρ s.Result} {did : List (Action ρ)}
    {action : Action ρ} (span : Span s below start trace e [] rest did) (acts : rest.Acts e action e' rest') :
    Span s below start (trace ++ [⟨.acted s action, ⟨e', ⟨s, rest', did ++ [action]⟩ :: below⟩⟩]) e' [] rest'
      (did ++ [action])
  | other {trace : List (Moment ρ)} {e e' : Engine ρ} {s' : Stage ρ} {p p' : Program ρ s'.Result}
    {done : List (Action ρ)} {above : List (Task ρ)} {rest : Program ρ s.Result} {did : List (Action ρ)}
    {action : Action ρ} (span : Span s below start trace e (⟨s', p, done⟩ :: above) rest did)
    (acts : p.Acts e action e' p') :
    Span s below start
      (trace ++ [⟨.acted s' action, ⟨e', ⟨s', p', done ++ [action]⟩ :: above ++ ⟨s, rest, did⟩ :: below⟩⟩]) e'
      (⟨s', p', done ++ [action]⟩ :: above) rest did
  | leave {trace : List (Moment ρ)} {e : Engine ρ} {s' : Stage ρ} {result : s'.Result} {done : List (Action ρ)}
    {above : List (Task ρ)} {rest : Program ρ s.Result} {did : List (Action ρ)}
    (span : Span s below start trace e (⟨s', .done result, done⟩ :: above) rest did) :
    Span s below start
      (trace ++ [⟨.finished s' result done,
        ⟨e, ((s'.next result).map .begin).toList ++ (above ++ ⟨s, rest, did⟩ :: below)⟩⟩]) e
      (((s'.next result).map .begin).toList ++ above) rest did

/-- A task of this stage is at work on top of these, or waits for those above it. -/
def Machine.Works (s : Stage ρ) (below : List (Task ρ)) (m : Machine ρ) : Prop :=
  ∃ above rest did, m.tasks = above ++ ⟨s, rest, did⟩ :: below

/-- As long as it is there, the task that has begun is the same. -/
theorem Run.span {m n : Machine ρ} {trace : List (Moment ρ)} {s : Stage ρ} {below : List (Task ρ)}
    (run : Run m trace n) (begins : m.tasks = .begin s :: below) (works : ∀ x ∈ trace, x.after.Works s below) :
    ∃ above rest did, n.tasks = above ++ ⟨s, rest, did⟩ :: below ∧
      Span s below m.engine trace n.engine above rest did := by
  induction run with
  | nil => exact ⟨[], s.program, [], begins, .begin⟩
  | @snoc trace k l event run step ih =>
    obtain ⟨above, rest, did, tasks, span⟩ := ih fun x member => works x (List.mem_append_left _ member)
    have still := works ⟨event, l⟩ (List.mem_append_right _ (List.mem_singleton_self _))
    obtain ⟨e, stack⟩ := k
    obtain rfl : stack = _ := tasks
    generalize whole : above ++ ⟨s, rest, did⟩ :: below = stack at step
    cases step with
    | enter k s' entry rests =>
      subst whole
      exact ⟨.begin s' :: above, rest, did, rfl, .enter span s' rests⟩
    | @act e e' s' p p' action acts done others =>
      cases above with
      | nil =>
        obtain ⟨same, rfl⟩ := List.cons.inj whole
        cases same
        exact ⟨[], p', did ++ [action], rfl, .own span acts⟩
      | cons top above =>
        obtain ⟨rfl, rfl⟩ := List.cons.inj whole
        exact ⟨⟨s', p', done ++ [action]⟩ :: above, rest, did, rfl, .other span acts⟩
    | finish e s' result done others =>
      cases above with
      | nil =>
        -- Another stage follows the one that ends, or none does.
        obtain ⟨same, rfl⟩ := List.cons.inj whole
        cases same
        obtain ⟨above, rest, did', stays⟩ := still
        have stays : ((s.next result).map Task.begin).toList ++ below = above ++ ⟨s, rest, did'⟩ :: below := stays
        cases follows : s.next result with
        | none =>
          have size := congrArg List.length stays
          simp [follows] at size
          omega
        | some s' =>
          rw [follows] at stays
          obtain rfl : above = [] := by simpa using congrArg List.length stays
          cases stays
          exact absurd follows (s.next_ne result)
      | cons top above =>
        obtain ⟨rfl, rfl⟩ := List.cons.inj whole
        exact ⟨((s'.next result).map .begin).toList ++ above, rest, did, by simp, .leave span⟩

theorem Run.span_top {m n : Machine ρ} {trace : List (Moment ρ)} {s : Stage ρ} {below : List (Task ρ)}
    {rest : Program ρ s.Result} {did : List (Action ρ)} (run : Run m trace n) (begins : m.tasks = .begin s :: below)
    (works : ∀ x ∈ trace, x.after.Works s below) (ends : n.tasks = ⟨s, rest, did⟩ :: below) :
    Span s below m.engine trace n.engine [] rest did := by
  obtain ⟨above, rest', did', tasks, span⟩ := run.span begins works
  rw [ends] at tasks
  obtain rfl : above = [] := by simpa using congrArg List.length tasks
  cases tasks
  exact span

/-! ### What a task does by itself -/

/-- What the task on top of these does, if it is the one that does something. -/
def Moment.own (below : List (Task ρ)) (x : Moment ρ) : Option (Action ρ) :=
  match x.event with
  | .acted _ action => if x.after.tasks.length = below.length + 1 then some action else none
  | _ => none

theorem Moment.own_top (s : Stage ρ) (action : Action ρ) (e : Engine ρ) (t : Task ρ) (below : List (Task ρ)) :
    Moment.own below ⟨.acted s action, ⟨e, t :: below⟩⟩ = some action := by
  simp [own]

theorem Moment.own_above (s : Stage ρ) (action : Action ρ) (e : Engine ρ) (t u : Task ρ) (above below : List (Task ρ)) :
    Moment.own below ⟨.acted s action, ⟨e, t :: above ++ u :: below⟩⟩ = none := by
  have higher : (t :: above ++ u :: below).length ≠ below.length + 1 := by
    simp only [List.length_append, List.length_cons]
    omega
  exact if_neg higher

namespace Span

variable {s : Stage ρ} {below above : List (Task ρ)} {start e : Engine ρ} {trace : List (Moment ρ)}
  {rest : Program ρ s.Result} {did : List (Action ρ)}

/-- What a task has done is what it did by itself, in order. -/
theorem own_eq (span : Span s below start trace e above rest did) : trace.filterMap (Moment.own below) = did := by
  induction span with
  | begin => rfl
  | enter span s' rests ih =>
    rw [List.filterMap_append, ih]
    exact List.append_nil _
  | own span acts ih =>
    rw [List.filterMap_append, ih, List.filterMap_cons, Moment.own_top]
    rfl
  | other span acts ih =>
    rw [List.filterMap_append, ih, List.filterMap_cons, Moment.own_above]
    exact List.append_nil _
  | leave span ih =>
    rw [List.filterMap_append, ih]
    exact List.append_nil _

theorem event_of_own (span : Span s below start trace e above rest did) :
    ∀ x ∈ trace, ∀ action, x.own below = some action → x.event = .acted s action := by
  induction span with
  | begin => simp
  | enter span s' rests ih => exact List.forall_mem_append.mpr ⟨ih, by simp [Moment.own]⟩
  | own span acts ih =>
    refine List.forall_mem_append.mpr ⟨ih, List.forall_mem_singleton.mpr fun action same => ?_⟩
    rw [Moment.own_top] at same
    rw [Option.some.inj same]
  | other span acts ih =>
    refine List.forall_mem_append.mpr ⟨ih, List.forall_mem_singleton.mpr fun action same => ?_⟩
    rw [Moment.own_above] at same
    cases same
  | leave span ih => exact List.forall_mem_append.mpr ⟨ih, by simp [Moment.own]⟩

theorem does_own (span : Span s below start trace e above rest did) : s.program.Does did rest := by
  induction span with
  | begin => exact .nil s.program
  | enter span s' rests ih => exact ih
  | own span acts ih => exact ih.snoc acts
  | other span acts ih => exact ih
  | leave span ih => exact ih

/-- What each of the tasks above has done is what its program says. -/
theorem does (span : Span s below start trace e above rest did) : ∀ t ∈ above, t.stage.program.Does t.done t.rest := by
  induction span with
  | begin => simp
  | enter span s' rests ih => exact List.forall_mem_cons.mpr ⟨.nil s'.program, ih⟩
  | own span acts ih => simp
  | other span acts ih =>
    obtain ⟨top, others⟩ := List.forall_mem_cons.mp ih
    exact List.forall_mem_cons.mpr ⟨top.snoc acts, others⟩
  | leave span ih =>
    obtain ⟨-, others⟩ := List.forall_mem_cons.mp ih
    exact Stage.forall_mem_next (fun next => .nil next.program) _ _ others

end Span

/-! ### While the guest is at work -/

/-- A routine of the guest runs for it. -/
def Request.callsGuest : Request → Bool
  | getFeature _ _ | setFeature _ _ _ | removeFeature _ _ | setStrictChecks _ | syncUserName | wakeEvents | setClock _
  | postKey _ _ _ | postPen _ | libraryName _ | databaseInfo _ | findDatabase _ _ | allocate _ | setOwner _ _
  | writeWord _ _ | writeLong _ _ | switchApp _ _ _ => true
  | _ => false

namespace Program

/-- It waits for a routine of the guest. -/
def CallsGuest : Program ρ α → Prop
  | ask r _ => r.callsGuest = true
  | _ => False

theorem CallsGuest.waits {p : Program ρ α} (calls : p.CallsGuest) : p.Waits := by
  cases p with
  | ask r rest => trivial
  | _ => exact calls.elim

/-- Begun where the engine is this and these things are done, the program ends as `Q` has it, if nobody touches the
    engine but while a routine of the guest runs. -/
def Attains (Q : List (Action ρ) → α → Engine ρ → Prop) : Program ρ α → List (Action ρ) → Engine ρ → Prop
  | done a, did, e => Q did a e
  | overflow, _, _ => True
  | step next rest, did, e => (rest e).Attains Q (did ++ [.changed e (next e)]) (next e)
  | ask r rest, did, e =>
    ∀ reply e', (r.callsGuest = false → e' = e) → (rest reply).Attains Q (did ++ [.replied r reply]) e'
  | runHead routine call rest, did, e =>
    ∀ decision, (rest decision).Attains Q (did ++ [.headRan routine call decision]) e
  | runTail routine call rest, did, e => rest.Attains Q (did ++ [.tailRan routine call]) e
  | tell n rest, did, e => rest.Attains Q (did ++ [.told n]) e

section
variable {Q : List (Action ρ) → α → Engine ρ → Prop} {p : Program ρ α} {did : List (Action ρ)} {e : Engine ρ}

theorem Attains.mono {R : List (Action ρ) → α → Engine ρ → Prop} (attains : p.Attains Q did e)
    (weaker : ∀ did a e, Q did a e → R did a e) : p.Attains R did e := by
  induction p generalizing did e with
  | done a => exact weaker did a e attains
  | overflow => trivial
  | step next rest ih => exact ih e attains
  | ask r rest ih => exact fun reply e' same => ih reply (attains reply e' same)
  | runHead routine call rest ih => exact fun decision => ih decision (attains decision)
  | runTail routine call rest ih => exact ih attains
  | tell n rest ih => exact ih attains

theorem attains_bind {Q : List (Action ρ) → β → Engine ρ → Prop} {f : α → Program ρ β}
    (attains : p.Attains (fun did a e => (f a).Attains Q did e) did e) : (p >>= f).Attains Q did e := by
  induction p generalizing did e with
  | done a => exact attains
  | overflow => trivial
  | step next rest ih => exact ih e attains
  | ask r rest ih => exact fun reply e' same => ih reply (attains reply e' same)
  | runHead routine call rest ih => exact fun decision => ih decision (attains decision)
  | runTail routine call rest ih => exact ih attains
  | tell n rest ih => exact ih attains

/-- Whatever becomes of the engine, the program does what it says. -/
theorem attains_does (p : Program ρ α) (did : List (Action ρ)) (e : Engine ρ) :
    p.Attains (fun did' a _ => ∃ actions, did' = did ++ actions ∧ p.Does actions (done a)) did e := by
  induction p generalizing did e with
  | done a => exact ⟨[], by simp, .nil _⟩
  | overflow => trivial
  | step next rest ih =>
    refine (ih e (did ++ [.changed e (next e)]) (next e)).mono fun did' a e' ends => ?_
    obtain ⟨actions, rfl, does⟩ := ends
    exact ⟨.changed e (next e) :: actions, by simp, .cons (.change e next rest) does⟩
  | ask r rest ih =>
    refine fun reply e' _ => (ih reply (did ++ [.replied r reply]) e').mono fun did' a e' ends => ?_
    obtain ⟨actions, rfl, does⟩ := ends
    exact ⟨.replied r reply :: actions, by simp, .cons (.reply {} r rest reply) does⟩
  | runHead routine call rest ih =>
    refine fun decision => (ih decision (did ++ [.headRan routine call decision]) e).mono fun did' a e' ends => ?_
    obtain ⟨actions, rfl, does⟩ := ends
    exact ⟨.headRan routine call decision :: actions, by simp, .cons (.head {} routine call rest decision) does⟩
  | runTail routine call rest ih =>
    refine (ih (did ++ [.tailRan routine call]) e).mono fun did' a e' ends => ?_
    obtain ⟨actions, rfl, does⟩ := ends
    exact ⟨.tailRan routine call :: actions, by simp, .cons (.tail {} routine call rest) does⟩
  | tell n rest ih =>
    refine (ih (did ++ [.told n]) e).mono fun did' a e' ends => ?_
    obtain ⟨actions, rfl, does⟩ := ends
    exact ⟨.told n :: actions, by simp, .cons (.notice {} n rest) does⟩

/-- The engine stays as it is while the host answers. -/
theorem attains_request {r : Request} {Q : List (Action ρ) → r.Reply → Engine ρ → Prop} (host : r.callsGuest = false)
    (later : ∀ reply, Q (did ++ [.replied r reply]) reply e) : (request r).Attains Q did e := by
  intro reply e' same
  rw [same host]
  exact later reply

theorem attains_notice {Q : List (Action ρ) → Unit → Engine ρ → Prop} {n : Notice} (later : Q (did ++ [.told n]) () e) :
    (notice n).Attains Q did e := later

theorem attains_pure {a : α} (later : Q did a e) : (pure a : Program ρ α).Attains Q did e := later

theorem attains_get {Q : List (Action ρ) → Engine ρ → Engine ρ → Prop} (later : Q (did ++ [.changed e e]) e e) :
    (get : Program ρ (Engine ρ)).Attains Q did e := later

theorem attains_modify {Q : List (Action ρ) → PUnit → Engine ρ → Prop} {g : Engine ρ → Engine ρ}
    (later : Q (did ++ [.changed e (g e)]) () (g e)) : (modify g : Program ρ PUnit).Attains Q did e := later

theorem Acts.attains {e' : Engine ρ} {p' : Program ρ α} {action : Action ρ} (acts : p.Acts e action e' p')
    (attains : p.Attains Q did e) : p'.Attains Q (did ++ [action]) e' := by
  cases acts with
  | change next rest => exact attains
  | reply r rest reply => exact attains reply e fun _ => rfl
  | head routine call rest decision => exact attains decision
  | tail routine call => exact attains
  | notice n => exact attains

/-- While a routine of the guest runs, it does not matter what becomes of the engine. -/
theorem Attains.of_callsGuest (attains : p.Attains Q did e) (calls : p.CallsGuest) (e' : Engine ρ) :
    p.Attains Q did e' := by
  cases p with
  | ask r rest =>
    refine fun reply e'' _ => attains reply e'' fun other => ?_
    have calls : r.callsGuest = true := calls
    rw [calls] at other
    cases other
  | _ => exact calls.elim

end

end Program

/-- The latest task has come while a routine of the guest was running for another. -/
def Machine.Nested (m : Machine ρ) : Prop :=
  ∃ t ∈ m.tasks.tail, t.rest.CallsGuest

namespace Span

variable {s : Stage ρ} {below above : List (Task ρ)} {start e : Engine ρ} {trace : List (Moment ρ)}
  {rest : Program ρ s.Result} {did : List (Action ρ)}

theorem callsGuest (span : Span s below start trace e above rest did) (calm : ∀ t ∈ below, ¬t.rest.CallsGuest)
    (entries : ∀ x ∈ trace, ∀ s', x.event = .entered s' → x.after.Nested) (some : above ≠ []) : rest.CallsGuest := by
  induction span with
  | begin => exact absurd rfl some
  | @enter trace e above rest did span s' rests ih =>
    by_cases first : above = []
    · subst first
      obtain ⟨t, member, calls⟩ := entries _ (List.mem_append_right _ (List.mem_singleton_self _)) s' rfl
      rcases List.mem_cons.mp member with rfl | member
      · exact calls
      · exact absurd calls (calm t member)
    · exact ih (fun x member => entries x (List.mem_append_left _ member)) first
  | own span acts ih => exact absurd rfl some
  | other span acts ih => exact ih (fun x member => entries x (List.mem_append_left _ member)) (by simp)
  | leave span ih => exact ih (fun x member => entries x (List.mem_append_left _ member)) (by simp)

/-- A task that others disturb only while it has the guest run a routine ends as it should. -/
theorem attains {Q : List (Action ρ) → s.Result → Engine ρ → Prop} (span : Span s below start trace e above rest did)
    (begins : s.program.Attains Q [] start) (calm : ∀ t ∈ below, ¬t.rest.CallsGuest)
    (entries : ∀ x ∈ trace, ∀ s', x.event = .entered s' → x.after.Nested) : rest.Attains Q did e := by
  induction span with
  | begin => exact begins
  | enter span s' rests ih => exact ih fun x member => entries x (List.mem_append_left _ member)
  | own span acts ih => exact acts.attains (ih fun x member => entries x (List.mem_append_left _ member))
  | other span acts ih =>
    have earlier (x : Moment ρ) (member : x ∈ _) := entries x (List.mem_append_left _ member)
    exact (ih earlier).of_callsGuest (span.callsGuest calm earlier (by simp)) _
  | leave span ih => exact ih fun x member => entries x (List.mem_append_left _ member)

end Span

end TrapHooks
