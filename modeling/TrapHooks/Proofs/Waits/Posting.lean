import TrapHooks.Proofs.Waits.Errands

/-! What was taken is posted next. The latest task of a machine may owe an event to the guest, and then posts it with
    the next thing that it asks; nobody below owes one, so that what is posted in a run is what is taken in it. -/

namespace TrapHooks

variable {ρ α : Type}

abbrev Input :=
  KeyEvent ⊕ PenEvent

/-- How the guest is told of an event: of a key by its character, no code, and a bit for each of five modifiers that
    was held down with it; of the pen by its point while it is down, and by (-1, -1) when it is up. -/
def Input.post : Input → Request
  | .inl key =>
    .postKey key.key 0 <|
      (if key.shift then 1 else 0) + (if key.capsLock then 2 else 0) + (if key.numLock then 4 else 0) +
        (if key.option then 0x10 else 0) + if key.control then 0x20 else 0
  | .inr pen => .postPen (if pen.down then pen.point else ⟨-1, -1⟩)

/-- No two modifiers share a bit, so that the sum of their bits is the word of all. -/
theorem Input.post_key (key : KeyEvent) : post (.inl key) = .postKey key.key 0 key.modifiers := by
  rw [post, KeyEvent.modifiers]
  generalize key.shift = shift, key.capsLock = capsLock, key.numLock = numLock, key.option = option,
    key.control = control
  congr 1
  decide +revert

def Request.taken : (r : Request) → r.Reply → Option Input
  | takeKey, event => some (.inl event)
  | takePen, event => some (.inr event)
  | _, _ => none

def Event.taken : Event ρ → Option Input
  | acted _ (.replied r reply) => r.taken reply
  | _ => none

namespace Program

def awaited : Program ρ α → Option Request
  | ask r _ => some r
  | _ => none

end Program

/-- The request that the latest task makes at this moment. -/
def Moment.request (x : Moment ρ) : Option Request :=
  match x.event with
  | .finished s result _ => (s.next result).bind (·.program.awaited)
  | _ => x.after.tasks.head?.bind (·.rest.awaited)

theorem Request.owed_leads (r : Request) (reply : r.Reply) :
    (r.leads reply).owed.toList = (r.taken reply).toList.map Input.post := by
  cases r with
  | hasKey => cases reply <;> rfl
  | hasPen => cases reply <;> rfl
  | takeKey => exact congrArg (fun r => [r]) (Input.post_key reply).symm
  | _ => rfl

theorem Moment.request_finished (s : Stage ρ) (result : s.Result) (done : List (Action ρ)) (m : Machine ρ) :
    request ⟨.finished s result done, m⟩ = (s.next result).bind (·.program.awaited) := rfl

def taken (trace : List (Moment ρ)) : List Input :=
  trace.filterMap (·.event.taken)

/-- The requests by which events of the user are posted, in the order in which they are made. -/
def posted (trace : List (Moment ρ)) : List Request :=
  (trace.filterMap Moment.request).filter Request.posts

/-- A reply was asked for as the errand allows, and leads to the next one; nothing else makes a task count on an event
    that it did not count on before. -/
def Event.Turns (errand errand' : Errand) : Event ρ → Prop
  | acted _ (.replied r reply) => errand.Allows r ∧ errand' = r.leads reply
  | _ => errand' = errand ∨ ∀ r, errand' ≠ .take r

theorem Event.Turns.of_other {event : Event ρ} {errand errand' : Errand} (turns : event.Turns errand errand')
    (other : ∀ s r reply, event ≠ .acted s (.replied r reply)) : errand' = errand ∨ ∀ r, errand' ≠ .take r := by
  cases event with
  | acted s action =>
    cases action with
    | replied r reply => exact absurd rfl (other s r reply)
    | _ => exact turns
  | _ => exact turns

theorem Event.taken_of_other {event : Event ρ} (other : ∀ s r reply, event ≠ .acted s (.replied r reply)) :
    event.taken = none := by
  cases event with
  | acted s action =>
    cases action with
    | replied r reply => exact absurd rfl (other s r reply)
    | _ => rfl
  | _ => rfl

theorem taken_append (first last : List (Moment ρ)) : taken (first ++ last) = taken first ++ taken last :=
  List.filterMap_append

theorem taken_snoc (trace : List (Moment ρ)) (x : Moment ρ) :
    taken (trace ++ [x]) = taken trace ++ x.event.taken.toList := by
  rw [taken, List.filterMap_append]
  cases taken : x.event.taken <;> simp [TrapHooks.taken, taken]

theorem posted_snoc (trace : List (Moment ρ)) (x : Moment ρ) :
    posted (trace ++ [x]) = posted trace ++ x.request.toList.filter Request.posts := by
  rw [posted, List.filterMap_append, List.filter_append]
  cases request : x.request <;> simp [posted, request]

namespace Program

variable {p : Program ρ α} {Q : α → Errand → Prop} {errand : Errand}

/-- What is owed on this errand and not yet asked. -/
def unasked (p : Program ρ α) (errand : Errand) : List Request :=
  if p.awaited.isSome then [] else errand.owed.toList

theorem unasked_of_settled (p : Program ρ α) (settled : errand.owed = none) : p.unasked errand = [] := by
  simp [unasked, settled]

theorem waits_of_awaited {r : Request} (awaited : p.awaited = some r) : p.Waits := by
  cases p with
  | ask r rest => trivial
  | _ => cases awaited

theorem Delivers.owed (delivers : p.Delivers Q errand) :
    p.awaited.toList.filter Request.posts ++ p.unasked errand = errand.owed.toList := by
  cases p with
  | ask r rest =>
    rw [delivers.1.posts]
    cases posts : r.posts <;> simp [awaited, unasked, posts]
  | _ => simp [awaited, unasked]

theorem Delivers.unasked_of_waits (delivers : p.Delivers Q errand) (waits : p.Waits) : p.unasked errand = [] := by
  cases p with
  | ask r rest => rfl
  | runHead routine call rest => exact unasked_of_settled _ delivers.1
  | runTail routine call rest => exact unasked_of_settled _ delivers.1
  | _ => exact waits.elim

/-- One who waits for something else than an event does not count on one. -/
theorem Delivers.relax (delivers : p.Delivers Q errand) (waits : p.Waits)
    (other : ∀ r ∈ p.awaited, r.takes = false) : ∃ errand, (∀ r, errand ≠ .take r) ∧ p.Delivers Q errand := by
  cases errand with
  | none => exact ⟨.none, nofun, delivers⟩
  | post r => exact ⟨.post r, nofun, delivers⟩
  | take r =>
    refine ⟨.none, nofun, ?_⟩
    cases p with
    | ask r' rest =>
      obtain ⟨allowed, later⟩ := delivers
      refine ⟨⟨fun takes => ?_, allowed.posts⟩, later⟩
      rw [other r' rfl] at takes
      cases takes
    | runHead routine call rest => exact delivers
    | runTail routine call rest => exact delivers
    | _ => exact waits.elim

end Program

namespace Machine

variable {m n : Machine ρ} {event : Event ρ} {errand : Errand}

/-- The latest task is on this errand; those below wait, and count on no event. -/
structure OnErrand (m : Machine ρ) (errand : Errand) : Prop where
  idle : m.tasks = [] → errand = .none
  latest : ∀ t ∈ m.tasks.head?, t.rest.Delivers Program.Settled errand
  others : ∀ t ∈ m.tasks.tail, t.rest.Waits ∧ ∃ errand, (∀ r, errand ≠ .take r) ∧
    t.rest.Delivers Program.Settled errand

def unasked (m : Machine ρ) (errand : Errand) : List Request :=
  m.tasks.head?.elim [] (·.rest.unasked errand)

theorem OnErrand.unasked_of_atRest (on : m.OnErrand errand) (rests : m.AtRest) : m.unasked errand = [] := by
  obtain ⟨e, tasks⟩ := m
  cases tasks with
  | nil => rfl
  | cons top below => exact (on.latest top rfl).unasked_of_waits (rests top rfl)

theorem length_unasked (m : Machine ρ) (errand : Errand) : (m.unasked errand).length ≤ 1 := by
  obtain ⟨e, tasks⟩ := m
  cases tasks with
  | nil => exact Nat.zero_le 1
  | cons top below =>
    show (if top.rest.awaited.isSome then [] else errand.owed.toList).length ≤ 1
    split
    · exact Nat.zero_le 1
    · exact Option.length_toList_le

/-- The latest task does not wait for an event of the user's. -/
def Disengaged (m : Machine ρ) : Prop :=
  ∀ t ∈ m.tasks.head?, ∀ r ∈ t.rest.awaited, r.takes = false

theorem onErrand_begin (e : Engine ρ) (s : Stage ρ) {below : List (Task ρ)}
    (others : ∀ t ∈ below, t.rest.Waits ∧ ∃ errand, (∀ r, errand ≠ .take r) ∧
      t.rest.Delivers Program.Settled errand) : OnErrand ⟨e, .begin s :: below⟩ .none where
  idle := nofun
  latest t top := by
    cases top
    exact s.delivers_program
  others := others

theorem OnErrand.all (on : m.OnErrand errand) (rests : m.AtRest) (disengaged : m.Disengaged) :
    ∀ t ∈ m.tasks, t.rest.Waits ∧ ∃ errand, (∀ r, errand ≠ .take r) ∧ t.rest.Delivers Program.Settled errand := by
  obtain ⟨e, tasks⟩ := m
  cases tasks with
  | nil => simp
  | cons top below =>
    have waits := rests top rfl
    exact List.forall_mem_cons.mpr ⟨⟨waits, (on.latest top rfl).relax waits (disengaged top rfl)⟩, on.others⟩

/-- What is owed is asked for before anything else, and nothing else is. -/
theorem Step.onErrand (step : m.Step event n) (on : m.OnErrand errand)
    (disengaged : ∀ s, event = .entered s → m.Disengaged) :
    ∃ errand', n.OnErrand errand' ∧ event.Turns errand errand' ∧
      (Moment.mk event n).request.toList.filter Request.posts ++ n.unasked errand' =
        m.unasked errand ++ event.taken.toList.map Input.post := by
  cases step with
  | enter m s entry rests =>
    refine ⟨.none, onErrand_begin m.engine s (on.all rests (disengaged s rfl)), .inr nofun, ?_⟩
    rw [on.unasked_of_atRest rests]
    exact s.delivers_program.owed
  | @act e e' s p p' action acts done below =>
    have top : p.Delivers Program.Settled errand := on.latest _ rfl
    -- What was owed, with what is owed for an event that is taken now, is asked now or still unasked.
    have goes {errand' : Errand} (left : p'.Delivers Program.Settled errand')
        (owed : errand'.owed.toList = p.unasked errand ++ (Event.acted s action).taken.toList.map Input.post) :
        (Machine.mk e' (⟨s, p', done ++ [action]⟩ :: below)).OnErrand errand' ∧
          (p'.awaited.toList.filter Request.posts ++ p'.unasked errand' =
            p.unasked errand ++ (Event.acted s action).taken.toList.map Input.post) :=
      ⟨⟨nofun, fun t same => by cases same; exact left, on.others⟩, left.owed.trans owed⟩
    cases acts with
    | change next rest =>
      obtain ⟨on', asked⟩ := goes (top.2 e) (by rw [Program.unasked_of_settled _ top.1]; rfl)
      exact ⟨.none, on', .inr nofun, asked⟩
    | reply r rest reply =>
      obtain ⟨on', asked⟩ := goes (top.2 reply) (r.owed_leads reply)
      exact ⟨_, on', ⟨top.1, rfl⟩, asked⟩
    | head routine call rest decision =>
      obtain ⟨on', asked⟩ := goes (top.2 decision) (by rw [Program.unasked_of_settled _ top.1]; rfl)
      exact ⟨.none, on', .inr nofun, asked⟩
    | tail routine call =>
      obtain ⟨on', asked⟩ := goes top.2 (by rw [Program.unasked_of_settled _ top.1]; rfl)
      exact ⟨.none, on', .inr nofun, asked⟩
    | notice n =>
      obtain ⟨on', asked⟩ := goes top (by simp [Program.unasked, Program.awaited, Event.taken])
      exact ⟨errand, on', .inl rfl, asked⟩
  | finish e s result done below =>
    have settled : errand.owed = none := on.latest _ rfl
    have nothing : (Machine.mk e (⟨s, .done result, done⟩ :: below)).unasked errand = [] :=
      Program.unasked_of_settled (.done (ρ := ρ) result) settled
    rw [nothing]
    simp only [Moment.request_finished]
    cases s.next result with
    | some s' =>
      exact ⟨.none, onErrand_begin e s' on.others, .inr nofun, s'.delivers_program.owed⟩
    | none =>
      cases below with
      | nil => exact ⟨.none, ⟨fun _ => rfl, nofun, nofun⟩, .inr nofun, rfl⟩
      | cons top below =>
        obtain ⟨⟨waits, errand', other, delivers⟩, others⟩ := List.forall_mem_cons.mp on.others
        refine ⟨errand', ⟨nofun, fun t same => by cases same; exact delivers, others⟩, .inr other, ?_⟩
        exact delivers.unasked_of_waits waits

end Machine

end TrapHooks
