import TrapHooks.Proofs.Run.Requests

/-! The way of an event from the user to the guest. A wait takes an event right after it was told that there is one,
    and posts it with the next thing that it asks. -/

namespace TrapHooks

variable {ρ α β : Type}

namespace Request

def takes : Request → Bool
  | takeKey | takePen => true
  | _ => false

def posts : Request → Bool
  | postKey _ _ _ | postPen _ => true
  | _ => false

def ofInput : Request → Bool
  | hasKey | hasPen => true
  | r => r.takes || r.posts

theorem ofInput_of_purpose {r : Request} (other : r.purpose ≠ .posting) : r.ofInput = false := by
  cases r <;> first | rfl | exact absurd rfl other

end Request

/-- What a task is about to do with the events of the user. -/
inductive Errand
  | none
  /-- There is an event, which this request takes. -/
  | take (r : Request)
  /-- An event was taken, which this request posts. -/
  | post (r : Request)

namespace Errand

/-- The request by which an event that was taken is still to be posted. -/
def owed : Errand → Option Request
  | post r => some r
  | _ => Option.none

/-- An event is taken only if there is one, and what is owed is asked next. -/
structure Allows (errand : Errand) (r : Request) : Prop where
  takes : r.takes = true → errand = .take r
  posts : errand.owed = if r.posts then some r else Option.none

theorem allows_of_other {errand : Errand} {r : Request} (other : r.ofInput = false)
    (settled : errand.owed = Option.none) : errand.Allows r := by
  constructor
  · intro takes
    cases r <;> simp_all [Request.takes, Request.ofInput]
  · rw [settled]
    cases r <;> simp_all [Request.posts, Request.ofInput]

end Errand

/-- The errand on which a reply sends the one who asked. -/
def Request.leads : (r : Request) → r.Reply → Errand
  | hasKey, found => if found then .take takeKey else .none
  | hasPen, found => if found then .take takePen else .none
  | takeKey, event => .post (postKey event.key 0 event.modifiers)
  | takePen, event => .post (postPen event.reported)
  | _, _ => .none

theorem Request.leads_of_other {r : Request} (other : r.ofInput = false) (reply : r.Reply) : r.leads reply = .none := by
  cases r <;> first | rfl | cases other

/-! ### Programs on their errands -/

namespace Program

/-- On this errand, the program does what each of its errands asks for, and ends as `Q` has it. -/
def Delivers (Q : α → Errand → Prop) : Program ρ α → Errand → Prop
  | done a, errand => Q a errand
  | overflow, errand => errand.owed = none
  | step _ rest, errand => errand.owed = none ∧ ∀ e, (rest e).Delivers Q .none
  | ask r rest, errand => errand.Allows r ∧ ∀ reply, (rest reply).Delivers Q (r.leads reply)
  | runHead _ _ rest, errand => errand.owed = none ∧ ∀ decision, (rest decision).Delivers Q .none
  | runTail _ _ rest, errand => errand.owed = none ∧ rest.Delivers Q .none
  | tell _ rest, errand => rest.Delivers Q errand

/-- Nothing that was taken is left to post. -/
abbrev Settled (_ : α) (errand : Errand) : Prop :=
  errand.owed = none

section
variable {Q : α → Errand → Prop} {p : Program ρ α} {errand : Errand}

theorem delivers_bind {Q : β → Errand → Prop} {f : α → Program ρ β}
    (delivers : p.Delivers (fun a errand => (f a).Delivers Q errand) errand) : (p >>= f).Delivers Q errand := by
  induction p generalizing errand with
  | done a => exact delivers
  | overflow => exact delivers
  | step next rest ih => exact ⟨delivers.1, fun e => ih e (delivers.2 e)⟩
  | ask r rest ih => exact ⟨delivers.1, fun reply => ih reply (delivers.2 reply)⟩
  | runHead routine call rest ih => exact ⟨delivers.1, fun decision => ih decision (delivers.2 decision)⟩
  | runTail routine call rest ih => exact ⟨delivers.1, ih delivers.2⟩
  | tell n rest ih => exact ih delivers

theorem Delivers.mono {R : α → Errand → Prop} (delivers : p.Delivers Q errand)
    (weaker : ∀ a errand, Q a errand → R a errand) : p.Delivers R errand := by
  induction p generalizing errand with
  | done a => exact weaker a errand delivers
  | overflow => exact delivers
  | step next rest ih => exact ⟨delivers.1, fun e => ih e (delivers.2 e)⟩
  | ask r rest ih => exact ⟨delivers.1, fun reply => ih reply (delivers.2 reply)⟩
  | runHead routine call rest ih => exact ⟨delivers.1, fun decision => ih decision (delivers.2 decision)⟩
  | runTail routine call rest ih => exact ⟨delivers.1, ih delivers.2⟩
  | tell n rest ih => exact ih delivers

/-- The program has nothing to do with the user's events. -/
abbrev Aloof (p : Program ρ α) : Prop :=
  p.Asks Request.Any (·.ofInput = false)

theorem Aloof.delivers (aloof : p.Aloof) (settled : errand.owed = none) : p.Delivers Settled errand := by
  induction p generalizing errand with
  | done a => exact settled
  | overflow => exact settled
  | step next rest ih => exact ⟨settled, fun e => ih e (aloof e) rfl⟩
  | ask r rest ih =>
    refine ⟨Errand.allows_of_other aloof.1 settled, fun reply => ih reply (aloof.2 reply trivial) ?_⟩
    rw [Request.leads_of_other aloof.1]
    rfl
  | runHead routine call rest ih => exact ⟨settled, fun decision => ih decision (aloof decision) rfl⟩
  | runTail routine call rest ih => exact ⟨settled, ih aloof rfl⟩
  | tell n rest ih => exact ih aloof settled

theorem delivers_seq {f : α → Program ρ β} (delivers : p.Delivers Settled errand)
    (later : ∀ a errand, errand.owed = none → (f a).Delivers Settled errand) : (p >>= f).Delivers Settled errand :=
  delivers_bind (delivers.mono later)

theorem delivers_request {r : Request} {Q : r.Reply → Errand → Prop} (allowed : errand.Allows r)
    (later : ∀ reply, Q reply (r.leads reply)) : (request r : Program ρ _).Delivers Q errand := ⟨allowed, later⟩

theorem delivers_other {r : Request} {Q : r.Reply → Errand → Prop} (other : r.ofInput = false)
    (settled : errand.owed = none) (later : ∀ reply, Q reply .none) : (request r : Program ρ _).Delivers Q errand := by
  refine delivers_request (Errand.allows_of_other other settled) fun reply => ?_
  rw [Request.leads_of_other other]
  exact later reply

theorem delivers_notice {n : Notice} {Q : Unit → Errand → Prop} (later : Q () errand) :
    (notice n : Program ρ _).Delivers Q errand := later

end

end Program

namespace Engine

open Program

variable {errand : Errand}

theorem aloof_emptyEvent : (emptyEvent : Program ρ _).Aloof := asks_emptyEvent rfl

theorem aloof_replay : (replay : Program ρ _).Aloof := asks_replay ⟨rfl, rfl, rfl⟩

theorem aloof_stress : (stress : Program ρ _).Aloof := asks_stress ⟨rfl, rfl, rfl⟩

theorem aloof_switchPending : (switchPending : Program ρ _).Aloof :=
  asks_switchPending.mono (fun _ _ told => told) fun r (same : r.purpose = .switching) =>
    Request.ofInput_of_purpose (by simp [same])

theorem delivers_deliverKey : (deliverKey : Program ρ _).Delivers Settled (.take .takeKey) := by
  refine delivers_bind (delivers_request ⟨fun _ => rfl, rfl⟩ fun event => ?_)
  refine delivers_bind (delivers_notice ?_)
  exact delivers_seq (delivers_request ⟨nofun, rfl⟩ fun _ => rfl) fun _ _ settled => settled

theorem delivers_deliverPen : (deliverPen : Program ρ _).Delivers Settled (.take .takePen) := by
  refine delivers_bind (delivers_request ⟨fun _ => rfl, rfl⟩ fun event => ?_)
  refine delivers_bind (delivers_notice ?_)
  exact delivers_seq (delivers_request ⟨nofun, rfl⟩ fun _ => rfl) fun _ _ settled => settled

theorem delivers_applyFirst {rule : Rule ρ} {rules : List (Rule ρ)}
    (applies : rule.applies.Delivers (fun holds errand =>
      if holds then rule.act.Delivers Settled errand else (applyFirst rules).Delivers Settled errand) errand) :
    (applyFirst (rule :: rules)).Delivers Settled errand := by
  refine delivers_bind (applies.mono fun holds errand later => ?_)
  cases holds with
  | true => exact delivers_bind (delivers_notice later)
  | false => exact later

/-- A key is taken if the host has told that there is one, and a pen event if it has told that there is one of those
    and no key. -/
theorem delivers_rules (settled : errand.owed = none) : (applyFirst (ρ := ρ) rules).Delivers Settled errand := by
  refine delivers_applyFirst (delivers_other rfl settled fun nested => ?_)
  split
  · exact aloof_emptyEvent.delivers rfl
  refine delivers_applyFirst (delivers_other rfl rfl fun replaying => ?_)
  split
  · exact aloof_replay.delivers rfl
  refine delivers_applyFirst (delivers_other rfl rfl fun stressing => ?_)
  split
  · exact aloof_stress.delivers rfl
  refine delivers_applyFirst (delivers_request ⟨nofun, rfl⟩ fun hasKey => ?_)
  cases hasKey with
  | true => exact delivers_deliverKey
  | false =>
  refine delivers_applyFirst (delivers_request ⟨nofun, rfl⟩ fun hasPen => ?_)
  cases hasPen with
  | true => exact delivers_deliverPen
  | false =>
  have pending : (do return (← get).state.nextApp.isSome : Program ρ Bool).Aloof :=
    asks_bind asks_get fun _ => asks_pure _
  refine delivers_applyFirst ((pending.delivers rfl).mono fun pending errand settled => ?_)
  split
  · exact aloof_switchPending.delivers settled
  · exact settled

theorem delivers_inject (settled : errand.owed = none) : (inject : Program ρ _).Delivers Settled errand := by
  refine delivers_bind (delivers_other rfl settled fun _ => delivers_bind (delivers_other rfl rfl fun idle => ?_))
  split
  · have looks : (lastEventTrap : Program ρ _).Aloof := asks_lastEventTrap
    refine delivers_seq (looks.delivers rfl) fun trap errand settled => ?_
    split
    · exact delivers_bind (delivers_other rfl settled fun _ => delivers_rules rfl)
    · exact delivers_rules settled
  · have proceeds := asks_proceed (ρ := ρ) (A := Request.Any) (Q := (·.ofInput = false)) rfl
    exact Aloof.delivers proceeds rfl

theorem delivers_idleWait (settled : errand.owed = none) : (idleWait : Program ρ _).Delivers Settled errand := by
  refine delivers_seq (delivers_inject settled) fun outcome errand settled => Aloof.delivers ?_ settled
  exact asks_endWait (Q := (·.ofInput = false)) ⟨rfl, fun _ => rfl⟩ outcome

theorem delivers_headDecision (call : Call) (hooks : Hooks ρ) : (headDecision call hooks).Delivers Settled .none := by
  unfold headDecision
  cases hooks.head with
  | none => exact rfl
  | some head =>
    show (unmeasured (headProgram call head.routine)).Delivers _ _
    refine delivers_bind (delivers_other rfl rfl fun measuring => ?_)
    refine delivers_seq ?_ fun decision errand settled => delivers_bind (delivers_other rfl settled fun _ => rfl)
    cases head.routine with
    | noteEventTrap => exact ⟨rfl, fun _ => rfl⟩
    | idleWait => exact delivers_idleWait rfl
    | foreign r => exact ⟨rfl, fun _ => rfl⟩

end Engine

theorem Stage.aloof_program (s : Stage ρ) (other : .posting ∉ s.purposes) : s.program.Aloof := by
  refine s.asks_program.mono (fun _ _ told => told) fun r listed => Request.ofInput_of_purpose fun same => other ?_
  rw [← same]
  exact listed

theorem Stage.delivers_program (s : Stage ρ) : s.program.Delivers Program.Settled .none := by
  cases s with
  | handle call hooks => exact Engine.delivers_headDecision call hooks
  | _ => exact (Stage.aloof_program _ (by simp [Stage.purposes])).delivers rfl

end TrapHooks
