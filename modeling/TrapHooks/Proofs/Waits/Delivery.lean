import TrapHooks.Proofs.Run.History
import TrapHooks.Proofs.Waits.Posting
import TrapHooks.Proofs.Waits.Restraint
import TrapHooks.Proofs.Waits.Withdrawal

/-! The events of the user reach the guest once and in the order in which they came. They wait at the host, keys in
    one queue and the movements of the pen in another, and come at any time, also while the guest takes one and
    comes to the next wait by that. -/

namespace TrapHooks

variable {ρ : Type}

/-! ### What waits at the host -/

/-- The events of the user that wait at the host, the oldest first. -/
structure Inbox where
  keys : List KeyEvent := []
  pens : List PenEvent := []

namespace Inbox

def receive : Input → Inbox → Inbox
  | .inl key, w => { w with keys := w.keys ++ [key] }
  | .inr pen, w => { w with pens := w.pens ++ [pen] }

/-- The host tells what waits, and gives away the oldest. -/
def keeper : Keeper Input Inbox where
  own := receive
  reply
    | .takeKey, _, w => { w with keys := w.keys.tail }
    | .takePen, _, w => { w with pens := w.pens.tail }
    | _, _, w => w
  Truthful w
    | .hasKey, found => found = !w.keys.isEmpty
    | .hasPen, found => found = !w.pens.isEmpty
    | .takeKey, event => ∀ first ∈ w.keys.head?, event = first
    | .takePen, event => ∀ first ∈ w.pens.head?, event = first
    | _, _ => True

end Inbox

/-- What an errand counts on is there. -/
structure Errand.Founded (errand : Errand) (w : Inbox) : Prop where
  key : errand = .take .takeKey → w.keys ≠ []
  pen : errand = .take .takePen → w.pens ≠ []

/-! ### Histories of the inbox -/

def keysOf (inputs : List Input) : List KeyEvent :=
  inputs.filterMap Sum.getLeft?

def pensOf (inputs : List Input) : List PenEvent :=
  inputs.filterMap Sum.getRight?

theorem keysOf_append (first last : List Input) : keysOf (first ++ last) = keysOf first ++ keysOf last :=
  List.filterMap_append

theorem pensOf_append (first last : List Input) : pensOf (first ++ last) = pensOf first ++ pensOf last :=
  List.filterMap_append

section
variable {errand errand' : Errand} {w : Inbox} {x : Moment ρ}

theorem Errand.Founded.next (founded : errand.Founded w) (turns : x.event.Turns errand errand')
    (truthful : ∀ s r reply, x.event = .acted s (.replied r reply) → Inbox.keeper.Truthful w r reply) :
    errand'.Founded (Inbox.keeper.after w [.moment x]) := by
  rcases x.event.replied_or with ⟨s, r, reply, replied⟩ | other
  · have right := truthful s r reply replied
    rw [Keeper.after_moment_replied replied]
    rw [replied] at turns
    obtain ⟨-, rfl⟩ := turns
    cases r with
    | hasKey =>
      replace right : reply = !w.keys.isEmpty := right
      cases reply with
      | false => exact ⟨nofun, nofun⟩
      | true =>
        have some : w.keys ≠ [] := by simpa using right
        exact ⟨fun _ => some, nofun⟩
    | hasPen =>
      replace right : reply = !w.pens.isEmpty := right
      cases reply with
      | false => exact ⟨nofun, nofun⟩
      | true =>
        have some : w.pens ≠ [] := by simpa using right
        exact ⟨nofun, fun _ => some⟩
    | _ => exact ⟨nofun, nofun⟩
  · rw [Keeper.after_moment_other other]
    rcases turns.of_other other with rfl | untaking
    · exact founded
    · exact ⟨fun takes => absurd takes (untaking _), fun takes => absurd takes (untaking _)⟩

/-- What waits is what is given away at this moment, and what waits after it. -/
theorem Inbox.waiting_eq (founded : errand.Founded w) (turns : x.event.Turns errand errand')
    (truthful : ∀ s r reply, x.event = .acted s (.replied r reply) → Inbox.keeper.Truthful w r reply) :
    w.keys = keysOf x.event.taken.toList ++ (Inbox.keeper.after w [.moment x]).keys ∧
      w.pens = pensOf x.event.taken.toList ++ (Inbox.keeper.after w [.moment x]).pens := by
  rcases x.event.replied_or with ⟨s, r, reply, replied⟩ | other
  · have right := truthful s r reply replied
    rw [Keeper.after_moment_replied replied, replied]
    rw [replied] at turns
    obtain ⟨allowed, -⟩ := turns
    cases r with
    | takeKey =>
      obtain ⟨first, rest, keys⟩ := List.exists_cons_of_ne_nil (founded.key (allowed.takes rfl))
      obtain rfl : reply = first := right first (by rw [keys]; rfl)
      refine ⟨?_, rfl⟩
      show w.keys = reply :: w.keys.tail
      rw [keys, List.tail_cons]
    | takePen =>
      obtain ⟨first, rest, pens⟩ := List.exists_cons_of_ne_nil (founded.pen (allowed.takes rfl))
      obtain rfl : reply = first := right first (by rw [pens]; rfl)
      refine ⟨rfl, ?_⟩
      show w.pens = reply :: w.pens.tail
      rw [pens, List.tail_cons]
    | _ => exact ⟨rfl, rfl⟩
  · rw [Keeper.after_moment_other other, Event.taken_of_other other]
    exact ⟨rfl, rfl⟩

end

/-- Nobody enters the engine while the host hands out an event. -/
def Moment.Apart (x : Moment ρ) : Prop :=
  ∀ s, x.event = .entered s → ∀ t ∈ x.after.tasks.tail.head?, ∀ r ∈ t.rest.awaited, r.takes = false

theorem Machine.Step.disengaged {m n : Machine ρ} {event : Event ρ} (step : m.Step event n)
    (apart : (Moment.mk event n).Apart) (s : Stage ρ) (enters : event = .entered s) : m.Disengaged := by
  cases step with
  | enter m s' entry rests => exact apart s' rfl
  | _ => cases enters

/-- Where a history stands that began with these events waiting: what was taken is posted or owed, and what has come
    is taken or waits. -/
structure Accounted (w : Inbox) (history : History ρ Input) (n : Machine ρ) (errand : Errand) : Prop where
  on : n.OnErrand errand
  founded : errand.Founded (Inbox.keeper.after w history)
  posted : posted history.moments ++ n.unasked errand = (taken history.moments).map Input.post
  keys : w.keys ++ keysOf history.others = keysOf (taken history.moments) ++ (Inbox.keeper.after w history).keys
  pens : w.pens ++ pensOf history.others = pensOf (taken history.moments) ++ (Inbox.keeper.after w history).pens

theorem Errand.Founded.receive {errand : Errand} {w : Inbox} (founded : errand.Founded w) (input : Input) :
    errand.Founded (w.receive input) := by
  cases input with
  | inl key => exact ⟨fun _ => by simp [Inbox.receive], founded.pen⟩
  | inr pen => exact ⟨founded.key, fun _ => by simp [Inbox.receive]⟩

theorem Inbox.keys_receive (input : Input) (w : Inbox) : (w.receive input).keys = w.keys ++ keysOf [input] := by
  cases input <;> simp [receive, keysOf]

theorem Inbox.pens_receive (input : Input) (w : Inbox) : (w.receive input).pens = w.pens ++ pensOf [input] := by
  cases input <;> simp [receive, pensOf]

section
variable {m n : Machine ρ} {w : Inbox} {history : History ρ Input} {errand : Errand}

theorem Accounted.receive (accounted : Accounted w history n errand) (input : Input) :
    Accounted w (history ++ [.outside input]) n errand where
  on := accounted.on
  founded := by
    rw [Keeper.after_append]
    exact accounted.founded.receive input
  posted := by simpa using accounted.posted
  keys := by
    rw [Keeper.after_append, Keeper.after_outside]
    show _ = _ ++ (Inbox.receive input _).keys
    rw [Inbox.keys_receive, ← List.append_assoc]
    simp [keysOf_append, ← accounted.keys]
  pens := by
    rw [Keeper.after_append, Keeper.after_outside]
    show _ = _ ++ (Inbox.receive input _).pens
    rw [Inbox.pens_receive, ← List.append_assoc]
    simp [pensOf_append, ← accounted.pens]

theorem Accounted.step {x : Moment ρ} (accounted : Accounted w history n errand) (step : n.Step x.event x.after)
    (apart : x.Apart) (honest : Inbox.keeper.Honest w (history ++ [.moment x])) :
    ∃ errand', Accounted w (history ++ [.moment x]) x.after errand' := by
  obtain ⟨errand', on, turns, asked⟩ := step.onErrand accounted.on (step.disengaged apart)
  have truthful (s : Stage ρ) (r : Request) (reply : r.Reply) (replied : x.event = .acted s (.replied r reply)) :=
    honest.truthful replied
  obtain ⟨keys, pens⟩ := Inbox.waiting_eq accounted.founded turns truthful
  refine ⟨errand', on, ?_, ?_, ?_, ?_⟩
  · rw [Keeper.after_append]
    exact accounted.founded.next turns truthful
  · have before := accounted.posted
    simp only [History.moments_append, History.moments_cons_moment, History.moments_nil, posted_snoc, taken_snoc,
      List.map_append, List.append_assoc] at before asked ⊢
    rw [asked, ← List.append_assoc, before]
  · rw [Keeper.after_append]
    have before := accounted.keys
    rw [keys] at before
    simpa [taken_snoc, keysOf_append] using before
  · rw [Keeper.after_append]
    have before := accounted.pens
    rw [pens] at before
    simpa [taken_snoc, pensOf_append] using before

theorem Run.accounted (run : Run m history.moments n) (idle : m.tasks = [])
    (honest : Inbox.keeper.Honest w history) (apart : ∀ x ∈ history.moments, x.Apart) :
    ∃ errand, Accounted w history n errand := by
  refine run.along (P := fun history n => Inbox.keeper.Honest w history → (∀ x ∈ History.moments history, x.Apart) →
    ∃ errand, Accounted w history n errand) ?_ ?_ ?_ honest apart
  · intro _ _
    have on : m.OnErrand .none := ⟨fun _ => rfl, by simp [idle], by simp [idle]⟩
    have rests : m.unasked .none = [] := on.unasked_of_atRest (Machine.atRest_of_idle idle)
    exact ⟨.none, on, ⟨nofun, nofun⟩, rests, List.append_nil _, List.append_nil _⟩
  · intro history k input _ ih honest apart
    obtain ⟨errand, accounted⟩ := ih (Keeper.honest_append.mp honest).1 (by simpa using apart)
    exact ⟨errand, accounted.receive input⟩
  · intro history k x _ step ih honest apart
    simp only [History.moments_append, List.forall_mem_append] at apart
    obtain ⟨errand, accounted⟩ := ih (Keeper.honest_append.mp honest).1 apart.1
    exact accounted.step step (apart.2 x List.mem_cons_self) honest

/-- If no key waited, those that wait now have come since. -/
theorem Accounted.keys_since {first last : History ρ Input} {k : Machine ρ} {errand' : Errand}
    (before : Accounted w first k errand') (now : Accounted w (first ++ last) n errand)
    (empty : (Inbox.keeper.after w first).keys = []) :
    (Inbox.keeper.after w (first ++ last)).keys <:+ keysOf last.others := by
  have early := before.keys
  have keys := now.keys
  rw [empty, List.append_nil] at early
  simp only [History.others_append, History.moments_append, taken_append, keysOf_append, ← List.append_assoc,
    early] at keys
  rw [List.append_assoc] at keys
  exact ⟨_, (List.append_cancel_left keys).symm⟩

/-- Whatever a task has done at any moment, it has taken no more than one event, and that as it may. -/
theorem Run.restrained {trace : List (Moment ρ)} (run : Run m trace n) (idle : m.tasks = []) :
    ∀ x ∈ trace, ∀ t ∈ x.after.tasks, Restrained t.done := by
  intro x member t there
  exact t.stage.restrained (run.does_of_mem (Machine.orderly_of_idle idle) member t there)

/-- The task on top of these that takes a pen event at this moment had looked for a key before, and there was none;
    whatever keys wait by now have come since. -/
structure LookedForKey (w : Inbox) (earlier : History ρ Input) (x : Moment ρ) (below : List (Task ρ))
    (event : PenEvent) : Prop where
  own : x.own below = some (.replied .takePen event)
  looked : ∃ (first : History ρ Input) (y : Moment ρ) (between : History ρ Input),
    earlier = first ++ .moment y :: between ∧ y.own below = some (.replied .hasKey false) ∧
    y.event.stage = x.event.stage ∧ (∀ z ∈ History.moments between, z.after.Works x.event.stage below) ∧
    (Inbox.keeper.after w first).keys = [] ∧ (Inbox.keeper.after w earlier).keys <:+ keysOf between.others

theorem Run.pen_taken {earlier later : History ρ Input} {x : Moment ρ}
    (run : Run m (History.moments (earlier ++ .moment x :: later)) n) (idle : m.tasks = [])
    (honest : Inbox.keeper.Honest w (earlier ++ .moment x :: later))
    (apart : ∀ y ∈ History.moments (earlier ++ .moment x :: later), y.Apart) {s : Stage ρ} {event : PenEvent}
    (taken : x.event = .acted s (.replied .takePen event)) : ∃ below, LookedForKey w earlier x below event := by
  have whole := run.restrained idle
  simp only [History.moments_append, History.moments_cons_moment] at run apart whole
  obtain ⟨k, before, step⟩ := run.split
  obtain ⟨_, m'⟩ := x
  obtain rfl := taken
  cases step with
  | act acts done below =>
  cases acts with
  | reply r rest =>
  have restrained : Restrained (done ++ [.replied .takePen event]) :=
    whole _ (List.mem_append_right _ List.mem_cons_self) _ List.mem_cons_self
  obtain ⟨front, y₀, back, split, works, span⟩ := before.span_of_task idle (List.nil_append _).symm
  have told := restrained.told_no_key
  rw [← span.own_eq] at told
  obtain ⟨y, member, own⟩ := List.mem_filterMap.mp told
  obtain ⟨between, after, rfl⟩ := List.mem_iff_append.mp member
  rw [← List.cons_append, ← List.append_assoc] at split
  obtain ⟨first, last, rfl, _, rfl⟩ := History.cut_moment split
  have replied := span.event_of_own y (by simp) _ own
  refine ⟨below, Moment.own_top .., first, y, last, rfl, own, by rw [replied]; rfl,
    fun z member => works z (by simp [member]), ?_⟩
  -- The queue was empty then, so that what has come since is what was given away since and what waits now.
  have honest' := (Keeper.honest_append.mp honest).1
  have told : false = !(Inbox.keeper.after w first).keys.isEmpty := honest'.truthful replied
  have empty : (Inbox.keeper.after w first).keys = [] := by simpa using told
  obtain ⟨_, accounted⟩ := before.accounted idle honest' fun z member => apart z (List.mem_append_left _ member)
  rw [History.moments_append, History.moments_cons_moment] at before
  obtain ⟨_, before', -⟩ := before.split
  obtain ⟨_, accounted'⟩ := before'.accounted idle (Keeper.honest_append.mp honest').1 fun z member =>
    apart z (List.mem_append_left _ (by simp [member]))
  exact ⟨empty, accounted'.keys_since accounted empty⟩

/-- Whatever others do meanwhile, also while the guest takes an event, each event of the user's comes to the guest once
    and in order, as long as nobody enters while the host hands one out:

    * the requests that post events are those for the events that were taken, in the same order; one that was taken last
      may still be owed, but not once the engine is at rest;
    * what waited at first and what has come since is, in each queue, what was taken and then what waits;
    * no task takes more than one event, and none unless it was told that the guest is idle and not nested, and that
      neither a replay nor a stress test is on;
    * whoever takes a pen event had found no key before, so that a key waits by then only if it has come since. -/
theorem Run.input_delivered (run : Run m history.moments n) (idle : m.tasks = [])
    (honest : Inbox.keeper.Honest w history) (apart : ∀ x ∈ history.moments, x.Apart) :
    (∃ owed, posted history.moments ++ owed = (taken history.moments).map Input.post ∧ owed.length ≤ 1 ∧
      (n.AtRest → owed = [])) ∧
    w.keys ++ keysOf history.others = keysOf (taken history.moments) ++ (Inbox.keeper.after w history).keys ∧
    w.pens ++ pensOf history.others = pensOf (taken history.moments) ++ (Inbox.keeper.after w history).pens ∧
    (∀ x ∈ history.moments, ∀ t ∈ x.after.tasks, Restrained t.done) ∧
    ∀ earlier x later s event, history = earlier ++ .moment x :: later →
      x.event = .acted s (.replied .takePen event) → ∃ below, LookedForKey w earlier x below event := by
  obtain ⟨errand, accounted⟩ := run.accounted idle honest apart
  refine ⟨⟨_, accounted.posted, n.length_unasked errand, accounted.on.unasked_of_atRest⟩, accounted.keys,
    accounted.pens, run.restrained idle, ?_⟩
  rintro earlier x later s event rfl taken
  exact run.pen_taken idle honest apart taken

end

/-! ### A wait within a wait -/

namespace Inbox

def first (w : Inbox) : Option Input :=
  (w.keys.head?.map .inl).or (w.pens.head?.map .inr)

def drop : Inbox → Inbox
  | ⟨[], pens⟩ => ⟨[], pens.tail⟩
  | ⟨_ :: keys, pens⟩ => ⟨keys, pens⟩

/-- The guest is idle, and these events wait for it. -/
noncomputable def answers (w : Inbox) : Program.Answers ρ where
  reply
    | .hasKey => !w.keys.isEmpty
    | .hasPen => !w.pens.isEmpty
    | .takeKey => w.keys.headD {}
    | .takePen => w.pens.headD {}
    | r => (Program.Answers.idle (ρ := ρ) false).reply r
  decide _ _ := .execute

end Inbox

/-- A wait that finds an event comes to the routine that posts it. -/
theorem Run.wait_posts {w : Inbox} {input : Input} (call : Call) {m : Machine Unit} (rests : m.AtRest)
    (disengaged : m.Disengaged) (fresh : m.engine = {}) (first : w.first = some input) :
    ∃ trace t, Run m trace ⟨{}, t :: m.tasks⟩ ∧ t.rest.awaited = some input.post ∧ (∀ x ∈ trace, x.Apart) ∧
      Inbox.keeper.Honest w (trace.map .moment) ∧ Inbox.keeper.after w (trace.map .moment) = w.drop := by
  obtain ⟨_, tasks⟩ := m
  obtain rfl := fresh
  let s : Stage Unit := .handle call Engine.waitHooks
  obtain ⟨trace, run, events, stack⟩ := Run.enter_upTo w.answers Request.posts (s := s) rfl rests
  have apart (x : Moment Unit) (member : x ∈ trace) : x.Apart := by
    intro s' _
    rw [stack x member]
    exact disengaged
  let asked : List (Action Unit) :=
    [.replied (.setProfiling false) true, .replied (.setResult 0) (), .replied .isIdle true, .changed {} {},
      .replied .isNested false, .replied .replaying false, .replied .stressing false]
  obtain ⟨keys, pens⟩ := w
  cases keys with
  | cons key keys =>
    cases first
    have did : (Program.upTo (Inbox.answers ⟨key :: keys, pens⟩) Request.posts s.program {}).1 = asked ++
        [.replied .hasKey true, .told (.ruleApplied "key"), .replied .takeKey key,
          .told (.keyPosted key.key key.modifiers)] := rfl
    refine ⟨_, _, run, by rw [Input.post_key]; rfl, apart, ?_⟩
    rw [Keeper.honest_moments, Keeper.after_moments, events, did]
    simp [asked, Keeper.Fair, Keeper.Right, Keeper.hear, Inbox.keeper, Inbox.drop]
  | nil =>
    cases pens with
    | nil => cases first
    | cons pen pens =>
      cases first
      have did : (Program.upTo (Inbox.answers ⟨[], pen :: pens⟩) Request.posts s.program {}).1 = asked ++
          [.replied .hasKey false, .replied .hasPen true, .told (.ruleApplied "pen"), .replied .takePen pen,
            .told (.penPosted pen.reported)] := rfl
      refine ⟨_, _, run, rfl, apart, ?_⟩
      rw [Keeper.honest_moments, Keeper.after_moments, events, did]
      simp [asked, Keeper.Fair, Keeper.Right, Keeper.hear, Inbox.keeper, Inbox.drop]

/-- One who is about to post an event waits, and takes none. -/
theorem Machine.posting {e : Engine ρ} {t : Task ρ} {input : Input} (posts : t.rest.awaited = some input.post)
    (below : List (Task ρ)) : (Machine.mk e (t :: below)).AtRest ∧ (Machine.mk e (t :: below)).Disengaged := by
  refine ⟨Machine.atRest_of_waits e (Program.waits_of_awaited posts) below, fun top same r member => ?_⟩
  cases same
  rw [posts] at member
  cases member
  cases input <;> rfl

/-- While the guest takes a key, another key comes, with the shift key held, and the pen is lifted, and the guest comes
    to a wait twice more before it is through with the first. -/
theorem Run.input_delivered_nested :
    ∃ (history : History Unit Input) (n : Machine Unit) (first second : KeyEvent) (lifted : PenEvent),
      Run (.fresh {} {} ∅) history.moments n ∧ Inbox.keeper.Honest {} history ∧ (∀ x ∈ history.moments, x.Apart) ∧
      n.AtRest ∧ n.tasks.length = 3 ∧ history.others = [.inl first, .inl second, .inr lifted] ∧
      keysOf (taken history.moments) = [first, second] ∧ pensOf (taken history.moments) = [lifted] ∧
      posted history.moments = (taken history.moments).map Input.post ∧
      .postKey 0x62 0 1 ∈ posted history.moments ∧ .postPen ⟨-1, -1⟩ ∈ posted history.moments := by
  let call : Call := { trap := 0xA11D, index := 0x11D }
  let first : KeyEvent := { key := 0x61 }
  let second : KeyEvent := { key := 0x62, shift := true }
  let lifted : PenEvent := { point := ⟨80, 80⟩ }
  have idle : (Machine.fresh (ρ := Unit) {} {} ∅).tasks = [] := rfl
  have rests := Machine.atRest_of_idle idle
  obtain ⟨trace₁, a, run₁, posts₁, apart₁, honest₁, left₁⟩ :=
    Run.wait_posts (w := { keys := [first] }) call rests (by simp [Machine.Disengaged, idle]) rfl rfl
  obtain ⟨rests, free⟩ := Machine.posting (e := {}) posts₁ []
  obtain ⟨trace₂, b, run₂, posts₂, apart₂, honest₂, left₂⟩ :=
    Run.wait_posts (w := { keys := [second], pens := [lifted] }) call rests free rfl rfl
  obtain ⟨rests, free⟩ := Machine.posting (e := {}) posts₂ [a]
  obtain ⟨trace₃, c, run₃, posts₃, apart₃, honest₃, left₃⟩ :=
    Run.wait_posts (w := { pens := [lifted] }) call rests free rfl rfl
  obtain ⟨rests, -⟩ := Machine.posting (e := {}) posts₃ [b, a]
  let comes : History Unit Input := [.outside (.inl second), .outside (.inr lifted)]
  let history := [.outside (.inl first)] ++ trace₁.map .moment ++ comes ++ trace₂.map .moment ++ trace₃.map .moment
  have moments : History.moments history = trace₁ ++ trace₂ ++ trace₃ := by simp [history, comes]
  have others : History.others history = [.inl first, .inl second, .inr lifted] := by simp [history, comes]
  have run : Run (.fresh {} {} ∅) (History.moments history) ⟨{}, [c, b, a]⟩ := by
    rw [moments]
    exact (run₁.trans run₂).trans run₃
  have starts : Inbox.keeper.after {} ([.outside (.inl first)] : History Unit Input) = { keys := [first] } := rfl
  have goes : Inbox.keeper.after ⟨[], []⟩ comes = ⟨[second], [lifted]⟩ := rfl
  have honest : Inbox.keeper.Honest {} history := by
    simp only [history, Keeper.honest_append, Keeper.after_append, starts, left₁, Inbox.drop, goes, left₂]
    exact ⟨⟨⟨⟨trivial, honest₁⟩, trivial⟩, honest₂⟩, honest₃⟩
  have ends : Inbox.keeper.after {} history = {} := by
    simp only [history, Keeper.after_append, starts, left₁, Inbox.drop, goes, left₂, left₃]
    rfl
  have apart : ∀ x ∈ History.moments history, x.Apart := by
    simpa only [moments, List.forall_mem_append] using ⟨⟨apart₁, apart₂⟩, apart₃⟩
  obtain ⟨⟨owed, all, -, none⟩, keys, pens, -⟩ := run.input_delivered idle honest apart
  rw [none rests, List.append_nil] at all
  rw [others, ends] at keys pens
  have keys : keysOf (taken (History.moments history)) = [first, second] := (List.append_nil _).symm.trans keys.symm
  have pens : pensOf (taken (History.moments history)) = [lifted] := (List.append_nil _).symm.trans pens.symm
  refine ⟨history, _, first, second, lifted, run, honest, apart, rests, rfl, others, keys, pens, all, ?_, ?_⟩
  · have there : second ∈ keysOf (taken (History.moments history)) := by simp [keys]
    rw [all]
    exact List.mem_map_of_mem (f := Input.post) (a := .inl second) (by simpa [keysOf] using there)
  · have there : lifted ∈ pensOf (taken (History.moments history)) := by simp [pens]
    rw [all]
    exact List.mem_map_of_mem (f := Input.post) (a := .inr lifted) (by simpa [pensOf] using there)

end TrapHooks
