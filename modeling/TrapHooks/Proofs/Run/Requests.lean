import TrapHooks.Proofs.Run.Accounts

/-! Which requests each stage may make. Every request is made for one purpose, and a stage makes requests for a
    few purposes only. A stage may also be gone through with replies of a given kind, which then bounds its
    requests further: a wait that is told that it is nested never comes to a switch of applications. -/

namespace TrapHooks

namespace Request

/-- What a request is made for. -/
inductive Purpose
  | locating
  | measuring
  | naming
  | mending
  | posting
  | switching
deriving DecidableEq

def purpose : Request → Purpose
  | programCounter => .locating
  | setProfiling _ => .measuring
  | libraryName _ => .naming
  | bootstrapDue | setBootstrapDue _ | debuggerAttached | preference _ | setUserName _ | autoload | lineActive _
  | openTransport _ | hostTime | trapExists _ | getFeature _ _ | setFeature _ _ _ | removeFeature _ _
  | setStrictChecks _ | syncUserName | wakeEvents | setClock _ => .mending
  | setResult _ | waitTimeout | setWaitTimeout _ | isNested | isIdle | hasKey | takeKey | hasPen | takePen
  | signalIdle | postKey _ _ _ | postPen _ | replaying | replayEvent | replayPen | stressing | stressEvent
  | stressPen => .posting
  | databaseInfo _ | findDatabase _ _ | allocate _ | setOwner _ _ | writeWord _ _ | writeLong _ _
  | switchApp _ _ _ => .switching

/-- It asks whether the guest is to be mended, or says that it is or is not. -/
def ofDue : Request → Bool
  | bootstrapDue | setBootstrapDue _ => true
  | _ => false

def reopens (line : Line) : Request → Bool
  | lineActive l | openTransport l => l = line
  | _ => false

/-- It mends the guest itself, and not one of its lines. -/
def mends : Request → Bool
  | bootstrapDue | setBootstrapDue _ | lineActive _ | openTransport _ => false
  | r => r.purpose = .mending

theorem purpose_of_reopens {line : Line} {r : Request} (reopens : r.reopens line) : r.purpose = .mending := by
  cases r <;> first | rfl | cases reopens

theorem purpose_of_mends {r : Request} (mends : r.mends) : r.purpose = .mending := by
  cases r <;> first | rfl | cases mends

/-- Nothing is said of the reply. -/
def Any (r : Request) (_ : r.Reply) : Prop := True

/-- Whoever asks is told that the guest runs on behalf of the host. -/
def ToldNested : (r : Request) → r.Reply → Prop
  | isNested, nested => nested = true
  | _, _ => True

end Request

/-! ### Programs -/

namespace Program

variable {ρ α β : Type}

/-- As long as the replies are as `A` has them, all requests of the program are as `Q` has them. -/
def Asks (A : (r : Request) → r.Reply → Prop) (Q : Request → Prop) : Program ρ α → Prop
  | done _ | overflow => True
  | step _ rest => ∀ e, (rest e).Asks A Q
  | ask r rest => Q r ∧ ∀ reply, A r reply → (rest reply).Asks A Q
  | runHead _ _ rest => ∀ decision, (rest decision).Asks A Q
  | runTail _ _ rest => rest.Asks A Q
  | tell _ rest => rest.Asks A Q

section
variable {A B : (r : Request) → r.Reply → Prop} {Q R : Request → Prop} {p : Program ρ α}

theorem asks_bind {f : α → Program ρ β} (asks : p.Asks A Q) (later : ∀ a, (f a).Asks A Q) : (p >>= f).Asks A Q := by
  induction p with
  | done a => exact later a
  | overflow => trivial
  | step next rest ih => exact fun e => ih e (asks e)
  | ask r rest ih => exact ⟨asks.1, fun reply told => ih reply (asks.2 reply told)⟩
  | runHead routine call rest ih => exact fun decision => ih decision (asks decision)
  | runTail routine call rest ih => exact ih asks
  | tell n rest ih => exact ih asks

theorem Asks.mono (asks : p.Asks A Q) (replies : ∀ r reply, B r reply → A r reply) (requests : ∀ r, Q r → R r) :
    p.Asks B R := by
  induction p with
  | done a => trivial
  | overflow => trivial
  | step next rest ih => exact fun e => ih e (asks e)
  | ask r rest ih => exact ⟨requests r asks.1, fun reply told => ih reply (asks.2 reply (replies r reply told))⟩
  | runHead routine call rest ih => exact fun decision => ih decision (asks decision)
  | runTail routine call rest ih => exact ih asks
  | tell n rest ih => exact ih asks

theorem asks_pure (a : α) : (pure a : Program ρ α).Asks A Q := trivial

theorem asks_request {r : Request} (asked : Q r) : (request r : Program ρ _).Asks A Q := ⟨asked, fun _ _ => trivial⟩

theorem asks_sum (a b : UInt32) : (sum a b : Program ρ _).Asks A Q := by
  unfold sum
  cases sum? a b <;> trivial

theorem asks_notice (n : Notice) : (notice n : Program ρ _).Asks A Q := trivial

theorem asks_modifyGet (g : Engine ρ → α × Engine ρ) : (modifyGet g : Program ρ α).Asks A Q := fun _ => trivial

theorem asks_get : (get : Program ρ (Engine ρ)).Asks A Q := fun _ => trivial

theorem asks_modify (g : Engine ρ → Engine ρ) : (modify g : Program ρ PUnit).Asks A Q := fun _ => trivial

theorem asks_forM {γ : Type} {g : γ → Program ρ PUnit} (asks : ∀ x, (g x).Asks A Q) (l : List γ) :
    (l.forM g).Asks A Q := by
  induction l with
  | nil => exact asks_pure _
  | cons x l ih => exact asks_bind (asks x) fun _ => ih

/-- What a program has asked is as it should be, and so is what it has still to ask. -/
theorem Does.asks {q : Program ρ α} {actions : List (Action ρ)} (does : p.Does actions q) (asks : p.Asks A Q)
    (told : ∀ r reply, .replied r reply ∈ actions → A r reply) :
    (∀ r reply, .replied r reply ∈ actions → Q r) ∧ q.Asks A Q := by
  induction does with
  | nil p => exact ⟨by simp, asks⟩
  | @cons p p' q e e' action actions acts rest ih =>
    have later (r : Request) (reply : r.Reply) (member : .replied r reply ∈ actions) :=
      told r reply (List.mem_cons_of_mem _ member)
    cases acts with
    | reply r rest reply =>
      obtain ⟨asked, others⟩ := ih (asks.2 reply (told r reply List.mem_cons_self)) later
      refine ⟨fun r' reply' member => ?_, others⟩
      rcases List.mem_cons.mp member with same | member
      · cases same
        exact asks.1
      · exact asked r' reply' member
    | change next rest =>
      obtain ⟨asked, others⟩ := ih (asks e) later
      exact ⟨fun r reply member => asked r reply (by simpa using member), others⟩
    | head routine call rest decision =>
      obtain ⟨asked, others⟩ := ih (asks decision) later
      exact ⟨fun r reply member => asked r reply (by simpa using member), others⟩
    | tail routine call =>
      obtain ⟨asked, others⟩ := ih asks later
      exact ⟨fun r reply member => asked r reply (by simpa using member), others⟩
    | notice n =>
      obtain ⟨asked, others⟩ := ih asks later
      exact ⟨fun r reply member => asked r reply (by simpa using member), others⟩

end

end Program

namespace Engine

open Program

variable {ρ : Type} {A : (r : Request) → r.Reply → Prop}

/-! ### Posting events -/

theorem asks_emptyEvent {Q : Request → Prop} (sets : Q (.setResult timedOut)) : (emptyEvent : Program ρ _).Asks A Q :=
  asks_bind (asks_request sets) fun _ => asks_pure _

theorem asks_lastEventTrap {Q : Request → Prop} : (lastEventTrap : Program ρ _).Asks A Q :=
  asks_bind asks_get fun _ => asks_pure _

theorem asks_reports {Q : Request → Prop} : (reports : Program ρ _).Asks A Q :=
  asks_bind asks_get fun _ => asks_pure _

theorem asks_replay {Q : Request → Prop} (asked : Q .replayEvent ∧ Q .replayPen ∧ Q (.setResult timedOut)) :
    (replay : Program ρ _).Asks A Q := by
  obtain ⟨event, pen, sets⟩ := asked
  refine asks_bind asks_lastEventTrap fun trap => ?_
  split
  · refine asks_bind (asks_request event) fun posted => ?_
    split
    · exact asks_pure _
    · exact asks_bind (asks_notice _) fun _ => asks_emptyEvent sets
  · split
    · exact asks_bind (asks_request pen) fun _ => asks_pure _
    · exact asks_pure _

theorem asks_stress {Q : Request → Prop} (asked : Q .stressEvent ∧ Q .stressPen ∧ Q (.setResult timedOut)) :
    (stress : Program ρ _).Asks A Q := by
  obtain ⟨event, pen, sets⟩ := asked
  refine asks_bind asks_reports fun log => asks_bind asks_lastEventTrap fun trap => ?_
  split
  · refine asks_bind (asks_request event) fun posted => ?_
    split
    · exact asks_pure _
    · split
      · exact asks_bind (asks_notice _) fun _ => asks_emptyEvent sets
      · exact asks_emptyEvent sets
  · split
    · exact asks_bind (asks_request pen) fun _ => asks_pure _
    · split
      · exact asks_bind (asks_notice _) fun _ => asks_pure _
      · exact asks_pure _

theorem asks_deliverKey : (deliverKey : Program ρ _).Asks A (·.purpose = .posting) :=
  asks_bind (asks_request rfl) fun _ => asks_bind (asks_notice _) fun _ =>
    asks_bind (asks_request rfl) fun _ => asks_pure _

theorem asks_deliverPen : (deliverPen : Program ρ _).Asks A (·.purpose = .posting) :=
  asks_bind (asks_request rfl) fun _ => asks_bind (asks_notice _) fun _ =>
    asks_bind (asks_request rfl) fun _ => asks_pure _

theorem asks_launchOwner (owner document : DatabaseRef) :
    (launchOwner owner document : Program ρ _).Asks A (·.purpose = .switching) := by
  refine asks_bind (asks_request rfl) fun block => ?_
  cases block with
  | none => exact asks_pure _
  | some block =>
    exact asks_bind (asks_request rfl) fun _ => asks_bind (asks_request rfl) fun _ =>
      asks_bind (asks_sum _ _) fun _ => asks_bind (asks_request rfl) fun _ =>
        asks_bind (asks_notice _) fun _ => asks_request rfl

theorem asks_switchTo (app : DatabaseRef) : (switchTo app : Program ρ _).Asks A (·.purpose = .switching) := by
  refine asks_bind (asks_request rfl) fun info => ?_
  cases info with
  | error e => exact asks_pure _
  | ok info =>
    dsimp only
    split
    · exact asks_bind (asks_notice _) fun _ => asks_request rfl
    · refine asks_bind (asks_request rfl) fun owner => ?_
      cases owner with
      | error e => exact asks_pure _
      | ok owner => exact asks_launchOwner owner app

theorem asks_switchPending : (switchPending : Program ρ _).Asks A (·.purpose = .switching) := by
  have withdraw : (do
      modify fun e => { e with state := e.state.withdrawApp }
      return .hurry : Program ρ Injection).Asks A (·.purpose = .switching) :=
    asks_bind (asks_modify _) fun _ => asks_pure _
  refine asks_bind asks_get fun e => ?_
  cases e.state.nextApp with
  | none => exact withdraw
  | some app =>
    refine asks_bind (asks_switchTo app) fun outcome => ?_
    cases outcome with
    | ok _ => exact withdraw
    | error error => exact asks_bind (asks_notice _) fun _ => withdraw

/-- Every rule looks at what it is told of, and all but the last do no more than post an event. -/
theorem asks_rules : ∀ rule ∈ (rules : List (Rule ρ)), rule.applies.Asks A (·.purpose = .posting) ∧
    (rule.act.Asks A (·.purpose = .posting) ∨ rule.act = switchPending) := by
  simp only [rules, List.forall_mem_cons, List.not_mem_nil, false_implies, implies_true, and_true]
  exact ⟨⟨asks_request rfl, .inl (asks_emptyEvent rfl)⟩, ⟨asks_request rfl, .inl (asks_replay ⟨rfl, rfl, rfl⟩)⟩,
    ⟨asks_request rfl, .inl (asks_stress ⟨rfl, rfl, rfl⟩)⟩, ⟨asks_request rfl, .inl asks_deliverKey⟩,
    ⟨asks_request rfl, .inl asks_deliverPen⟩, asks_bind asks_get fun _ => asks_pure _, .inr trivial⟩

theorem asks_applyFirst {Q : Request → Prop} {rules : List (Rule ρ)}
    (asks : ∀ rule ∈ rules, rule.applies.Asks A Q ∧ rule.act.Asks A Q) : (applyFirst rules).Asks A Q := by
  induction rules with
  | nil => exact asks_pure _
  | cons rule rules ih =>
    obtain ⟨applies, act⟩ := asks rule List.mem_cons_self
    refine asks_bind applies fun holds => ?_
    split
    · exact asks_bind (asks_notice _) fun _ => act
    · exact ih fun other member => asks other (List.mem_cons_of_mem rule member)

/-- What a wait does if the guest is not idle. -/
theorem asks_proceed {Q : Request → Prop} (asked : Q .stressing) : (do
    if ← reports then
      if ← Program.request .stressing then
        Program.notice .notIdle
    return .proceed : Program ρ Injection).Asks A Q := by
  refine asks_bind asks_reports fun log => ?_
  split
  · refine asks_bind (asks_request asked) fun stressing => ?_
    split
    · exact asks_bind (asks_notice _) fun _ => asks_pure _
    · exact asks_pure _
  · exact asks_pure _

theorem asks_inject {Q : Request → Prop} (posting : ∀ r : Request, r.purpose = .posting → Q r)
    (rules : (applyFirst (ρ := ρ) rules).Asks A Q) : (inject : Program ρ _).Asks A Q := by
  refine asks_bind (asks_request (posting _ rfl)) fun _ => asks_bind (asks_request (posting _ rfl)) fun idle => ?_
  split
  · refine asks_bind asks_lastEventTrap fun trap => ?_
    split
    · exact asks_bind (asks_request (posting _ rfl)) fun _ => rules
    · exact rules
  · exact asks_proceed (posting _ rfl)

/-- What a wait does once its event is posted. -/
theorem asks_endWait {Q : Request → Prop} (asked : Q .waitTimeout ∧ ∀ ticks, Q (.setWaitTimeout ticks))
    (outcome : Injection) : (do
    if outcome.clearTimeout then
      if (← Program.request .waitTimeout) = waitForever then
        let ticks := (← get).config.forcedWait
        Program.notice (.waitShortened ticks)
        Program.request (.setWaitTimeout ticks)
    return outcome.decision : Program ρ Decision).Asks A Q := by
  split
  · refine asks_bind (asks_request asked.1) fun timeout => ?_
    split
    · exact asks_bind asks_get fun _ => asks_bind (asks_notice _) fun _ =>
        asks_bind (asks_request (asked.2 _)) fun _ => asks_pure _
    · exact asks_pure _
  · exact asks_pure _

theorem asks_idleWait {Q : Request → Prop} (posting : ∀ r : Request, r.purpose = .posting → Q r)
    (rules : (applyFirst (ρ := ρ) rules).Asks A Q) : (idleWait : Program ρ _).Asks A Q :=
  asks_bind (asks_inject posting rules) (asks_endWait ⟨posting _ rfl, fun _ => posting _ rfl⟩)

/-- A wait that is told that it is nested posts the empty event, and no other rule is looked at. -/
theorem asks_rules_nested : (applyFirst (ρ := ρ) rules).Asks Request.ToldNested (·.purpose = .posting) := by
  refine ⟨rfl, fun nested told => ?_⟩
  obtain rfl : nested = true := told
  have posts : (emptyEvent : Program ρ _).Asks Request.ToldNested (·.purpose = .posting) := asks_emptyEvent rfl
  exact posts

/-! ### Mending the guest -/

theorem asks_reportDebugger (attached : Bool) (answer : Except ErrorCode Unit) :
    (reportDebugger attached answer : Program ρ _).Asks A (·.mends) := by
  cases answer with
  | ok _ => exact asks_pure _
  | error e => exact asks_notice _

theorem asks_announceDebugger : (announceDebugger : Program ρ _).Asks A (·.mends) := by
  refine asks_bind (asks_request rfl) fun attached => ?_
  dsimp only
  split
  · exact asks_bind (asks_request rfl) (asks_reportDebugger attached)
  · exact asks_bind (asks_request rfl) (asks_reportDebugger attached)

theorem asks_assertStrictChecks : (assertStrictChecks : Program ρ _).Asks A (·.mends) := by
  refine asks_bind (asks_request rfl) fun strict => asks_bind ?_ fun has => ?_
  · refine asks_bind (asks_request rfl) fun version => ?_
    cases version with
    | ok v => exact asks_pure _
    | error e => exact asks_pure _
  · split
    · exact asks_request rfl
    · exact asks_pure _

theorem asks_assertOverlayErrors : (assertOverlayErrors : Program ρ _).Asks A (·.mends) := by
  refine asks_bind (asks_request rfl) fun wanted => asks_bind (asks_request rfl) fun answer => ?_
  cases answer with
  | ok _ => exact asks_pure _
  | error e => exact asks_notice _

theorem asks_takeUserName : (takeUserName : Program ρ _).Asks A (·.mends) := by
  refine asks_bind (asks_request rfl) fun has => ?_
  split
  · refine asks_bind (asks_request rfl) fun name => ?_
    cases name with
    | ok name => exact asks_request rfl
    | error e => exact asks_notice _
  · exact asks_pure _

theorem asks_installFiles : (installFiles : Program ρ _).Asks A (·.mends) := by
  refine asks_bind (asks_request rfl) fun outcome => ?_
  cases outcome with
  | ok _ => exact asks_pure _
  | error reason => exact asks_notice _

theorem asks_reopenLine (line : Line) : (reopenLine line : Program ρ _).Asks A (·.reopens line) := by
  have same : decide (line = line) = true := decide_eq_true rfl
  refine asks_bind (asks_request same) fun active => ?_
  split
  · refine asks_bind (asks_request same) fun outcome => ?_
    cases outcome with
    | ok _ => exact asks_pure _
    | error reason => exact asks_notice _
  · exact asks_pure _

theorem asks_mendGuest : (mendGuest : Program ρ _).Asks A (·.mends) :=
  asks_bind (asks_notice _) fun _ => asks_bind asks_announceDebugger fun _ =>
    asks_bind asks_assertStrictChecks fun _ => asks_bind asks_assertOverlayErrors fun _ =>
      asks_bind asks_takeUserName fun _ => asks_bind asks_installFiles fun _ =>
        asks_bind (asks_bind (asks_request rfl) fun _ => asks_request rfl) fun _ => asks_request rfl

theorem asks_bootstrap {Q : Request → Prop} (mends : ∀ r : Request, r.mends → Q r)
    (reopens : ∀ line (r : Request), r.reopens line → Q r) : (bootstrap : Program ρ _).Asks A Q := by
  have lines : (Line.all.forM reopenLine : Program ρ _).Asks A Q :=
    asks_forM (fun line => (asks_reopenLine line).mono (fun _ _ told => told) (reopens line)) _
  refine asks_bind asks_get fun e => ?_
  split
  · exact asks_bind (asks_mendGuest.mono (fun _ _ told => told) mends) fun _ => lines
  · exact lines

theorem asks_bootstrapIfDue : (bootstrapIfDue : Program ρ _).Asks A (·.purpose = .mending) := by
  refine asks_bind (asks_request rfl) fun due => ?_
  split
  · refine asks_bind (asks_request rfl) fun _ => ?_
    exact asks_bootstrap (fun _ => Request.purpose_of_mends) fun _ _ => Request.purpose_of_reopens
  · exact asks_pure _

/-! ### Finding and running hooks -/

theorem asks_resolve (call : Call) : (resolve call : Program ρ _).Asks A (·.purpose = .naming) := by
  refine asks_bind (asks_bind asks_get fun e => ?_) fun table => asks_pure _
  cases call.home e.config.protocolMark with
  | system => exact asks_modifyGet _
  | protocol => exact asks_modifyGet _
  | library refnum =>
    refine asks_bind (asks_modifyGet _) fun known => ?_
    cases known with
    | some table => exact asks_pure _
    | none =>
      exact asks_bind (asks_request rfl) fun name => asks_bind (asks_modifyGet _) fun table =>
        asks_bind (asks_notice _) fun _ => asks_pure _
  | nowhere => exact asks_pure _

theorem asks_unmeasured {α : Type} {Q : Request → Prop} {p : Program ρ α}
    (measuring : ∀ r : Request, r.purpose = .measuring → Q r) (asks : p.Asks A Q) : (unmeasured p).Asks A Q :=
  asks_bind (asks_request (measuring _ rfl)) fun _ => asks_bind asks fun _ =>
    asks_bind (asks_request (measuring _ rfl)) fun _ => asks_pure _

/-- The hooks of the engine's own table ask no more than a wait does, and a foreign one is run by others. -/
theorem asks_headDecision {Q : Request → Prop} (measuring : ∀ r : Request, r.purpose = .measuring → Q r)
    (waits : (idleWait : Program ρ _).Asks A Q) (call : Call) (hooks : Hooks ρ) :
    (headDecision call hooks).Asks A Q := by
  unfold headDecision
  cases hooks.head with
  | none => exact asks_pure _
  | some head =>
    refine asks_unmeasured measuring ?_
    cases head.routine with
    | noteEventTrap => exact asks_bind (asks_modify _) fun _ => asks_pure _
    | idleWait => exact waits
    | foreign r => exact fun _ => trivial

theorem asks_callTail (hook : TailHook ρ) (call : Call) : (callTail hook call).Asks A (·.purpose = .measuring) :=
  asks_bind (asks_notice _) fun _ => asks_unmeasured (fun _ same => same) trivial

theorem asks_conclude (call : Call) (hooks : Hooks ρ) (decision : Decision) :
    (conclude call hooks decision).Asks A (·.purpose = .measuring) := by
  have last : (do notice (.handled call decision); return decision : Program ρ Decision).Asks A
      (·.purpose = .measuring) := asks_bind (asks_notice _) fun _ => asks_pure _
  unfold conclude
  cases hooks.tail with
  | none => exact last
  | some tail =>
    cases decision with
    | skip => exact asks_bind (asks_callTail tail call) fun _ => last
    | execute =>
      refine asks_bind (asks_bind (asks_modifyGet _) fun armed => ?_) fun _ => last
      cases armed with
      | first => exact asks_notice _
      | again count => exact asks_notice _
      | overflow => trivial

theorem asks_takeReturn (pc : UInt32) : (takeReturn pc : Program ρ _).Asks A (·.purpose = .measuring) := by
  have calls (due : Option (TailHook ρ × Call)) : (callDue due).Asks A (·.purpose = .measuring) := by
    cases due with
    | none => exact asks_pure _
    | some due => exact asks_callTail due.1 due.2
  refine asks_bind (asks_modifyGet _) fun arrival => ?_
  cases arrival with
  | unknown => exact asks_pure _
  | returned due last =>
    dsimp only
    split
    · exact asks_bind (asks_notice _) fun _ => calls due
    · exact calls due

/-! ### Sessions -/

theorem asks_putBack {Q : Request → Prop} (record : PendingTail ρ) : (putBack record).Asks A Q := by
  refine asks_bind (asks_modifyGet _) fun restored => ?_
  split
  · exact asks_notice _
  · exact asks_pure _
  · exact asks_pure _

theorem asks_restoreTail (saved : SavedTail) : (restoreTail saved : Program ρ _).Asks A (·.purpose = .naming) := by
  refine asks_bind (asks_resolve saved.call) fun hooks => ?_
  dsimp only
  split
  · exact asks_bind (asks_notice _) fun _ => asks_putBack _
  · exact asks_putBack _

theorem asks_load (file : SessionFile) : (load file : Program ρ _).Asks A (·.purpose = .naming) := by
  unfold load
  cases file.chunk with
  | none => exact asks_bind (asks_notice _) fun _ => asks_pure _
  | some bytes =>
    dsimp only
    cases Chunk.decode bytes with
    | error e => exact asks_pure _
    | ok chunk =>
      have last : (do
          notice (.loaded chunk.version (← get).returns.records.size)
          return (file, .ok ()) : Program ρ (SessionFile × Except ChunkError Unit)).Asks A (·.purpose = .naming) :=
        asks_bind asks_get fun _ => asks_bind (asks_notice _) fun _ => asks_pure _
      dsimp only
      split
      · refine asks_bind ?_ fun _ => last
        exact asks_bind (asks_modify _) fun _ => asks_bind (asks_forM asks_restoreTail _) fun _ => asks_modify _
      · exact last

end Engine

/-! ### Stages -/

namespace Stage

variable {ρ : Type} {A : (r : Request) → r.Reply → Prop}

/-- What a stage may make requests for. -/
def purposes : Stage ρ → List Request.Purpose
  | dispatch _ => [.mending, .naming]
  | handle _ _ => [.measuring, .posting, .switching]
  | conclude _ _ _ | takeReturn _ => [.measuring]
  | returned => [.locating]
  | bootstrap => [.mending]
  | resolve _ | load _ => [.naming]
  | _ => []

/-- A stage makes requests for its purposes only. -/
theorem asks_program (s : Stage ρ) : s.program.Asks A (·.purpose ∈ s.purposes) := by
  have any {P : Request.Purpose} {α : Type} {p : Program ρ α} (asks : p.Asks A (·.purpose = P))
      {l : List Request.Purpose} (listed : P ∈ l) : p.Asks A (·.purpose ∈ l) :=
    asks.mono (fun _ _ told => told) fun r same => same ▸ listed
  cases s with
  | dispatch call =>
    exact Program.asks_bind (any Engine.asks_bootstrapIfDue (by simp [purposes])) fun _ =>
      any (Engine.asks_resolve call) (by simp [purposes])
  | handle call hooks =>
    refine Engine.asks_headDecision (fun r same => by simp [same, purposes]) ?_ call hooks
    refine Engine.asks_idleWait (fun r same => by simp [same, purposes]) ?_
    refine Engine.asks_applyFirst fun rule member => ?_
    obtain ⟨applies, posts | switches⟩ := Engine.asks_rules (A := A) rule member
    · exact ⟨any applies (by simp [purposes]), any posts (by simp [purposes])⟩
    · rw [switches]
      exact ⟨any applies (by simp [purposes]), any Engine.asks_switchPending (by simp [purposes])⟩
  | conclude call hooks decision => exact any (Engine.asks_conclude call hooks decision) (by simp [purposes])
  | returned => exact Program.asks_request (by simp [purposes, Request.purpose])
  | takeReturn pc => exact any (Engine.asks_takeReturn pc) (by simp [purposes])
  | bootstrap =>
    refine any (Engine.asks_bootstrap (fun _ => Request.purpose_of_mends) fun _ _ => Request.purpose_of_reopens) ?_
    simp [purposes]
  | resolve call => exact any (Engine.asks_resolve call) (by simp [purposes])
  | load file => exact any (Engine.asks_load file) (by simp [purposes])
  | start =>
    exact Program.asks_bind (Program.asks_modify _) fun _ => Program.asks_bind Program.asks_get fun _ =>
      Program.asks_bind (Program.asks_forM (fun _ => Program.asks_notice _) _) fun _ =>
        Program.asks_bind (Program.asks_modify _) fun _ => Program.asks_notice _
  | reset => exact fun _ => trivial
  | dispose => exact fun _ _ => trivial
  | save file => exact fun _ => trivial
  | installMarks => exact fun _ => trivial
  | uninstallMarks => exact fun _ => trivial
  | markLibrary refnum => exact fun _ => trivial
  | markLibraries => exact fun _ => trivial
  | edit f => exact fun _ => trivial

/-- A stage that is told that it is nested makes no switch of applications. -/
theorem asks_nested (s : Stage ρ) : s.program.Asks Request.ToldNested (·.purpose ≠ .switching) := by
  have plain (others : .switching ∉ s.purposes) : s.program.Asks Request.ToldNested (·.purpose ≠ .switching) := by
    refine s.asks_program.mono (fun _ _ told => told) fun r listed same => ?_
    rw [same] at listed
    exact others listed
  cases s with
  | handle call hooks =>
    have posting (r : Request) (same : r.purpose = .posting) : r.purpose ≠ .switching := by simp [same]
    refine Engine.asks_headDecision (fun r same => by simp [same]) ?_ call hooks
    exact Engine.asks_idleWait posting (Engine.asks_rules_nested.mono (fun _ _ told => told) posting)
  | _ => exact plain (by simp [purposes])

end Stage

end TrapHooks
