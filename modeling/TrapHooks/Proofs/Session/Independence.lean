import TrapHooks.Proofs.Run.Surrounding
import TrapHooks.Proofs.Session.Reload
import TrapHooks.Proofs.Waits.Nesting

/-! The steps of a bootstrap do not depend on each other. What is asked of the host and the guest is told by the host's
    answers to plain queries, whatever fails; only where something was found out does a further step follow from it:
    how strict the international manager is to be, if there is one, and the user's name, if it could be read. -/

namespace TrapHooks

variable {ρ : Type}

/-- All that was asked, with its answers. -/
def replies (did : List (Action ρ)) : List (Action ρ) :=
  did.filter (·.asked.isSome)

section
variable {did first last : List (Action ρ)} {r : Request} {reply : r.Reply}

@[simp] theorem replies_nil : replies ([] : List (Action ρ)) = [] := rfl

@[simp] theorem replies_append : replies (first ++ last) = replies first ++ replies last := List.filter_append ..

@[simp] theorem replies_replied : replies (.replied r reply :: did) = .replied r reply :: replies did := rfl

@[simp] theorem replies_told (n : Notice) : replies (.told n :: did) = replies did := rfl

theorem mem_replies : .replied r reply ∈ replies did ↔ .replied r reply ∈ did := by
  simp [replies, Action.asked]

theorem asked_replies (did : List (Action ρ)) : (replies did).filterMap Action.asked = did.filterMap Action.asked := by
  induction did with
  | nil => rfl
  | cons action did ih =>
    cases action with
    | replied r reply => exact congrArg (List.cons r) ih
    | _ => exact ih

end

/-- Nothing is asked by a program that has nothing to ask. -/
theorem Program.Does.unasked {α : Type} {p q : Program ρ α} {did : List (Action ρ)} (does : p.Does did q)
    (mute : p.Asks Request.Any fun _ => False) : replies did = [] := by
  refine List.filter_eq_nil_iff.mpr fun action member => ?_
  cases action with
  | replied r reply => exact ((does.asks mute fun _ _ _ => trivial).1 r reply member).elim
  | _ => exact Bool.false_ne_true

/-! ### The steps -/

/-- A ROM of this version has an international manager that can check strictly. -/
def SupportsIntl (version : UInt32) : Prop :=
  Engine.intlMajor ≤ (version >>> 24) &&& 0xFF

instance (version : UInt32) : Decidable (SupportsIntl version) :=
  inferInstanceAs (Decidable (_ ≤ _))

namespace Step

def announcing (attached : Bool) (answer : Except ErrorCode Unit) : List (Action ρ) :=
  [.replied .debuggerAttached attached,
    if attached then .replied (.setFeature Creator.debugger 0 Feature.debuggerPresent) answer
    else .replied (.removeFeature Creator.debugger 0) answer]

def checking (strict : Bool) (version : Except ErrorCode UInt32) : List (Action ρ) :=
  .replied (.preference .strictIntlChecks) strict ::
    .replied (.getFeature Creator.system Feature.romVersion) version ::
    match version with
    | .ok version => if SupportsIntl version then [.replied (.setStrictChecks strict) ()] else []
    | .error _ => []

def overlaying (wanted : Bool) (answer : Except ErrorCode Unit) : List (Action ρ) :=
  [.replied (.preference .overlayErrors) wanted,
    .replied (.setFeature Creator.overlays Feature.showOverlayErrors (if wanted then 1 else 0)) answer]

def naming (synced : Bool) (user : Except ErrorCode String) : List (Action ρ) :=
  .replied (.trapExists Trap.syncInfo) synced ::
    if synced then
      .replied .syncUserName user ::
        match user with
        | .ok name => [.replied (.setUserName name) ()]
        | .error _ => []
    else []

def installing (answer : Except String Unit) : List (Action ρ) :=
  [.replied .autoload answer]

def timing (now : UInt64) : List (Action ρ) :=
  [.replied .hostTime now, .replied (.setClock (Clock.ofUnix now)) ()]

def reopening (line : Line) (active : Bool) (answer : Except String Unit) : List (Action ρ) :=
  .replied (.lineActive line) active :: if active then [.replied (.openTransport line) answer] else []

variable {action : Action ρ}

@[simp] theorem mem_announcing {attached : Bool} {answer : Except ErrorCode Unit} :
    action ∈ announcing attached answer ↔ action = .replied .debuggerAttached attached ∨
      attached = true ∧ action = .replied (.setFeature Creator.debugger 0 Feature.debuggerPresent) answer ∨
      attached = false ∧ action = .replied (.removeFeature Creator.debugger 0) answer := by
  cases attached <;> simp [announcing]

@[simp] theorem mem_checking {strict : Bool} {version : Except ErrorCode UInt32} :
    action ∈ checking strict version ↔ action = .replied (.preference .strictIntlChecks) strict ∨
      action = .replied (.getFeature Creator.system Feature.romVersion) version ∨
      ∃ v, version = .ok v ∧ SupportsIntl v ∧ action = .replied (.setStrictChecks strict) () := by
  cases version <;> simp [checking]

@[simp] theorem mem_naming {synced : Bool} {user : Except ErrorCode String} :
    action ∈ naming synced user ↔ action = .replied (.trapExists Trap.syncInfo) synced ∨
      synced = true ∧ (action = .replied .syncUserName user ∨
        ∃ name, user = .ok name ∧ action = .replied (.setUserName name) ()) := by
  cases synced <;> cases user <;> simp [naming]

@[simp] theorem mem_reopening {line : Line} {active : Bool} {answer : Except String Unit} :
    action ∈ reopening line active answer ↔ action = .replied (.lineActive line) active ∨
      active = true ∧ action = .replied (.openTransport line) answer := by
  cases active <;> simp [reopening]

end Step

namespace Engine

open Program

variable {did : List (Action ρ)}

theorem replies_announceDebugger (does : announceDebugger.Does did (.done ())) :
    ∃ attached answer, replies did = Step.announcing attached answer := by
  have mute {attached : Bool} {answer : Except ErrorCode Unit} :
      (reportDebugger attached answer : Program ρ _).Asks Request.Any fun _ => False := by
    cases answer <;> exact trivial
  obtain ⟨attached, _, rfl, goes⟩ := does_request_bind does
  cases attached with
  | true =>
    obtain ⟨answer, _, rfl, ends⟩ := does_request_bind goes
    exact ⟨true, answer, by simp [ends.unasked mute, Step.announcing]⟩
  | false =>
    obtain ⟨answer, _, rfl, ends⟩ := does_request_bind goes
    exact ⟨false, answer, by simp [ends.unasked mute, Step.announcing]⟩

theorem replies_assertStrictChecks (does : assertStrictChecks.Does did (.done ())) :
    ∃ strict version, replies did = Step.checking strict version := by
  obtain ⟨strict, _, rfl, goes⟩ := does_request_bind does
  obtain ⟨supported, _, _, rfl, looks, checks⟩ := does_bind goes
  obtain ⟨version, _, rfl, told⟩ := does_request_bind looks
  refine ⟨strict, version, ?_⟩
  cases version with
  | ok version =>
    obtain ⟨rfl, rfl⟩ := does_done told
    by_cases supported : SupportsIntl version
    · have has : decide (intlMajor ≤ (version >>> 24) &&& 0xFF) = true := decide_eq_true supported
      rw [has] at checks
      obtain ⟨_, _, rfl, ends⟩ := does_ask checks
      obtain ⟨rfl, -⟩ := does_done ends
      simp [Step.checking, supported]
    · have has : decide (intlMajor ≤ (version >>> 24) &&& 0xFF) = false := decide_eq_false supported
      rw [has] at checks
      obtain ⟨rfl, -⟩ := does_done checks
      simp [Step.checking, supported]
  | error e =>
    obtain ⟨rfl, rfl⟩ := does_done told
    obtain ⟨rfl, -⟩ := does_done checks
    simp [Step.checking]

theorem replies_assertOverlayErrors (does : assertOverlayErrors.Does did (.done ())) :
    ∃ wanted answer, replies did = Step.overlaying wanted answer := by
  obtain ⟨wanted, _, rfl, goes⟩ := does_request_bind does
  obtain ⟨answer, _, rfl, ends⟩ := does_request_bind goes
  have none_asked := ends.unasked (by cases answer <;> exact trivial)
  exact ⟨wanted, answer, by simp [none_asked, Step.overlaying]⟩

theorem replies_takeUserName (does : takeUserName.Does did (.done ())) :
    ∃ synced user, replies did = Step.naming synced user := by
  obtain ⟨synced, _, rfl, goes⟩ := does_request_bind does
  cases synced with
  | true =>
    obtain ⟨user, _, rfl, ends⟩ := does_request_bind goes
    refine ⟨true, user, ?_⟩
    cases user with
    | ok name =>
      obtain ⟨_, _, rfl, last⟩ := does_ask ends
      obtain ⟨rfl, -⟩ := does_done last
      rfl
    | error e => simp [ends.unasked trivial, Step.naming]
  | false =>
    obtain ⟨rfl, -⟩ := does_done goes
    exact ⟨false, .ok "", rfl⟩

theorem replies_installFiles (does : installFiles.Does did (.done ())) :
    ∃ answer, replies did = Step.installing answer := by
  obtain ⟨answer, _, rfl, ends⟩ := does_request_bind does
  have none_asked := ends.unasked (by cases answer <;> exact trivial)
  exact ⟨answer, by simp [none_asked, Step.installing]⟩

theorem replies_setTime (does : setTime.Does did (.done ())) : ∃ now, replies did = Step.timing now := by
  obtain ⟨now, _, rfl, goes⟩ := does_request_bind does
  obtain ⟨_, _, rfl, ends⟩ := does_ask goes
  obtain ⟨rfl, -⟩ := does_done ends
  exact ⟨now, rfl⟩

theorem replies_reopenLine {line : Line} (does : (reopenLine line).Does did (.done ())) :
    ∃ active answer, replies did = Step.reopening line active answer := by
  obtain ⟨active, _, rfl, goes⟩ := does_request_bind does
  cases active with
  | true =>
    obtain ⟨answer, _, rfl, ends⟩ := does_request_bind goes
    have none_asked := ends.unasked (by cases answer <;> exact trivial)
    exact ⟨true, answer, by simp [none_asked, Step.reopening]⟩
  | false =>
    obtain ⟨rfl, -⟩ := does_done goes
    exact ⟨false, .ok (), rfl⟩

end Engine

/-- What a bootstrap is answered, at each of the requests that it may make. -/
structure Answered where
  attached : Bool
  debugger : Except ErrorCode Unit
  strict : Bool
  version : Except ErrorCode UInt32
  overlay : Bool
  overlays : Except ErrorCode Unit
  synced : Bool
  user : Except ErrorCode String
  installed : Except String Unit
  now : UInt64
  active : Line → Bool
  opened : Line → Except String Unit

namespace Answered

def reopening (a : Answered) : List (Action ρ) :=
  Line.all.flatMap fun line => Step.reopening line (a.active line) (a.opened line)

/-- All that is asked in a bootstrap, with these answers. -/
def asking (a : Answered) : Bool → List (Action ρ)
  | true => Step.announcing a.attached a.debugger ++ Step.checking a.strict a.version ++
    Step.overlaying a.overlay a.overlays ++ Step.naming a.synced a.user ++ Step.installing a.installed ++
    Step.timing a.now ++ .replied .wakeEvents () :: a.reopening
  | false => a.reopening

end Answered

namespace Engine

open Program

variable {did : List (Action ρ)}

theorem replies_reopenLines (does : (Line.all.forM reopenLine).Does did (.done ())) :
    ∃ (active : Line → Bool) (opened : Line → Except String Unit),
      replies did = Line.all.flatMap fun line => Step.reopening line (active line) (opened line) := by
  have does : (reopenLine .serial >>= fun _ => reopenLine .infrared >>= fun _ => pure ()).Does did (.done ()) := does
  obtain ⟨_, first, _, rfl, serial, later⟩ := does_bind does
  obtain ⟨_, second, _, rfl, infrared, ends⟩ := does_bind later
  obtain ⟨rfl, -⟩ := does_done ends
  obtain ⟨active, opened, serial⟩ := replies_reopenLine serial
  obtain ⟨active', opened', infrared⟩ := replies_reopenLine infrared
  refine ⟨fun line => if line = .serial then active else active',
    fun line => if line = .serial then opened else opened', ?_⟩
  simp [serial, infrared, Line.all]

/-- What a bootstrap asks is told by its answers. -/
theorem replies_bootstrap {e : Engine ρ} (does : bootstrap.Does (.changed e e :: did) (.done ())) :
    ∃ a : Answered, replies did = a.asking e.state.uiReady := by
  obtain ⟨e', _, same, goes⟩ := does_get_bind does
  obtain ⟨rfl, rfl⟩ : e = e' ∧ did = _ := by simpa using same
  cases ready : e.state.uiReady with
  | false =>
    simp only [ready] at goes
    obtain ⟨active, opened, lines⟩ := replies_reopenLines goes
    exact ⟨⟨false, .ok (), false, .ok 0, false, .ok (), false, .ok "", .ok (), 0, active, opened⟩, lines⟩
  | true =>
    simp only [ready, if_true] at goes
    obtain ⟨_, mended, _, rfl, mends, reopens⟩ := does_bind goes
    obtain ⟨active, opened, lines⟩ := replies_reopenLines reopens
    obtain ⟨_, rfl, announces⟩ := does_notice_bind mends
    obtain ⟨_, announced, _, rfl, first, checks⟩ := does_bind announces
    obtain ⟨_, checked, _, rfl, second, overlays⟩ := does_bind checks
    obtain ⟨_, overlaid, _, rfl, third, names⟩ := does_bind overlays
    obtain ⟨_, named, _, rfl, fourth, installs⟩ := does_bind names
    obtain ⟨_, installed, _, rfl, fifth, times⟩ := does_bind installs
    obtain ⟨_, timed, _, rfl, sixth, wakes⟩ := does_bind times
    obtain ⟨_, _, rfl, ends⟩ := does_ask wakes
    obtain ⟨rfl, -⟩ := does_done ends
    obtain ⟨attached, debugger, first⟩ := replies_announceDebugger first
    obtain ⟨strict, version, second⟩ := replies_assertStrictChecks second
    obtain ⟨overlay, shown, third⟩ := replies_assertOverlayErrors third
    obtain ⟨synced, user, fourth⟩ := replies_takeUserName fourth
    obtain ⟨answer, fifth⟩ := replies_installFiles fifth
    obtain ⟨now, sixth⟩ := replies_setTime sixth
    refine ⟨⟨attached, debugger, strict, version, overlay, shown, synced, user, answer, now, active, opened⟩, ?_⟩
    simp [first, second, third, fourth, fifth, sixth, lines, Answered.asking, Answered.reopening]

/-- Whatever is answered, a bootstrap comes to its end. -/
theorem bootstrap_ends (answers : Answers ρ) (e : Engine ρ) : ∃ did, bootstrap.Does (.changed e e :: did) (.done ()) ∧
    ∀ r reply, .replied r reply ∈ did → reply = answers.reply r := by
  obtain ⟨_, _, ends⟩ := lasts_bootstrap.alone answers e
  obtain ⟨actions, yields, replied⟩ := yields_alone ends
  cases yields with
  | act acts rest =>
    cases acts
    exact ⟨_, .cons (.change e _ _) rest.does, fun r reply member => replied r reply (List.mem_cons_of_mem _ member)⟩

end Engine

/-! ### Two bootstraps -/

namespace Request

/-- The request, without the time that it tells. -/
def timeless : Request → Request
  | setClock _ => setClock 0
  | r => r

/-- It is only made if what was asked right before it has succeeded. -/
def hinges : Request → Bool
  | setStrictChecks _ | setUserName _ => true
  | _ => false

end Request

/-- All that was asked, in this order and but for the time. -/
def calls (did : List (Action ρ)) : List Request :=
  (did.filterMap Action.asked).map Request.timeless

theorem calls_append (first last : List (Action ρ)) : calls (first ++ last) = calls first ++ calls last := by
  simp [calls]

theorem calls_replies (did : List (Action ρ)) : calls (replies did) = calls did :=
  congrArg (List.map Request.timeless) (asked_replies did)

namespace Step

/-- What the guest is told of strict checks, by what its version is. -/
def strictness (strict : Bool) : Except ErrorCode UInt32 → List Request
  | .ok version => if SupportsIntl version then [.setStrictChecks strict] else []
  | .error _ => []

/-- What the session is told of the user's name, by whether it could be read. -/
def known (synced : Bool) : Except ErrorCode String → List Request
  | .ok name => if synced then [.setUserName name] else []
  | .error _ => []

variable {strict synced : Bool} {version : Except ErrorCode UInt32} {user : Except ErrorCode String}

theorem strictness_cases (strict : Bool) (version : Except ErrorCode UInt32) :
    strictness strict version = [] ∨ strictness strict version = [.setStrictChecks strict] := by
  cases version with
  | ok version => by_cases supported : SupportsIntl version <;> simp [strictness, supported]
  | error e => exact .inl rfl

theorem known_cases (synced : Bool) (user : Except ErrorCode String) :
    known synced user = [] ∨ ∃ name, known synced user = [.setUserName name] := by
  cases synced <;> cases user <;> simp [known]

theorem hinges_strictness : ∀ r ∈ strictness strict version, r.hinges = true := by
  rcases strictness_cases strict version with none | some <;> simp [*, Request.hinges]

theorem hinges_known : ∀ r ∈ known synced user, r.hinges = true := by
  rcases known_cases synced user with none | ⟨name, some⟩ <;> simp [*, Request.hinges]

/-- What is told of strict checks and of the name can be told apart. -/
theorem told_apart {synced' : Bool} {version' : Except ErrorCode UInt32} {user' : Except ErrorCode String}
    {keep : Request → Bool}
    (same : (strictness strict version).filter keep ++ (known synced user).filter keep =
      (strictness strict version').filter keep ++ (known synced' user').filter keep) :
    (strictness strict version).filter keep = (strictness strict version').filter keep ∧
      (known synced user).filter keep = (known synced' user').filter keep := by
  rcases strictness_cases strict version with told | told <;>
    rcases strictness_cases strict version' with told' | told' <;>
    rcases known_cases synced user with name | ⟨_, name⟩ <;>
    rcases known_cases synced' user' with name' | ⟨_, name'⟩ <;>
    simp only [told, told', name, name', List.filter_cons, List.filter_nil] at same ⊢ <;>
    (try split_ifs at same ⊢) <;> simp_all

@[simp] theorem calls_announcing {attached : Bool} {answer : Except ErrorCode Unit} :
    calls (announcing (ρ := ρ) attached answer) = [.debuggerAttached,
      if attached then .setFeature Creator.debugger 0 Feature.debuggerPresent
      else .removeFeature Creator.debugger 0] := by
  cases attached <;> rfl

@[simp] theorem calls_checking : calls (checking (ρ := ρ) strict version) =
    .preference .strictIntlChecks :: .getFeature Creator.system Feature.romVersion :: strictness strict version := by
  cases version with
  | ok version => by_cases supported : SupportsIntl version <;> simp [checking, strictness, supported] <;> rfl
  | error e => rfl

@[simp] theorem calls_overlaying {wanted : Bool} {answer : Except ErrorCode Unit} :
    calls (overlaying (ρ := ρ) wanted answer) = [.preference .overlayErrors,
      .setFeature Creator.overlays Feature.showOverlayErrors (if wanted then 1 else 0)] := rfl

@[simp] theorem calls_naming : calls (naming (ρ := ρ) synced user) =
    .trapExists Trap.syncInfo :: (if synced then [.syncUserName] else []) ++ known synced user := by
  cases synced <;> cases user <;> rfl

@[simp] theorem calls_installing {answer : Except String Unit} : calls (installing (ρ := ρ) answer) = [.autoload] := rfl

@[simp] theorem calls_timing {now : UInt64} : calls (timing (ρ := ρ) now) = [.hostTime, .setClock 0] := rfl

@[simp] theorem calls_reopening {line : Line} {active : Bool} {answer : Except String Unit} :
    calls (reopening (ρ := ρ) line active answer) =
      .lineActive line :: if active then [.openTransport line] else [] := by
  cases active <;> rfl

end Step

section
variable (a : Answered) (ready : Bool) {strict : Bool} {name : String}

theorem Answered.sets_strict : .replied (.setStrictChecks strict) () ∈ a.asking (ρ := ρ) ready ↔
    .replied (.preference .strictIntlChecks) strict ∈ a.asking (ρ := ρ) ready ∧
      ∃ version, .replied (.getFeature Creator.system Feature.romVersion) (.ok version) ∈ a.asking (ρ := ρ) ready ∧
        SupportsIntl version := by
  cases ready with
  | false => simp [asking, reopening]
  | true =>
    have told : .replied (.setStrictChecks strict) () ∈ a.asking (ρ := ρ) true ↔
        ∃ version, a.version = .ok version ∧ SupportsIntl version ∧ strict = a.strict := by
      simp [asking, reopening, Step.overlaying, Step.installing, Step.timing]
    have wanted : .replied (.preference .strictIntlChecks) strict ∈ a.asking (ρ := ρ) true ↔ strict = a.strict := by
      simp [asking, reopening, Step.overlaying, Step.installing, Step.timing]
    have known (version : UInt32) : .replied (.getFeature Creator.system Feature.romVersion) (.ok version) ∈
        a.asking (ρ := ρ) true ↔ .ok version = a.version := by
      simp [asking, reopening, Step.overlaying, Step.installing, Step.timing]
    rw [told, wanted]
    constructor
    · rintro ⟨version, found, supported, same⟩
      exact ⟨same, version, (known version).mpr found.symm, supported⟩
    · rintro ⟨same, version, found, supported⟩
      exact ⟨version, ((known version).mp found).symm, supported, same⟩

theorem Answered.sets_name : .replied (.setUserName name) () ∈ a.asking (ρ := ρ) ready ↔
    .replied .syncUserName (.ok name) ∈ a.asking (ρ := ρ) ready := by
  cases ready with
  | false => simp [asking, reopening]
  | true =>
    simpa [asking, reopening, Step.overlaying, Step.installing, Step.timing] using fun _ => eq_comm

end

namespace Answered

variable {a a' : Answered} {ready : Bool}

/-! What is asked whatever fails, in three parts: what may be told of strict checks comes after the first of them, and
    what may be told of the user's name after the second. -/

def first (a : Answered) : List Request :=
  [.debuggerAttached,
    if a.attached then .setFeature Creator.debugger 0 Feature.debuggerPresent else .removeFeature Creator.debugger 0,
    .preference .strictIntlChecks, .getFeature Creator.system Feature.romVersion]

def second (a : Answered) : List Request :=
  [.preference .overlayErrors,
    .setFeature Creator.overlays Feature.showOverlayErrors (if a.overlay then 1 else 0), .trapExists Trap.syncInfo] ++
    if a.synced then [.syncUserName] else []

def lines (a : Answered) : List Request :=
  Line.all.flatMap fun line => .lineActive line :: if a.active line then [.openTransport line] else []

def third (a : Answered) : List Request :=
  [.autoload, .hostTime, .setClock 0, .wakeEvents] ++ a.lines

theorem calls_reopening (a : Answered) : calls (a.reopening (ρ := ρ)) = a.lines := by
  simp [reopening, lines, Line.all, calls_append]

theorem calls_asking (a : Answered) : calls (a.asking (ρ := ρ) true) =
    a.first ++ Step.strictness a.strict a.version ++ a.second ++ Step.known a.synced a.user ++ a.third := by
  have wakes : calls (.replied .wakeEvents () :: a.reopening (ρ := ρ)) = .wakeEvents :: a.lines :=
    congrArg (List.cons _) a.calls_reopening
  simp [asking, first, second, third, calls_append, wakes]

theorem unhinged_first (a : Answered) : ∀ r ∈ a.first, r.hinges = false := by
  cases attached : a.attached <;> simp [first, attached, Request.hinges]

theorem unhinged_second (a : Answered) : ∀ r ∈ a.second, r.hinges = false := by
  cases synced : a.synced <;> simp [second, synced, Request.hinges]

theorem unhinged_lines (a : Answered) : ∀ r ∈ a.lines, r.hinges = false := by
  intro r member
  obtain ⟨line, -, asked⟩ := List.mem_flatMap.mp member
  cases active : a.active line <;> simp [active] at asked
  · rw [asked]
    rfl
  · rcases asked with rfl | rfl <;> rfl

theorem unhinged_third (a : Answered) : ∀ r ∈ a.third, r.hinges = false :=
  List.forall_mem_append.mpr ⟨by simp [Request.hinges], a.unhinged_lines⟩

/-- The plain queries of two bootstraps were answered alike. -/
structure Alike (a a' : Answered) (ready : Bool) : Prop where
  active : a'.active = a.active
  mending : ready = true →
    a'.attached = a.attached ∧ a'.strict = a.strict ∧ a'.overlay = a.overlay ∧ a'.synced = a.synced

theorem alike (agree : ∀ (r : Request) (reply reply' : r.Reply), r.isQuery → r ≠ .hostTime →
    .replied r reply ∈ a.asking (ρ := ρ) ready → .replied r reply' ∈ a'.asking (ρ := ρ) ready → reply' = reply) :
    a.Alike a' ready where
  active := by
    have asked (a : Answered) (line : Line) :
        .replied (.lineActive line) (a.active line) ∈ a.asking (ρ := ρ) ready := by
      cases ready <;> cases line <;> simp [asking, reopening, Line.all]
    exact funext fun line => agree (.lineActive line) _ _ rfl nofun (asked a line) (asked a' line)
  mending := by
    rintro rfl
    refine ⟨agree .debuggerAttached _ _ rfl nofun ?_ ?_, agree (.preference .strictIntlChecks) _ _ rfl nofun ?_ ?_,
      agree (.preference .overlayErrors) _ _ rfl nofun ?_ ?_, agree (.trapExists Trap.syncInfo) _ _ rfl nofun ?_ ?_⟩ <;>
      simp [asking, Step.overlaying]

theorem Alike.lines_eq (alike : a.Alike a' ready) : a'.lines = a.lines := by
  simp only [lines, alike.active]

theorem Alike.parts_eq (alike : a.Alike a' true) : a'.first = a.first ∧ a'.second = a.second ∧ a'.third = a.third := by
  obtain ⟨attached, -, overlay, synced⟩ := alike.mending rfl
  simp [first, second, third, attached, overlay, synced, alike.lines_eq]

/-- If what is kept of what may follow from an answer was asked alike, so was all the rest. -/
theorem Alike.calls_eq (alike : a.Alike a' ready) (keep : Request → Bool)
    (same : (calls (a'.asking (ρ := ρ) ready)).filter (fun r => r.hinges && keep r) =
      (calls (a.asking (ρ := ρ) ready)).filter (fun r => r.hinges && keep r)) :
    (calls (a'.asking (ρ := ρ) ready)).filter (fun r => !r.hinges || keep r) =
      (calls (a.asking (ρ := ρ) ready)).filter (fun r => !r.hinges || keep r) := by
  cases ready with
  | false =>
    show (calls a'.reopening).filter _ = (calls a.reopening).filter _
    rw [calls_reopening, calls_reopening, alike.lines_eq]
  | true =>
    obtain ⟨first, second, third⟩ := alike.parts_eq
    obtain ⟨-, strict, -, -⟩ := alike.mending rfl
    have none {l : List Request} (unhinged : ∀ r ∈ l, r.hinges = false) :
        l.filter (fun r => r.hinges && keep r) = [] :=
      List.filter_eq_nil_iff.mpr fun r member => by simp [unhinged r member]
    have kept {l : List Request} (hinged : ∀ r ∈ l, r.hinges = true) :
        l.filter (fun r => r.hinges && keep r) = l.filter keep ∧
          l.filter (fun r => !r.hinges || keep r) = l.filter keep :=
      ⟨List.filter_congr fun r member => by simp [hinged r member],
        List.filter_congr fun r member => by simp [hinged r member]⟩
    simp only [calls_asking, first, second, third, strict, List.filter_append, none a.unhinged_first,
      none a.unhinged_second, none a.unhinged_third, (kept Step.hinges_strictness).1, (kept Step.hinges_known).1,
      List.nil_append, List.append_nil] at same
    obtain ⟨told, name⟩ := Step.told_apart same
    simp only [calls_asking, first, second, third, strict, List.filter_append, (kept Step.hinges_strictness).2,
      (kept Step.hinges_known).2, told, name]

end Answered

/-- Two bootstraps begin in guests whose user interfaces have both started, or both not, and plain queries, but that of
    the time, are answered alike in them; everything else that they ask may succeed or fail in any way.

    * They ask the same in the same order, but for the time and for what may follow from an answer. If some of that is
      asked alike as well, it has the same place among the rest.
    * The guest is told whether to check strictly exactly if it has said that its version supports that, and what the
      user wants then; the session is told the user's name exactly if it could be read.
    * Before the user interface has started, only the lines are asked for, and those in use opened, each in its turn.
    * Whatever is answered, a bootstrap comes to its end. -/
theorem Engine.bootstrap_independent {e e' : Engine ρ} {did did' : List (Action ρ)}
    (does : bootstrap.Does (.changed e e :: did) (.done ()))
    (does' : bootstrap.Does (.changed e' e' :: did') (.done ()))
    (ready : e'.state.uiReady = e.state.uiReady)
    (agree : ∀ (r : Request) (reply reply' : r.Reply), r.isQuery → r ≠ .hostTime →
      .replied r reply ∈ did → .replied r reply' ∈ did' → reply' = reply) :
    (calls did').filter (!·.hinges) = (calls did).filter (!·.hinges) ∧
      (∀ keep : Request → Bool, (calls did').filter (fun r => r.hinges && keep r) =
          (calls did).filter (fun r => r.hinges && keep r) →
        (calls did').filter (fun r => !r.hinges || keep r) = (calls did).filter (fun r => !r.hinges || keep r)) ∧
      (∀ strict, .replied (.setStrictChecks strict) () ∈ did ↔ .replied (.preference .strictIntlChecks) strict ∈ did ∧
        ∃ version, .replied (.getFeature Creator.system Feature.romVersion) (.ok version) ∈ did ∧
          SupportsIntl version) ∧
      (∀ name, .replied (.setUserName name) () ∈ did ↔ .replied .syncUserName (.ok name) ∈ did) ∧
      (e.state.uiReady = false → ∃ active : Line → Bool, (∀ line, .replied (.lineActive line) (active line) ∈ did) ∧
        calls did = Line.all.flatMap fun line =>
          .lineActive line :: if active line then [.openTransport line] else []) ∧
      ∀ answers : Program.Answers ρ, ∃ did, bootstrap.Does (.changed e e :: did) (.done ()) ∧
        ∀ r reply, .replied r reply ∈ did → reply = answers.reply r := by
  obtain ⟨a, asked⟩ := replies_bootstrap does
  obtain ⟨a', asked'⟩ := replies_bootstrap does'
  rw [ready] at asked'
  have alike : a.Alike a' e.state.uiReady := by
    refine Answered.alike (ρ := ρ) fun r reply reply' query untimed member member' => ?_
    rw [← asked, mem_replies] at member
    rw [← asked', mem_replies] at member'
    exact agree r reply reply' query untimed member member'
  have same := alike.calls_eq (ρ := ρ)
  rw [← asked, ← asked', calls_replies, calls_replies] at same
  refine ⟨?_, same, fun strict => ?_, fun name => ?_, fun early => ?_, fun answers => bootstrap_ends answers e⟩
  · have none (l : List Request) : l.filter (fun r => r.hinges && false) = [] :=
      List.filter_eq_nil_iff.mpr fun r _ => by simp
    simpa only [Bool.or_false] using same (fun _ => false) (by rw [none, none])
  · simpa only [← asked, mem_replies] using a.sets_strict (ρ := ρ) e.state.uiReady
  · simpa only [← asked, mem_replies] using a.sets_name (ρ := ρ) e.state.uiReady
  · rw [early] at asked
    refine ⟨a.active, fun line => ?_, ?_⟩
    · rw [← mem_replies, asked]
      cases line <;> simp [Answered.asking, Answered.reopening, Line.all]
    · rw [← calls_replies, asked]
      exact a.calls_reopening

namespace Engine

/-- A guest with a running user interface. -/
def started : Engine Unit :=
  { state := { uiReady := true } }

/-- Everything that can fail in a bootstrap fails. -/
def failing : List (Action Unit) :=
  [.told .bootstrapping, .replied .debuggerAttached true,
    .replied (.setFeature Creator.debugger 0 Feature.debuggerPresent) (.error ⟨1⟩),
    .told (.debuggerFeatureFailed true ⟨1⟩),
    .replied (.preference .strictIntlChecks) true,
    .replied (.getFeature Creator.system Feature.romVersion) (.error ⟨1⟩), .replied (.preference .overlayErrors) false,
    .replied (.setFeature Creator.overlays Feature.showOverlayErrors 0) (.error ⟨1⟩), .told (.overlayFeatureFailed ⟨1⟩),
    .replied (.trapExists Trap.syncInfo) true, .replied .syncUserName (.error ⟨1⟩), .told (.userNameUnreadable ⟨1⟩),
    .replied .autoload (.error ""), .told (.autoloadFailed ""), .replied .hostTime 0,
    .replied (.setClock (Clock.ofUnix 0)) (), .replied .wakeEvents (), .replied (.lineActive .serial) true,
    .replied (.openTransport .serial) (.error ""), .told (.transportFailed .serial ""),
    .replied (.lineActive .infrared) true, .replied (.openTransport .infrared) (.ok ())]

/-- Nothing fails in a bootstrap, and the guest has an international manager. -/
def granted : List (Action Unit) :=
  [.told .bootstrapping, .replied .debuggerAttached true,
    .replied (.setFeature Creator.debugger 0 Feature.debuggerPresent) (.ok ()),
    .replied (.preference .strictIntlChecks) true,
    .replied (.getFeature Creator.system Feature.romVersion) (.ok 0x04000000), .replied (.setStrictChecks true) (),
    .replied (.preference .overlayErrors) false,
    .replied (.setFeature Creator.overlays Feature.showOverlayErrors 0) (.ok ()),
    .replied (.trapExists Trap.syncInfo) true, .replied .syncUserName (.ok "user"), .replied (.setUserName "user") (),
    .replied .autoload (.ok ()), .replied .hostTime 60, .replied (.setClock (Clock.ofUnix 60)) (),
    .replied .wakeEvents (), .replied (.lineActive .serial) true, .replied (.openTransport .serial) (.ok ()),
    .replied (.lineActive .infrared) true, .replied (.openTransport .infrared) (.ok ())]

/-- A bootstrap in which everything fails asks the same as one in which nothing does, but does not tell the guest or the
    session what it has not found out. -/
theorem bootstrap_independent_failing :
    bootstrap.Does (.changed started started :: failing) (.done ()) ∧
      bootstrap.Does (.changed started started :: granted) (.done ()) ∧
      (calls granted).filter (!·.hinges) = (calls failing).filter (!·.hinges) ∧
      .replied (.setStrictChecks true) () ∉ failing ∧ .replied (.setUserName "user") () ∉ failing := by
  have does : bootstrap.Does (.changed started started :: failing) (.done ()) := by
    refine .cons (.change started _ _) <| .cons (.notice started _ _) <| .cons (.reply started _ _ _) ?_
    refine .cons (.reply started _ _ _) <| .cons (.notice started _ _) <| .cons (.reply started _ _ _) ?_
    refine .cons (.reply started _ _ _) <| .cons (.reply started _ _ _) <| .cons (.reply started _ _ _) ?_
    refine .cons (.notice started _ _) <| .cons (.reply started _ _ _) <| .cons (.reply started _ _ _) ?_
    refine .cons (.notice started _ _) <| .cons (.reply started _ _ _) <| .cons (.notice started _ _) ?_
    refine .cons (.reply started _ _ _) <| .cons (.reply started _ _ _) <| .cons (.reply started _ _ _) ?_
    refine .cons (.reply started _ _ _) <| .cons (.reply started _ _ _) <| .cons (.notice started _ _) ?_
    exact .cons (.reply started _ _ _) <| .cons (.reply started _ _ _) (.nil _)
  have does' : bootstrap.Does (.changed started started :: granted) (.done ()) := by
    refine .cons (.change started _ _) <| .cons (.notice started _ _) <| .cons (.reply started _ _ _) ?_
    refine .cons (.reply started _ _ _) <| .cons (.reply started _ _ _) <| .cons (.reply started _ _ _) ?_
    refine .cons (.reply started _ _ _) <| .cons (.reply started _ _ _) <| .cons (.reply started _ _ _) ?_
    refine .cons (.reply started _ _ _) <| .cons (.reply started _ _ _) <| .cons (.reply started _ _ _) ?_
    refine .cons (.reply started _ _ _) <| .cons (.reply started _ _ _) <| .cons (.reply started _ _ _) ?_
    refine .cons (.reply started _ _ _) <| .cons (.reply started _ _ _) <| .cons (.reply started _ _ _) ?_
    exact .cons (.reply started _ _ _) <| .cons (.reply started _ _ _) (.nil _)
  have agree (r : Request) (reply reply' : r.Reply) (query : r.isQuery) (untimed : r ≠ .hostTime)
      (member : .replied r reply ∈ failing) (member' : .replied r reply' ∈ granted) : reply' = reply := by
    simp only [failing, granted, List.mem_cons, List.not_mem_nil, Action.replied.injEq, reduceCtorEq, or_false,
      false_or] at member member'
    cases r with
    | hostTime => exact absurd rfl untimed
    | preference p => cases p <;> simp_all
    | lineActive line => cases line <;> simp_all
    | debuggerAttached | trapExists => simp_all
    | _ => cases query <;> simp only [reduceCtorEq, false_and, or_false] at member
  obtain ⟨steady, -, strict, name, -, -⟩ := bootstrap_independent does does' rfl agree
  refine ⟨does, does', steady, fun told => ?_, fun told => ?_⟩
  · obtain ⟨-, version, known, -⟩ := (strict true).mp told
    simp [failing] at known
  · have known := (name "user").mp told
    simp [failing] at known

end Engine

end TrapHooks
