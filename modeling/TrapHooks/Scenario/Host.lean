import TrapHooks.Scenario

/-!
How the made-up host replies to requests, from its values alone.
-/

namespace TrapHooks.Scenario.Host

variable {σ : Type}

/-- The value of a feature; of two entries the later counts. -/
def feature? (h : Host σ) (creator : UInt32) (number : UInt16) : Option UInt32 :=
  (h.features.findRev? fun f => f.creator = creator ∧ f.number = number).map (·.value)

def dropFeature (creator : UInt32) (number : UInt16) (h : Host σ) : Host σ :=
  { h with features := h.features.filter fun f => ¬(f.creator = creator ∧ f.number = number) }

def putFeature (creator : UInt32) (number : UInt16) (value : UInt32) (h : Host σ) : Host σ :=
  let others := h.dropFeature creator number
  { others with features := others.features ++ [{ creator := creator, number := number, value := value }] }

def sortedFeatures (h : Host σ) : List Feature :=
  let key (f : Feature) : Nat := f.creator.toNat * UInt16.size + f.number.toNat
  let current := h.features.filter fun f => h.feature? f.creator f.number = some f.value
  (current.mergeSort fun f g => key f ≤ key g).eraseReps

def library? (h : Host σ) (refnum : UInt16) : Option String :=
  (h.libraries.findRev? fun entry => entry.1 = refnum).map (·.2)

def database? (h : Host σ) (place : DatabaseRef) : Option DatabaseInfo :=
  (h.databases.findRev? fun d => d.place = place).map (·.info)

def search? (h : Host σ) (type creator : UInt32) : Option DatabaseRef :=
  (h.programs.find? fun p => p.type = type ∧ p.creator = creator).map (·.place)

/-- The guest's answer, unless the request is one that fails. -/
def orFailure {α : Type} (h : Host σ) (r : Request) (answer : Except ErrorCode α) : Except ErrorCode α :=
  match h.failure r with
  | some code => .error ⟨code⟩
  | none => answer

/-- What a look-up found, or the error for nothing. -/
def found {α : Type} (e : ErrorCode) : Option α → Except ErrorCode α
  | some a => .ok a
  | none => .error e

/-- What is stored at once, before anyone reacts to the request. -/
def store (h : Host σ) : Request → Host σ
  | .setResult v => { h with result := v }
  | .setWaitTimeout v => { h with timeout := v }
  | .setProfiling on => { h with profiling := on }
  | _ => h

/-- The change that a request of the guest makes if it succeeds. -/
def commit (r : Request) (change : Host σ → Host σ) (h : Host σ) : Host σ :=
  if (h.failure r).isSome then h else change h

/-- The reply to a request, and the host after it. Whether time was being measured is told as it was
    before the request. -/
def reply (measured : Bool) : (r : Request) → Host σ → r.Reply × Host σ
  | .programCounter, h => (h.pc, h)
  | .setResult _, h => ((), h)
  | .waitTimeout, h => (h.timeout, h)
  | .setWaitTimeout _, h => ((), h)
  | .bootstrapDue, h => (h.bootstrapDue, h)
  | .setBootstrapDue due, h => ((), { h with bootstrapDue := due })
  | .isNested, h => (h.nested, h)
  | .isIdle, h => (h.idle, h)
  | .hasKey, h => (!h.keys.isEmpty, h)
  | .takeKey, h => (h.keys.headD {}, { h with keys := h.keys.tail })
  | .hasPen, h => (!h.pens.isEmpty, h)
  | .takePen, h => (h.pens.headD {}, { h with pens := h.pens.tail })
  | .signalIdle, h => ((), h)
  | .debuggerAttached, h => (h.debugger, h)
  | .preference .strictIntlChecks, h => (h.strict, h)
  | .preference .overlayErrors, h => (h.overlay, h)
  | .setUserName _, h => ((), h)
  | .autoload, h => (if (h.failure .autoload).isSome then .error "autoload failed: inner" else .ok (), h)
  | .lineActive line, h => (h.lines.contains line, h)
  | .openTransport .serial, h =>
    (if (h.failure (.openTransport .serial)).isSome then .error "serial busy" else .ok (), h)
  | .openTransport .infrared, h =>
    (if (h.failure (.openTransport .infrared)).isSome then .error "infrared busy" else .ok (), h)
  | .setProfiling _, h => (measured, h)
  | .hostTime, h => (0, h)
  | .trapExists trap, h => (h.traps.contains trap, h)
  | .getFeature c n, h => (h.orFailure (.getFeature c n) (found .noSuchFeature (h.feature? c n)), h)
  | .setFeature c n v, h =>
    (h.orFailure (.setFeature c n v) (.ok ()), h.commit (.setFeature c n v) (putFeature c n v))
  | .removeFeature c n, h =>
    (h.orFailure (.removeFeature c n) ((found .noSuchFeature (h.feature? c n)).map fun _ => ()),
      h.commit (.removeFeature c n) (dropFeature c n))
  | .setStrictChecks _, h => ((), h)
  | .syncUserName, h => (h.orFailure .syncUserName (found .cannotFind h.user), h)
  | .wakeEvents, h => ((), h)
  | .setClock _, h => ((), h)
  | .postKey _ _ _, h => ((), h)
  | .postPen _, h => ((), h)
  | .libraryName refnum, h => (h.library? refnum, h)
  | .databaseInfo db, h => (h.orFailure (.databaseInfo db) (found .cannotFind (h.database? db)), h)
  | .findDatabase type creator, h =>
    (h.orFailure (.findDatabase type creator) (found .cannotFind (h.search? type creator)), h)
  | .allocate size, h =>
    if (h.failure (.allocate size)).isSome then (none, h)
    else (some h.heap, { h with heap := h.heap + (size + 1) / 2 * 2 })
  | .setOwner _ _, h => ((), h)
  | .writeWord _ _, h => ((), h)
  | .writeLong _ _, h => ((), h)
  | .switchApp app command parameter, h => (h.orFailure (.switchApp app command parameter) (.ok ()), h)
  | .replaying, h => (h.replaying, h)
  | .replayEvent, h => (h.replayEvent, h)
  | .replayPen, h => (h.replayPen, h)
  | .stressing, h => (h.stressing, h)
  | .stressEvent, h => (h.stressEvent, h)
  | .stressPen, h => (h.stressPen, h)

/-- Takes the first reaction that is for a request out of the list. -/
def takeReaction (r : Request) : List (Reaction σ) → Option (Reaction σ × List (Reaction σ))
  | [] => none
  | first :: rest =>
    if first.matching r then some (first, rest)
    else (takeReaction r rest).map fun (reaction, others) => (reaction, first :: others)

end TrapHooks.Scenario.Host
