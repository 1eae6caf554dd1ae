import TrapHooks.Proofs.Run.Surrounding

/-! How the guest is sent to another application. A program is started itself; a document is opened by the first
    application of its creator, which is given a block of six bytes that names the document. Whatever is asked of the
    guest may fail: then nothing further is asked, the guest stays where it is, and the failure is the answer. -/

namespace TrapHooks

variable {ρ : Type}

/-! ### The guest's memory -/

/-- What was put into the guest's memory: bytes at their addresses, and the owners of blocks. -/
structure Written where
  byte : UInt32 → Option UInt8 := fun _ => none
  owner : UInt32 → Option UInt16 := fun _ => none

namespace Written

variable {address other : UInt32} {bytes : List UInt8} {n : Nat}

/-- Bytes are put from an address on, in the place of those that were there. -/
def put (address : UInt32) (bytes : List UInt8) (w : Written) : Written :=
  { w with byte := fun a => bytes[(a - address).toNat]?.or (w.byte a) }

def assign (block : UInt32) (owner : UInt16) (w : Written) : Written :=
  { w with owner := fun b => if b = block then some owner else w.owner b }

/-- What a request puts there; numbers stand with their most significant byte first. -/
def serve (w : Written) : Request → Written
  | .setOwner block owner => w.assign block owner
  | .writeWord address value => w.put address (BigEndian.encode 2 value.toNat)
  | .writeLong address value => w.put address (BigEndian.encode 4 value.toNat)
  | _ => w

def after (actions : List (Action ρ)) : Written :=
  (actions.filterMap Action.asked).foldl serve {}

/-- What stands in so many bytes from an address on. -/
def slice (address : UInt32) (n : Nat) (w : Written) : List (Option UInt8) :=
  (List.range n).map fun i => w.byte (address + UInt32.ofNat i)

theorem byte_put (fits : address.toNat + bytes.length ≤ 2 ^ 32) (a : UInt32) (w : Written) :
    (w.put address bytes).byte a =
      if address.toNat ≤ a.toNat ∧ a.toNat < address.toNat + bytes.length then bytes[a.toNat - address.toNat]?
      else w.byte a := by
  have start := address.toNat_lt
  have place := a.toNat_lt
  have distance : (a - address).toNat = (2 ^ 32 - address.toNat + a.toNat) % 2 ^ 32 := UInt32.toNat_sub ..
  show bytes[(a - address).toNat]?.or (w.byte a) = _
  by_cases inside : address.toNat ≤ a.toNat ∧ a.toNat < address.toNat + bytes.length
  · have here : (a - address).toNat = a.toNat - address.toNat := by omega
    have found : bytes[a.toNat - address.toNat]? = some bytes[a.toNat - address.toNat] :=
      List.getElem?_eq_getElem (by omega)
    rw [if_pos inside, here, found, Option.some_or]
  · -- The distance is too long behind the bytes; before them it runs over, and is too long as well.
    have beyond : bytes.length ≤ (a - address).toNat := by omega
    rw [if_neg inside, List.getElem?_eq_none beyond, Option.none_or]

theorem toNat_offset {i : Nat} (inside : address.toNat + i < 2 ^ 32) :
    (address + UInt32.ofNat i).toNat = address.toNat + i := by
  rw [UInt32.toNat_add, UInt32.toNat_ofNat']
  omega

/-- Bytes are found where they were put. -/
theorem slice_put (length : bytes.length = n) (fits : address.toNat + n ≤ 2 ^ 32) (w : Written) :
    (w.put address bytes).slice address n = bytes.map some := by
  refine List.ext_getElem (by simp [slice, length]) fun i _ short => ?_
  rw [List.length_map] at short
  simp only [slice, List.getElem_map, List.getElem_range]
  rw [byte_put (by omega), toNat_offset (by omega), if_pos ⟨by omega, by omega⟩, Nat.add_sub_cancel_left,
    List.getElem?_eq_getElem short]

/-- Other places stay as they were. -/
theorem slice_put_apart (fits : address.toNat + bytes.length ≤ 2 ^ 32) (ends : other.toNat + n ≤ 2 ^ 32)
    (apart : other.toNat + n ≤ address.toNat ∨ address.toNat + bytes.length ≤ other.toNat) (w : Written) :
    (w.put address bytes).slice other n = w.slice other n := by
  refine List.map_congr_left fun i member => ?_
  have short := List.mem_range.mp member
  rw [byte_put fits, toNat_offset (by omega), if_neg (by omega)]

/-- The block names a document: it belongs to the system, its six bytes are the document's card and number, and no
    byte outside of it was written. -/
structure Names (w : Written) (block : UInt32) (document : DatabaseRef) : Prop where
  owner : w.owner block = some 0
  card : w.slice block 2 = (BigEndian.encode 2 document.card.toNat).map some
  id : w.slice (block + 2) 4 = (BigEndian.encode 4 document.id.toNat).map some
  outside : ∀ a : UInt32, a.toNat < block.toNat ∨ block.toNat + 6 ≤ a.toNat → w.byte a = none

theorem names_block {block : UInt32} (fits : block.toNat + 6 ≤ 2 ^ 32) (document : DatabaseRef) :
    (((({} : Written).assign block 0).put block (BigEndian.encode 2 document.card.toNat)).put (block + 2)
      (BigEndian.encode 4 document.id.toNat)).Names block document := by
  have card := BigEndian.length_encode 2 document.card.toNat
  have id := BigEndian.length_encode 4 document.id.toNat
  have behind : (block + 2).toNat = block.toNat + 2 := toNat_offset (i := 2) (by omega)
  constructor
  · simp [put, assign]
  · have stays (w : Written) :
        (w.put (block + 2) (BigEndian.encode 4 document.id.toNat)).slice block 2 = w.slice block 2 :=
      slice_put_apart (by omega) (by omega) (by omega) w
    rw [stays]
    exact slice_put card (by omega) _
  · exact slice_put id (by omega) _
  · intro a outside
    rw [byte_put (by omega), if_neg (by omega), byte_put (by omega), if_neg (by omega)]
    rfl

end Written

/-! ### The course of a switch -/

/-- The guest was not sent to another application. -/
def Stays (did : List (Action ρ)) : Prop :=
  ∀ target command parameter reply, .replied (.switchApp target command parameter) reply ∉ did

/-- It is a program, which can be started itself. -/
def DatabaseInfo.IsProgram (info : DatabaseInfo) : Prop :=
  info.type = DatabaseType.application ∨ info.type = DatabaseType.panel

theorem DatabaseInfo.isExecutable_iff (info : DatabaseInfo) : info.isExecutable = true ↔ info.IsProgram := by
  simp [isExecutable, IsProgram]

/-- It writes into the guest's memory. -/
def Request.writes : Request → Bool
  | writeWord _ _ | writeLong _ _ => true
  | _ => false

namespace Engine

open Program

variable {app : DatabaseRef} {did : List (Action ρ)} {answer : Except ErrorCode Unit}

/-- The ways in which a switch can go, by what the guest replies. -/
inductive SwitchCourse (app : DatabaseRef) : List (Action ρ) → Except ErrorCode Unit → Prop
  | unknown (e : ErrorCode) : SwitchCourse app [.replied (.databaseInfo app) (.error e)] (.error e)
  | program {info : DatabaseInfo} (starts : info.IsProgram) (answer : Except ErrorCode Unit) :
    SwitchCourse app [.replied (.databaseInfo app) (.ok info), .told (.launching app),
      .replied (.switchApp app Launch.normal none) answer] answer
  | ownerless {info : DatabaseInfo} (other : ¬info.IsProgram) (e : ErrorCode) :
    SwitchCourse app [.replied (.databaseInfo app) (.ok info),
      .replied (.findDatabase DatabaseType.application info.creator) (.error e)] (.error e)
  | full {info : DatabaseInfo} (other : ¬info.IsProgram) (owner : DatabaseRef) :
    SwitchCourse app [.replied (.databaseInfo app) (.ok info),
      .replied (.findDatabase DatabaseType.application info.creator) (.ok owner),
      .replied (.allocate Launch.openDatabaseSize) none] (.error .notEnoughSpace)
  | document {info : DatabaseInfo} (other : ¬info.IsProgram) (owner : DatabaseRef) (block : UInt32)
    (answer : Except ErrorCode Unit) :
    SwitchCourse app [.replied (.databaseInfo app) (.ok info),
      .replied (.findDatabase DatabaseType.application info.creator) (.ok owner),
      .replied (.allocate Launch.openDatabaseSize) (some block), .replied (.setOwner block 0) (),
      .replied (.writeWord block app.card) (), .replied (.writeLong (block + 2) app.id) (),
      .told (.launchingOwner owner.id app.id),
      .replied (.switchApp owner Launch.openDatabase (some block)) answer] answer

theorem does_launchOwner {owner : DatabaseRef} (does : (launchOwner owner app).Does did (.done answer)) :
    did = [.replied (.allocate Launch.openDatabaseSize) none] ∧ answer = .error .notEnoughSpace ∨
      ∃ block, did = [.replied (.allocate Launch.openDatabaseSize) (some block), .replied (.setOwner block 0) (),
        .replied (.writeWord block app.card) (), .replied (.writeLong (block + 2) app.id) (),
        .told (.launchingOwner owner.id app.id),
        .replied (.switchApp owner Launch.openDatabase (some block)) answer] := by
  obtain ⟨given, _, rfl, goes⟩ := does_request_bind does
  cases given with
  | none =>
    obtain ⟨rfl, rfl⟩ := does_done goes
    exact .inl ⟨rfl, rfl⟩
  | some block =>
    obtain ⟨_, _, rfl, owned⟩ := does_request_bind goes
    obtain ⟨_, _, rfl, carded⟩ := does_request_bind owned
    obtain ⟨behind, fits, summed⟩ := does_sum_bind carded
    obtain rfl := eq_add_of_sum? fits
    obtain ⟨_, _, rfl, named⟩ := does_request_bind summed
    obtain ⟨_, rfl, told⟩ := does_notice_bind named
    obtain ⟨reply, _, rfl, sent⟩ := does_ask told
    obtain ⟨rfl, rfl⟩ := does_done sent
    exact .inr ⟨block, rfl⟩

theorem course_switchTo (does : (switchTo app).Does did (.done answer)) : SwitchCourse app did answer := by
  obtain ⟨found, _, rfl, goes⟩ := does_request_bind does
  cases found with
  | error e =>
    obtain ⟨rfl, rfl⟩ := does_done goes
    exact .unknown e
  | ok info =>
    dsimp only at goes
    split at goes
    · rename_i program
      obtain ⟨_, rfl, told⟩ := does_notice_bind goes
      obtain ⟨reply, _, rfl, sent⟩ := does_ask told
      obtain ⟨rfl, rfl⟩ := does_done sent
      exact .program (info.isExecutable_iff.mp program) reply
    · rename_i document
      rw [info.isExecutable_iff] at document
      obtain ⟨owner, _, rfl, launches⟩ := does_request_bind goes
      cases owner with
      | error e =>
        obtain ⟨rfl, rfl⟩ := does_done launches
        exact .ownerless document e
      | ok owner =>
        rcases does_launchOwner launches with ⟨rfl, rfl⟩ | ⟨block, rfl⟩
        · exact .full document owner
        · exact .document document owner block answer

/-! A program can also break off, where the block reaches beyond the last address. -/

section
variable {α β : Type} {actions : List (Action ρ)}

theorem does_done_overflow {a : α} : ¬(done a : Program ρ α).Does actions overflow := by
  intro does
  cases does with
  | cons acts others => cases acts

theorem does_request_overflow {r : Request} {rest : r.Reply → Program ρ β}
    (does : (request r >>= rest).Does actions overflow) :
    ∃ reply later, actions = .replied r reply :: later ∧ (rest reply).Does later overflow := by
  cases does with
  | cons acts others =>
    cases acts
    exact ⟨_, _, rfl, others⟩

theorem does_notice_overflow {n : Notice} {rest : Unit → Program ρ β}
    (does : (notice n >>= rest).Does actions overflow) :
    ∃ later, actions = .told n :: later ∧ (rest ()).Does later overflow := by
  cases does with
  | cons acts others =>
    cases acts
    exact ⟨_, rfl, others⟩

/-- The sum did not fit, or what follows it broke off. -/
theorem does_sum_overflow {x y : UInt32} {rest : UInt32 → Program ρ β}
    (does : (sum x y >>= rest).Does actions overflow) :
    actions = [] ∧ 2 ^ 32 ≤ x.toNat + y.toNat ∨ ∃ z, (rest z).Does actions overflow := by
  unfold sum at does
  cases fits : sum? x y with
  | some z =>
    rw [fits] at does
    exact .inr ⟨z, does⟩
  | none =>
    rw [fits] at does
    exact .inl ⟨(does_overflow does).1, sum?_eq_none_iff.mp fits⟩

end

/-- Nothing follows the last request, so that a program ends with it. -/
theorem does_last_overflow {r : Request} : ¬(request r : Program ρ _).Does did overflow := by
  intro does
  cases does with
  | cons acts others =>
    cases acts
    exact does_done_overflow others

theorem does_launchOwner_overflow {owner : DatabaseRef} (does : (launchOwner owner app).Does did overflow) :
    ∃ block, 2 ^ 32 ≤ block.toNat + 2 ∧
      did = [.replied (.allocate Launch.openDatabaseSize) (some block), .replied (.setOwner block 0) (),
        .replied (.writeWord block app.card) ()] := by
  obtain ⟨given, _, rfl, goes⟩ := does_request_overflow does
  cases given with
  | none => exact absurd goes does_done_overflow
  | some block =>
    obtain ⟨_, _, rfl, owned⟩ := does_request_overflow goes
    obtain ⟨_, _, rfl, carded⟩ := does_request_overflow owned
    rcases does_sum_overflow carded with ⟨rfl, beyond⟩ | ⟨_, summed⟩
    · exact ⟨block, beyond, rfl⟩
    · obtain ⟨_, _, rfl, named⟩ := does_request_overflow summed
      obtain ⟨_, rfl, told⟩ := does_notice_overflow named
      exact absurd told does_last_overflow

theorem does_switchTo_overflow (does : (switchTo app).Does did overflow) :
    ∃ info owner block, ¬info.IsProgram ∧ 2 ^ 32 ≤ block.toNat + 2 ∧
      did = [.replied (.databaseInfo app) (.ok info),
        .replied (.findDatabase DatabaseType.application info.creator) (.ok owner),
        .replied (.allocate Launch.openDatabaseSize) (some block), .replied (.setOwner block 0) (),
        .replied (.writeWord block app.card) ()] := by
  obtain ⟨found, _, rfl, goes⟩ := does_request_overflow does
  cases found with
  | error e => exact absurd goes does_done_overflow
  | ok info =>
    dsimp only at goes
    split at goes
    · obtain ⟨_, rfl, told⟩ := does_notice_overflow goes
      exact absurd told does_last_overflow
    · rename_i document
      rw [info.isExecutable_iff] at document
      obtain ⟨owner, _, rfl, launches⟩ := does_request_overflow goes
      cases owner with
      | error e => exact absurd launches does_done_overflow
      | ok owner =>
        obtain ⟨block, beyond, rfl⟩ := does_launchOwner_overflow launches
        exact ⟨info, owner, block, document, beyond, rfl⟩

/-- What becomes of a switch to a database. -/
structure Launching (app : DatabaseRef) (did : List (Action ρ)) (answer : Except ErrorCode Unit) : Prop where
  /-- That the guest leaves is the last thing done, and is done once; what comes of it is the answer. -/
  leaves : ∀ target command parameter reply, .replied (.switchApp target command parameter) reply ∈ did →
    ∃ before, did = before ++ [.replied (.switchApp target command parameter) reply] ∧ Stays before ∧ answer = reply
  /-- A failure is the answer, and the guest stays. -/
  unknown : ∀ e, .replied (.databaseInfo app) (.error e) ∈ did → answer = .error e ∧ Stays did
  ownerless : ∀ type creator e, .replied (.findDatabase type creator) (.error e) ∈ did → answer = .error e ∧ Stays did
  full : ∀ size, .replied (.allocate size) none ∈ did → answer = .error .notEnoughSpace ∧ Stays did
  /-- Memory is written only once there is a block. -/
  writes : ∀ before r reply after, did = before ++ .replied r reply :: after → r.writes →
    ∃ block, .replied (.allocate Launch.openDatabaseSize) (some block) ∈ before
  asks : ∃ info, .replied (.databaseInfo app) info ∈ did
  program : ∀ info, .replied (.databaseInfo app) (.ok info) ∈ did → info.IsProgram →
    .replied (.switchApp app Launch.normal none) answer ∈ did
  /-- The owner of a document is looked for, and started with a block that names the document. -/
  document : ∀ info, .replied (.databaseInfo app) (.ok info) ∈ did → ¬info.IsProgram →
    ∃ found, .replied (.findDatabase DatabaseType.application info.creator) found ∈ did ∧ ∀ owner, found = .ok owner →
      ∃ given, .replied (.allocate Launch.openDatabaseSize) given ∈ did ∧ ∀ block, given = some block →
        ∃ before, did = before ++ [.replied (.switchApp owner Launch.openDatabase (some block)) answer] ∧
          (block.toNat + 6 ≤ 2 ^ 32 → (Written.after before).Names block app)

/-- Of two splits of a list, what is not among the first stands behind them. -/
theorem prefix_of_split {α : Type} {first rest before after : List α} {x : α}
    (split : first ++ rest = before ++ x :: after) (absent : x ∉ first) : first <+: before := by
  rcases List.append_eq_append_iff.mp split with ⟨between, rfl, -⟩ | ⟨between, rfl, same⟩
  · exact List.prefix_append ..
  · cases between with
    | nil => simp
    | cons y between =>
      obtain ⟨rfl, -⟩ := List.cons.inj same
      exact absurd (by simp) absent

namespace SwitchCourse

theorem leaves (course : SwitchCourse app did answer) (target : DatabaseRef) (command : UInt16)
    (parameter : Option UInt32) (reply : Except ErrorCode Unit)
    (member : .replied (.switchApp target command parameter) reply ∈ did) :
    ∃ before, did = before ++ [.replied (.switchApp target command parameter) reply] ∧ Stays before ∧
      answer = reply := by
  cases course with
  | program program answer =>
    obtain ⟨⟨rfl, rfl, rfl⟩, rfl⟩ : (target = app ∧ command = Launch.normal ∧ parameter = none) ∧ reply = answer := by
      simpa using member
    exact ⟨[_, _], rfl, by simp [Stays], rfl⟩
  | document other owner block answer =>
    obtain ⟨⟨rfl, rfl, rfl⟩, rfl⟩ :
        (target = owner ∧ command = Launch.openDatabase ∧ parameter = some block) ∧ reply = answer := by
      simpa using member
    exact ⟨[_, _, _, _, _, _, _], rfl, by simp [Stays], rfl⟩
  | _ => simp at member

theorem writes (course : SwitchCourse app did answer) (before : List (Action ρ)) (r : Request) (reply : r.Reply)
    (after : List (Action ρ)) (split : did = before ++ .replied r reply :: after) (writes : r.writes) :
    ∃ block, .replied (.allocate Launch.openDatabaseSize) (some block) ∈ before := by
  have member : .replied r reply ∈ did := by simp [split]
  cases course with
  | @document info other owner block answer =>
    -- Nothing is written up to the reply with the block, so that this comes before whatever is written.
    have absent : .replied r reply ∉ ([.replied (.databaseInfo app) (.ok info),
        .replied (.findDatabase DatabaseType.application info.creator) (.ok owner),
        .replied (.allocate Launch.openDatabaseSize) (some block)] : List (Action ρ)) := by
      cases r <;> simp_all [Request.writes]
    exact ⟨block, (prefix_of_split split absent).subset (by simp)⟩
  | _ =>
    clear split
    cases r <;> simp_all [Request.writes]

theorem launching (course : SwitchCourse app did answer) : Launching app did answer where
  leaves := course.leaves
  writes := course.writes
  unknown e member := by
    cases course with
    | unknown e' =>
      obtain rfl : e = e' := by simpa using member
      exact ⟨rfl, by simp [Stays]⟩
    | _ => simp at member
  ownerless type creator e member := by
    cases course with
    | ownerless other e' =>
      obtain ⟨-, rfl⟩ : _ ∧ e = e' := by simpa using member
      exact ⟨rfl, by simp [Stays]⟩
    | _ => simp at member
  full size member := by
    cases course with
    | full other owner => exact ⟨rfl, by simp [Stays]⟩
    | _ => simp at member
  asks := by
    cases course <;> exact ⟨_, List.mem_cons_self⟩
  program info member program := by
    cases course with
    | unknown e => simp at member
    | program _ answer => simp
    | ownerless other _ | full other _ | document other _ _ _ =>
      obtain rfl : info = _ := by simpa using member
      exact absurd program other
  document info member other := by
    cases course with
    | unknown e => simp at member
    | program program answer =>
      obtain rfl : info = _ := by simpa using member
      exact absurd program other
    | ownerless _ e =>
      obtain rfl : info = _ := by simpa using member
      exact ⟨_, List.mem_cons_of_mem _ List.mem_cons_self, fun owner same => by cases same⟩
    | full _ owner =>
      obtain rfl : info = _ := by simpa using member
      refine ⟨_, List.mem_cons_of_mem _ List.mem_cons_self, fun owner same => ⟨none, by simp, fun block given => ?_⟩⟩
      cases given
    | document _ owner block answer =>
      obtain rfl : info = _ := by simpa using member
      refine ⟨_, List.mem_cons_of_mem _ List.mem_cons_self, fun owner same => ?_⟩
      refine ⟨some block, by simp, fun block given => ?_⟩
      cases same
      cases given
      exact ⟨[_, _, _, _, _, _, _], rfl, fun fits => Written.names_block fits app⟩

end SwitchCourse

/-- A switch comes to an end whatever is replied, unless there is no address two bytes behind the block that is given;
    then it breaks off once the card is written, and the guest stays. One that ends goes as it should: the guest is
    asked to leave once at most and last of all, and that is the answer; a failure before that is the answer itself. A
    program is started as it is; a document is opened by the first application of its creator, on a block whose six
    bytes name the document, and nothing is written outside of the block or without one. -/
theorem switchTo_launches (app : DatabaseRef) :
    (∀ answers : Answers ρ, ∃ did : List (Action ρ),
      ((∃ answer : Except ErrorCode Unit, (switchTo app).Does did (.done answer)) ∨
        ∃ block, answers.reply (.allocate Launch.openDatabaseSize) = some block ∧ 2 ^ 32 ≤ block.toNat + 2 ∧
          (switchTo app).Does did .overflow) ∧
      ∀ r reply, .replied r reply ∈ did → reply = answers.reply r) ∧
    (∀ (did : List (Action ρ)) (answer : Except ErrorCode Unit), (switchTo app).Does did (.done answer) →
      Launching app did answer) ∧
    ∀ did : List (Action ρ), (switchTo app).Does did .overflow →
      ∃ info owner block, ¬info.IsProgram ∧ 2 ^ 32 ≤ block.toNat + 2 ∧
        did = [.replied (.databaseInfo app) (.ok info),
          .replied (.findDatabase DatabaseType.application info.creator) (.ok owner),
          .replied (.allocate Launch.openDatabaseSize) (some block), .replied (.setOwner block 0) (),
          .replied (.writeWord block app.card) ()] := by
  refine ⟨fun answers => ?_, fun did answer does => (course_switchTo does).launching,
    fun did does => does_switchTo_overflow does⟩
  have does := (advances_upTo answers (fun _ => false) (switchTo app) {}).does
  have replies (r : Request) (reply : r.Reply)
      (member : .replied r reply ∈ ((switchTo app).upTo answers (fun _ => false) {}).1) : reply = answers.reply r :=
    reply_of_mem_upTo member
  refine ⟨_, ?_, replies⟩
  rcases upTo_never answers (switchTo app) {} with ⟨answer, ends⟩ | breaks
  · exact .inl ⟨answer, ends ▸ does⟩
  · rw [breaks] at does
    obtain ⟨_, _, block, -, beyond, did⟩ := does_switchTo_overflow does
    exact .inr ⟨block, (replies _ _ (by simp [did])).symm, beyond, does⟩

/-- A document whose block is the last six bytes of the memory. -/
theorem switchTo_launches_document :
    let app : DatabaseRef := ⟨1, 0x00123456⟩
    let owner : DatabaseRef := ⟨0, 0x900⟩
    let info : DatabaseInfo := { type := 0x44415441, creator := 0x6D656D6F }
    let block : UInt32 := 0xFFFFFFFA
    let before : List (Action Unit) := [.replied (.databaseInfo app) (.ok info),
      .replied (.findDatabase DatabaseType.application info.creator) (.ok owner),
      .replied (.allocate Launch.openDatabaseSize) (some block), .replied (.setOwner block 0) (),
      .replied (.writeWord block app.card) (), .replied (.writeLong (block + 2) app.id) (),
      .told (.launchingOwner owner.id app.id)]
    let did := before ++ [.replied (.switchApp owner Launch.openDatabase (some block)) (.ok ())]
    (switchTo app).Does did (.done (.ok ())) ∧ Stays before ∧ (Written.after before).Names block app ∧
      (Written.after before).slice block 6 = [some 0, some 1, some 0, some 0x12, some 0x34, some 0x56] := by
  intro app owner info block before did
  have does : (switchTo app).Does did (.done (.ok ())) := by
    refine .cons (.reply {} _ _ _) <| .cons (.reply {} _ _ _) <| .cons (.reply {} _ _ _) <| .cons (.reply {} _ _ _) ?_
    refine .cons (.reply {} _ _ _) <| .cons (.reply {} _ _ _) <| .cons (.notice {} _ _) ?_
    exact .cons (.reply {} _ _ _) (.nil _)
  have launching := (switchTo_launches app).2.1 did (.ok ()) does
  have known : .replied (.databaseInfo app) (.ok info) ∈ did := by simp [did, before]
  have other : ¬info.IsProgram := by simp [info, DatabaseInfo.IsProgram, DatabaseType.application, DatabaseType.panel]
  obtain ⟨found, asked, starts⟩ := launching.document info known other
  obtain rfl : found = .ok owner := by simpa [did, before] using asked
  obtain ⟨given, allocated, leaves⟩ := starts owner rfl
  obtain rfl : given = some block := by simpa [did, before] using allocated
  obtain ⟨_, same, names⟩ := leaves block rfl
  obtain ⟨rfl, -⟩ := List.append_inj' same rfl
  obtain ⟨_, same, stays, -⟩ := launching.leaves owner Launch.openDatabase (some block) (.ok ()) (by simp [did])
  obtain ⟨rfl, -⟩ := List.append_inj' same rfl
  exact ⟨does, stays, names (by decide), by decide⟩

end Engine

end TrapHooks
