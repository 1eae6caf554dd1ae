import TrapHooks.Inspect
import TrapHooks.Proofs.Inspect.Dump

/-! What an inspection writes. It writes nothing unless all of it succeeds, and then, without colours, a few lines on
    the chunk, a line for each record, and the bytes if they are wanted. None of these lines breaks into two, and none
    but the title of the dump reads as that, so the bytes can be read off the text: also those behind the chunk, which
    nobody decodes. -/

namespace TrapHooks

namespace Report

/-! ### Lines -/

/-- The lines of a text in which each line has its end. -/
def linesOf (text : String) : List String :=
  (text.toList.splitOn '\n').dropLast.map String.ofList

/-- A text that lies in one line. -/
def Unbroken (text : String) : Prop :=
  '\n' ∉ text.toList

instance (text : String) : Decidable (Unbroken text) :=
  inferInstanceAs (Decidable ('\n' ∉ text.toList))

/-- A text of whole lines is split where they end. -/
theorem linesOf_print {lines : List String} (unbroken : ∀ line ∈ lines, Unbroken line) :
    linesOf (print lines) = lines := by
  have split : (print lines).toList.splitOn '\n' = lines.map String.toList ++ [[]] := by
    rw [print, String.toList_join]
    induction lines with
    | nil => rfl
    | cons line lines ih =>
      have first := unbroken line List.mem_cons_self
      simp only [List.map_cons, List.flatMap_cons, String.toList_append]
      rw [show "\n".toList = ['\n'] from rfl, List.append_assoc, List.singleton_append,
        List.splitOn_append_cons_self_of_not_mem first, ih fun line later => unbroken line (List.mem_cons_of_mem _ later)]
      rfl
  rw [linesOf, split, List.dropLast_concat, List.map_map]
  simp

@[simp] theorem unbroken_append {first second : String} :
    Unbroken (first ++ second) ↔ Unbroken first ∧ Unbroken second := by
  simp [Unbroken]

@[simp] theorem unbroken_ofList {characters : List Char} : Unbroken (String.ofList characters) ↔ '\n' ∉ characters := by
  simp [Unbroken]

@[simp] theorem unbroken_nat (n : Nat) : Unbroken n.repr := by
  rw [Nat.repr_eq_ofList_toDigits, unbroken_ofList]
  intro broken
  cases Nat.isDigit_of_mem_toDigits (by decide) (by decide) broken

@[simp] theorem unbroken_int (n : Int) : Unbroken n.repr := by
  rw [Int.repr_eq_if]
  split
  · exact unbroken_nat n.toNat
  · exact unbroken_append.mpr ⟨by decide, unbroken_nat (-n).toNat⟩

@[simp] theorem unbroken_bool (b : Bool) : Unbroken (toString b) := by
  cases b <;> decide

@[simp] theorem unbroken_word (w : UInt16) : Unbroken (Hex.word w) :=
  unbroken_append.mpr ⟨by decide, unbroken_ofList.mpr (Hex.not_mem_padded Hex.isApart_lineEnd _ _)⟩

@[simp] theorem unbroken_long (v : UInt32) : Unbroken (Hex.long v) :=
  unbroken_append.mpr ⟨by decide, unbroken_ofList.mpr (Hex.not_mem_padded Hex.isApart_lineEnd _ _)⟩

@[simp] theorem unbroken_number (n : Nat) : Unbroken (Hex.number n) :=
  unbroken_append.mpr ⟨by decide, unbroken_ofList.mpr (Hex.not_mem_digits Hex.isApart_lineEnd n)⟩

@[simp] theorem unbroken_call (c : Call) : Unbroken c.text := by
  simp +decide [Call.text]

theorem unbroken_row (place : Nat) (bytes : List UInt8) : Unbroken (row false place bytes) := by
  have start := Hex.not_mem_padded Hex.isApart_lineEnd 6 place
  have digits := Hex.not_mem_flatMap_byte Hex.isApart_lineEnd bytes
  simp +decide [row, Style.paint, Hex.ofBytes, start, digits]

/-! ### The text without colours -/

/-- The lines on the version, the guest state and the number of records. -/
def plainHead (c : Chunk) : List String :=
  [ "Patch info version: " ++ toString c.version.toInt,
    "  UI initialized:   " ++ toString c.state.uiReady,
    "  Heap initialized: " ++ toString c.state.heapReady,
    "  Last event trap:  " ++ Hex.word c.state.lastEventTrap,
    "  OS version:       " ++ Hex.long c.state.romVersion,
    "  Next app:         " ++
      c.state.nextApp.elim "-" fun app => "card " ++ toString app.card.toNat ++ " db " ++ Hex.long app.id,
    "Pending tailpatches: " ++ toString c.tails.length ]

/-- The line on a record. -/
def plainTail (t : SavedTail) : String :=
  "  " ++ t.call.text ++ " x" ++ toString t.count.toNat

def dumpTitle : String := "Raw chunk:"

@[simp] theorem paint_plain (style : Style) (text : String) : style.paint false text = text := rfl

theorem tailLine_plain (t : SavedTail) : tailLine false t = plainTail t := by
  have joined : " " ++ "x" = " x" := rfl
  simp only [tailLine, plainTail, paint_plain, ite_self, ← joined, String.append_assoc]

theorem versionLine_plain (current : Int32) (c : Chunk) :
    versionLine false current c = "Patch info version: " ++ toString c.version.toInt := by
  simp only [versionLine, paint_plain]
  rfl

theorem nextApp_plain (s : GuestState) : nextApp false s =
    s.nextApp.elim "-" fun app => "card " ++ toString app.card.toNat ++ " db " ++ Hex.long app.id := by
  unfold nextApp
  cases s.nextApp <;> rfl

/-- Without colours, the report does not depend on the settings. -/
theorem chunkLines_plain (current : Int32) (c : Chunk) :
    chunkLines false current c = plainHead c ++ c.tails.map plainTail := by
  have tails : c.tails.map (tailLine false) = c.tails.map plainTail :=
    List.map_congr_left fun t _ => tailLine_plain t
  rw [chunkLines, tails, versionLine_plain, stateLines, nextApp_plain]
  rfl

/-- What is written of the bytes, if they are wanted. -/
def plainDump (hex : Bool) (bytes : List UInt8) : List String :=
  if hex then dumpTitle :: rows false bytes else []

theorem unbroken_plainHead (c : Chunk) : ∀ line ∈ plainHead c, Unbroken line := by
  cases app : c.state.nextApp <;> simp +decide [plainHead, app]

theorem unbroken_plainTail (t : SavedTail) : Unbroken (plainTail t) := by
  simp +decide [plainTail]

theorem unbroken_plainDump (hex : Bool) (bytes : List UInt8) : ∀ line ∈ plainDump hex bytes, Unbroken line := by
  cases hex with
  | false => simp [plainDump]
  | true =>
    intro line member
    rcases List.mem_cons.mp member with rfl | member
    · decide
    · obtain ⟨i, -, rfl⟩ := List.mem_map.mp member
      exact unbroken_row _ _

end Report

namespace Inspection

variable {i : Inspection} {bytes : List UInt8} {c : Chunk}

/-- What reaches the standard output: a failure is reported elsewhere. -/
def written (i : Inspection) : String :=
  match i.output with
  | .ok text => text
  | .error _ => ""

/-- The settings are accepted, and a chunk is given: it has these bytes, and they are one. -/
structure Succeeds (i : Inspection) (bytes : List UInt8) (c : Chunk) : Prop where
  accepted : ∃ config, Config.ofFile i.config = .ok config
  given : ∃ path, i.chunk = some (path, .ok bytes)
  decoded : Chunk.decode bytes = .ok c

theorem run_given {config : Config} {path : String} (accepted : Config.ofFile i.config = .ok config)
    (given : i.chunk = some (path, .ok bytes)) :
    i.run = ((Chunk.decode bytes).mapError (.chunkBroken path)).map (i.report config bytes) := by
  rw [Inspection.run, accepted, given]
  rfl

theorem Succeeds.written_eq (succeeds : i.Succeeds bytes c) :
    ∃ config, i.written = Report.print (i.report config bytes c) := by
  obtain ⟨config, accepted⟩ := succeeds.accepted
  obtain ⟨path, given⟩ := succeeds.given
  refine ⟨config, ?_⟩
  rw [written, output, run_given accepted given, succeeds.decoded]
  rfl

/-- The lines of what is written without colours. -/
theorem Succeeds.lines (succeeds : i.Succeeds bytes c) (plain : i.colour = false) :
    Report.linesOf i.written =
      Report.plainHead c ++ c.tails.map Report.plainTail ++ Report.plainDump i.hex bytes := by
  obtain ⟨config, written⟩ := succeeds.written_eq
  have report : i.report config bytes c =
      Report.plainHead c ++ c.tails.map Report.plainTail ++ Report.plainDump i.hex bytes := by
    rw [Inspection.report, plain, Report.chunkLines_plain]
    rfl
  rw [written, report, Report.linesOf_print]
  intro line member
  simp only [List.mem_append, List.mem_map] at member
  obtain (head | ⟨t, -, rfl⟩) | dump := member
  · exact Report.unbroken_plainHead c line head
  · exact Report.unbroken_plainTail t
  · exact Report.unbroken_plainDump i.hex bytes line dump

end Inspection

end TrapHooks
