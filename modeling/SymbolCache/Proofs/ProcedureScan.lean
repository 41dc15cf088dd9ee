import SymbolCache.Proofs.BlankedComments
import SymbolCache.Proofs.LegacyCode
import SymbolCache.Source.Procedure

/-! Procedures found line by line. At a header the scan forgets what it had open, so the procedures of a unit that goes
on with one are those of both parts. -/

namespace SymbolCache.Lexical
open Text (byteLength)

variable {dialect : Dialect}

theorem step_newline (dialect : Dialect) (phase : Phase) (next other : Option Char) :
    step dialect phase '\n' next = step dialect phase '\n' other := by
  cases phase <;> simp [step]

theorem step_modern {c : Char} (plain : c ≠ '/') (next : Option Char) :
    step .modern .normal c next = if ['\'', '"'].contains c then (.string c, .string c) else (.normal, .normal) := by
  have notSlash : (c == '/') = false := beq_eq_false_iff_ne.2 plain
  simp [step, Dialect.modern, notSlash]

theorem stripFrom_offset (dialect : Dialect) (phase : Phase) (offset other : Nat) (text : List Char) :
    stripFrom dialect phase offset text = stripFrom dialect phase other text := by
  induction text generalizing phase offset other with
  | nil => rfl
  | cons c rest ih => rw [stripFrom_cons, stripFrom_cons, ih]

theorem getLast?_stripFrom (phase : Phase) (offset : Nat) {text : List Char} (ends : text.getLast? = some '\n') :
    (stripFrom dialect phase offset text).getLast? = some '\n' := by
  induction text generalizing phase offset with
  | nil => cases ends
  | cons c rest ih =>
    rw [stripFrom_cons]
    cases rest with
    | nil =>
      obtain rfl : c = '\n' := by simpa using ends
      simp [stripFrom, marksFrom]
    | cons next rest =>
      rw [List.getLast?_cons_cons] at ends
      rw [List.getLast?_append, ih _ _ ends]
      rfl

/-- What a text ends with is no first half of a comment mark that another text completes. -/
def Parted (dialect : Dialect) (first second : List Char) : Prop :=
  ∀ phase c, first.getLast? = some c → step dialect phase c second.head? = step dialect phase c none

theorem Parted.of_newline {first : List Char} (ends : first.getLast? = some '\n') (second : List Char) :
    Parted dialect first second := by
  intro phase c last
  cases last.symm.trans ends
  exact step_newline dialect phase _ none

theorem Parted.of_plain (first : List Char) {second : List Char} (plain : Plain second.head?) : Parted dialect first second :=
  fun _ c _ => step_plain plain .none c

theorem stripFrom_append (phase : Phase) (offset : Nat) {first second : List Char} (parted : Parted dialect first second) :
    stripFrom dialect phase offset (first ++ second) =
      stripFrom dialect phase offset first ++ stripFrom dialect (phaseAfter dialect none phase first) 0 second := by
  induction first generalizing phase offset with
  | nil => exact stripFrom_offset dialect phase offset 0 second
  | cons c rest ih =>
    rw [List.cons_append, stripFrom_cons, stripFrom_cons, phaseAfter, Option.or_none]
    cases rest with
    | nil =>
      rw [List.nil_append, parted phase c rfl, stripFrom_offset dialect _ _ 0 second]
      simp [stripFrom, marksFrom, phaseAfter]
    | cons next rest =>
      have later : Parted dialect (next :: rest) second := by
        intro phase d last
        exact parted phase d (by rwa [List.getLast?_cons_cons])
      rw [ih _ _ later, List.append_assoc]
      rfl

end SymbolCache.Lexical

namespace SymbolCache.Source

namespace ProcedureScan

/-- A scan with more procedures finished before it. -/
def behind (done : List ProcedureRecord) (scan : ProcedureScan) : ProcedureScan := ⟨done ++ scan.finished, scan.current⟩

theorem records_behind (done : List ProcedureRecord) (scan : ProcedureScan) :
    (scan.behind done).records = done ++ scan.records := List.append_assoc ..

theorem step_behind (done : List ProcedureRecord) (scan : ProcedureScan) (line : List Char) :
    (scan.behind done).step line = (scan.step line).behind done := by
  unfold step
  split
  · rw [records_behind]
    rfl
  · rw [show (scan.behind done).current = scan.current from rfl]
    split
    · split <;> rfl
    · rfl

theorem foldl_behind (done : List ProcedureRecord) (scan : ProcedureScan) (lines : List (List Char)) :
    lines.foldl step (scan.behind done) = (lines.foldl step scan).behind done := by
  induction lines generalizing scan with
  | nil => rfl
  | cons line lines ih => rw [List.foldl_cons, List.foldl_cons, step_behind, ih]

theorem step_of_header {line : List Char} {header : ProcedureHeader} (reads : procedureHeader? line = some header)
    (scan : ProcedureScan) : scan.step line = (step ⟨[], none⟩ line).behind scan.records := by
  rw [step, step, reads]
  simp [behind, records]

/-- From a header on, lines say nothing about the procedures before it. -/
theorem records_foldl_of_header {line : List Char} {header : ProcedureHeader}
    (reads : procedureHeader? line = some header) (scan : ProcedureScan) (lines : List (List Char)) :
    ((line :: lines).foldl step scan).records = scan.records ++ proceduresOfLines (line :: lines) := by
  rw [List.foldl_cons, step_of_header reads, foldl_behind, records_behind]
  rfl

end ProcedureScan

theorem procedures_of_current {text : List Char} (current : Legacy.isLegacy text = false) :
    procedures text = proceduresOfLines (Text.lines (Lexical.stripComments .modern text)) := by
  rw [procedures, procedureText, current]
  rfl

/-- A unit that goes on with a header at the beginning of a line has the procedures of both parts, and a local header
only ends what stands before it. -/
theorem procedures_append_header {first second line : List Char} {lines : List (List Char)} {header : ProcedureHeader}
    (ends : first.getLast? = some '\n') (settled : Lexical.phaseAfter .modern none .normal first = .normal)
    (opens : Text.lines (Lexical.stripComments .modern second) = line :: lines)
    (reads : procedureHeader? line = some header)
    (firstCurrent : Legacy.isLegacy first = false) (secondCurrent : Legacy.isLegacy second = false)
    (wholeCurrent : Legacy.isLegacy (first ++ second) = false) :
    procedures (first ++ second) = procedures first ++ procedures second ∧
    (header.isLocal = true → procedures second = proceduresOfLines lines) := by
  have stripped : Lexical.stripComments .modern (first ++ second) =
      Lexical.stripComments .modern first ++ Lexical.stripComments .modern second := by
    have split := @Lexical.stripFrom_append .modern .normal 0 first second (.of_newline ends second)
    rwa [settled] at split
  have ended : (Lexical.stripComments .modern first).getLast? = some '\n' := Lexical.getLast?_stripFrom .normal 0 ends
  rw [procedures_of_current wholeCurrent, procedures_of_current firstCurrent, procedures_of_current secondCurrent,
    stripped, Text.lines_append ended, opens]
  refine ⟨?_, ?_⟩
  · rw [proceduresOfLines, List.foldl_append, ProcedureScan.records_foldl_of_header reads]
    rfl
  · intro hidden
    rw [proceduresOfLines, List.foldl_cons, ProcedureScan.step, reads]
    simp only [hidden, if_true]
    rfl

def brokenHeader : List Char := "procedure Broken(a: Integer;\n".toList

def hiddenHeader : List Char := "local procedure Hidden(b: Integer)\nprocedure Next(c: Integer): Boolean\n".toList

theorem procedures_of_brokenHeader :
    procedures brokenHeader = [⟨"Broken", ["a: Integer"], none⟩] ∧
    procedures (brokenHeader ++ hiddenHeader) =
      [⟨"Broken", ["a: Integer"], none⟩, ⟨"Next", ["c: Integer"], some "Boolean"⟩] := by
  have broken : procedures brokenHeader = [⟨"Broken", ["a: Integer"], none⟩] := by decide +kernel
  have opens : Text.lines (Lexical.stripComments .modern hiddenHeader) =
      "local procedure Hidden(b: Integer)".toList :: ["procedure Next(c: Integer): Boolean".toList] := by decide +kernel
  have reads : procedureHeader? "local procedure Hidden(b: Integer)".toList =
      some ⟨true, "Hidden".toList, "b: Integer)".toList⟩ := by decide +kernel
  obtain ⟨whole, hidden⟩ := @procedures_append_header brokenHeader hiddenHeader _ _ _ (by decide +kernel) (by decide +kernel)
    opens reads (by decide +kernel) (by decide +kernel) (by decide +kernel)
  have next : proceduresOfLines ["procedure Next(c: Integer): Boolean".toList] =
      [⟨"Next", ["c: Integer"], some "Boolean"⟩] := by decide +kernel
  refine ⟨broken, ?_⟩
  rw [whole, broken, hidden rfl, next]
  rfl

end SymbolCache.Source
