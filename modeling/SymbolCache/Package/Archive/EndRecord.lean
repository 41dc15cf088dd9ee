import SymbolCache.Package.Archive.Basic

/-!
End records of archives. An end record tells how many entries the directory has and where it
starts, counted from the start of the archive; bytes may stand in front of that. Numbers that are
too large for it stand in a wide record, which a locator right before the end record points to.
-/

namespace SymbolCache.Archive

structure Place where
  shift : Nat
  start : Nat
  count : Nat
  deriving DecidableEq, Repr

structure EndRecord where
  position : Nat
  disk : Nat
  directoryDisk : Nat
  countHere : Nat
  count : Nat
  directoryOffset : Nat
  deriving DecidableEq, Repr

structure WideLocator where
  position : Nat
  directoryDisk : Nat
  recordOffset : Nat
  disks : Nat
  deriving DecidableEq, Repr

structure WideRecord where
  position : Nat
  madeBy : Nat
  needed : Nat
  disk : Nat
  directoryDisk : Nat
  countHere : Nat
  count : Nat
  directoryOffset : Nat
  deriving DecidableEq, Repr

namespace WideLocator

def length : Nat := 20

def before? (bytes : Bytes) (endPosition : Nat) : Option WideLocator :=
  let position := endPosition - length
  if endPosition < length || !hasAt bytes wideLocatorSignature position then none
  else
    let rest := bytes.drop position
    some ⟨position, numberAt rest 4 4, numberAt rest 8 8, numberAt rest 16 4⟩

end WideLocator

namespace WideRecord

def headLength : Nat := 56

/-- What the length in a wide record leaves out. -/
def uncounted : Nat := 12

def read (bytes : Bytes) (locator : WideLocator) (position : Nat) : Except Error WideRecord :=
  let rest := bytes.drop position
  let length := numberAt rest 4 8
  let record : WideRecord :=
    { position, madeBy := numberAt rest 12 2, needed := numberAt rest 14 2
      disk := numberAt rest 16 4, directoryDisk := numberAt rest 20 4
      countHere := numberAt rest 24 8, count := numberAt rest 32 8
      directoryOffset := numberAt rest 48 8 }
  if !holds rest headLength then .error .cutOff
  else if length + uncounted < headLength then .error .wideRecordTooShort
  else if locator.position - position < length + uncounted then .error .wideRecordTooLong
  else if record.directoryDisk ≠ locator.directoryDisk then .error .wideRecordOnOtherDisk
  else if length + uncounted ≠ locator.position - position then .error .wideRecordApartFromLocator
  else .ok record

def lineLength : Nat := 46

/-- Reads the first sound record among positions; `last` is what was wrong with the one before. -/
def firstSound (bytes : Bytes) (locator : WideLocator) (last : Error) :
    List Nat → Except Error WideRecord
  | [] => .error last
  | position :: later =>
    match read bytes locator position with
    | .error cause => firstSound bytes locator cause later
    | .ok record =>
      if position < record.count * lineLength + record.directoryOffset then
        firstSound bytes locator .tooManyEntries later
      else .ok record

/-- The wide record that a locator points to. Bytes in front of the archive only move it on. -/
def find (bytes : Bytes) (locator : WideLocator) : Except Error WideRecord :=
  if locator.position ≤ locator.recordOffset then .error .wideRecordAfterLocator
  else if 1 < locator.disks then .error .severalDisks
  else firstSound bytes locator .noWideRecord
    ((positions wideRecordSignature (bytes.take locator.position)).filter
      fun position => locator.recordOffset ≤ position)

/-- Where the directory of a wide record stands; none when the record contradicts itself. -/
def place? (record : WideRecord) (locator : WideLocator) : Option Place :=
  if record.count < record.countHere || record.madeBy < record.needed ||
      record.disk ≠ record.directoryDisk then none
  else
    let shift := record.position - locator.recordOffset
    some ⟨shift, record.directoryOffset + shift, record.count⟩

end WideRecord

namespace EndRecord

def headLength : Nat := 22

def read (bytes : Bytes) (position : Nat) : Except Error EndRecord :=
  let rest := bytes.drop position
  if !holds rest headLength then .error .cutOff
  else if !holds rest (headLength + numberAt rest 20 2) then .error .commentTooLong
  else .ok
    { position, disk := numberAt rest 4 2, directoryDisk := numberAt rest 6 2
      countHere := numberAt rest 8 2, count := numberAt rest 10 2
      directoryOffset := numberAt rest 16 4 }

def mayBeWide (record : EndRecord) : Bool :=
  record.count == 0xFFFF || record.directoryOffset == 0xFFFFFFFF

/-- Where the archive starts: as far after its stated place as the first line of the directory is
found after its own. An empty archive ends at its end record. -/
def shift (bytes : Bytes) (record : EndRecord) : Except Error Nat :=
  if record.count = 0 then .ok (record.position - record.directoryOffset)
  else if record.position ≤ record.directoryOffset then .error .directoryAfterEnd
  else
    let lines := positions directorySignature (bytes.take record.position)
    match lines.find? fun position => record.directoryOffset ≤ position with
    | some position => .ok (position - record.directoryOffset)
    | none => .error .noDirectory

/-- Where the directory stands; none when the archive is spread over several disks or its records
contradict each other. -/
def place (bytes : Bytes) (record : EndRecord) : Except Error (Option Place) := do
  let locator := if record.mayBeWide then WideLocator.before? bytes record.position else none
  match locator with
  | some locator => return (← WideRecord.find bytes locator).place? locator
  | none =>
    let shift ← record.shift bytes
    if record.disk ≠ record.directoryDisk then return none
    else return some ⟨shift, record.directoryOffset + shift, record.countHere⟩

end EndRecord

end SymbolCache.Archive
