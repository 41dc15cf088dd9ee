import SymbolCache.Package.Archive.Basic

/-!
Lines of the directory of an archive. A line has fields of fixed length, the name of the entry,
extra fields and a comment. Extra fields widen sizes and offsets, spell names in UTF-8 and tell how
data is encrypted; those that end early are passed over, and those that contradict themselves or
the line break the directory.
-/

namespace SymbolCache.Archive

structure Listing where
  isEncrypted : Bool
  isSealed : Bool
  isUtf8 : Bool
  method : Nat
  checksum : Nat
  packedSize : Nat
  size : Nat
  /-- Where the entry starts, counted from the start of the archive. -/
  offset : Nat
  nameBytes : Bytes
  name : List Char
  comment : List Char
  deriving DecidableEq, Repr

/-- The upper half of code page 437, in which names are written that are not marked as UTF-8. -/
def codePage437 : List Char :=
  ("ÇüéâäàåçêëèïîìÄÅÉæÆôöòûùÿÖÜ¢£¥₧ƒáíóúñÑªº¿⌐¬½¼¡«»░▒▓│┤╡╢╖╕╣║╗╝╜╛┐" ++
    "└┴┬├─┼╞╟╚╔╩╦╠═╬╧╨╤╥╙╘╒╓╫╪┘┌█▄▌▐▀αßΓπΣσµτΦΘΩδ∞φε∩≡±≥≤⌠⌡÷≈°∙·√ⁿ²■\u00A0").toList

def decodeName (isUtf8 : Bool) (bytes : Bytes) : List Char :=
  if isUtf8 then Text.decodeLossy bytes
  else bytes.map fun byte =>
    if byte < 0x80 then Char.ofNat byte.toNat
    else codePage437.getD (byte.toNat - 0x80) Text.replacementChar

namespace Listing

inductive Stop where
  | ranOut
  | broken
  deriving DecidableEq, Repr

abbrev Extra := ExceptT Stop (StateM (Listing × Bytes))

namespace Extra

def line : Extra Listing := return (← get).1

def update (change : Listing → Listing) : Extra Unit :=
  modify fun (listing, bytes) => (change listing, bytes)

def require (condition : Bool) : Extra Unit :=
  if condition then pure () else throw .broken

def takeBytes (count : Nat) : Extra Bytes := do
  let (listing, bytes) ← get
  if holds bytes count then
    set (listing, bytes.drop count)
    return bytes.take count
  else throw .ranOut

def takeNumber (count : Nat) : Extra Nat := return numberAt (← takeBytes count) 0 count

def overflow : Nat := 0xFFFFFFFF

/-- Sizes and offset in eight bytes each: all of them in a long field, else those that do not fit
into the line. -/
def wideSizes (length : Nat) : Extra Unit := do
  let isLong := 24 ≤ length
  let before ← line
  if isLong || before.size == overflow then
    let size ← takeNumber 8
    update ({ · with size })
  if isLong || before.packedSize == overflow then
    let packedSize ← takeNumber 8
    update ({ · with packedSize })
  if isLong || before.offset == overflow then
    let offset ← takeNumber 8
    update ({ · with offset })
  let present := [before.size, before.packedSize, before.offset].countP fun value =>
    isLong || value == overflow
  require (8 * present ≤ length)
  let _ ← takeBytes (length - 8 * present)

/-- Times of another file system, of which only the shape matters. -/
def fileTimes (length : Nat) : Extra Unit := do
  require (length == 32)
  let _ ← takeBytes 4
  require ((← takeNumber 2) == 1)
  require ((← takeNumber 2) == 24)
  let _ ← takeBytes 24

def cipher (length : Nat) : Extra Unit := do
  require (length == 7)
  let version ← takeNumber 2
  let vendor ← takeNumber 2
  let strength ← takeNumber 1
  let method ← takeNumber 2
  require (vendor == 0x4541)
  require (version == 1 || version == 2)
  require (strength == 1 || strength == 2 || strength == 3)
  update ({ · with isSealed := true, method })

/-- Up to three times of four bytes each. A bit for each one says whether it is there; one alone is
the first. -/
def timestamps (length : Nat) : Extra Unit := do
  let flags ← takeNumber 1
  let marked := (List.range 8).countP fun bit => (flags >>> bit) % 2 == 1
  require (length == 5 || length == 1 + 4 * marked)
  let present := if length == 5 then 1 else (List.range 3).countP fun bit => (flags >>> bit) % 2 == 1
  let _ ← takeBytes (4 * present)

/-- Another spelling of a text, with the checksum of the text that it replaces. -/
def spelling (length : Nat) (replaced : Bytes) : Extra (Bytes × List Char) := do
  let _ ← takeBytes 1
  let sum ← takeNumber 4
  require (5 ≤ length)
  let bytes ← takeBytes (length - 5)
  require (sum == Archive.checksum replaced)
  match Text.decodeUtf8? bytes with
  | some text => return (bytes, text)
  | none => throw .broken

def spelledName (length : Nat) : Extra Unit := do
  let before ← line
  if !before.isUtf8 then
    let (nameBytes, name) ← spelling length before.nameBytes
    update ({ · with nameBytes, name, isUtf8 := true })

def spelledComment (length : Nat) : Extra Unit := do
  let before ← line
  if !before.isUtf8 then
    let (_, comment) ← spelling length (Text.encodeUtf8 before.comment)
    update ({ · with comment })

def field (kind length : Nat) : Extra Unit :=
  match kind with
  | 0x0001 => wideSizes length
  | 0x000A => fileTimes length
  | 0x9901 => cipher length
  | 0x5455 => timestamps length
  | 0x6375 => spelledComment length
  | 0x7075 => spelledName length
  | _ => do
    let _ ← takeBytes length

/-- Reads fields, at most so many. A single byte after them is passed over. -/
def fields : Nat → Extra Unit
  | 0 => pure ()
  | limit + 1 => do
    let (_, bytes) ← get
    if holds bytes 2 then
      require (holds bytes 4)
      let kind ← takeNumber 2
      let length ← takeNumber 2
      field kind length
      fields limit

end Extra

def withExtra? (listing : Listing) (extra : Bytes) : Option Listing :=
  match (Extra.fields extra.length).run.run (listing, extra) with
  | (.error .broken, _) => none
  | (_, (read, _)) => some read

/-- The method that stands for encrypted data, which an extra field must tell about. -/
def sealedMethod : Nat := 99

def headLength : Nat := 46

def read? (bytes : Bytes) : Option (Listing × Bytes) := do
  guard (hasAt bytes directorySignature 0 && holds bytes headLength)
  let flags := numberAt bytes 8 2
  let nameLength := numberAt bytes 28 2
  let extraLength := numberAt bytes 30 2
  let commentLength := numberAt bytes 32 2
  let rest := bytes.drop headLength
  guard (holds rest (nameLength + extraLength + commentLength))
  let isUtf8 := flags / 2048 % 2 == 1
  let nameBytes := rest.take nameLength
  let extra := (rest.drop nameLength).take extraLength
  let comment := (rest.drop (nameLength + extraLength)).take commentLength
  let plain : Listing :=
    { isEncrypted := flags % 2 == 1, isSealed := false, isUtf8
      method := numberAt bytes 10 2, checksum := numberAt bytes 16 4
      packedSize := numberAt bytes 20 4, size := numberAt bytes 24 4
      offset := numberAt bytes 42 4, nameBytes
      name := decodeName isUtf8 nameBytes, comment := decodeName isUtf8 comment }
  let listing ← plain.withExtra? extra
  guard (listing.method ≠ sealedMethod || listing.isSealed)
  return (listing, rest.drop (nameLength + extraLength + commentLength))

end Listing

end SymbolCache.Archive
