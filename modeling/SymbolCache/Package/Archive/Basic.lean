import SymbolCache.Package.Checksum
import SymbolCache.Package.Inflate

/-!
Entries of archives, what they unpack to, and why an archive or an entry cannot be read.
-/

namespace SymbolCache.Archive

inductive Error where
  | noEndRecord
  /-- The archive ends within a record of fixed length. -/
  | cutOff
  | commentTooLong
  | directoryAfterEnd
  | noDirectory
  | wideRecordAfterLocator
  | severalDisks
  | noWideRecord
  | wideRecordTooShort
  | wideRecordTooLong
  | wideRecordOnOtherDisk
  | wideRecordApartFromLocator
  | tooManyEntries
  | brokenEntry
  | unsupportedMethod
  | encrypted
  | wrongPassword
  deriving DecidableEq, Repr

inductive ErrorKind where
  | truncated
  | invalid
  | unsupported
  deriving DecidableEq, Repr

namespace Error

def kind : Error → ErrorKind
  | .cutOff => .truncated
  | .unsupportedMethod | .encrypted | .wrongPassword => .unsupported
  | _ => .invalid

def detail : Error → String
  | .noEndRecord => "Could not find EOCD"
  | .cutOff => "failed to fill whole buffer"
  | .commentTooLong => "EOCD comment exceeds file boundary"
  | .directoryAfterEnd => "Invalid CDFH offset in EOCD"
  | .noDirectory => "No CDFH found"
  | .wideRecordAfterLocator => "Invalid EOCD64 Locator CD offset"
  | .severalDisks => "Multi-disk ZIP files are not supported"
  | .noWideRecord => "Could not find EOCD64"
  | .wideRecordTooShort => "Low EOCD64 record size"
  | .wideRecordTooLong => "EOCD64 extends beyond EOCD64 locator"
  | .wideRecordOnOtherDisk => "Invalid EOCD64: inconsistency with Locator data"
  | .wideRecordApartFromLocator => "Invalid EOCD64: inconsistent length"
  | .tooManyEntries => "Invalid EOCD64: inconsistent number of files"
  | .brokenEntry => "Invalid local file header"
  | .unsupportedMethod => "Compression method not supported"
  | .encrypted => "Password required to decrypt file"
  | .wrongPassword => "The password provided is incorrect"

def message (error : Error) : String :=
  match error.kind with
  | .truncated => "i/o error: " ++ error.detail
  | .invalid => "invalid Zip archive: " ++ error.detail
  | .unsupported =>
    if error = .wrongPassword then error.detail else "unsupported Zip archive: " ++ error.detail

end Error

structure Entry where
  name : String
  method : Nat
  isEncrypted : Bool
  /-- Whether the data is encrypted in the way that an extra field tells. -/
  isSealed : Bool
  checksum : Nat
  /-- The bytes as they stand in the archive; none when no header stands before them. -/
  data : Option Bytes
  deriving DecidableEq, Repr

structure Content where
  bytes : Bytes
  /-- Why the packed data could not be unpacked to its end. -/
  fault : Option Inflate.Fault
  deriving DecidableEq, Repr

namespace Entry

def isDirectory (entry : Entry) : Bool :=
  match entry.name.toList.getLast? with
  | some c => c == '/' || c == '\\'
  | none => false

/-- The unpacked bytes of an entry, before their checksum is tested. -/
def content (entry : Entry) : Except Error Content :=
  if entry.isEncrypted then .error .encrypted
  else match entry.data with
    | none => .error .brokenEntry
    | some data =>
      if entry.method ≠ 0 ∧ entry.method ≠ 8 then .error .unsupportedMethod
      else if entry.isSealed then .error .wrongPassword
      else if entry.method = 0 then .ok ⟨data, none⟩
      else
        let unpacked := Inflate.unpack data
        .ok ⟨unpacked.bytes, unpacked.fault⟩

def isIntact (entry : Entry) (content : Content) : Bool :=
  Archive.checksum content.bytes == entry.checksum

end Entry

def numberAt (bytes : Bytes) (position count : Nat) : Nat :=
  ((bytes.drop position).take count).foldr (fun byte n => 256 * n + byte.toNat) 0

def holds (bytes : Bytes) (count : Nat) : Bool := (bytes.take count).length == count

def entrySignature : Bytes := [0x50, 0x4B, 0x03, 0x04]

def directorySignature : Bytes := [0x50, 0x4B, 0x01, 0x02]

def endSignature : Bytes := [0x50, 0x4B, 0x05, 0x06]

def wideRecordSignature : Bytes := [0x50, 0x4B, 0x06, 0x06]

def wideLocatorSignature : Bytes := [0x50, 0x4B, 0x06, 0x07]

def hasAt (bytes pattern : Bytes) (position : Nat) : Bool :=
  (bytes.drop position).take pattern.length == pattern

/-- Where a pattern stands in some bytes, the last position first; `position` is that of the first
byte, and `found` has the positions before it. -/
def positionsFrom (pattern : Bytes) (found : List Nat) (position : Nat) : Bytes → List Nat
  | [] => found
  | byte :: rest =>
    let here := pattern.isPrefixOf (byte :: rest)
    positionsFrom pattern (if here then position :: found else found) (position + 1) rest

def positionsBackwards (pattern bytes : Bytes) : List Nat := positionsFrom pattern [] 0 bytes

def positions (pattern bytes : Bytes) : List Nat := (positionsBackwards pattern bytes).reverse

end SymbolCache.Archive
