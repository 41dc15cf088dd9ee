import SymbolCache.Package.Archive.EndRecord
import SymbolCache.Package.Archive.Listing

/-!
Archives of packages: an end record at the back points to a directory of entries, and each entry
to its data. The last end record counts whose directory can be read. Entries are stored as they are
or deflated.
-/

namespace SymbolCache.Archive

def entryData? (bytes : Bytes) (position size : Nat) : Option Bytes :=
  let rest := bytes.drop position
  if !hasAt rest entrySignature 0 then none
  else some ((rest.drop (30 + numberAt rest 26 2 + numberAt rest 28 2)).take size)

def entryOf (bytes : Bytes) (shift : Nat) (listing : Listing) : Entry :=
  { name := String.ofList listing.name, method := listing.method
    isEncrypted := listing.isEncrypted, isSealed := listing.isSealed
    checksum := listing.checksum
    data := entryData? bytes (shift + listing.offset) listing.packedSize }

def directory? (bytes : Bytes) (place : Place) : Nat → Bytes → Option (List Entry)
  | 0, _ => some []
  | count + 1, lines => do
    let (listing, rest) ← Listing.read? lines
    guard (place.shift + listing.offset < place.start)
    let others ← directory? bytes place count rest
    return entryOf bytes place.shift listing :: others

/-- Puts an entry in the place of an earlier one with the same name, else at the end. -/
def addEntry (entries : List Entry) (entry : Entry) : List Entry :=
  if entries.any fun other => other.name == entry.name then
    entries.map fun other => if other.name == entry.name then entry else other
  else entries ++ [entry]

/-- Reads the directory that the first useful one among the end records at some positions points
to. `seen` is what was wrong with the records before: a record that cannot be read is reported only
if nothing else was, one that points nowhere always, and a directory that cannot be read makes all
that forgotten. -/
def entriesFrom (bytes : Bytes) (seen : Option Error) : List Nat → Except Error (List Entry)
  | [] => .error (seen.getD .noEndRecord)
  | position :: earlier =>
    match EndRecord.read bytes position with
    | .error cause => entriesFrom bytes (seen.or (some cause)) earlier
    | .ok record =>
      match record.place bytes with
      | .error cause => entriesFrom bytes (some cause) earlier
      | .ok place =>
        match place.bind fun place => directory? bytes place place.count (bytes.drop place.start) with
        | some found => .ok (found.foldl addEntry [])
        | none => entriesFrom bytes none earlier

def entries (bytes : Bytes) : Except Error (List Entry) :=
  entriesFrom bytes none (positionsBackwards endSignature bytes)

def headerMagic : Bytes := [0x4E, 0x41, 0x56, 0x58]

/-- Where the archive of a package starts: after a header, at the place it declares or at the
first entry. -/
def payloadOffset (bytes : Bytes) : Nat :=
  if !hasAt bytes headerMagic 0 || !holds bytes 8 then 0
  else
    let declared := numberAt bytes 4 4
    if hasAt bytes entrySignature declared then declared
    else (positions entrySignature bytes).headD 0

def ofPackage (bytes : Bytes) : Except Error (List Entry) :=
  entries (bytes.drop (payloadOffset bytes))

end SymbolCache.Archive
