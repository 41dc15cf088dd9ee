import SymbolCache.Package.Archive

/-!
Writing archives: the data of all entries one after the other, their directory, and the end record.
Names are marked as UTF-8 and data is stored as it is.
-/

namespace SymbolCache.Archive

def littleEndian (count n : Nat) : Bytes :=
  (List.range count).map fun i => (n / Nat.pow 256 i % 256).toUInt8

namespace Entry

def stored (name : String) (content : Bytes) : Entry :=
  ⟨name, 0, false, false, Archive.checksum content, some content⟩

def nameBytes (entry : Entry) : Bytes := Text.encodeUtf8 entry.name.toList

def dataBytes (entry : Entry) : Bytes := entry.data.getD []

/-- The fields that the directory repeats from the header of an entry. -/
def sharedFields (entry : Entry) : Bytes :=
  littleEndian 2 20 ++ littleEndian 2 (2048 + if entry.isEncrypted then 1 else 0) ++
    littleEndian 2 entry.method ++ littleEndian 4 0x00210000 ++ littleEndian 4 entry.checksum ++
    littleEndian 4 entry.dataBytes.length ++ littleEndian 4 entry.dataBytes.length ++
    littleEndian 2 entry.nameBytes.length ++ littleEndian 2 0

def body (entry : Entry) : Bytes :=
  entrySignature ++ entry.sharedFields ++ entry.nameBytes ++ entry.dataBytes

def listing (entry : Entry) (position : Nat) : Bytes :=
  directorySignature ++ littleEndian 2 20 ++ entry.sharedFields ++ littleEndian 2 0 ++
    littleEndian 2 0 ++ littleEndian 2 0 ++ littleEndian 4 0 ++ littleEndian 4 position ++
    entry.nameBytes

end Entry

/-- The directory of entries that stand one after the other from a position on. -/
def directoryBytes (position : Nat) : List Entry → Bytes
  | [] => []
  | entry :: rest =>
    entry.listing position ++ directoryBytes (position + entry.body.length) rest

def render (entries : List Entry) : Bytes :=
  let bodies := entries.flatMap Entry.body
  let directory := directoryBytes 0 entries
  bodies ++ directory ++ endSignature ++ littleEndian 4 0 ++ littleEndian 2 entries.length ++
    littleEndian 2 entries.length ++ littleEndian 4 directory.length ++
    littleEndian 4 bodies.length ++ littleEndian 2 0

end SymbolCache.Archive
