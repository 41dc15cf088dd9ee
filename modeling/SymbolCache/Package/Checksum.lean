import SymbolCache.Text.Utf8

/-!
The cyclic redundancy check of 32 bits over bytes.
-/

namespace SymbolCache.Archive

/-- One step of the checksum for a byte. -/
def checksumByte (sum : UInt32) (byte : UInt8) : UInt32 :=
  (List.range 8).foldl
    (fun acc _ => if acc &&& 1 == 1 then (acc >>> 1) ^^^ 0xEDB88320 else acc >>> 1)
    (sum ^^^ byte.toUInt32)

/-- The checksum of some bytes. -/
def checksum (bytes : Bytes) : Nat :=
  ((bytes.foldl checksumByte 0xFFFFFFFF) ^^^ 0xFFFFFFFF).toNat

end SymbolCache.Archive
