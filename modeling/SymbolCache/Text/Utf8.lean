import SymbolCache.Text.Basic

/-!
Texts as UTF-8 bytes. Decoding replaces each longest part of a broken sequence by U+FFFD.
-/

namespace SymbolCache

abbrev Bytes := List UInt8

namespace Text

def encodeUtf8 (text : List Char) : Bytes := text.flatMap String.utf8EncodeChar

def isContinuation (byte : UInt8) : Bool := 0x80 ≤ byte && byte ≤ 0xBF

/-- Whether a byte may follow a given first byte of a sequence of several bytes. -/
def isSecondByte (first second : UInt8) : Bool :=
  if first == 0xE0 then 0xA0 ≤ second && second ≤ 0xBF
  else if first == 0xED then 0x80 ≤ second && second ≤ 0x9F
  else if first == 0xF0 then 0x90 ≤ second && second ≤ 0xBF
  else if first == 0xF4 then 0x80 ≤ second && second ≤ 0x8F
  else isContinuation second

def payload (byte : UInt8) : Nat := byte.toNat % 64

/-- The next character, `none` for a broken sequence, and how many bytes after the first belong
to it. -/
def decodeHead (first : UInt8) (rest : Bytes) : Option Char × Nat :=
  if first < 0x80 then (some (Char.ofNat first.toNat), 0)
  else if first < 0xC2 || first > 0xF4 then (none, 0)
  else match rest with
    | [] => (none, 0)
    | second :: rest =>
      if !isSecondByte first second then (none, 0)
      else if first < 0xE0 then
        (some (Char.ofNat ((first.toNat % 32) * 64 + payload second)), 1)
      else match rest with
        | [] => (none, 1)
        | third :: rest =>
          if !isContinuation third then (none, 1)
          else if first < 0xF0 then
            (some (Char.ofNat ((first.toNat % 16) * 4096 + payload second * 64 + payload third)), 2)
          else match rest with
            | [] => (none, 2)
            | fourth :: _ =>
              if !isContinuation fourth then (none, 2)
              else (some (Char.ofNat ((first.toNat % 8) * 262144 + payload second * 4096 +
                payload third * 64 + payload fourth)), 3)

/-- Decodes bytes into characters, broken sequences into `none`. -/
def decodeUnits : Bytes → List (Option Char)
  | [] => []
  | first :: rest =>
    let (char, extra) := decodeHead first rest
    char :: decodeUnits (rest.drop extra)
termination_by bytes => bytes.length
decreasing_by
  simp only [List.length_drop, List.length_cons]
  omega

def replacementChar : Char := '\uFFFD'

def decodeLossy (bytes : Bytes) : List Char :=
  (decodeUnits bytes).map fun unit => unit.getD replacementChar

def decodeUtf8? (bytes : Bytes) : Option (List Char) := (decodeUnits bytes).mapM id

def byteOrderMark : Char := '\uFEFF'

def dropByteOrderMarks (text : List Char) : List Char := text.dropWhile (· == byteOrderMark)

end Text

end SymbolCache
