import SymbolCache.Text.Utf8

/-!
Unpacking deflated data: a sequence of blocks, each stored as it is or written in a code in which
frequent bytes and repetitions are short. A repetition copies bytes that came some distance before.
Data that breaks the rules is corrupt; data that ends before its last block does is incomplete, and
what it holds up to there is unpacked.
-/

namespace SymbolCache.Inflate

abbrev Bits := List Bool

inductive Fault where
  | corrupt
  | incomplete
  deriving DecidableEq, Repr

abbrev Reading := StateT Bits (Except Fault)

def bitsOf (bytes : Bytes) : Bits :=
  bytes.flatMap fun byte => (List.range 8).map fun i => (byte.toNat >>> i) % 2 == 1

def nextBit : Reading Bool
  | [] => .error .incomplete
  | bit :: rest => .ok (bit, rest)

def number : Nat → Reading Nat
  | 0 => return 0
  | count + 1 => do
    let bit ← nextBit
    let high ← number count
    return 2 * high + bit.toNat

inductive Code where
  /-- No codeword at all, as for the distances of data without repetitions. -/
  | empty
  /-- A single codeword, of so many zeros. -/
  | lone (symbol length : Nat)
  /-- Symbols by the length of their codewords, from one bit on. Codewords of one length are
  consecutive numbers, in the order of their symbols, and no further codeword fits in. -/
  | full (levels : List (List Nat))
  deriving DecidableEq, Repr

namespace Code

def longest : Nat := 15

def isFull (lengths : List Nat) : Bool :=
  (lengths.filter (0 < ·)).foldl (fun total length => total + Nat.pow 2 (longest - length)) 0 ==
    Nat.pow 2 longest

/-- The code in which each symbol has a codeword of a given length; none when several codewords
leave room or do not fit together. -/
def ofLengths? (lengths : List Nat) : Option Code :=
  let used := ((List.range lengths.length).zip lengths).filter fun (_, length) => 0 < length
  if isFull lengths then
    some (.full ((List.range longest).map fun i =>
      (used.filter fun (_, length) => length = i + 1).map Prod.fst))
  else match used with
    | [] => some .empty
    | [(symbol, length)] => some (.lone symbol length)
    | _ => none

/-- Reads a codeword of a full code bit by bit; `word` is what has been read, and `first` the
number after the codewords that are as long. -/
def symbolIn (word first : Nat) : List (List Nat) → Reading Nat
  | [] => throw .corrupt
  | symbols :: longer => do
    let bit ← nextBit
    let wordHere := 2 * word + bit.toNat
    let firstHere := 2 * first
    if wordHere < firstHere + symbols.length then
      match symbols[wordHere - firstHere]? with
      | some symbol => return symbol
      | none => throw .corrupt
    else symbolIn wordHere (firstHere + symbols.length) longer

def lookupBits : Nat := 10

/-- Reads the zeros of a lone codeword, of which `read` have been passed. A one among the bits that
are looked up at once is no codeword; after them it stands for the first symbol. -/
def loneSymbol (symbol read : Nat) : Nat → Reading Nat
  | 0 => return symbol
  | left + 1 => do
    let bit ← nextBit
    if !bit then loneSymbol symbol (read + 1) left
    else if read < lookupBits then throw .corrupt
    else return 0

def symbol : Code → Reading Nat
  | .empty => do
    let _ ← nextBit
    throw .corrupt
  | .lone symbol length => loneSymbol symbol 0 length
  | .full levels => symbolIn 0 0 levels

end Code

abbrev Progress := Array UInt8 × Except Fault Bits

/-- The byte that came some distance before; there are zeros before the first one. -/
def earlierByte (out : Array UInt8) (distance : Nat) : UInt8 :=
  if out.size < distance then 0 else out[out.size - distance]?.getD 0

def repeatBytes (distance : Nat) : Nat → Array UInt8 → Array UInt8
  | 0, out => out
  | count + 1, out => repeatBytes distance count (out.push (earlierByte out distance))

/-- Least lengths of repetitions and the numbers of bits that are added to them. -/
def lengthTable : List (Nat × Nat) :=
  [(3, 0), (4, 0), (5, 0), (6, 0), (7, 0), (8, 0), (9, 0), (10, 0), (11, 1), (13, 1), (15, 1),
    (17, 1), (19, 2), (23, 2), (27, 2), (31, 2), (35, 3), (43, 3), (51, 3), (59, 3), (67, 4),
    (83, 4), (99, 4), (115, 4), (131, 5), (163, 5), (195, 5), (227, 5), (258, 0)]

/-- Least distances of repetitions and the numbers of bits that are added to them. -/
def distanceTable : List (Nat × Nat) :=
  [(1, 0), (2, 0), (3, 0), (4, 0), (5, 1), (7, 1), (9, 2), (13, 2), (17, 3), (25, 3), (33, 4),
    (49, 4), (65, 5), (97, 5), (129, 6), (193, 6), (257, 7), (385, 7), (513, 8), (769, 8),
    (1025, 9), (1537, 9), (2049, 10), (3073, 10), (4097, 11), (6145, 11), (8193, 12), (12289, 12),
    (16385, 13), (24577, 13)]

def extended (table : List (Nat × Nat)) (index : Nat) : Reading Nat :=
  match table[index]? with
  | none => throw .corrupt
  | some (least, count) => do
    let added ← number count
    return least + added

def repetition (distances : Code) (symbol : Nat) : Reading (Nat × Nat) := do
  let length ← extended lengthTable (symbol - 257)
  let index ← distances.symbol
  let distance ← extended distanceTable index
  return (length, distance)

def symbols (literals distances : Code) : Nat → Array UInt8 → Bits → Progress
  | 0, out, _ => (out, .error .incomplete)
  | limit + 1, out, bits =>
    match literals.symbol bits with
    | .error fault => (out, .error fault)
    | .ok (symbol, rest) =>
      if symbol < 256 then symbols literals distances limit (out.push symbol.toUInt8) rest
      else if symbol = 256 then (out, .ok rest)
      else match repetition distances symbol rest with
        | .error fault => (out, .error fault)
        | .ok ((length, distance), after) =>
          symbols literals distances limit (repeatBytes distance length out) after

/-- The order in which the lengths of the code for lengths are written. -/
def lengthOrder : List Nat := [16, 17, 18, 0, 8, 7, 9, 6, 10, 5, 11, 4, 12, 3, 13, 2, 14, 1, 15]

def triples : Nat → Reading (List Nat)
  | 0 => return []
  | count + 1 => do
    let first ← number 3
    let others ← triples count
    return first :: others

def lengthRun (known : List Nat) (symbol : Nat) : Reading (List Nat) := do
  if symbol < 16 then return [symbol]
  else if symbol = 16 then
    match known.getLast? with
    | none => throw .corrupt
    | some previous => return List.replicate ((← number 2) + 3) previous
  else if symbol = 17 then return List.replicate ((← number 3) + 3) 0
  else return List.replicate ((← number 7) + 11) 0

def lengths (code : Code) (wanted : Nat) : Nat → List Nat → Reading (List Nat)
  | 0, _ => throw .corrupt
  | limit + 1, known =>
    if known.length < wanted then do
      let symbol ← code.symbol
      let run ← lengthRun known symbol
      lengths code wanted limit (known ++ run)
    else if known.length = wanted then return known
    else throw .corrupt

def codeOf (lengths : List Nat) : Reading Code :=
  match Code.ofLengths? lengths with
  | some code => return code
  | none => throw .corrupt

def mostLiterals : Nat := 286

def mostDistances : Nat := 30

def ownCodes : Reading (Code × Code) := do
  let literalCount := (← number 5) + 257
  let distanceCount := (← number 5) + 1
  let lengthCount := (← number 4) + 4
  if mostLiterals < literalCount || mostDistances < distanceCount then throw .corrupt
  let given ← triples lengthCount
  let placed := (List.range lengthOrder.length).map fun symbol =>
    ((lengthOrder.zip given).lookup symbol).getD 0
  if !Code.isFull placed then throw .corrupt
  let code ← codeOf placed
  let wanted := literalCount + distanceCount
  let found ← lengths code wanted (wanted + 1) []
  let literals ← codeOf (found.take literalCount)
  let distances ← codeOf (found.drop literalCount)
  return (literals, distances)

def fixedCodes : Reading (Code × Code) := do
  let literals ← codeOf (List.replicate 144 8 ++ List.replicate 112 9 ++ List.replicate 24 7 ++
    List.replicate 8 8)
  let distances ← codeOf (List.replicate 32 5)
  return (literals, distances)

def codedBlock (codes : Reading (Code × Code)) (out : Array UInt8) (bits : Bits) : Progress :=
  match codes bits with
  | .error fault => (out, .error fault)
  | .ok ((literals, distances), rest) => symbols literals distances (rest.length + 1) out rest

def wholeBytes : Nat → Array UInt8 → Bits → Progress
  | 0, out, bits => (out, .ok bits)
  | count + 1, out, bits =>
    match number 8 bits with
    | .ok (byte, rest) => wholeBytes count (out.push byte.toUInt8) rest
    | .error fault => (out, .error fault)

/-- Reads the length of a block that is stored as it is, which is written twice. -/
def storedLength : Reading Nat := do
  let length ← number 16
  let complement ← number 16
  if length + complement = 65535 then return length else throw .corrupt

def storedBlock (out : Array UInt8) (bits : Bits) : Progress :=
  match storedLength (bits.drop (bits.length % 8)) with
  | .ok (length, rest) => wholeBytes length out rest
  | .error fault => (out, .error fault)

def block (kind : Nat) (out : Array UInt8) (bits : Bits) : Progress :=
  match kind with
  | 0 => storedBlock out bits
  | 1 => codedBlock fixedCodes out bits
  | 2 => codedBlock ownCodes out bits
  | _ => (out, .error .corrupt)

def blocks : Nat → Array UInt8 → Bits → Progress
  | 0, out, _ => (out, .error .incomplete)
  | limit + 1, out, bits =>
    match number 3 bits with
    | .error fault => (out, .error fault)
    | .ok (header, rest) =>
      match block (header / 2) out rest with
      | (unpacked, .error fault) => (unpacked, .error fault)
      | (unpacked, .ok after) =>
        if header % 2 = 1 then (unpacked, .ok after) else blocks limit unpacked after

structure Unpacked where
  bytes : Bytes
  fault : Option Fault
  deriving DecidableEq, Repr

def inflate (data : Bytes) : Unpacked :=
  let bits := bitsOf data
  match blocks (bits.length + 1) #[] bits with
  | (out, .ok _) => ⟨out.toList, none⟩
  | (out, .error fault) => ⟨out.toList, some fault⟩

/-- Packed bytes that are taken at a time, and unpacked bytes that are handed on at a time. -/
def portion : Nat := 8192

/-- Unpacked bytes that are kept for repetitions. -/
def windowSize : Nat := 32768

/-- How many bytes the first portions of corrupt data unpack to, as many of them as do not show
the fault. -/
def soundSize (data : Bytes) : Nat → Nat
  | 0 => 0
  | portions + 1 =>
    let unpacked := inflate (data.take (portion * (portions + 1)))
    if unpacked.fault = some .corrupt then soundSize data portions else unpacked.bytes.length

/-- How many of the bytes before a fault have been handed on when it shows: those of the sound
portions, and the windows filled since, unless the last of them went into the same portion. -/
def handedOn (sound size : Nat) : Nat :=
  let windows := (size - 1) / windowSize * windowSize
  if windows < sound + portion then sound else windows

/-- What is unpacked from deflated data and handed on. Bytes that are under way when corrupt data
shows are lost. -/
def unpack (data : Bytes) : Unpacked :=
  let unpacked := inflate data
  if unpacked.fault = some .corrupt then
    let count := handedOn (soundSize data (data.length / portion)) unpacked.bytes.length
    { unpacked with bytes := unpacked.bytes.take count }
  else unpacked

end SymbolCache.Inflate
