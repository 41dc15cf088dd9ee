import SymbolCache.Text.Utf8

/-!
The BLAKE3 hash function, as far as its first words. Input is cut into chunks of 1024 bytes and
these into blocks of 64 bytes; the chunks are the leaves of a binary tree.
-/

namespace SymbolCache.Digest

abbrev State := Vector UInt32 16

abbrev Chaining := Vector UInt32 8

def initial : Chaining :=
  #v[0x6A09E667, 0xBB67AE85, 0x3C6EF372, 0xA54FF53A, 0x510E527F, 0x9B05688C, 0x1F83D9AB, 0x5BE0CD19]

def permutation : Vector (Fin 16) 16 := #v[2, 6, 3, 10, 7, 0, 4, 13, 1, 11, 12, 5, 9, 14, 15, 8]

def chunkStart : UInt32 := 1
def chunkEnd : UInt32 := 2
def parentFlag : UInt32 := 4
def rootFlag : UInt32 := 8

def rotateRight (word count : UInt32) : UInt32 := (word >>> count) ||| (word <<< (32 - count))

/-- Mixes two message words into four words of the state. -/
def mix (s : State) (a b c d : Fin 16) (x y : UInt32) : State :=
  let s := s.set a (s.get a + s.get b + x)
  let s := s.set d (rotateRight (s.get d ^^^ s.get a) 16)
  let s := s.set c (s.get c + s.get d)
  let s := s.set b (rotateRight (s.get b ^^^ s.get c) 12)
  let s := s.set a (s.get a + s.get b + y)
  let s := s.set d (rotateRight (s.get d ^^^ s.get a) 8)
  let s := s.set c (s.get c + s.get d)
  s.set b (rotateRight (s.get b ^^^ s.get c) 7)

/-- Mixes a whole block into the columns and then the diagonals of the state. -/
def round (s : State) (m : State) : State :=
  let s := mix s 0 4 8 12 (m.get 0) (m.get 1)
  let s := mix s 1 5 9 13 (m.get 2) (m.get 3)
  let s := mix s 2 6 10 14 (m.get 4) (m.get 5)
  let s := mix s 3 7 11 15 (m.get 6) (m.get 7)
  let s := mix s 0 5 10 15 (m.get 8) (m.get 9)
  let s := mix s 1 6 11 12 (m.get 10) (m.get 11)
  let s := mix s 2 7 8 13 (m.get 12) (m.get 13)
  mix s 3 4 9 14 (m.get 14) (m.get 15)

def permute (m : State) : State := permutation.map m.get

def rounds : Nat → State → State → State
  | 0, s, _ => s
  | n + 1, s, m => rounds n (round s m) (permute m)

/-- A block that waits for its last compression. -/
structure Node where
  chaining : Chaining
  block : State
  counter : Nat
  length : Nat
  flags : UInt32

/-- Compresses a block into a chaining value, with further flags. -/
def Node.compress (node : Node) (flags : UInt32) : Chaining :=
  let start : State := #v[node.chaining[0], node.chaining[1], node.chaining[2], node.chaining[3],
    node.chaining[4], node.chaining[5], node.chaining[6], node.chaining[7],
    initial[0], initial[1], initial[2], initial[3],
    node.counter.toUInt32, (node.counter / Nat.pow 2 32).toUInt32, node.length.toUInt32,
    node.flags ||| flags]
  let s := rounds 7 start node.block
  Vector.ofFn fun i => s.get ⟨i.val, by omega⟩ ^^^ s.get ⟨i.val + 8, by omega⟩

def littleEndian (bytes : Bytes) : UInt32 :=
  bytes.foldr (fun byte word => (word <<< 8) ||| byte.toUInt32) 0

/-- The words of a block, padded with zeros. -/
def blockWords (bytes : Bytes) : State :=
  Vector.ofFn fun i => littleEndian ((bytes.drop (4 * i.val)).take 4)

/-- The node of one chunk; `first` says whether the next block is the first one. -/
def chunkNode (counter : Nat) (chaining : Chaining) (first : Bool) (bytes : Bytes) : Node :=
  let start := if first then chunkStart else 0
  let block := bytes.take 64
  if 64 < bytes.length then
    let node : Node := ⟨chaining, blockWords block, counter, 64, start⟩
    chunkNode counter (node.compress 0) false (bytes.drop 64)
  else ⟨chaining, blockWords block, counter, block.length, start ||| chunkEnd⟩
termination_by bytes.length
decreasing_by simp; omega

/-- The nodes of all chunks, from a chunk number on. -/
def chunkNodes (counter : Nat) (bytes : Bytes) : List Node :=
  let node := chunkNode counter initial true (bytes.take 1024)
  if 1024 < bytes.length then node :: chunkNodes (counter + 1) (bytes.drop 1024) else [node]
termination_by bytes.length
decreasing_by simp; omega

def parentNode (left right : Chaining) : Node :=
  ⟨initial, Vector.ofFn fun i => if h : i.val < 8 then left.get ⟨i.val, h⟩
    else right.get ⟨i.val - 8, by omega⟩, 0, 64, parentFlag⟩

/-- The largest power of two below a number. -/
def leftCount (count : Nat) : Nat := Nat.pow 2 (count - 1).log2

/-- Joins chunk nodes into a tree whose left part is as large as possible. -/
def join : Nat → List Node → Node
  | 0, nodes => nodes.headD (chunkNode 0 initial true [])
  | fuel + 1, nodes =>
    if nodes.length ≤ 1 then nodes.headD (chunkNode 0 initial true [])
    else
      let count := leftCount nodes.length
      parentNode ((join fuel (nodes.take count)).compress 0) ((join fuel (nodes.drop count)).compress 0)

def hexDigits (byte : UInt8) : List Char :=
  [Nat.digitChar (byte.toNat / 16), Nat.digitChar (byte.toNat % 16)]

def wordBytes (word : UInt32) : Bytes :=
  [word.toUInt8, (word >>> 8).toUInt8, (word >>> 16).toUInt8, (word >>> 24).toUInt8]

/-- The first eight hexadecimal digits of the hash. -/
def short (bytes : Bytes) : String :=
  let nodes := chunkNodes 0 bytes
  let output := (join nodes.length nodes).compress rootFlag
  String.ofList ((wordBytes output[0]).flatMap hexDigits)

end SymbolCache.Digest
