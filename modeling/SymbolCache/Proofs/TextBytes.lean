import SymbolCache.Text.Utf8

/-! Texts come back from their bytes, and no byte of a text looks like a new line unless it is one. -/

namespace SymbolCache.Text

section Bytes

variable {v : Nat}

private theorem toNat_byte {n : Nat} (small : n < 256) : (UInt8.ofNat n).toNat = n := by
  rw [UInt8.toNat_ofNat']
  exact Nat.mod_eq_of_lt small

private theorem isContinuation_byte (n : Nat) : isContinuation (UInt8.ofNat (n % 64 + 128)) = true := by
  have value := toNat_byte (n := n % 64 + 128) (by omega)
  simp only [isContinuation, Bool.and_eq_true, decide_eq_true_eq, UInt8.le_iff_toNat_le, value]
  exact ⟨Nat.le_add_left .., by simp; omega⟩

private theorem payload_byte (n : Nat) : payload (UInt8.ofNat (n % 64 + 128)) = n % 64 := by
  rw [payload, toNat_byte (by omega)]
  omega

/-- Which second bytes a first byte of a longer sequence allows, as numbers. -/
private theorem isSecondByte_bytes (first second : Nat) (small : first < 256)
    (low : first = 0xE0 → 32 ≤ second % 64) (surrogate : first = 0xED → second % 64 < 32)
    (plane : first = 0xF0 → 16 ≤ second % 64) (high : first = 0xF4 → second % 64 < 16) :
    isSecondByte (UInt8.ofNat first) (UInt8.ofNat (second % 64 + 128)) = true := by
  have value := toNat_byte small
  have follower := toNat_byte (n := second % 64 + 128) (by omega)
  have same (n : UInt8) : (UInt8.ofNat first == n) = decide (first = n.toNat) := by
    rw [Bool.eq_iff_iff, beq_iff_eq, decide_eq_true_eq, ← UInt8.toNat_inj, value]
  have between : ∀ l h : UInt8, (decide (l ≤ UInt8.ofNat (second % 64 + 128)) &&
      decide (UInt8.ofNat (second % 64 + 128) ≤ h)) = true ↔ l.toNat ≤ second % 64 + 128 ∧ second % 64 + 128 ≤ h.toNat := by
    intro l h
    rw [Bool.and_eq_true, decide_eq_true_eq, decide_eq_true_eq, UInt8.le_iff_toNat_le, UInt8.le_iff_toNat_le, follower]
  unfold isSecondByte
  simp only [same, decide_eq_true_eq]
  split
  · next is =>
    have := low is
    exact (between ..).2 ⟨by simp; omega, by simp; omega⟩
  · split
    · next is =>
      have := surrogate is
      exact (between ..).2 ⟨by simp, by simp; omega⟩
    · split
      · next is =>
        have := plane is
        exact (between ..).2 ⟨by simp; omega, by simp; omega⟩
      · split
        · next is =>
          have := high is
          exact (between ..).2 ⟨by simp, by simp; omega⟩
        · exact isContinuation_byte second

/-- First bytes compare as numbers. -/
private theorem byte_lt {n : Nat} (small : n < 256) (bound : UInt8) : UInt8.ofNat n < bound ↔ n < bound.toNat := by
  rw [UInt8.lt_iff_toNat_lt, toNat_byte small]

private theorem lt_byte {n : Nat} (small : n < 256) (bound : UInt8) : bound < UInt8.ofNat n ↔ bound.toNat < n := by
  rw [UInt8.lt_iff_toNat_lt, toNat_byte small]

/-- Bytes that start a sequence of several. -/
private theorem lead_not_single {n : Nat} (low : 0xC2 ≤ n) (high : n ≤ 0xF4) : ¬ UInt8.ofNat n < 0x80 := by
  rw [byte_lt (by omega)]
  simp
  omega

private theorem lead_not_stray {n : Nat} (low : 0xC2 ≤ n) (high : n ≤ 0xF4) :
    ¬ (decide (UInt8.ofNat n < 0xC2) || decide (UInt8.ofNat n > 0xF4)) = true := by
  rw [Bool.or_eq_true, decide_eq_true_eq, decide_eq_true_eq, byte_lt (by omega), gt_iff_lt, lt_byte (by omega)]
  simp
  omega

private theorem decodeHead_one (low : v ≤ 127) (rest : Bytes) :
    decodeHead (UInt8.ofNat v) rest = (some (Char.ofNat v), 0) := by
  unfold decodeHead
  rw [if_pos, toNat_byte (by omega)]
  rw [byte_lt (by omega)]
  simp
  omega

private theorem decodeHead_two (low : 127 < v) (high : v ≤ 2047) (rest : Bytes) :
    decodeHead (UInt8.ofNat (v / 64 % 32 + 192)) (UInt8.ofNat (v % 64 + 128) :: rest) = (some (Char.ofNat v), 1) := by
  have second := isSecondByte_bytes (v / 64 % 32 + 192) v (by omega) (by omega) (by omega) (by omega)
    (by omega)
  unfold decodeHead
  rw [if_neg, if_neg]
  · simp only [second, payload_byte]
    rw [if_neg (by simp), if_pos, toNat_byte (by omega)]
    · congr 3
      omega
    · rw [byte_lt (by omega)]
      simp
      omega
  · exact lead_not_stray (by omega) (by omega)
  · exact lead_not_single (by omega) (by omega)

private theorem decodeHead_three (low : 2047 < v) (high : v ≤ 65535) (plain : v < 0xD800 ∨ 0xDFFF < v) (rest : Bytes) :
    decodeHead (UInt8.ofNat (v / 4096 % 16 + 224)) (UInt8.ofNat (v / 64 % 64 + 128) :: UInt8.ofNat (v % 64 + 128) :: rest) =
      (some (Char.ofNat v), 2) := by
  have second := isSecondByte_bytes (v / 4096 % 16 + 224) (v / 64) (by omega) (by omega) (by omega)
    (by omega) (by omega)
  unfold decodeHead
  rw [if_neg, if_neg]
  · simp only [second, payload_byte, isContinuation_byte]
    rw [if_neg (by simp), if_neg, if_neg (by simp), if_pos, toNat_byte (by omega)]
    · congr 3
      omega
    · rw [byte_lt (by omega)]
      simp
      omega
    · rw [byte_lt (by omega)]
      simp
  · exact lead_not_stray (by omega) (by omega)
  · exact lead_not_single (by omega) (by omega)

private theorem decodeHead_four (low : 65535 < v) (high : v < 0x110000) (rest : Bytes) :
    decodeHead (UInt8.ofNat (v / 262144 % 8 + 240)) (UInt8.ofNat (v / 4096 % 64 + 128) ::
      UInt8.ofNat (v / 64 % 64 + 128) :: UInt8.ofNat (v % 64 + 128) :: rest) = (some (Char.ofNat v), 3) := by
  have second := isSecondByte_bytes (v / 262144 % 8 + 240) (v / 4096) (by omega) (by omega) (by omega)
    (by omega) (by omega)
  unfold decodeHead
  rw [if_neg, if_neg]
  · simp only [second, payload_byte, isContinuation_byte]
    rw [if_neg (by simp), if_neg, if_neg (by simp), if_neg, if_neg (by simp), toNat_byte (by omega)]
    · congr 3
      omega
    · rw [byte_lt (by omega)]
      simp
    · rw [byte_lt (by omega)]
      simp
  · exact lead_not_stray (by omega) (by omega)
  · exact lead_not_single (by omega) (by omega)

end Bytes

theorem decodeUnits_encodeChar (char : Char) (rest : Bytes) :
    decodeUnits (String.utf8EncodeChar char ++ rest) = some char :: decodeUnits rest := by
  have valid : char.val.toNat < 0xD800 ∨ 0xDFFF < char.val.toNat ∧ char.val.toNat < 0x110000 := char.valid
  have same : Char.ofNat char.val.toNat = char := Char.ofNat_toNat char
  unfold String.utf8EncodeChar
  extract_lets v
  split
  · next low =>
    rw [List.singleton_append, decodeUnits, decodeHead_one low, same]
    rfl
  · split
    · next low high =>
      rw [List.cons_append, List.singleton_append, decodeUnits, decodeHead_two (by omega) high, same]
      rfl
    · split
      · next low high =>
        rw [List.cons_append, List.cons_append, List.singleton_append, decodeUnits,
          decodeHead_three (by omega) high (by omega), same]
        rfl
      · next low =>
        rw [List.cons_append, List.cons_append, List.cons_append, List.singleton_append, decodeUnits,
          decodeHead_four (by omega) (by omega), same]
        rfl

theorem decodeUnits_encodeUtf8 (text : List Char) : decodeUnits (encodeUtf8 text) = text.map some := by
  unfold encodeUtf8
  induction text with
  | nil =>
    rw [List.flatMap_nil, decodeUnits]
    rfl
  | cons char rest ih => rw [List.flatMap_cons, decodeUnits_encodeChar, ih, List.map_cons]

/-- Texts come back from their bytes. -/
theorem decodeUtf8?_encodeUtf8 (text : List Char) : decodeUtf8? (encodeUtf8 text) = some text := by
  rw [decodeUtf8?, decodeUnits_encodeUtf8]
  induction text with
  | nil => rfl
  | cons char rest ih => simp [ih]

theorem encodeUtf8_append (text more : List Char) : encodeUtf8 (text ++ more) = encodeUtf8 text ++ encodeUtf8 more :=
  List.flatMap_append

/-- The byte of a new line. -/
def lineFeed : UInt8 := 10

theorem encodeUtf8_newline : encodeUtf8 ['\n'] = [lineFeed] := rfl

/-- A byte below 128 in the encoding of a character is all of it. -/
theorem eq_ofNat_of_mem_utf8EncodeChar {char : Char} {byte : UInt8} (ascii : byte.toNat < 128)
    (inside : byte ∈ String.utf8EncodeChar char) : char = Char.ofNat byte.toNat := by
  have value {n : Nat} (small : n < 256) (same : byte = UInt8.ofNat n) : byte.toNat = n := by
    rw [same]
    exact toNat_byte small
  have code : char.val.toNat = byte.toNat := by
    unfold String.utf8EncodeChar at inside
    extract_lets v at inside
    split at inside
    · exact (value (by omega) (List.mem_singleton.1 inside)).symm
    -- All bytes of longer sequences are above those of single characters.
    · split at inside
      · simp only [List.mem_cons, List.not_mem_nil, or_false] at inside
        rcases inside with same | same <;> have := value (by omega) same <;> omega
      · split at inside <;> simp only [List.mem_cons, List.not_mem_nil, or_false] at inside
        · rcases inside with same | same | same <;> have := value (by omega) same <;> omega
        · rcases inside with same | same | same | same <;> have := value (by omega) same <;> omega
  rw [← code]
  exact (Char.ofNat_toNat char).symm

theorem not_mem_encodeUtf8 {text : List Char} {byte : UInt8} (ascii : byte.toNat < 128)
    (absent : Char.ofNat byte.toNat ∉ text) : byte ∉ encodeUtf8 text := by
  intro inside
  obtain ⟨char, member, bytes⟩ := List.mem_flatMap.1 inside
  rw [eq_ofNat_of_mem_utf8EncodeChar ascii bytes] at member
  exact absent member

theorem lineFeed_not_mem_encodeUtf8 {text : List Char} (unbroken : '\n' ∉ text) : lineFeed ∉ encodeUtf8 text :=
  not_mem_encodeUtf8 (by decide) unbroken

end SymbolCache.Text
