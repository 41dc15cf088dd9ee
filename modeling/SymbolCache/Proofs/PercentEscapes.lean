import Mathlib.Data.List.Forall2
import SymbolCache.Package.Extraction
import SymbolCache.Proofs.TextBytes

/-! Percent escapes are undone, whether they were written once or the signs were escaped once more. Decoding works on
bytes, and a byte of a character below 128 stands for nothing else, so a percent sign that was not in the text before
begins an escape. -/

namespace SymbolCache.Package
open Text (encodeUtf8)

def IsHexDigit (value : Nat) (digit : Char) : Prop :=
  digit = Nat.digitChar value ∨ digit = (Nat.digitChar value).toUpper

/-- A byte as a percent sign and its two hexadecimal digits. -/
def IsEscape (byte : UInt8) (text : List Char) : Prop :=
  ∃ high low, text = ['%', high, low] ∧ IsHexDigit (byte.toNat / 16) high ∧ IsHexDigit (byte.toNat % 16) low

/-- A text in which some of the characters have been replaced by escapes of all their bytes. -/
inductive Escaped : List Char → List Char → Prop where
  | nil : Escaped [] []
  | keep (c : Char) {text written : List Char} (more : Escaped text written) : Escaped (c :: text) (c :: written)
  | replace (c : Char) {escapes : List (List Char)} {text written : List Char}
      (bytes : List.Forall₂ IsEscape (String.utf8EncodeChar c) escapes) (more : Escaped text written) :
      Escaped (c :: text) (escapes.flatten ++ written)

def escapePercents (text : List Char) : List Char := text.flatMap fun c => if c = '%' then ['%', '2', '5'] else [c]

def percent : UInt8 := 0x25

/-! What decoding does to one byte, to a text without percent signs and to an escape. -/

theorem unescapeBytes_cons {byte : UInt8} (other : byte ≠ percent) (rest : Bytes) :
    unescapeBytes (byte :: rest) = byte :: unescapeBytes rest := by
  match rest with
  | [] | [_] => rfl
  | second :: third :: rest =>
    have plain : ¬ (byte == 0x25) = true := by simpa [percent] using other
    rw [unescapeBytes, if_neg plain]

theorem unescapeBytes_append {bytes : Bytes} (plain : percent ∉ bytes) (rest : Bytes) :
    unescapeBytes (bytes ++ rest) = bytes ++ unescapeBytes rest := by
  induction bytes with
  | nil => rfl
  | cons byte bytes ih =>
    rw [List.mem_cons, not_or] at plain
    rw [List.cons_append, unescapeBytes_cons (Ne.symm plain.1), ih plain.2, List.cons_append]

theorem unescapeBytes_char {c : Char} (plain : c ≠ '%') (rest : Bytes) :
    unescapeBytes (String.utf8EncodeChar c ++ rest) = String.utf8EncodeChar c ++ unescapeBytes rest := by
  apply unescapeBytes_append
  intro inside
  exact plain (Text.eq_ofNat_of_mem_utf8EncodeChar (by decide) inside)

private theorem hexDigits_read : (List.range 16).all (fun value =>
    [Nat.digitChar value, (Nat.digitChar value).toUpper].all fun digit =>
      String.utf8EncodeChar digit == [UInt8.ofNat digit.toNat] &&
        Json.hexValue? (Char.ofNat (UInt8.ofNat digit.toNat).toNat) == some value) = true := by
  decide +kernel

theorem IsHexDigit.reads {value : Nat} {digit : Char} (hex : IsHexDigit value digit) (small : value < 16) :
    ∃ byte, String.utf8EncodeChar digit = [byte] ∧ Json.hexValue? (Char.ofNat byte.toNat) = some value := by
  have listed := List.all_eq_true.1 (List.all_eq_true.1 hexDigits_read value (List.mem_range.2 small)) digit
    (by simpa [IsHexDigit] using hex)
  simp only [Bool.and_eq_true, beq_iff_eq] at listed
  exact ⟨_, listed⟩

theorem IsEscape.unescapeBytes {byte : UInt8} {text : List Char} (escape : IsEscape byte text) (rest : Bytes) :
    unescapeBytes (encodeUtf8 text ++ rest) = byte :: unescapeBytes rest := by
  obtain ⟨high, low, rfl, isHigh, isLow⟩ := escape
  have size := byte.toNat_lt
  obtain ⟨first, firstByte, firstValue⟩ := isHigh.reads (by omega)
  obtain ⟨second, secondByte, secondValue⟩ := isLow.reads (by omega)
  have bytes : encodeUtf8 ['%', high, low] = [percent, first, second] := by
    simp [encodeUtf8, firstByte, secondByte, percent]
    rfl
  have value : (16 * (byte.toNat / 16) + byte.toNat % 16).toUInt8 = byte := by
    rw [Nat.div_add_mod]
    exact UInt8.ofNat_toNat
  rw [bytes, List.cons_append, List.cons_append, List.cons_append, List.nil_append, Package.unescapeBytes,
    if_pos (by decide), firstValue, secondValue]
  simp only [value]

theorem unescapeBytes_escapes {bytes : Bytes} {escapes : List (List Char)} (each : List.Forall₂ IsEscape bytes escapes)
    (rest : Bytes) : unescapeBytes (encodeUtf8 escapes.flatten ++ rest) = bytes ++ unescapeBytes rest := by
  induction each with
  | nil => rfl
  | cons escape _ ih =>
    rw [List.flatten_cons, Text.encodeUtf8_append, List.append_assoc, escape.unescapeBytes, ih, List.cons_append]

theorem Escaped.unescapeBytes {text written : List Char} (escaped : Escaped text written) (plain : '%' ∉ text) :
    unescapeBytes (encodeUtf8 written) = encodeUtf8 text := by
  induction escaped with
  | nil => rfl
  | keep c _ ih =>
    rw [List.mem_cons, not_or] at plain
    rw [encodeUtf8, List.flatMap_cons, unescapeBytes_char (Ne.symm plain.1), ← encodeUtf8, ih plain.2, encodeUtf8,
      encodeUtf8, List.flatMap_cons]
  | replace c each _ ih =>
    rw [List.mem_cons, not_or] at plain
    rw [Text.encodeUtf8_append, unescapeBytes_escapes each, ih plain.2, encodeUtf8, encodeUtf8, List.flatMap_cons]

/-- The escape of a percent sign leaves the sign, and the digits that follow it are not looked at again. -/
theorem unescapeBytes_escapePercents (text : List Char) :
    unescapeBytes (encodeUtf8 (escapePercents text)) = encodeUtf8 text := by
  have sign : IsEscape percent ['%', '2', '5'] := ⟨'2', '5', rfl, .inl rfl, .inl rfl⟩
  induction text with
  | nil => rfl
  | cons c rest ih =>
    rw [escapePercents, List.flatMap_cons, ← escapePercents, Text.encodeUtf8_append]
    by_cases isSign : c = '%'
    · subst isSign
      rw [if_pos rfl, sign.unescapeBytes, ih]
      rfl
    · have char : encodeUtf8 [c] = String.utf8EncodeChar c := List.flatMap_singleton ..
      rw [if_neg isSign, char, unescapeBytes_char isSign, ih, encodeUtf8, encodeUtf8, List.flatMap_cons]

theorem unescape?_of_bytes {written text : List Char}
    (bytes : unescapeBytes (encodeUtf8 written) = encodeUtf8 text) : unescape? written = some text := by
  rw [unescape?, bytes, Text.decodeUtf8?_encodeUtf8]

theorem unescape?_of_plain {text : List Char} (plain : '%' ∉ text) : unescape? text = some text := by
  apply unescape?_of_bytes
  have absent : percent ∉ encodeUtf8 text := Text.not_mem_encodeUtf8 (by decide) plain
  have whole := unescapeBytes_append absent []
  rw [List.append_nil] at whole
  exact whole.trans (List.append_nil _)

theorem Escaped.self (text : List Char) : Escaped text text := by
  induction text with
  | nil => exact .nil
  | cons c _ ih => exact .keep c ih

/-- A segment comes back from its escapes, also when they have been escaped themselves. -/
theorem decodeSegment_of_escaped {text written : List Char} (plain : '%' ∉ text) (escaped : Escaped text written) :
    decodeSegment written = text ∧ decodeSegment (escapePercents written) = text := by
  have once : unescape? written = some text := unescape?_of_bytes (escaped.unescapeBytes plain)
  have twice : unescape? (escapePercents written) = some written :=
    unescape?_of_bytes (unescapeBytes_escapePercents written)
  have noSign : text.contains '%' = false := by simpa using plain
  constructor
  · simp only [decodeSegment, once, noSign, Bool.false_eq_true, if_false]
  · simp only [decodeSegment, twice, once, Option.getD_some]
    -- A first round that leaves no percent sign has found no escape of the text itself.
    by_cases sign : '%' ∈ written
    · rw [if_pos (List.contains_iff_mem.2 sign)]
    · have same : some written = some text := (unescape?_of_plain sign).symm.trans once
      rw [Option.some.inj same, noSign, if_neg Bool.false_ne_true]

/-- A letter of two bytes and a space, escaped in mixed letter case between characters that stay. -/
theorem decodeSegment_of_escaped_umlaut :
    let text : List Char := "Prüf 1.al".toList
    let written : List Char := "Pr%C3%bCf%201.al".toList
    ('%' ∉ text ∧ Escaped text written) ∧ decodeSegment written = text ∧ escapePercents written =
      "Pr%25C3%25bCf%25201.al".toList ∧ decodeSegment (escapePercents written) = text := by
  intro text written
  have plain : '%' ∉ text := by decide
  have umlaut : List.Forall₂ IsEscape (String.utf8EncodeChar 'ü') [['%', 'C', '3'], ['%', 'b', 'C']] :=
    .cons ⟨'C', '3', rfl, .inr rfl, .inl rfl⟩ (.cons ⟨'b', 'C', rfl, .inl rfl, .inr rfl⟩ .nil)
  have space : List.Forall₂ IsEscape (String.utf8EncodeChar ' ') [['%', '2', '0']] :=
    .cons ⟨'2', '0', rfl, .inl rfl, .inl rfl⟩ .nil
  have escaped : Escaped text written :=
    .keep 'P' (.keep 'r' (.replace 'ü' umlaut (.keep 'f' (.replace ' ' space (.self "1.al".toList)))))
  obtain ⟨once, twice⟩ := decodeSegment_of_escaped plain escaped
  exact ⟨⟨plain, escaped⟩, once, by decide, twice⟩

end SymbolCache.Package
