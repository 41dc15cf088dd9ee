import SymbolCache.Text.Basic

/-! Cutting texts at a separator and joining them again. -/

namespace SymbolCache.Text

theorem splitAt_ne_nil (separator : Char) (text : List Char) : splitAt separator text ≠ [] := by
  cases text with
  | nil => simp [splitAt]
  | cons c rest =>
    unfold splitAt
    split
    · simp
    · split <;> simp

theorem exists_splitAt_concat (separator : Char) (text : List Char) :
    ∃ front last, splitAt separator text = front ++ [last] :=
  ⟨_, _, (List.dropLast_concat_getLast (splitAt_ne_nil separator text)).symm⟩

theorem splitAt_of_not_mem {separator : Char} {text : List Char} (absent : separator ∉ text) :
    splitAt separator text = [text] := by
  induction text with
  | nil => rfl
  | cons c rest ih =>
    rw [List.mem_cons, not_or] at absent
    rw [splitAt, if_neg (by simpa using Ne.symm absent.1), ih absent.2]

theorem splitAt_append (separator : Char) (before after : List Char) :
    splitAt separator (before ++ separator :: after) = splitAt separator before ++ splitAt separator after := by
  induction before with
  | nil => simp [splitAt]
  | cons c rest ih =>
    rw [List.cons_append, splitAt, splitAt, ih]
    split
    · rfl
    · cases parts : splitAt separator rest with
      | nil => exact absurd parts (splitAt_ne_nil separator rest)
      | cons part others => rfl

theorem not_mem_of_mem_splitAt {separator : Char} {text part : List Char} (member : part ∈ splitAt separator text) :
    separator ∉ part := by
  induction text generalizing part with
  | nil =>
    rw [splitAt, List.mem_singleton] at member
    simp [member]
  | cons c rest ih =>
    unfold splitAt at member
    split at member
    · rcases List.mem_cons.1 member with rfl | later
      · simp
      · exact ih later
    · rename_i other
      have distinct : separator ≠ c := by
        intro same
        simp [same] at other
      split at member
      · rename_i parts
        exact absurd parts (splitAt_ne_nil separator rest)
      · rename_i first others parts
        rcases List.mem_cons.1 member with rfl | later
        · rw [List.mem_cons, not_or]
          exact ⟨distinct, ih (by simp [parts])⟩
        · exact ih (by simp [parts, later])

theorem mem_of_mem_splitAt {separator c : Char} {text part : List Char} (member : part ∈ splitAt separator text)
    (inside : c ∈ part) : c ∈ text := by
  induction text generalizing part with
  | nil => exact List.mem_singleton.1 member ▸ inside
  | cons first rest ih =>
    obtain ⟨head, others, parts⟩ := List.exists_cons_of_ne_nil (splitAt_ne_nil separator rest)
    rw [splitAt, parts] at member
    rw [parts] at ih
    split at member
    · rcases List.mem_cons.1 member with rfl | later
      · cases inside
      · exact List.mem_cons_of_mem _ (ih later inside)
    · rcases List.mem_cons.1 member with rfl | later
      · rcases List.mem_cons.1 inside with rfl | inHead
        · exact List.mem_cons_self ..
        · exact List.mem_cons_of_mem _ (ih (List.mem_cons_self ..) inHead)
      · exact List.mem_cons_of_mem _ (ih (List.mem_cons_of_mem _ later) inside)

theorem cutAt?_append {separator : Char} {before : List Char} (absent : separator ∉ before) (after : List Char) :
    cutAt? separator (before ++ separator :: after) = some (before, after) := by
  induction before with
  | nil => simp [cutAt?]
  | cons c before ih =>
    rw [List.mem_cons, not_or] at absent
    rw [List.cons_append, cutAt?, if_neg (by simpa using Ne.symm absent.1), ih absent.2]
    rfl

theorem eq_of_cutAt? {separator : Char} {text before after : List Char}
    (cut : cutAt? separator text = some (before, after)) : text = before ++ separator :: after := by
  induction text generalizing before with
  | nil => cases cut
  | cons c text ih =>
    unfold cutAt? at cut
    split at cut
    · rename_i same
      rw [beq_iff_eq] at same
      cases cut
      rw [same, List.nil_append]
    · obtain ⟨⟨earlier, later⟩, inner, same⟩ := Option.map_eq_some_iff.1 cut
      cases same
      rw [ih inner, List.cons_append]

theorem not_mem_of_cutAt? {separator : Char} {text before after : List Char}
    (cut : cutAt? separator text = some (before, after)) : separator ∉ before := by
  induction text generalizing before with
  | nil => cases cut
  | cons c text ih =>
    unfold cutAt? at cut
    split at cut
    · cases cut
      simp
    · rename_i other
      obtain ⟨⟨earlier, later⟩, inner, same⟩ := Option.map_eq_some_iff.1 cut
      cases same
      rw [beq_iff_eq] at other
      rw [List.mem_cons, not_or]
      exact ⟨Ne.symm other, ih inner⟩

theorem cutAt?_append_of_eq_some {separator : Char} {text before after : List Char}
    (cut : cutAt? separator text = some (before, after)) (more : List Char) :
    cutAt? separator (text ++ more) = some (before, after ++ more) := by
  rw [eq_of_cutAt? cut, List.append_assoc, List.cons_append, cutAt?_append (not_mem_of_cutAt? cut)]

/-- Joining the parts of a text gives it back. -/
theorem intercalate_splitAt (separator : Char) (text : List Char) :
    [separator].intercalate (splitAt separator text) = text := by
  induction text with
  | nil => rfl
  | cons c rest ih =>
    unfold splitAt
    split
    · rename_i same
      rw [beq_iff_eq] at same
      cases parts : splitAt separator rest with
      | nil => exact absurd parts (splitAt_ne_nil separator rest)
      | cons part others =>
        rw [parts] at ih
        rw [List.intercalate_cons_cons, ih, same]
        rfl
    · cases parts : splitAt separator rest with
      | nil => exact absurd parts (splitAt_ne_nil separator rest)
      | cons part others =>
        rw [parts] at ih
        cases others with
        | nil => simpa [List.intercalate] using ih
        | cons next others =>
          rw [List.intercalate_cons_cons] at ih ⊢
          simpa using ih

theorem splitAt_intercalate {separator : Char} {parts : List (List Char)} (present : parts ≠ [])
    (absent : ∀ part ∈ parts, separator ∉ part) : splitAt separator ([separator].intercalate parts) = parts := by
  induction parts with
  | nil => exact absurd rfl present
  | cons part parts ih =>
    have first := absent part (List.mem_cons_self ..)
    cases parts with
    | nil => rw [List.intercalate_singleton, splitAt_of_not_mem first]
    | cons next parts =>
      rw [List.intercalate_cons_cons, List.append_assoc, List.singleton_append, splitAt_append, splitAt_of_not_mem first,
        ih (List.cons_ne_nil _ _) (fun other inside => absent other (List.mem_cons_of_mem _ inside))]
      rfl

theorem intercalate_of_append {p : List Char → Prop} (append : ∀ {front back : List Char}, p front → p back → p (front ++ back))
    (empty : p []) {separator : List Char} (between : p separator) {parts : List (List Char)} (all : ∀ part ∈ parts, p part) :
    p (separator.intercalate parts) := by
  induction parts with
  | nil => exact empty
  | cons part parts ih =>
    have first := all part (List.mem_cons_self ..)
    have rest := ih fun other inside => all other (List.mem_cons_of_mem _ inside)
    cases parts with
    | nil => rwa [List.intercalate_singleton]
    | cons next parts =>
      rw [List.intercalate_cons_cons]
      exact append (append first between) rest

theorem exists_intercalate_concat (separator : List Char) (parts : List (List Char)) (last : List Char) :
    ∃ front, separator.intercalate (parts ++ [last]) = front ++ last := by
  induction parts with
  | nil => exact ⟨[], List.intercalate_singleton ..⟩
  | cons part parts ih =>
    obtain ⟨front, joined⟩ := ih
    obtain ⟨next, rest, shape⟩ := List.exists_cons_of_ne_nil (l := parts ++ [last]) (by simp)
    refine ⟨part ++ separator ++ front, ?_⟩
    rw [List.cons_append, shape, List.intercalate_cons_cons, ← shape, joined, ← List.append_assoc]

/-- Appends two lists of parts so that the last part and the first one become one. -/
def splice {α : Type} : List (List α) → List (List α) → List (List α)
  | [], back => back
  | [last], [] => [last]
  | [last], first :: back => (last ++ first) :: back
  | part :: next :: front, back => part :: splice (next :: front) back

theorem splice_cons {α : Type} (part : List α) {front : List (List α)} (present : front ≠ []) (back : List (List α)) :
    splice (part :: front) back = part :: splice front back := by
  cases front with
  | nil => exact absurd rfl present
  | cons next front => rfl

theorem splitAt_splice (separator : Char) (front back : List Char) :
    splitAt separator (front ++ back) = splice (splitAt separator front) (splitAt separator back) := by
  induction front with
  | nil =>
    obtain ⟨part, parts, split⟩ := List.exists_cons_of_ne_nil (splitAt_ne_nil separator back)
    rw [List.nil_append, split]
    rfl
  | cons c front ih =>
    obtain ⟨part, parts, split⟩ := List.exists_cons_of_ne_nil (splitAt_ne_nil separator front)
    obtain ⟨other, others, splitBack⟩ := List.exists_cons_of_ne_nil (splitAt_ne_nil separator back)
    rw [List.cons_append, splitAt, splitAt, ih]
    split
    · rw [splice_cons [] (splitAt_ne_nil separator front)]
    · rw [split, splitBack]
      cases parts with
      | nil => rfl
      | cons next parts => rfl

theorem splice_concat {α : Type} (front : List (List α)) (last first : List α) (back : List (List α)) :
    splice (front ++ [last]) (first :: back) = front ++ (last ++ first) :: back := by
  induction front with
  | nil => rfl
  | cons part front ih => rw [List.cons_append, splice_cons part (by simp), ih, List.cons_append]

theorem splice_nil {α : Type} {parts : List (List α)} (present : parts ≠ []) : splice parts [[]] = parts := by
  obtain ⟨front, last, rfl⟩ := (List.eq_nil_or_concat parts).resolve_left present
  rw [List.concat_eq_append, splice_concat, List.append_nil]

theorem exists_of_mem_splice {α : Type} {front back : List (List α)} {part : List α} (member : part ∈ splice front back) :
    part ∈ front ∨ part ∈ back ∨ ∃ last ∈ front, ∃ first ∈ back, part = last ++ first := by
  induction front with
  | nil => exact .inr (.inl member)
  | cons head front ih =>
    cases front with
    | nil =>
      cases back with
      | nil => exact .inl member
      | cons first back =>
        rcases List.mem_cons.1 member with rfl | later
        · exact .inr (.inr ⟨head, List.mem_cons_self .., first, List.mem_cons_self .., rfl⟩)
        · exact .inr (.inl (List.mem_cons_of_mem _ later))
    | cons next front =>
      rcases List.mem_cons.1 member with rfl | later
      · exact .inl (List.mem_cons_self ..)
      · rcases ih later with inFront | inBack | ⟨last, inFront, first, inBack, rfl⟩
        · exact .inl (List.mem_cons_of_mem _ inFront)
        · exact .inr (.inl inBack)
        · exact .inr (.inr ⟨last, List.mem_cons_of_mem _ inFront, first, inBack, rfl⟩)

/-- A line without the carriage return of its line end. -/
def stripReturn (line : List Char) : List Char := (stripEnd? ['\r'] line).getD line

theorem stripReturn_concat (text : List Char) (c : Char) :
    stripReturn (text ++ [c]) = if c = '\r' then text else text ++ [c] := by
  by_cases same : c = '\r'
  · simp [stripReturn, stripEnd?, stripStart?, same]
  · simp [stripReturn, stripEnd?, stripStart?, same, Ne.symm same]

theorem stripReturn_append {back : List Char} (present : back ≠ []) (front : List Char) :
    stripReturn (front ++ back) = front ++ stripReturn back := by
  obtain ⟨rest, c, rfl⟩ := (List.eq_nil_or_concat back).resolve_left present
  rw [List.concat_eq_append, ← List.append_assoc, stripReturn_concat, stripReturn_concat, List.append_assoc]
  split <;> rfl

theorem stripReturn_kept {front : List Char} (kept : stripReturn front = front) (back : List Char) :
    stripReturn (front ++ back) = front ++ stripReturn back := by
  by_cases present : back = []
  · rw [present, List.append_nil, kept]
    exact (List.append_nil _).symm
  · exact stripReturn_append present front

theorem mem_of_mem_stripReturn {line : List Char} {c : Char} (member : c ∈ stripReturn line) : c ∈ line := by
  rcases List.eq_nil_or_concat line with rfl | ⟨rest, last, rfl⟩
  · exact member
  · rw [List.concat_eq_append] at member ⊢
    rw [stripReturn_concat] at member
    split at member
    · exact List.mem_append_left _ member
    · exact member

theorem map_stripReturn_splice {front : List Char} (kept : stripReturn front = front) {lines : List (List Char)}
    (present : lines ≠ []) : (splice [front] lines).map stripReturn = splice [front] (lines.map stripReturn) := by
  obtain ⟨line, rest, rfl⟩ := List.exists_cons_of_ne_nil present
  rw [List.map_cons]
  exact congrArg (· :: rest.map stripReturn) (stripReturn_kept kept line)

/-- What holds of every line of a text, with and without the carriage return of its line end. -/
def EachLine (p : List Char → Prop) (text : List Char) : Prop :=
  ∀ line ∈ splitAt '\n' text, p line ∧ p (stripReturn line)

namespace EachLine

variable {p : List Char → Prop}

theorem of_line {line : List Char} (unbroken : '\n' ∉ line) (whole : p line) (stripped : p (stripReturn line)) :
    EachLine p line := by
  intro other member
  rw [splitAt_of_not_mem unbroken, List.mem_singleton] at member
  rw [member]
  exact ⟨whole, stripped⟩

theorem of_blank {run : List Char} (blank : ∀ c ∈ run, isBlank c = true)
    (holds : ∀ other : List Char, (∀ c ∈ other, isBlank c = true) → p other) : EachLine p run := by
  intro line member
  have inside : ∀ c ∈ line, isBlank c = true := fun c inLine => blank c (mem_of_mem_splitAt member inLine)
  exact ⟨holds line inside, holds _ fun c inLine => inside c (mem_of_mem_stripReturn inLine)⟩

theorem append (closed : ∀ {front back : List Char}, p front → p back → p (front ++ back)) {front back : List Char}
    (first : EachLine p front) (second : EachLine p back) : EachLine p (front ++ back) := by
  intro line member
  rw [splitAt_splice] at member
  rcases exists_of_mem_splice member with inFront | inBack | ⟨last, inFront, start, inBack, rfl⟩
  · exact first line inFront
  · exact second line inBack
  · obtain ⟨whole, stripped⟩ := first last inFront
    obtain ⟨otherWhole, otherStripped⟩ := second start inBack
    refine ⟨closed whole otherWhole, ?_⟩
    by_cases present : start = []
    · rw [present, List.append_nil]
      exact stripped
    · rw [stripReturn_append present]
      exact closed whole otherStripped

end EachLine

/-- The lines of a text that ends with a line feed come before those of what follows. -/
theorem lines_newline (before second : List Char) :
    lines (before ++ '\n' :: second) = (splitAt '\n' before).map stripReturn ++ lines second := by
  have present := splitAt_ne_nil '\n' second
  have last : (splitAt '\n' before ++ splitAt '\n' second).getLast? = (splitAt '\n' second).getLast? := by
    rw [List.getLast?_append, Option.or_of_isSome (by simpa using present)]
  simp only [lines, splitAt_append, last, List.dropLast_append_of_ne_nil present, List.map_append]
  split
  · rfl
  · rfl
  · exact List.append_assoc ..

theorem lines_append {first : List Char} (ends : first.getLast? = some '\n') (second : List Char) :
    lines (first ++ second) = lines first ++ lines second := by
  obtain ⟨before, rfl⟩ := List.getLast?_eq_some_iff.1 ends
  rw [List.append_assoc, List.singleton_append, lines_newline, lines_newline, List.append_assoc]
  rfl

/-- A line end of two characters ends a last line as the end of the text does. -/
theorem lines_returned {c : Char} (other : c ≠ '\n') (text : List Char) :
    lines (text ++ [c] ++ ['\r', '\n']) = lines (text ++ [c]) := by
  obtain ⟨front, last, split⟩ := exists_splitAt_concat '\n' text
  have whole : splitAt '\n' (text ++ [c]) = front ++ [last ++ [c]] := by
    rw [splitAt_splice, split, splitAt_of_not_mem (by simpa using Ne.symm other), splice_concat]
  have returned : splitAt '\n' (text ++ [c] ++ ['\r']) = front ++ [last ++ [c] ++ ['\r']] := by
    rw [splitAt_splice, whole, splitAt_of_not_mem (by decide), splice_concat]
  have ended : lines [] = [] := rfl
  rw [show text ++ [c] ++ ['\r', '\n'] = text ++ [c] ++ ['\r'] ++ '\n' :: [] by simp, lines_newline, returned,
    List.map_append, List.map_singleton, stripReturn_concat, if_pos rfl, ended, List.append_nil, lines]
  simp only [whole, List.getLast?_concat, List.dropLast_concat]
  cases last <;> rfl

end SymbolCache.Text
