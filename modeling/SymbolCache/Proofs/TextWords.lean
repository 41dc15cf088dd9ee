import SymbolCache.Proofs.LegacyHeader
import SymbolCache.Proofs.TextSplitting

/-! Words between blanks, and the columns of words between semicolons. Which blanks part two texts does not matter to
their words, so a list that is spread over lines has the columns of the same list on one line. -/

namespace SymbolCache.Text

/-- The words of a text, with nothing for a word between two blanks. -/
def pieces (text : List Char) : List (List Char) :=
  text.foldr (fun c acc => if isBlank c then [] :: acc else match acc with
    | [] => [[c]]
    | word :: others => (c :: word) :: others) [[]]

theorem words_eq (text : List Char) : words text = (pieces text).filter fun word => !word.isEmpty := rfl

theorem pieces_cons (c : Char) (text : List Char) : pieces (c :: text) = if isBlank c then [] :: pieces text
    else match pieces text with
      | [] => [[c]]
      | word :: others => (c :: word) :: others := by
  rw [pieces, List.foldr_cons]
  rfl

theorem pieces_ne_nil (text : List Char) : pieces text ≠ [] := by
  cases text with
  | nil => exact List.cons_ne_nil _ _
  | cons c text =>
    rw [pieces_cons]
    split
    · exact List.cons_ne_nil _ _
    · split <;> exact List.cons_ne_nil _ _

theorem pieces_append {c : Char} (blank : isBlank c = true) (front back : List Char) :
    pieces (front ++ c :: back) = pieces front ++ pieces back := by
  induction front with
  | nil => rw [List.nil_append, pieces_cons, if_pos blank]; rfl
  | cons d front ih =>
    rw [List.cons_append, pieces_cons, pieces_cons, ih]
    split
    · rfl
    · obtain ⟨word, others, split⟩ := List.exists_cons_of_ne_nil (pieces_ne_nil front)
      rw [split]
      rfl

theorem words_append {c : Char} (blank : isBlank c = true) (front back : List Char) :
    words (front ++ c :: back) = words front ++ words back := by
  rw [words_eq, pieces_append blank, List.filter_append]
  rfl

theorem words_cons {c : Char} (blank : isBlank c = true) (text : List Char) : words (c :: text) = words text :=
  words_append blank [] text

theorem words_run {run : List Char} (blank : ∀ c ∈ run, isBlank c = true) (text : List Char) :
    words (run ++ text) = words text := by
  induction run with
  | nil => rfl
  | cons c run ih =>
    rw [List.cons_append, words_cons (blank c (List.mem_cons_self ..)), ih fun d inside => blank d (List.mem_cons_of_mem _ inside)]

theorem words_word {word : List Char} (present : word ≠ []) (unblank : ∀ c ∈ word, isBlank c = false) :
    words word = [word] := by
  have whole : pieces word = [word] := by
    clear present
    induction word with
    | nil => rfl
    | cons c word ih =>
      rw [pieces_cons, unblank c (List.mem_cons_self ..), if_neg Bool.false_ne_true,
        ih fun d inside => unblank d (List.mem_cons_of_mem _ inside)]
  rw [words_eq, whole]
  obtain ⟨c, rest, rfl⟩ := List.exists_cons_of_ne_nil present
  rfl

/-- Words with one space between them. -/
inductive SingleSpaced : List Char → Prop where
  | word {word : List Char} (present : word ≠ []) (unblank : ∀ c ∈ word, isBlank c = false) : SingleSpaced word
  | cons {word rest : List Char} (present : word ≠ []) (unblank : ∀ c ∈ word, isBlank c = false)
      (more : SingleSpaced rest) : SingleSpaced (word ++ ' ' :: rest)

namespace SingleSpaced

variable {text : List Char}

theorem squeeze (spaced : SingleSpaced text) : squeeze text = text := by
  have joined : words text ≠ [] ∧ [' '].intercalate (words text) = text := by
    induction spaced with
    | word present unblank =>
      rw [words_word present unblank]
      exact ⟨List.cons_ne_nil _ _, List.intercalate_singleton ..⟩
    | @cons word rest present unblank more ih =>
      obtain ⟨first, others, split⟩ := List.exists_cons_of_ne_nil ih.1
      rw [words_append (by decide), words_word present unblank]
      refine ⟨List.cons_ne_nil _ _, ?_⟩
      rw [List.singleton_append, split, List.intercalate_cons_cons, ← split, ih.2, List.append_assoc]
      rfl
  exact joined.2

theorem append {other : List Char} (spaced : SingleSpaced text) (more : SingleSpaced other) :
    SingleSpaced (text ++ ' ' :: other) := by
  induction spaced with
  | word present unblank => exact .cons present unblank more
  | cons present unblank _ ih =>
    rw [List.append_assoc, List.cons_append]
    exact .cons present unblank ih

theorem concat {c : Char} (spaced : SingleSpaced text) (unblank : isBlank c = false) : SingleSpaced (text ++ [c]) := by
  induction spaced with
  | @word word present all =>
    refine .word (by simp) fun d inside => ?_
    rcases List.mem_append.1 inside with before | last
    · exact all d before
    · exact List.mem_singleton.1 last ▸ unblank
  | cons present all _ ih =>
    rw [List.append_assoc, List.cons_append]
    exact .cons present all ih

theorem trimmed (spaced : SingleSpaced text) : Trimmed text := by
  have first {word : List Char} (unblank : ∀ c ∈ word, isBlank c = false) : Stops isBlank word :=
    fun c head => unblank c (List.mem_of_mem_head? head)
  induction spaced with
  | word present unblank =>
    exact ⟨present, first unblank, first fun c inside => unblank c (List.mem_reverse.1 inside)⟩
  | @cons word rest present unblank more ih =>
    refine ⟨by simp, (first unblank).append present _, ?_⟩
    rw [Ends, List.reverse_append, List.reverse_cons, List.append_assoc]
    exact Stops.append ih.ends (by simpa using ih.nonempty) _

/-- The only blanks are spaces. -/
theorem eq_space (spaced : SingleSpaced text) {c : Char} (inside : c ∈ text) (blank : isBlank c = true) : c = ' ' := by
  have other {word : List Char} (unblank : ∀ c ∈ word, isBlank c = false) (inside : c ∈ word) : c = ' ' := by
    rw [unblank c inside] at blank
    cases blank
  induction spaced with
  | word present unblank => exact other unblank inside
  | cons present unblank more ih =>
    rcases List.mem_append.1 inside with before | after
    · exact other unblank before
    · rcases List.mem_cons.1 after with rfl | later
      · rfl
      · exact ih later

theorem unbroken (spaced : SingleSpaced text) : '\n' ∉ text := fun inside =>
  absurd (spaced.eq_space inside rfl) (by decide)

theorem stripReturn (spaced : SingleSpaced text) : stripReturn text = text := by
  obtain ⟨rest, last, rfl⟩ := (List.eq_nil_or_concat text).resolve_left spaced.trimmed.nonempty
  rw [List.concat_eq_append] at spaced ⊢
  rw [stripReturn_concat, if_neg]
  rintro rfl
  exact absurd (spaced.eq_space (List.mem_append_right _ (List.mem_singleton_self _)) rfl) (by decide)

end SingleSpaced

/-- The words between semicolons. -/
def columns (text : List Char) : List (List (List Char)) := (splitAt ';' text).map words

theorem columns_ne_nil (text : List Char) : columns text ≠ [] := by
  rw [columns, ne_eq, List.map_eq_nil_iff]
  exact splitAt_ne_nil ';' text

/-- Any blank parts two texts in the same way. -/
theorem columns_append {c : Char} (blank : isBlank c = true) (front back : List Char) :
    columns (front ++ c :: back) = splice (columns front) (columns back) := by
  have other : (c == ';') = false := by
    rw [beq_eq_false_iff_ne]
    rintro rfl
    exact absurd blank (by decide)
  obtain ⟨lines, last, split⟩ := exists_splitAt_concat ';' front
  obtain ⟨part, parts, splitBack⟩ := List.exists_cons_of_ne_nil (splitAt_ne_nil ';' back)
  have behind : splitAt ';' (c :: back) = (c :: part) :: parts := by
    rw [splitAt, other, if_neg Bool.false_ne_true, splitBack]
  rw [columns, columns, columns, splitAt_splice, behind, split, splitBack, splice_concat, List.map_append, List.map_append,
    List.map_singleton, List.map_cons, List.map_cons, splice_concat, words_append blank]

theorem columns_nil : columns [] = [[]] := rfl

theorem columns_cons {c : Char} (blank : isBlank c = true) (text : List Char) : columns (c :: text) = columns text := by
  obtain ⟨column, rest, split⟩ := List.exists_cons_of_ne_nil (columns_ne_nil text)
  have spliced := columns_append blank [] text
  rw [List.nil_append, columns_nil, split] at spliced
  rw [spliced, split]
  rfl

theorem columns_run {run : List Char} (blank : ∀ c ∈ run, isBlank c = true) (text : List Char) :
    columns (run ++ text) = columns text := by
  induction run with
  | nil => rfl
  | cons c run ih =>
    rw [List.cons_append, columns_cons (blank c (List.mem_cons_self ..)),
      ih fun d inside => blank d (List.mem_cons_of_mem _ inside)]

theorem columns_append_run {run : List Char} (blank : ∀ c ∈ run, isBlank c = true) (text : List Char) :
    columns (text ++ run) = columns text := by
  cases run with
  | nil => rw [List.append_nil]
  | cons c run =>
    have none : columns run = [[]] := by
      have empty := columns_run (fun d inside => blank d (List.mem_cons_of_mem _ inside)) []
      rwa [List.append_nil, columns_nil] at empty
    rw [columns_append (blank c (List.mem_cons_self ..)), none, splice_nil (columns_ne_nil text)]

theorem columns_trim (text : List Char) : columns (trim text) = columns text := by
  obtain ⟨lead, front, leadBlank⟩ := exists_trimStart text
  obtain ⟨trail, back, trailBlank⟩ := exists_dropEndWhile isBlank (trimStart text)
  calc columns (trim text)
    _ = columns (trim text ++ trail) := (columns_append_run trailBlank _).symm
    _ = columns (trimStart text) := by rw [back]; rfl
    _ = columns (lead ++ trimStart text) := (columns_run leadBlank _).symm
    _ = columns text := by rw [← front]

theorem columns_stripReturn (line : List Char) : columns (stripReturn line) = columns line := by
  rcases List.eq_nil_or_concat line with rfl | ⟨rest, last, rfl⟩
  · rfl
  · rw [List.concat_eq_append, stripReturn_concat]
    split
    · rename_i returned
      have blank : ∀ c ∈ [last], isBlank c = true := fun c inside => by
        rw [List.mem_singleton.1 inside, returned]
        rfl
      exact (columns_append_run blank rest).symm
    · rfl

end SymbolCache.Text
