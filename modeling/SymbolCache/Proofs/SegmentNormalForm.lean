import SymbolCache.Proofs.ScratchDirectories

/-! What cleaning makes of a path segment, and when cleaning it again changes nothing. Dots at the end are dropped once,
between two passes that drop blanks, so a dot that only blanks part from the last dots is at the end afterwards. -/

namespace SymbolCache
open Text (Stops Ends Trimmed)

/-- The text with a line in place of every character that a segment must not contain. -/
def cleaned (text : List Char) : List Char := text.map fun c => if isUnsafe c then '_' else c

/-- What is left of a text when blanks, then dots at the end, then blanks have been dropped. -/
def stem (text : List Char) : List Char := Text.trim (Text.dropEndWhile (· == '.') (Text.trim (cleaned text)))

theorem sanitizeSegment_eq (text : String) : sanitizeSegment text =
    if stem text.toList = [] ∨ stem text.toList = ['.'] ∨ stem text.toList = ['.', '.'] then "_"
    else String.ofList (stem text.toList) := by
  unfold sanitizeSegment
  simp only [Bool.or_eq_true, beq_iff_eq, or_assoc]
  rfl

theorem cleaned_of_allowed {text : List Char} (allowed : ∀ c ∈ text, isUnsafe c = false) : cleaned text = text := by
  refine (List.map_congr_left fun c member => ?_).trans (List.map_id text)
  rw [allowed c member]
  rfl

/-- Blanks, then dots at the end of a text, behind a dot that ends the rest of it. -/
structure DotsApart (text front gap dots : List Char) : Prop where
  whole : text = front ++ '.' :: (gap ++ dots)
  present : gap ≠ []
  blank : ∀ c ∈ gap, Text.isBlank c = true
  dotted : ∀ c ∈ dots, c = '.'

private theorem ends_dot_of_blank {gap : List Char} (present : gap ≠ []) (blank : ∀ c ∈ gap, Text.isBlank c = true)
    (front : List Char) : Ends (· == '.') (front ++ gap) := by
  obtain ⟨rest, last, rfl⟩ := (List.eq_nil_or_concat gap).resolve_left present
  rw [List.concat_eq_append, ← List.append_assoc]
  refine .concat ?_ _
  rw [beq_eq_false_iff_ne]
  rintro rfl
  exact absurd (blank '.' (by simp)) (by decide)

theorem stem_eq_concat_dot_iff {text front : List Char} :
    stem text = front ++ ['.'] ↔ ∃ gap dots, DotsApart (Text.trim (cleaned text)) front gap dots := by
  obtain ⟨dots, whole, dotted⟩ := Text.exists_dropEndWhile (· == '.') (Text.trim (cleaned text))
  have stops : Stops Text.isBlank (Text.dropEndWhile (· == '.') (Text.trim (cleaned text))) := (Text.stops_trim _).dropEndWhile
  have trimmed : stem text = Text.trimEnd (Text.dropEndWhile (· == '.') (Text.trim (cleaned text))) := by
    rw [stem, Text.trim, Text.trimStart, Text.dropWhile_stops stops]
  rw [trimmed]
  constructor
  · intro same
    obtain ⟨gap, split, blank⟩ :=
      Text.exists_dropEndWhile Text.isBlank (Text.dropEndWhile (· == '.') (Text.trim (cleaned text)))
    rw [show Text.dropEndWhile Text.isBlank _ = front ++ ['.'] from same] at split
    refine ⟨gap, dots, ?_, ?_, blank, fun c inside => beq_iff_eq.1 (dotted c inside)⟩
    · rw [whole, split]
      simp
    · rintro rfl
      have ends := Text.ends_dropEndWhile (· == '.') (Text.trim (cleaned text))
      rw [split] at ends
      have last := ends '.' (by simp)
      cases last
  · rintro ⟨gap, dots, apart⟩
    have dropped : Text.dropEndWhile (· == '.') (Text.trim (cleaned text)) = front ++ '.' :: gap := by
      have run : Text.trim (cleaned text) = (front ++ '.' :: gap) ++ dots := by
        rw [apart.whole]
        simp
      have ends := ends_dot_of_blank apart.present apart.blank (front ++ ['.'])
      rw [List.append_assoc] at ends
      rw [run, Text.dropEndWhile_run (fun c inside => beq_iff_eq.2 (apart.dotted c inside))]
      exact Text.dropEndWhile_ends ends
    have split : front ++ '.' :: gap = (front ++ ['.']) ++ gap := by simp
    rw [dropped, split, Text.trimEnd, Text.dropEndWhile_run apart.blank]
    exact Text.dropEndWhile_ends (.concat (by decide) front)

/-- A text whose cleaned form goes on ending in a dot once its last dots are dropped. -/
def KeepsDot (text : List Char) : Prop :=
  ∃ front gap dots, DotsApart (Text.trim (cleaned text)) front gap dots ∧ front ≠ [] ∧ front ≠ ['.']

theorem toList_sanitizeSegment_of_dotsApart {text : String} {front gap dots : List Char}
    (apart : DotsApart (Text.trim (cleaned text.toList)) front gap dots) (filled : front ≠ []) (more : front ≠ ['.']) :
    (sanitizeSegment text).toList = front ++ ['.'] := by
  have same := stem_eq_concat_dot_iff.2 ⟨gap, dots, apart⟩
  rw [sanitizeSegment_eq, if_neg, String.toList_ofList, same]
  rw [same]
  rintro (empty | dot | up)
  · exact absurd empty (by simp)
  · exact filled (List.append_left_eq_self.1 dot)
  · exact more (List.append_cancel_right (show front ++ ['.'] = ['.'] ++ ['.'] from up))

theorem getLast?_sanitizeSegment_iff (text : String) :
    (sanitizeSegment text).toList.getLast? = some '.' ↔ KeepsDot text.toList := by
  constructor
  · intro last
    rw [sanitizeSegment_eq] at last
    split at last
    · cases last
    · rename_i other
      rw [String.toList_ofList] at last
      obtain ⟨front, same⟩ := List.getLast?_eq_some_iff.1 last
      obtain ⟨gap, dots, apart⟩ := stem_eq_concat_dot_iff.1 same
      rw [same] at other
      refine ⟨front, gap, dots, apart, ?_, ?_⟩
      · rintro rfl
        exact other (.inr (.inl rfl))
      · rintro rfl
        exact other (.inr (.inr rfl))
  · rintro ⟨front, gap, dots, apart, filled, more⟩
    rw [toList_sanitizeSegment_of_dotsApart apart filled more]
    simp

theorem trimmed_sanitizeSegment (text : String) : Trimmed (sanitizeSegment text).toList := by
  rw [sanitizeSegment_eq]
  split
  · exact ⟨by decide, .cons (by decide) _, .cons (by decide) _⟩
  · rename_i other
    rw [String.toList_ofList]
    exact Text.trimmed_trim fun empty => other (.inl empty)

theorem sanitizeSegment_of_clean {segment : String} (trimmed : Trimmed segment.toList)
    (allowed : ∀ c ∈ segment.toList, isUnsafe c = false) (undotted : segment.toList.getLast? ≠ some '.') :
    sanitizeSegment segment = segment := by
  have ends : Ends (· == '.') segment.toList := by
    intro c last
    rw [List.head?_reverse] at last
    rw [beq_eq_false_iff_ne]
    rintro rfl
    exact undotted last
  have same : stem segment.toList = segment.toList := by
    rw [stem, cleaned_of_allowed allowed, trimmed.trim, Text.dropEndWhile_ends ends, trimmed.trim]
  rw [sanitizeSegment_eq, same, if_neg, String.ofList_toList]
  rintro (empty | dot | up)
  · exact trimmed.nonempty empty
  · exact undotted (by rw [dot]; rfl)
  · exact undotted (by rw [up]; rfl)

/-- A cleaned segment is filled, allowed in all its characters and free of blanks at both ends. It ends in a dot, and
changes when it is cleaned again, exactly if the text keeps a dot. -/
theorem sanitizeSegment_settles_iff (text : String) :
    Trimmed (sanitizeSegment text).toList ∧
    (∀ c ∈ (sanitizeSegment text).toList, isUnsafe c = false) ∧
    ((sanitizeSegment text).toList.getLast? = some '.' ↔ KeepsDot text.toList) ∧
    (sanitizeSegment (sanitizeSegment text) = sanitizeSegment text ↔ ¬ KeepsDot text.toList) := by
  have trimmed := trimmed_sanitizeSegment text
  have allowed : ∀ c ∈ (sanitizeSegment text).toList, isUnsafe c = false := fun _ => allowed_of_mem_sanitizeSegment
  have dotted := getLast?_sanitizeSegment_iff text
  refine ⟨trimmed, allowed, dotted, ?_⟩
  constructor
  · intro settled keeps
    have last : (sanitizeSegment (sanitizeSegment text)).toList.getLast? = some '.' := by
      rw [settled]
      exact dotted.2 keeps
    obtain ⟨front, gap, dots, apart, filled, more⟩ := (getLast?_sanitizeSegment_iff (sanitizeSegment text)).1 last
    have shorter := toList_sanitizeSegment_of_dotsApart apart filled more
    have whole := apart.whole
    rw [cleaned_of_allowed allowed, trimmed.trim, ← settled, shorter] at whole
    have length := congrArg List.length whole
    have present := List.length_pos_of_ne_nil apart.present
    simp only [List.length_append, List.length_cons, List.length_nil] at length
    omega
  · intro stays
    exact sanitizeSegment_of_clean trimmed allowed fun last => stays (dotted.1 last)

theorem sanitizeSegment_of_spacedDots : KeepsDot "Base. .".toList ∧ sanitizeSegment "Base. ." = "Base." ∧
    sanitizeSegment (sanitizeSegment "Base. .") ≠ sanitizeSegment "Base. ." := by
  have keeps : KeepsDot "Base. .".toList := by
    refine ⟨"Base".toList, [' '], ['.'], ⟨by decide +kernel, by decide, ?_, ?_⟩, by decide, by decide⟩
    · exact List.all_eq_true.1 rfl
    · exact fun c inside => List.mem_singleton.1 inside
  obtain ⟨-, -, -, settles⟩ := sanitizeSegment_settles_iff "Base. ."
  exact ⟨keeps, by decide +kernel, fun settled => settles.1 settled keeps⟩

end SymbolCache
