import SymbolCache.Text.Basic

/-! Texts and their byte positions. A text that has been cut into pieces has its cuts at the byte
lengths of the pieces, so slices by positions are pieces again. -/

namespace SymbolCache.Text

@[simp] theorem byteLength_append (first second : List Char) :
    byteLength (first ++ second) = byteLength first + byteLength second := by
  induction first with
  | nil => simp [byteLength]
  | cons c rest ih => simp only [List.cons_append, byteLength, ih, Nat.add_assoc]

theorem byteLength_pos (c : Char) (rest : List Char) : 0 < byteLength (c :: rest) := by
  have := c.utf8Size_pos
  simp only [byteLength]
  omega

theorem dropBytes_byteLength (before after : List Char) : dropBytes (byteLength before) (before ++ after) = some after := by
  induction before with
  | nil => simp [byteLength, dropBytes]
  | cons c rest ih =>
    obtain ⟨n, length⟩ := Nat.exists_eq_succ_of_ne_zero (Nat.ne_of_gt (byteLength_pos c rest))
    rw [length, List.cons_append, dropBytes, ← Nat.succ_eq_add_one, ← length, byteLength,
      if_pos (Nat.le_add_right ..), Nat.add_sub_cancel_left, ih]

/-- A position that can be dropped to cuts the text. -/
theorem exists_of_dropBytes {position : Nat} {text rest : List Char} (drops : dropBytes position text = some rest) :
    ∃ front, text = front ++ rest ∧ byteLength front = position := by
  fun_induction dropBytes position text with
  | case1 text =>
    cases drops
    exact ⟨[], rfl, rfl⟩
  | case2 position => cases drops
  | case3 position c text fits ih =>
    obtain ⟨front, split, length⟩ := ih drops
    exact ⟨c :: front, by rw [split, List.cons_append], by rw [byteLength, length]; omega⟩
  | case4 position c text fits => cases drops

theorem takeBytes_byteLength (before after : List Char) : takeBytes (byteLength before) (before ++ after) = some before := by
  induction before with
  | nil => simp [byteLength, takeBytes]
  | cons c rest ih =>
    obtain ⟨n, length⟩ := Nat.exists_eq_succ_of_ne_zero (Nat.ne_of_gt (byteLength_pos c rest))
    rw [length, List.cons_append, takeBytes, ← Nat.succ_eq_add_one, ← length, byteLength,
      if_pos (Nat.le_add_right ..), Nat.add_sub_cancel_left, ih, Option.map_some]

theorem slice_between (before inner after : List Char) :
    slice (before ++ inner ++ after) (byteLength before) (byteLength before + byteLength inner) = inner := by
  unfold slice
  rw [List.append_assoc, dropBytes_byteLength, Option.bind_some, Nat.add_sub_cancel_left, takeBytes_byteLength,
    Option.getD_some]

theorem slice_start (before after : List Char) : slice (before ++ after) 0 (byteLength before) = before := by
  have between := slice_between [] before after
  simpa [byteLength] using between

theorem slice_end (before after : List Char) :
    slice (before ++ after) (byteLength before) (byteLength (before ++ after)) = after := by
  have between := slice_between before after []
  simpa using between

theorem lastLine_append {line : List Char} (unbroken : '\n' ∉ line) (before : List Char) :
    lastLine (before ++ line) = lastLine before ++ line := by
  have whole : ∀ c ∈ line.reverse, (c != '\n') = true := by
    intro c inside
    rw [List.mem_reverse] at inside
    have other : c ≠ '\n' := by
      intro same
      exact unbroken (same ▸ inside)
    simpa using other
  unfold lastLine
  rw [List.reverse_append, List.takeWhile_append_of_pos whole]
  simp

@[simp] theorem lastLine_newline (before : List Char) : lastLine (before ++ ['\n']) = [] := by
  simp [lastLine]

theorem newline_not_mem_lastLine (text : List Char) : '\n' ∉ lastLine text := by
  intro inside
  have kept := List.all_eq_true.1 List.all_takeWhile _ (List.mem_reverse.1 inside)
  simp at kept

/-- The text has no character of this class at its front. -/
def Stops (p : Char → Bool) (text : List Char) : Prop := ∀ c, text.head? = some c → p c = false

theorem any_head?_eq_false {p : Char → Bool} {text : List Char} : text.head?.any p = false ↔ Stops p text := by
  cases text <;> simp [Stops]

theorem Stops.nil (p : Char → Bool) : Stops p [] := by
  intro c first
  cases first

theorem Stops.cons {p : Char → Bool} {c : Char} (other : p c = false) (rest : List Char) : Stops p (c :: rest) := by
  intro first same
  cases same
  exact other

theorem Stops.append {p : Char → Bool} {text : List Char} (stops : Stops p text) (present : text ≠ [])
    (more : List Char) : Stops p (text ++ more) := by
  cases text with
  | nil => exact absurd rfl present
  | cons c rest => exact .cons (stops c rfl) (rest ++ more)

theorem Stops.dropWhile (p : Char → Bool) (text : List Char) : Stops p (text.dropWhile p) := by
  intro c first
  have stop := List.head?_dropWhile_not p text
  rw [first] at stop
  simpa using stop

theorem takeWhile_append_stops {p : Char → Bool} {rest : List Char} (stops : Stops p rest) (text : List Char) :
    (text ++ rest).takeWhile p = text.takeWhile p := by
  induction text with
  | nil =>
    cases rest with
    | nil => rfl
    | cons c rest => simp [stops c rfl]
  | cons c text ih => simp only [List.cons_append, List.takeWhile_cons, ih]

theorem dropWhile_append_stops {p : Char → Bool} {rest : List Char} (stops : Stops p rest) (text : List Char) :
    (text ++ rest).dropWhile p = text.dropWhile p ++ rest := by
  induction text with
  | nil =>
    cases rest with
    | nil => rfl
    | cons c rest => simp [stops c rfl]
  | cons c text ih =>
    simp only [List.cons_append, List.dropWhile_cons, ih]
    split <;> rfl

theorem dropWhile_stops {p : Char → Bool} {text : List Char} (stops : Stops p text) : text.dropWhile p = text := by
  have dropped := dropWhile_append_stops stops []
  simpa using dropped

/-- A run of one class before a text that stops it is what is taken. -/
theorem takeWhile_run {p : Char → Bool} {run rest : List Char} (all : ∀ c ∈ run, p c = true) (stops : Stops p rest) :
    (run ++ rest).takeWhile p = run := by
  have none := takeWhile_append_stops stops []
  rw [List.takeWhile_append_of_pos all]
  simpa using none

theorem dropWhile_run {p : Char → Bool} {run rest : List Char} (all : ∀ c ∈ run, p c = true) (stops : Stops p rest) :
    (run ++ rest).dropWhile p = rest := by
  rw [List.dropWhile_append_of_pos all, dropWhile_stops stops]

/-- The text has no character of this class at its end. -/
def Ends (p : Char → Bool) (text : List Char) : Prop := Stops p text.reverse

theorem Ends.concat {p : Char → Bool} {c : Char} (other : p c = false) (text : List Char) : Ends p (text ++ [c]) := by
  rw [Ends, List.reverse_concat]
  exact .cons other _

theorem dropEndWhile_run {p : Char → Bool} {run : List Char} (all : ∀ c ∈ run, p c = true) (text : List Char) :
    dropEndWhile p (text ++ run) = dropEndWhile p text := by
  unfold dropEndWhile
  rw [List.reverse_append, List.dropWhile_append_of_pos (fun c inside => all c (List.mem_reverse.1 inside))]

theorem dropEndWhile_ends {p : Char → Bool} {text : List Char} (ends : Ends p text) : dropEndWhile p text = text := by
  unfold dropEndWhile
  rw [dropWhile_stops ends, List.reverse_reverse]

theorem ends_dropEndWhile (p : Char → Bool) (text : List Char) : Ends p (dropEndWhile p text) := by
  unfold Ends dropEndWhile
  rw [List.reverse_reverse]
  exact .dropWhile p _

/-- What is dropped from the end of a text. -/
theorem exists_dropEndWhile (p : Char → Bool) (text : List Char) :
    ∃ run, text = dropEndWhile p text ++ run ∧ ∀ c ∈ run, p c = true := by
  refine ⟨(text.reverse.takeWhile p).reverse, ?_, ?_⟩
  · unfold dropEndWhile
    rw [← List.reverse_append, List.takeWhile_append_dropWhile, List.reverse_reverse]
  · intro c inside
    exact List.all_eq_true.1 List.all_takeWhile c (List.mem_reverse.1 inside)

theorem Stops.dropEndWhile {p q : Char → Bool} {text : List Char} (stops : Stops q text) :
    Stops q (dropEndWhile p text) := by
  obtain ⟨run, whole, -⟩ := exists_dropEndWhile p text
  intro c first
  refine stops c ?_
  rw [whole, List.head?_append, first, Option.some_or]

theorem trimEnd_ne_nil {text : List Char} (stops : Stops isBlank text) (present : text ≠ []) : trimEnd text ≠ [] := by
  obtain ⟨run, whole, blank⟩ := exists_dropEndWhile isBlank text
  intro empty
  rw [show dropEndWhile isBlank text = [] from empty, List.nil_append] at whole
  subst whole
  cases text with
  | nil => exact present rfl
  | cons c rest =>
    have first := stops c rfl
    rw [blank c (List.mem_cons_self ..)] at first
    cases first

theorem not_mem_of_blank {text : List Char} (blank : ∀ c ∈ text, isBlank c = true) {c : Char}
    (visible : isBlank c = false) : c ∉ text := by
  intro inside
  rw [blank c inside] at visible
  cases visible

theorem trimStart_run {run rest : List Char} (blank : ∀ c ∈ run, isBlank c = true) (stops : Stops isBlank rest) :
    trimStart (run ++ rest) = rest := dropWhile_run blank stops

theorem exists_trimStart (text : List Char) :
    ∃ run, text = run ++ trimStart text ∧ ∀ c ∈ run, isBlank c = true :=
  ⟨text.takeWhile isBlank, List.takeWhile_append_dropWhile.symm, fun c inside =>
    List.all_eq_true.1 List.all_takeWhile c inside⟩

end SymbolCache.Text
