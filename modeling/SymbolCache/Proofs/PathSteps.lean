import SymbolCache.Files.Tree
import SymbolCache.Proofs.TextSplitting

/-! The steps of a path are its parts without blanks and dots. Joining, cutting and trimming paths is
described by them. -/

namespace SymbolCache.Path

/-- Whether a part of a path leads anywhere. -/
def isStep (part : String) : Bool := part != "" && part != "."

def steps (path : Path) : List String := (parts path).filter isStep

/-- The steps of a path given as characters. -/
private def stepsOf (text : List Char) : List String := ((Text.splitAt '/' text).map String.ofList).filter isStep

private theorem steps_eq (path : Path) : steps path = stepsOf path.toList := rfl

private theorem stepsOf_append (before after : List Char) :
    stepsOf (before ++ '/' :: after) = stepsOf before ++ stepsOf after := by
  rw [stepsOf, Text.splitAt_append, List.map_append, List.filter_append]
  rfl

private theorem stepsOf_nil : stepsOf [] = [] := rfl

private theorem stepsOf_slashless {text : List Char} (slashless : '/' ∉ text) :
    stepsOf text = [String.ofList text].filter isStep := by
  rw [stepsOf, Text.splitAt_of_not_mem slashless]
  rfl

private theorem stepsOf_dropTail (text : List Char) : stepsOf (dropTail text).reverse = stepsOf text.reverse := by
  fun_induction dropTail text with
  | case1 c rest ih =>
    have ended : ('/' :: c :: rest).reverse = (c :: rest).reverse ++ '/' :: [] := by rw [List.reverse_cons]
    rw [ih, ended, stepsOf_append, stepsOf_nil, List.append_nil]
  | case2 rest ih =>
    have dot : stepsOf ['.'] = [] := by decide
    rw [ih, List.reverse_cons, List.reverse_cons, List.reverse_cons, List.append_assoc, List.singleton_append,
      stepsOf_append, stepsOf_append, stepsOf_nil, dot]
  | case3 text => rfl

private theorem stepsOf_trimTail (text : List Char) : stepsOf (trimTail text) = stepsOf text := by
  rw [trimTail, stepsOf_dropTail, List.reverse_reverse]

private theorem dropTail_suffix (text : List Char) : dropTail text <:+ text := by
  fun_induction dropTail text with
  | case1 c rest ih => exact ih.trans (List.suffix_cons ..)
  | case2 rest ih => exact ih.trans (List.suffix_cons ..)
  | case3 text => exact List.suffix_refl _

private theorem dropTail_ne_nil {text : List Char} (filled : text ≠ []) : dropTail text ≠ [] := by
  fun_induction dropTail text with
  | case1 c rest ih => exact ih (by simp)
  | case2 rest ih => exact ih (by simp)
  | case3 text => exact filled

/-- What is left has no slash at its end, unless it is one, and no dot after a slash. -/
private theorem dropTail_stops (text : List Char) :
    (∀ c rest, dropTail text ≠ '/' :: c :: rest) ∧ ∀ rest, dropTail text ≠ '.' :: '/' :: rest := by
  fun_induction dropTail text with
  | case1 c rest ih => exact ih
  | case2 rest ih => exact ih
  | case3 text notSlash notDot =>
    exact ⟨fun c rest same => notSlash c rest same, fun rest same => notDot rest same⟩

theorem trimTail_isPrefix (text : List Char) : trimTail text <+: text := by
  rw [trimTail, ← List.reverse_suffix, List.reverse_reverse]
  exact dropTail_suffix text.reverse

private theorem trimTail_ne_nil {text : List Char} (filled : text ≠ []) : trimTail text ≠ [] := by
  rw [trimTail, Ne, List.reverse_eq_nil_iff]
  exact dropTail_ne_nil (by simpa using filled)

private theorem head?_of_beginning {text whole : List Char} (inside : text <+: whole) (filled : text ≠ []) :
    text.head? = whole.head? := by
  obtain ⟨rest, rfl⟩ := inside
  cases text with
  | nil => exact absurd rfl filled
  | cons c text => rfl

theorem isAbsolute_join {base addition : Path} (relative : isAbsolute addition = false) :
    isAbsolute (join base addition) = isAbsolute base := by
  unfold join
  rw [relative]
  by_cases blank : base = ""
  · subst blank
    exact relative
  · have filled : base.toList ≠ [] := fun empty => blank (String.toList_eq_nil_iff.1 empty)
    have kept (rest : List Char) : (base.toList ++ rest).head? = base.toList.head? :=
      (head?_of_beginning (List.prefix_append ..) filled).symm
    simp only [Bool.false_eq_true, if_false]
    split
    · rw [isAbsolute, isAbsolute, String.toList_append, kept]
    · rw [isAbsolute, isAbsolute, String.toList_append, String.toList_append, List.append_assoc, kept]

theorem steps_join {base addition : Path} (relative : isAbsolute addition = false) :
    steps (join base addition) = steps base ++ steps addition := by
  unfold join
  rw [relative]
  simp only [Bool.false_eq_true, if_false, steps_eq]
  split
  · rename_i glued
    rw [String.toList_append]
    rcases Bool.or_eq_true_iff.1 glued with blank | ended
    · rw [beq_iff_eq] at blank
      subst blank
      rfl
    · obtain ⟨front, split⟩ := List.getLast?_eq_some_iff.1 (beq_iff_eq.1 ended)
      rw [split, List.append_assoc, List.singleton_append, stepsOf_append, stepsOf_append, stepsOf_nil,
        List.append_nil]
  · have slash : "/".toList = ['/'] := rfl
    rw [String.toList_append, String.toList_append, slash, List.append_assoc, List.singleton_append, stepsOf_append]

/-- A name that a directory can hold. -/
structure IsName (name : String) : Prop where
  slashless : '/' ∉ name.toList
  isStep : isStep name = true
  notUp : name ≠ ".."

instance : DecidablePred IsName := fun name =>
  decidable_of_iff ('/' ∉ name.toList ∧ isStep name = true ∧ name ≠ "..")
    ⟨fun ⟨slashless, isStep, notUp⟩ => ⟨slashless, isStep, notUp⟩,
      fun named => ⟨named.slashless, named.isStep, named.notUp⟩⟩

theorem IsName.relative {name : String} (named : IsName name) : isAbsolute name = false := by
  rw [isAbsolute, beq_eq_false_iff_ne]
  intro absolute
  exact named.slashless (List.mem_of_head? absolute)

theorem IsName.steps {name : String} (named : IsName name) : steps name = [name] := by
  rw [steps_eq, stepsOf_slashless named.slashless, String.ofList_toList, List.filter_cons_of_pos named.isStep]
  rfl

theorem steps_join_name (base : Path) {name : String} (named : IsName name) :
    Path.steps (join base name) = Path.steps base ++ [name] := by
  rw [steps_join named.relative, named.steps]

theorem fileName?_eq_some_iff {path : Path} {name : String} :
    fileName? path = some name ↔ ∃ front, steps path = front ++ [name] ∧ name ≠ ".." := by
  have split : components path = (if isAbsolute path then [.root]
      else if (parts path).head? == some "." then [.here] else []) ++ (steps path).map component := rfl
  unfold fileName?
  rcases List.eq_nil_or_concat (steps path) with none | ⟨front, last, ends⟩
  · rw [split, none]
    refine iff_of_false ?_ (by simp)
    split
    · rename_i found
      split at found
      · cases found
      · split at found <;> cases found
    · nofun
  · rw [split, ends]
    simp only [List.concat_eq_append, List.map_append, List.map_cons, List.map_nil, ← List.append_assoc,
      List.getLast?_concat, component]
    by_cases up : last = ".."
    · subst up
      simp only [beq_self_eq_true, if_true, reduceCtorEq, false_iff]
      rintro ⟨_, same, other⟩
      exact other (List.append_singleton_inj.1 same).2.symm
    · have differs : (last == "..") = false := beq_eq_false_iff_ne.2 up
      simp only [differs, Bool.false_eq_true, if_false, Option.some.injEq]
      constructor
      · rintro rfl
        exact ⟨front, rfl, up⟩
      · rintro ⟨_, same, -⟩
        exact (List.append_singleton_inj.1 same).2

theorem fileName?_join (base : Path) {name : String} (named : IsName name) :
    fileName? (join base name) = some name :=
  fileName?_eq_some_iff.2 ⟨_, steps_join_name base named, named.notUp⟩

/-- What stands before a relative path that is joined to a path. -/
private def lead (base : Path) : Path := if base == "" || base.toList.getLast? == some '/' then base else base ++ "/"

private theorem join_eq {base addition : Path} (relative : isAbsolute addition = false) :
    join base addition = lead base ++ addition := by
  unfold join lead
  rw [relative]
  split
  · cases ‹false = true›
  · split <;> rfl

theorem IsName.filled {name : String} (named : IsName name) : name.toList ≠ [] := by
  intro empty
  have blank : name = "" := String.toList_eq_nil_iff.1 empty
  simpa [blank, Path.isStep] using named.isStep

theorem getLast?_join_ne_slash (base : Path) {name : String} (named : IsName name) :
    (join base name).toList.getLast? ≠ some '/' := by
  rw [join_eq named.relative, String.toList_append, List.getLast?_append, List.getLast?_eq_some_getLast named.filled]
  intro slash
  exact named.slashless (Option.some.inj slash ▸ List.getLast_mem named.filled)

private theorem trimTail_append (front : List Char) {name : String} (named : IsName name) :
    trimTail (front ++ name.toList) = front ++ name.toList := by
  have stays : dropTail (front ++ name.toList).reverse = (front ++ name.toList).reverse := by
    rw [List.reverse_append]
    have slashless : '/' ∉ name.toList.reverse := by simpa using named.slashless
    have filled : name.toList.reverse ≠ [] := by simpa using named.filled
    have notDot : name.toList.reverse ≠ ['.'] := by
      intro single
      have dot : name = "." := String.toList_inj.1 (List.reverse_inj.1 single)
      simpa [dot, isStep] using named.isStep
    -- The last characters of the name are no slash and no dot alone, so nothing is dropped.
    rcases shape : name.toList.reverse with _ | ⟨last, _ | ⟨previous, earlier⟩⟩
    · exact absurd shape filled
    · rw [shape] at slashless notDot
      unfold dropTail
      split
      · simp_all
      · simp_all
      · rfl
    · rw [shape] at slashless
      unfold dropTail
      split
      · simp_all
      · simp_all
      · rfl
  rw [trimTail, stays, List.reverse_reverse]

/-- A file keeps its directory when its extension is replaced. -/
theorem withExtension_join (base : Path) {name ext : String} (named : IsName name) (written : ext ≠ "")
    (relative : isAbsolute ((splitName name).1 ++ "." ++ ext) = false) :
    withExtension (join base name) ext = join base ((splitName name).1 ++ "." ++ ext) := by
  have notEmpty : (ext == "") = false := beq_eq_false_iff_ne.2 written
  unfold withExtension
  rw [fileName?_join base named]
  simp only [join_eq named.relative, join_eq relative, String.toList_append, trimTail_append _ named, notEmpty,
    Bool.false_eq_true, if_false, List.length_append]
  have front : (lead base).toList.length + name.toList.length - name.length = (lead base).toList.length := by
    rw [String.length_toList, String.length_toList]
    omega
  rw [front, List.take_left, String.ofList_toList, String.append_assoc, String.append_assoc]

private theorem trimTail_cases (text : List Char) : '/' ∉ trimTail text ∨ trimTail text = ['/'] ∨
    ∃ front last, trimTail text = front ++ '/' :: last ∧ '/' ∉ last ∧ isStep (String.ofList last) = true := by
  by_cases slashless : '/' ∈ trimTail text
  · right
    obtain ⟨last, front, split, absent⟩ := List.eq_append_cons_of_mem (List.mem_reverse.2 slashless)
    have whole : trimTail text = front.reverse ++ '/' :: last.reverse := by
      rw [← List.reverse_reverse (trimTail text), split]
      simp
    obtain ⟨noSlash, noDot⟩ := dropTail_stops text.reverse
    have reversed : dropTail text.reverse = last ++ '/' :: front := by
      rw [← split, trimTail, List.reverse_reverse]
    rw [reversed] at noSlash noDot
    by_cases blank : last = []
    · subst blank
      cases front with
      | nil => exact .inl whole
      | cons c front => exact absurd rfl (noSlash c front)
    · have notDot : last ≠ ['.'] := by
        rintro rfl
        exact noDot front rfl
      refine .inr ⟨front.reverse, last.reverse, whole, by simpa using absent, ?_⟩
      simp only [isStep, Bool.and_eq_true, bne_iff_ne, ne_eq]
      refine ⟨fun empty => blank ?_, fun dot => notDot ?_⟩
      · simpa using congrArg String.toList empty
      · have single : last.reverse = ['.'] := by simpa using congrArg String.toList dot
        rw [← List.reverse_reverse last, single]
        rfl
  · exact .inl slashless

private theorem dropWhile_reverse_slashless {last : List Char} (slashless : '/' ∉ last) (rest : List Char) :
    (last.reverse ++ rest).dropWhile (· != '/') = rest.dropWhile (· != '/') := by
  refine List.dropWhile_append_of_pos ?_
  intro c member
  rw [bne_iff_ne]
  rintro rfl
  exact slashless (List.mem_reverse.1 member)

private theorem isAbsolute_eq_head?_trimTail {path : Path} (filled : path.toList ≠ []) :
    isAbsolute path = ((trimTail path.toList).head? == some '/') := by
  rw [isAbsolute, head?_of_beginning (trimTail_isPrefix path.toList) (trimTail_ne_nil filled)]

private theorem components_of_trimTail {path : Path} (filled : path.toList ≠ []) (root : trimTail path.toList = ['/']) :
    components path = [.root] := by
  have split : components path = (if isAbsolute path then [.root]
    else if (parts path).head? == some "." then [.here] else []) ++ (steps path).map component := rfl
  have trimmed : steps path = stepsOf (trimTail path.toList) := (stepsOf_trimTail _).symm
  have blank : stepsOf ['/'] = [] := by decide
  rw [split, isAbsolute_eq_head?_trimTail filled, trimmed, root, blank]
  rfl

/-- The directory of a path has all its steps but the last. -/
theorem parent?_eq_some {path parent : Path} (cut : parent? path = some parent) :
    steps parent = (steps path).dropLast ∧ isAbsolute parent = isAbsolute path ∧ parent.toList <+: path.toList := by
  have filled : path.toList ≠ [] := by
    intro empty
    have blank : path = "" := String.toList_eq_nil_iff.1 empty
    subst blank
    cases cut
  have inside := trimTail_isPrefix path.toList
  have start := isAbsolute_eq_head?_trimTail filled
  have trimmed : steps path = stepsOf (trimTail path.toList) := (stepsOf_trimTail _).symm
  unfold parent? at cut
  split at cut
  · cases cut
  · cases cut
  · rename_i step notRoot lastStep
    simp only at cut
    rcases trimTail_cases path.toList with slashless | root | ⟨front, last, whole, slashless, named⟩
    · have nothing : (trimTail path.toList).reverse.dropWhile (· != '/') = [] := by
        simpa using dropWhile_reverse_slashless slashless []
      rw [nothing] at cut
      cases cut
      have relative : (trimTail path.toList).head? ≠ some '/' := fun head => slashless (List.mem_of_head? head)
      refine ⟨?_, ?_, List.nil_prefix⟩
      · rw [trimmed, stepsOf_slashless slashless, List.filter_cons]
        split <;> rfl
      · rw [start, beq_eq_false_iff_ne.2 relative]
        rfl
    · rw [components_of_trimTail filled root] at lastStep
      cases lastStep
      exact absurd rfl notRoot
    · have kept : (trimTail path.toList).reverse.dropWhile (· != '/') = '/' :: front.reverse := by
        rw [whole, List.reverse_append, List.reverse_cons, List.append_assoc, dropWhile_reverse_slashless slashless]
        rfl
      rw [kept] at cut
      cases cut
      have ended : ('/' :: front.reverse).reverse = front ++ ['/'] := by simp
      have above : front ++ ['/'] <+: trimTail path.toList := ⟨last, by simp [whole]⟩
      refine ⟨?_, ?_, ?_⟩
      · rw [steps_eq, String.toList_ofList, stepsOf_trimTail, ended, trimmed, whole, stepsOf_append, stepsOf_append,
          stepsOf_slashless slashless, List.filter_cons_of_pos named]
        simp [stepsOf_nil]
      · rw [start, isAbsolute, String.toList_ofList, ended,
          head?_of_beginning (trimTail_isPrefix _) (trimTail_ne_nil (by simp)), head?_of_beginning above (by simp)]
      · rw [String.toList_ofList, ended]
        exact (trimTail_isPrefix _).trans (above.trans inside)

theorem length_parent?_lt {path parent : Path} (cut : parent? path = some parent) : parent.length < path.length := by
  have filled : path.toList ≠ [] := by
    intro empty
    have blank : path = "" := String.toList_eq_nil_iff.1 empty
    subst blank
    cases cut
  have whole := (trimTail_isPrefix path.toList).length_le
  rw [← String.length_toList, ← String.length_toList]
  unfold parent? at cut
  split at cut
  · cases cut
  · cases cut
  · rename_i step notRoot lastStep
    simp only at cut
    rcases trimTail_cases path.toList with slashless | root | ⟨front, last, split, slashless, named⟩
    · have nothing : (trimTail path.toList).reverse.dropWhile (· != '/') = [] := by
        simpa using dropWhile_reverse_slashless slashless []
      rw [nothing] at cut
      cases cut
      exact List.length_pos_iff.2 filled
    · rw [components_of_trimTail filled root] at lastStep
      cases lastStep
      exact absurd rfl notRoot
    · have kept : (trimTail path.toList).reverse.dropWhile (· != '/') = '/' :: front.reverse := by
        rw [split, List.reverse_append, List.reverse_cons, List.append_assoc, dropWhile_reverse_slashless slashless]
        rfl
      rw [kept] at cut
      cases cut
      have shorter := (trimTail_isPrefix ('/' :: front.reverse).reverse).length_le
      have stepped : last ≠ [] := by
        rintro rfl
        cases named
      have positive := List.length_pos_iff.2 stepped
      rw [String.toList_ofList]
      rw [split] at whole
      simp only [List.length_append, List.length_cons, List.length_reverse] at shorter whole
      omega

private theorem stepsOf_dropWhile_slash (text : List Char) :
    stepsOf (text.dropWhile (· == '/')).reverse = stepsOf text.reverse := by
  induction text with
  | nil => rfl
  | cons c rest ih =>
    rw [List.dropWhile_cons]
    split
    · rename_i slash
      rw [beq_iff_eq] at slash
      rw [ih, slash, List.reverse_cons, stepsOf_append, stepsOf_nil, List.append_nil]
    · rfl

theorem dropSlashes_spec (path : Path) : steps (FileTree.dropSlashes path) = steps path ∧
    isAbsolute (FileTree.dropSlashes path) = isAbsolute path ∧
      (FileTree.dropSlashes path).toList <+: path.toList := by
  unfold FileTree.dropSlashes
  simp only
  split
  · exact ⟨rfl, rfl, List.prefix_refl _⟩
  · rename_i filled
    have inside : Text.dropEndWhile (· == '/') path.toList <+: path.toList := by
      rw [Text.dropEndWhile, ← List.reverse_suffix, List.reverse_reverse]
      exact List.dropWhile_suffix _
    refine ⟨?_, ?_, by rwa [String.toList_ofList]⟩
    · rw [steps_eq, steps_eq, String.toList_ofList, Text.dropEndWhile, stepsOf_dropWhile_slash, List.reverse_reverse]
    · rw [isAbsolute, isAbsolute, String.toList_ofList, head?_of_beginning inside (by simpa using filled)]

/-- Nothing stands after the last step. -/
def EndsInStep (path : Path) : Prop := ∃ front name, parts path = front ++ [name] ∧ isStep name = true

private theorem parts_ofList (text : List Char) : parts (String.ofList text) = (Text.splitAt '/' text).map String.ofList := by
  rw [parts, String.toList_ofList]

theorem endsInStep_of_parent? {path parent : Path} (cut : parent? path = some parent)
    (absolute : isAbsolute path = true) : EndsInStep parent ∨ steps parent = [] := by
  have start : isAbsolute parent = true := (parent?_eq_some cut).2.1.trans absolute
  unfold parent? at cut
  split at cut
  · cases cut
  · cases cut
  · simp only at cut
    generalize (trimTail path.toList).reverse.dropWhile (· != '/') = kept at cut
    split at cut
    · cases cut
      cases start
    · cases cut
      rcases trimTail_cases kept.reverse with slashless | root | ⟨front, last, whole, slashless, named⟩
      · rw [isAbsolute, String.toList_ofList, beq_iff_eq] at start
        exact absurd (List.mem_of_head? start) slashless
      · right
        rw [root]
        decide
      · left
        refine ⟨(Text.splitAt '/' front).map String.ofList, String.ofList last, ?_, named⟩
        rw [whole, parts_ofList, Text.splitAt_append, Text.splitAt_of_not_mem slashless, List.map_append]
        rfl

theorem exists_parent? {path : Path} (stepped : steps path ≠ []) : ∃ parent, parent? path = some parent := by
  have split : components path = (if isAbsolute path then [.root]
      else if (parts path).head? == some "." then [.here] else []) ++ (steps path).map component := rfl
  obtain ⟨front, last, ends⟩ := (List.eq_nil_or_concat (steps path)).resolve_left stepped
  unfold parent?
  rw [split, ends]
  simp only [List.concat_eq_append, List.map_append, List.map_cons, List.map_nil, ← List.append_assoc,
    List.getLast?_concat]
  split
  · rename_i none
    cases none
  · rename_i root
    rw [component] at root
    split at root <;> cases root
  · split
    · exact ⟨_, rfl⟩
    · exact ⟨_, rfl⟩

theorem EndsInStep.dropSlashes {path : Path} (ends : EndsInStep path) : FileTree.dropSlashes path = path := by
  obtain ⟨front, name, split, step⟩ := ends
  have notSlash : path.toList.getLast? ≠ some '/' := by
    intro last
    obtain ⟨before, whole⟩ := List.getLast?_eq_some_iff.1 last
    have blank : parts path = (Text.splitAt '/' before).map String.ofList ++ [""] := by
      rw [parts, whole, Text.splitAt_append, List.map_append]
      rfl
    rw [(List.append_singleton_inj.1 (split.symm.trans blank)).2] at step
    cases step
  have kept : Text.dropEndWhile (· == '/') path.toList = path.toList := by
    unfold Text.dropEndWhile
    rw [← List.head?_reverse] at notSlash
    cases reversed : path.toList.reverse with
    | nil => simpa using congrArg List.reverse reversed.symm
    | cons c rest =>
      rw [reversed] at notSlash
      have differs : (c == '/') = false := by simpa using notSlash
      rw [List.dropWhile_cons_of_neg (by simp [differs]), ← reversed, List.reverse_reverse]
  unfold FileTree.dropSlashes
  simp only [kept, String.ofList_toList, ite_self]

end SymbolCache.Path
