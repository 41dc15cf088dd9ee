import SymbolCache.Proofs.TextPositions
import SymbolCache.Settings.Basic

/-! Which packages an excluded directory takes with it. All files in a directory of that name are left out, at any depth,
and so is every path in which a name behind a slash goes on after the name of the directory or ends with it. -/

namespace SymbolCache

namespace Text

theorem stripStart?_eq_some_iff {beginning text rest : List Char} :
    stripStart? beginning text = some rest ↔ text = beginning ++ rest := by
  induction beginning generalizing text with
  | nil => exact Option.some_inj
  | cons p beginning ih =>
    cases text with
    | nil => simp [stripStart?]
    | cons c text =>
      rw [stripStart?]
      by_cases same : p = c
      · subst same
        rw [if_pos (beq_self_eq_true p), ih, List.cons_append, List.cons.injEq]
        exact (and_iff_right rfl).symm
      · rw [if_neg (by simpa using same)]
        simp [Ne.symm same]

theorem startsWith_iff {beginning text : List Char} : startsWith beginning text = true ↔ beginning <+: text := by
  rw [startsWith, Option.isSome_iff_exists]
  exact exists_congr fun rest => stripStart?_eq_some_iff.trans eq_comm

theorem endsWith_iff {ending text : List Char} : endsWith ending text = true ↔ ending <:+ text := by
  rw [endsWith, stripEnd?, Option.isSome_map, ← List.reverse_prefix]
  exact startsWith_iff

theorem occursIn_iff {needle text : List Char} : occursIn needle text = true ↔ needle <:+: text := by
  induction text with
  | nil => rw [occursIn, List.isEmpty_iff, List.infix_nil]
  | cons c text ih => rw [occursIn, Bool.or_eq_true, startsWith_iff, ih, List.infix_cons_iff]

end Text

/-- The path of a file in a directory of this name, wherever the directory is. -/
def LiesIn (dir path : List Char) : Prop := dir ++ ['/'] <+: path ∨ '/' :: (dir ++ ['/']) <:+: path

/-- A path in which a name behind a slash begins like the directory and is not divided after it. -/
def LiesBeside (dir path : List Char) : Prop :=
  ∃ front rest, path = front ++ '/' :: (dir ++ rest) ∧ rest.head? ≠ some '/'

theorem infix_slash_iff {dir path : List Char} :
    '/' :: dir <:+: path ↔ '/' :: (dir ++ ['/']) <:+: path ∨ LiesBeside dir path := by
  constructor
  · rintro ⟨front, rest, rfl⟩
    by_cases divided : rest.head? = some '/'
    · obtain ⟨rest, rfl⟩ := List.head?_eq_some_iff.1 divided
      exact .inl ⟨front, rest, by simp⟩
    · exact .inr ⟨front, rest, by simp, divided⟩
  · rintro (⟨front, rest, rfl⟩ | ⟨front, rest, rfl, -⟩)
    · exact ⟨front, '/' :: rest, by simp⟩
    · exact ⟨front, rest, by simp⟩

theorem matchesPattern_directory {dir : List Char} (undivided : dir.getLast? ≠ some '/') (path : List Char) :
    matchesPattern path (dir ++ ['/']) = true ↔ LiesIn dir path ∨ LiesBeside dir path := by
  have ends : Text.endsWith ['/'] (dir ++ ['/']) = true := Text.endsWith_iff.2 (List.suffix_append ..)
  have bare : Text.dropEndWhile (· == '/') (dir ++ ['/']) = dir := by
    have stays : Text.Ends (· == '/') dir := by
      intro c last
      rw [List.head?_reverse] at last
      rw [beq_eq_false_iff_ne]
      rintro rfl
      exact undivided last
    rw [Text.dropEndWhile_run (List.all_eq_true.1 rfl), Text.dropEndWhile_ends stays]
  rw [matchesPattern, if_pos ends, bare, Bool.or_eq_true, Text.startsWith_iff, Text.occursIn_iff, infix_slash_iff, LiesIn,
    or_assoc]

/-- The text of a path with slashes only. -/
def slashed (path : Path) : List Char := path.toList.map fun c => if c == '\\' then '/' else c

namespace PackageSettings

/-- A path with one of the extensions of packages. -/
def Names (settings : PackageSettings) (path : Path) : Prop :=
  ∃ ext, Path.extension? path = some ext ∧ ∃ wanted ∈ settings.extensions, Text.sameWord wanted.toList ext.toList = true

theorem isPackage_eq_false_iff {settings : PackageSettings} {path : Path} (named : settings.Names path) :
    settings.isPackage path = false ↔
      ∃ pattern ∈ settings.exclude, matchesPattern (slashed path) pattern.toList = true := by
  obtain ⟨ext, found, wanted, listed, same⟩ := named
  have extension : ((Path.extension? path).any fun ext =>
      settings.extensions.any fun wanted => Text.sameWord wanted.toList ext.toList) = true := by
    rw [found]
    exact List.any_eq_true.2 ⟨wanted, listed, same⟩
  rw [isPackage, extension, Bool.true_and, Bool.not_eq_false', List.any_eq_true]
  rfl

/-- Of the paths with an extension of packages, those are left out that lie in an excluded directory or beside one. -/
theorem left_out_iff_in_or_beside {settings : PackageSettings} {dirs : List String}
    (exclude : settings.exclude = dirs.map (· ++ "/")) (undivided : ∀ dir ∈ dirs, dir.toList.getLast? ≠ some '/')
    {path : Path} (named : settings.Names path) :
    settings.isPackage path = false ↔ ∃ dir ∈ dirs, LiesIn dir.toList (slashed path) ∨ LiesBeside dir.toList (slashed path) := by
  have directory {dir : String} (listed : dir ∈ dirs) : matchesPattern (slashed path) (dir ++ "/").toList = true ↔
      LiesIn dir.toList (slashed path) ∨ LiesBeside dir.toList (slashed path) := by
    rw [String.toList_append]
    exact matchesPattern_directory (undivided dir listed) _
  rw [isPackage_eq_false_iff named, exclude]
  constructor
  · rintro ⟨pattern, listed, matched⟩
    obtain ⟨dir, inside, rfl⟩ := List.mem_map.1 listed
    exact ⟨dir, inside, (directory inside).1 matched⟩
  · rintro ⟨dir, listed, found⟩
    exact ⟨dir ++ "/", List.mem_map_of_mem listed, (directory listed).2 found⟩

/-- A package in a directory whose name only begins like that of an excluded one. -/
theorem left_out_beside_archive :
    let settings : PackageSettings := { exclude := ["archive/"] }
    (settings.exclude = ["archive"].map (· ++ "/") ∧ ∀ dir ∈ ["archive"], dir.toList.getLast? ≠ some '/') ∧
      settings.Names "/p/archived/Pub_App_1.0.app" ∧ settings.isPackage "/p/archived/Pub_App_1.0.app" = false ∧
      ¬ LiesIn "archive".toList (slashed "/p/archived/Pub_App_1.0.app") := by
  intro settings
  have exclude : settings.exclude = ["archive"].map (· ++ "/") := rfl
  have undivided : ∀ dir ∈ ["archive"], dir.toList.getLast? ≠ some '/' := by decide
  have named : settings.Names "/p/archived/Pub_App_1.0.app" :=
    ⟨"app", by decide +kernel, "app", List.mem_singleton_self _, by decide⟩
  refine ⟨⟨exclude, undivided⟩, named, ?_, by unfold LiesIn; decide +kernel⟩
  refine (left_out_iff_in_or_beside exclude undivided named).2 ⟨"archive", List.mem_singleton_self _, .inr ?_⟩
  exact ⟨"/p".toList, "d/Pub_App_1.0.app".toList, by decide +kernel, by decide⟩

end PackageSettings

end SymbolCache
