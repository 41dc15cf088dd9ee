import SymbolCache.Proofs.ConfinedChanges

/-! Absolute paths that never lead upwards: they name one location in every tree, and all directories
on the way can be made unless a file is in the way. -/

namespace SymbolCache

namespace Path

/-- An absolute path without steps upwards. -/
structure Straight (path : Path) : Prop where
  absolute : isAbsolute path = true
  forward : ".." ∉ steps path

instance : DecidablePred Straight := fun path =>
  decidable_of_iff (isAbsolute path = true ∧ ".." ∉ steps path)
    ⟨fun ⟨absolute, forward⟩ => ⟨absolute, forward⟩, fun straight => ⟨straight.absolute, straight.forward⟩⟩

/-- All steps are short enough for names of files. -/
def Short (path : Path) : Prop := ∀ step ∈ steps path, step.utf8ByteSize ≤ 255

theorem slashless_of_mem_steps {path : Path} {step : String} (inside : step ∈ steps path) : '/' ∉ step.toList := by
  obtain ⟨chars, member, rfl⟩ := List.mem_map.1 (List.mem_filter.1 inside).1
  rw [String.toList_ofList]
  exact Text.not_mem_of_mem_splitAt member

namespace Straight

variable {path : Path}

theorem isName (straight : Straight path) {step : String} (inside : step ∈ steps path) : IsName step where
  slashless := slashless_of_mem_steps inside
  isStep := (List.mem_filter.1 inside).2
  notUp := fun up => straight.forward (up ▸ inside)

theorem written (straight : Straight path) : path ≠ "" := by
  rintro rfl
  cases straight.absolute

theorem length_steps_le (straight : Straight path) : (steps path).length ≤ path.length := by
  have pieces (text : List Char) : (Text.splitAt '/' text).length ≤ text.length + 1 := by
    induction text with
    | nil => simp [Text.splitAt]
    | cons c rest ih =>
      rw [Text.splitAt]
      split
      · simpa using ih
      · split
        · simp
        · rename_i split
          rw [split] at ih
          simp only [List.length_cons] at ih ⊢
          omega
  have absolute := straight.absolute
  rw [isAbsolute, beq_iff_eq] at absolute
  rw [steps, parts, ← String.length_toList]
  cases whole : path.toList with
  | nil =>
    rw [whole] at absolute
    cases absolute
  | cons c rest =>
    rw [whole] at absolute
    cases absolute
    have shape : Text.splitAt '/' ('/' :: rest) = [] :: Text.splitAt '/' rest := rfl
    rw [shape, List.map_cons, List.filter_cons_of_neg (by decide)]
    calc ((Text.splitAt '/' rest).map String.ofList |>.filter isStep).length
        ≤ ((Text.splitAt '/' rest).map String.ofList).length := List.length_filter_le ..
      _ = (Text.splitAt '/' rest).length := List.length_map ..
      _ ≤ ('/' :: rest).length := pieces rest

theorem join {name : String} (straight : Straight path) (named : IsName name) : Straight (join path name) := by
  refine ⟨(isAbsolute_join named.relative).trans straight.absolute, ?_⟩
  rw [steps_join_name path named, List.mem_append, List.mem_singleton, not_or]
  exact ⟨straight.forward, fun up => named.notUp up.symm⟩

theorem parent? {parent : Path} (straight : Straight path) (cut : parent? path = some parent) : Straight parent := by
  obtain ⟨steps, absolute, -⟩ := parent?_eq_some cut
  exact ⟨absolute.trans straight.absolute, fun up => straight.forward ((List.dropLast_prefix _).subset (steps ▸ up))⟩

end Straight

theorem endsInStep_join {base : Path} (written : base ≠ "") {name : String} (named : IsName name) :
    EndsInStep (join base name) := by
  obtain ⟨before, -, -, -, -, joined⟩ := parts_join named.slashless written
  exact ⟨before, name, joined, named.isStep⟩

end Path

namespace FileTree

variable {tree other after : FileTree} {path : Path} {place location : Location}

theorem foldl_enter_names {names : List String} (named : ∀ name ∈ names, Path.IsName name) (here : Location) :
    names.foldl enter here = here ++ names := by
  induction names generalizing here with
  | nil => exact (List.append_nil here).symm
  | cons name rest ih =>
    rw [List.foldl_cons, enter_name here (named name (List.mem_cons_self ..)),
      ih fun other inside => named other (List.mem_cons_of_mem _ inside), List.append_assoc]
    rfl

theorem startOf_of_isAbsolute (absolute : Path.isAbsolute path = true) : tree.startOf path = [] := if_pos absolute

theorem spot_of_straight (straight : Path.Straight path) : tree.spot path = Path.steps path := by
  rw [spot, startOf_of_isAbsolute straight.absolute, foldl_enter_names fun _ inside => straight.isName inside]
  rfl

theorem visits_iff_of_straight (straight : Path.Straight path) : tree.Visits path place ↔ place <+: Path.steps path := by
  constructor
  · rintro ⟨before, early, rfl⟩
    rwa [startOf_of_isAbsolute straight.absolute,
      foldl_enter_names fun _ inside => straight.isName (early.subset inside)]
  · intro early
    refine ⟨place, early, ?_⟩
    rw [startOf_of_isAbsolute straight.absolute,
      foldl_enter_names fun _ inside => straight.isName (early.subset inside)]
    rfl

/-- What a path passes part by part it also visits step by step. -/
theorem visits_of_parts {before : List String} (early : before <+: Path.parts path) :
    tree.Visits path (before.foldl enter (tree.startOf path)) :=
  ⟨before.filter Path.isStep, early.filter _, (foldl_enter_steps ..).symm⟩

theorem locate_of_visits (start : tree.startOf path = other.startOf path)
    (same : ∀ place, tree.Visits path place → (tree.node? place).map FileNode.timeless =
      (other.node? place).map FileNode.timeless) : tree.locate path = other.locate path := by
  refine locate_congr start fun before early => ?_
  have here := same _ (visits_of_parts early)
  unfold directoryAt
  rcases one : tree.node? (before.foldl enter (tree.startOf path)) with _ | _ | _ <;>
    rcases two : other.node? (before.foldl enter (tree.startOf path)) with _ | _ | _ <;>
    rw [one, two] at here <;> first | rfl | cases here

/-- Without files in the way a path leads somewhere or nowhere. -/
theorem follow_of_open {here : Location} {parts : List String} (short : ∀ part ∈ parts, part.utf8ByteSize ≤ 255)
    (free : ∀ before, before <+: parts → IsOpen (tree.node? (before.foldl enter here))) :
    (∃ location, tree.follow here parts = .ok location) ∨ tree.follow here parts = .error .notFound := by
  induction parts generalizing here with
  | nil => exact .inl ⟨here, rfl⟩
  | cons part rest ih =>
    rw [follow_cons]
    rcases free [] (List.nil_prefix ..) with missing | directory
    · right
      rw [show tree.directoryAt here = .error .notFound by rw [directoryAt]; rw [List.foldl_nil] at missing; rw [missing]]
    · rw [show tree.directoryAt here = .ok () from directoryAt_eq_ok.2 directory]
      simp only [Nat.not_lt.2 (short part (List.mem_cons_self ..)), if_false]
      refine ih (fun other inside => short other (List.mem_cons_of_mem _ inside)) fun before early => ?_
      exact free (part :: before) (List.cons_prefix_cons.2 ⟨rfl, early⟩)

theorem short_parts (short : Path.Short path) : ∀ part ∈ Path.parts path, part.utf8ByteSize ≤ 255 := by
  intro part inside
  by_cases step : Path.isStep part = true
  · exact short part (List.mem_filter.2 ⟨inside, step⟩)
  · rw [Path.isStep, Bool.not_eq_true, Bool.and_eq_false_iff, bne_eq_false_iff_eq, bne_eq_false_iff_eq] at step
    rcases step with rfl | rfl <;> decide

theorem writable_of_locate {location : Location} (located : tree.locate path = .ok location) :
    Writable path ∧ Path.Short path := by
  obtain ⟨writable, followed⟩ := locate_eq_ok_iff.1 located
  refine ⟨writable, fun step inside => ?_⟩
  obtain ⟨before, rest, split⟩ := List.append_of_mem (List.mem_filter.1 inside).1
  exact ((follow_eq_ok_iff.1 followed).2 before step rest split).2

/-- A path leads to its steps where all that stands before a part of it names a directory. -/
theorem locate_eq_steps (straight : Path.Straight path) (writable : Writable path) (short : Path.Short path)
    (directories : ∀ before part rest, Path.parts path = before ++ part :: rest →
      tree.node? (before.foldl enter (tree.startOf path)) = some .directory) :
    tree.locate path = .ok (Path.steps path) := by
  refine locate_eq_ok_iff.2 ⟨writable, follow_eq_ok_iff.2 ⟨?_, ?_⟩⟩
  · rw [← @spot_of_straight tree path straight, spot, Path.steps, foldl_enter_steps]
  · intro before part rest split
    exact ⟨directories before part rest split, short_parts short part (by simp [split])⟩

theorem isDirectory_of_straight (sound : tree.Sound) (straight : Path.Straight path) :
    tree.isDirectory path = true ↔
      Writable path ∧ Path.Short path ∧ tree.node? (Path.steps path) = some .directory := by
  rw [isDirectory_iff]
  constructor
  · rintro ⟨location, located, directory⟩
    obtain ⟨writable, short⟩ := writable_of_locate located
    refine ⟨writable, short, ?_⟩
    rwa [← spot_of_straight straight, ← locate_eq_spot located]
  · rintro ⟨writable, short, directory⟩
    refine ⟨Path.steps path, locate_eq_steps straight writable short fun before part rest split => ?_, directory⟩
    have early : before <+: Path.parts path := ⟨part :: rest, split.symm⟩
    have visited := (visits_iff_of_straight straight).1 (@visits_of_parts tree path before early)
    by_cases whole : before.foldl enter (tree.startOf path) = Path.steps path
    · rw [whole]
      exact directory
    · exact sound.directory_of_prefix visited directory whole

theorem locate_of_writable (writable : Writable path) :
    tree.locate path = tree.follow (tree.startOf path) (Path.parts path) := by
  obtain ⟨valid, written, short⟩ := writable
  rw [locate, if_neg valid, if_neg (by simpa using written), if_neg (by omega)]
  rfl

/-- A path on which a directory can stand: no file is in the way. -/
structure Passable (tree : FileTree) (path : Path) : Prop where
  writable : Writable path
  short : Path.Short path
  free : ∀ place, place <+: Path.steps path → IsOpen (tree.node? place)

theorem Passable.makes {way : Location → Prop} (passable : tree.Passable path) (makes : Makes way tree after) :
    after.Passable path := by
  refine ⟨passable.writable, passable.short, fun place early => ?_⟩
  rcases makes.nodes place with same | ⟨-, -, made⟩
  · rw [same]
    exact passable.free place early
  · exact .inr made

theorem Passable.parent? {parent : Path} (passable : tree.Passable path) (cut : Path.parent? path = some parent)
    (written : parent ≠ "") : tree.Passable parent := by
  obtain ⟨steps, -, inside⟩ := Path.parent?_eq_some cut
  refine ⟨passable.writable.of_beginning written inside, ?_, ?_⟩
  · intro step inside
    rw [steps] at inside
    exact passable.short step ((List.dropLast_prefix _).subset inside)
  · intro place early
    rw [steps] at early
    exact passable.free place (early.trans (List.dropLast_prefix _))

/-- What stands before the last step names the directory above, or one on the way to it. -/
private theorem directory_of_foldl_enter (sound : tree.Sound) (straight : Path.Straight path) (tidy : Path.EndsInStep path)
    (above : tree.node? (Path.steps path).dropLast = some .directory) {before rest : List String} {part : String}
    (split : Path.parts path = before ++ part :: rest) :
    tree.node? (before.foldl enter (tree.startOf path)) = some .directory := by
  obtain ⟨front, name, parts, step⟩ := tidy
  have early : before <+: front := by
    rw [parts] at split
    rcases List.append_eq_append_iff.1 split with ⟨more, rfl, last⟩ | ⟨more, rfl, -⟩
    · cases more with
      | nil => simp
      | cons head more => cases more <;> cases last
    · exact ⟨more, rfl⟩
  have dropped : (Path.steps path).dropLast = front.filter Path.isStep := by
    rw [Path.steps, parts, List.filter_append, List.filter_cons_of_pos step, List.filter_nil, List.dropLast_concat]
  have here : before.foldl enter (tree.startOf path) = before.filter Path.isStep := by
    have inside : before.filter Path.isStep <+: Path.steps path := by
      rw [Path.steps, parts]
      exact (early.trans (List.prefix_append ..)).filter _
    rw [← foldl_enter_steps, startOf_of_isAbsolute straight.absolute,
      foldl_enter_names fun _ member => straight.isName (inside.subset member)]
    rfl
  rw [here]
  by_cases whole : before.filter Path.isStep = (Path.steps path).dropLast
  · rw [whole]
    exact above
  · exact sound.directory_of_prefix (dropped ▸ early.filter _) above whole

/-- In a directory, or at the root, a directory can be made or is there. -/
private theorem ensureDir_of_parent (sound : tree.Sound) (straight : Path.Straight path) (passable : tree.Passable path)
    (ends : Path.EndsInStep path ∨ Path.steps path = [])
    (above : tree.node? (Path.steps path).dropLast = some .directory) : ∃ after, tree.ensureDir path = .ok after := by
  by_cases present : tree.node? (Path.steps path) = some .directory
  · have directory := (isDirectory_of_straight sound straight).2 ⟨passable.writable, passable.short, present⟩
    unfold ensureDir
    cases tree.makeDir path with
    | ok made => exact ⟨made, rfl⟩
    | error cause => exact ⟨tree, by simp [directory]⟩
  · have missing : tree.node? (Path.steps path) = none :=
      (passable.free _ (List.prefix_refl _)).resolve_right present
    have stepped : Path.steps path ≠ [] := by
      intro none
      rw [none] at missing
      cases missing
    have tidy := ends.resolve_right stepped
    have located : tree.locate path = .ok (Path.steps path) :=
      locate_eq_steps straight passable.writable passable.short fun _ _ _ split =>
        directory_of_foldl_enter sound straight tidy above split
    unfold ensureDir makeDir
    rw [tidy.dropSlashes, located]
    simp only [bind, Except.bind, missing, directoryAt_eq_ok.2 above]
    exact ⟨_, rfl⟩

/-- A directory that no file is in the way of cannot be made for one reason only: something above it is missing. -/
private theorem notFound_of_ensureDir_error (sound : tree.Sound) (straight : Path.Straight path)
    (passable : tree.Passable path) (tidy : Path.EndsInStep path) {cause : FileError}
    (failed : tree.ensureDir path = .error cause) : cause = .notFound := by
  have lost := @follow_of_open tree (tree.startOf path) (Path.parts path) (short_parts passable.short)
    fun before early => passable.free _ ((visits_iff_of_straight straight).1 (visits_of_parts early))
  rw [← locate_of_writable passable.writable] at lost
  unfold ensureDir makeDir at failed
  rw [tidy.dropSlashes] at failed
  rcases lost with ⟨location, located⟩ | missing
  · have here := locate_eq_spot located
    rw [spot_of_straight straight] at here
    subst here
    rw [located] at failed
    rcases passable.free _ (List.prefix_refl _) with missing | directory
    · rcases passable.free _ (List.dropLast_prefix (Path.steps path)) with nothing | above
      · simp only [bind, Except.bind, missing, directoryAt, nothing] at failed
        split at failed
        · cases failed
        · cases failed
          rfl
      · simp only [bind, Except.bind, missing, directoryAt, above] at failed
        cases failed
    · have there := (isDirectory_of_straight sound straight).2 ⟨passable.writable, passable.short, directory⟩
      simp only [bind, Except.bind, directory, there, if_true] at failed
      cases failed
  · rw [missing] at failed
    simp only [bind, Except.bind] at failed
    split at failed
    · cases failed
    · cases failed
      rfl

private theorem makeDirsUpTo_of_passable (sound : tree.Sound) (straight : Path.Straight path)
    (passable : tree.Passable path) (ends : Path.EndsInStep path ∨ Path.steps path = []) {levels : Nat}
    (enough : (Path.steps path).length < levels) : ∃ after, tree.makeDirsUpTo levels path = .ok after := by
  induction levels generalizing path with
  | zero => omega
  | succ levels ih =>
    rw [makeDirsUpTo, if_neg (by simpa using straight.written)]
    cases first : tree.ensureDir path with
    | ok made => exact ⟨made, rfl⟩
    | error cause =>
      have stepped : Path.steps path ≠ [] := by
        intro none
        obtain ⟨made, done⟩ := ensureDir_of_parent sound straight passable ends (by rw [none]; rfl)
        rw [first] at done
        cases done
      obtain rfl := notFound_of_ensureDir_error sound straight passable (ends.resolve_right stepped) first
      -- What is missing above is made first; then the directory has its place.
      obtain ⟨parent, cut⟩ := Path.exists_parent? stepped
      have straightAbove := straight.parent? cut
      have steps := (Path.parent?_eq_some cut).1
      obtain ⟨above, made⟩ := ih straightAbove (passable.parent? cut straightAbove.written)
        (Path.endsInStep_of_parent? cut straight.absolute) (by
          rw [steps, List.length_dropLast]
          have := List.length_pos_iff.2 stepped
          omega)
      obtain ⟨makes, reached⟩ := makeDirsUpTo_makes sound made
      have directory := reached straightAbove.written
      rw [spot_of_straight straightAbove, steps] at directory
      obtain ⟨final, done⟩ := ensureDir_of_parent makes.sound straight (passable.makes makes) ends directory
      refine ⟨final, ?_⟩
      simp only [cut, made, bind, Except.bind]
      exact done

/-- A directory is made unless a file is in its way. -/
theorem makeDirs_of_passable (sound : tree.Sound) (straight : Path.Straight path) (passable : tree.Passable path)
    (ends : Path.EndsInStep path) : ∃ after, tree.makeDirs path = .ok after := by
  refine makeDirsUpTo_of_passable sound straight passable (.inl ends) ?_
  have bound := straight.length_steps_le
  omega

end FileTree

end SymbolCache
