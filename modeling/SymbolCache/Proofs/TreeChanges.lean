import SymbolCache.Proofs.FilesBelow
import SymbolCache.Proofs.TreeNodes

/-! What successful operations on a file tree change. -/

namespace SymbolCache.FileTree

variable {tree after : FileTree} {location : Location} {path : Path}

/-- A tree differs from another one in what stands at one location. -/
structure Sets (location : Location) (node : Option FileNode) (before after : FileTree) : Prop where
  filled : location ≠ []
  workingDir : after.workingDir = before.workingDir
  nodes : ∀ place, after.node? place = if place = location then node else before.node? place

theorem put_sets (filled : location ≠ []) (node : FileNode) : Sets location (some node) tree (tree.put location node) :=
  ⟨filled, rfl, node?_put filled node⟩

theorem drop_sets (filled : location ≠ []) : Sets location none tree (tree.drop location) := by
  refine ⟨filled, rfl, fun place => ?_⟩
  rw [node?_drop]
  by_cases same : place = location
  · rw [if_pos ⟨same, same ▸ filled⟩, if_pos same]
  · rw [if_neg fun both => same both.1, if_neg same]

private theorem ne_nil_of_node? (notRoot : tree.node? location ≠ some .directory) : location ≠ [] := by
  rintro rfl
  exact notRoot rfl

/-- The next moment. -/
def tick (tree : FileTree) : FileTree := { tree with clock := tree.clock + 1 }

@[simp] theorem node?_tick (tree : FileTree) (place : Location) : tree.tick.node? place = tree.node? place := rfl

@[simp] theorem workingDir_tick (tree : FileTree) : tree.tick.workingDir = tree.workingDir := rfl

theorem Sets.of_tick {node : Option FileNode} (sets : Sets location node tree.tick after) :
    Sets location node tree after := ⟨sets.filled, sets.workingDir, sets.nodes⟩

theorem write_eq (tree : FileTree) (path : Path) (content : Bytes) : tree.write path content =
    (do
      let location ← tree.locate path
      match tree.node? location with
      | some .directory => .error .isDirectory
      | some (.file _ _) => .ok (tree.tick.put location (.file content (tree.clock + 1)))
      | none =>
        if path.toList.getLast? == some '/' then .error .isDirectory
        else
          tree.directoryAt location.dropLast
          .ok (tree.tick.put location (.file content (tree.clock + 1)))) := by
  have located : tree.tick.locate path = tree.locate path := locate_congr rfl fun _ _ => rfl
  rw [write, writeAt]
  exact congrArg (· >>= _) located

theorem write_eq_put {content : Bytes} (done : tree.write path content = .ok after) :
    ∃ location, tree.locate path = .ok location ∧ tree.node? location ≠ some .directory ∧
      after = tree.tick.put location (.file content (tree.clock + 1)) := by
  rw [write_eq] at done
  cases located : tree.locate path with
  | error cause =>
    rw [located] at done
    cases done
  | ok location =>
    rw [located] at done
    simp only [bind, Except.bind] at done
    refine ⟨location, rfl, ?_⟩
    cases found : tree.node? location with
    | none =>
      rw [found] at done
      simp only at done
      split at done
      · cases done
      · split at done
        · cases done
        · cases done
          exact ⟨nofun, rfl⟩
    | some node =>
      cases node with
      | directory =>
        rw [found] at done
        cases done
      | file old modified =>
        rw [found] at done
        cases done
        exact ⟨nofun, rfl⟩

theorem write_eq_ok {content : Bytes} (done : tree.write path content = .ok after) :
    ∃ location, tree.locate path = .ok location ∧ tree.node? location ≠ some .directory ∧
      Sets location (some (.file content (tree.clock + 1))) tree after := by
  obtain ⟨location, located, free, rfl⟩ := write_eq_put done
  exact ⟨location, located, free, (put_sets (ne_nil_of_node? free) _).of_tick⟩

theorem makeDir_eq_ok (done : tree.makeDir path = .ok after) :
    ∃ location, tree.locate (dropSlashes path) = .ok location ∧ tree.node? location = none ∧
      tree.node? location.dropLast = some .directory ∧ after = tree.put location .directory := by
  unfold makeDir at done
  cases located : tree.locate (dropSlashes path) with
  | error cause =>
    rw [located] at done
    cases done
  | ok location =>
    rw [located] at done
    simp only [bind, Except.bind] at done
    cases found : tree.node? location with
    | some node =>
      rw [found] at done
      cases done
    | none =>
      rw [found] at done
      simp only at done
      split at done
      · cases done
      · rename_i above
        cases done
        exact ⟨location, rfl, found, directoryAt_eq_ok.1 above, rfl⟩

theorem removeDirs_eq_ok (done : tree.removeDirs path = .ok after) :
    ∃ location, tree.locate path = .ok location ∧ tree.node? location = some .directory ∧
      after = tree.prune location := by
  unfold removeDirs at done
  cases located : tree.locate path with
  | error cause =>
    rw [located] at done
    cases done
  | ok location =>
    rw [located] at done
    simp only [bind, Except.bind] at done
    split at done
    · cases done
    · rename_i opened
      cases done
      exact ⟨location, rfl, directoryAt_eq_ok.1 opened, rfl⟩

theorem renameFile_eq_ok {source target : Path} (done : tree.renameFile source target = .ok after) :
    ∃ start goal node, tree.locate source = .ok start ∧ tree.locate target = .ok goal ∧
      tree.node? start = some node ∧ tree.node? goal ≠ some .directory ∧
      tree.node? goal.dropLast = some .directory ∧ after = (tree.drop start).put goal node := by
  unfold renameFile at done
  cases first : tree.locate source with
  | error cause =>
    rw [first] at done
    cases done
  | ok start =>
    rw [first] at done
    simp only [bind, Except.bind] at done
    cases second : tree.locate target with
    | error cause =>
      rw [second] at done
      cases done
    | ok goal =>
      rw [second] at done
      simp only at done
      split at done
      · cases done
      · cases done
      · rename_i node here free
        split at done
        · cases done
        · rename_i opened
          cases done
          exact ⟨start, goal, node, rfl, rfl, here, free, directoryAt_eq_ok.1 opened, rfl⟩

/-- Two trees have the same directories. -/
structure SameDirs (before after : FileTree) : Prop where
  workingDir : after.workingDir = before.workingDir
  directories : ∀ place, after.node? place = some .directory ↔ before.node? place = some .directory

theorem SameDirs.trans {first second third : FileTree} (earlier : SameDirs first second)
    (later : SameDirs second third) : SameDirs first third :=
  ⟨later.workingDir.trans earlier.workingDir, fun place => (later.directories place).trans (earlier.directories place)⟩

theorem Sets.sameDirs {node : Option FileNode} (sets : Sets location node tree after)
    (before : tree.node? location ≠ some .directory) (now : node ≠ some .directory) : SameDirs tree after := by
  refine ⟨sets.workingDir, fun place => ?_⟩
  rw [sets.nodes]
  split
  · rename_i here
    rw [here]
    exact iff_of_false now before
  · rfl

theorem SameDirs.locate_eq_ok_iff (same : SameDirs tree after) :
    after.locate path = .ok location ↔ tree.locate path = .ok location := by
  have start : after.startOf path = tree.startOf path := by rw [startOf, startOf, same.workingDir]
  simp only [FileTree.locate_eq_ok_iff, follow_eq_ok_iff, start, same.directories]

theorem SameDirs.spot_eq (same : SameDirs tree after) (path : Path) : after.spot path = tree.spot path := by
  rw [spot, spot, startOf, startOf, same.workingDir]

/-- A path that leads to the same node in two trees reads the same. -/
theorem SameDirs.stat_eq_ok_iff (same : SameDirs tree after) {node : FileNode}
    (there : after.node? (tree.spot path) = tree.node? (tree.spot path)) :
    after.stat path = .ok node ↔ tree.stat path = .ok node := by
  simp only [FileTree.stat_eq_ok_iff, same.locate_eq_ok_iff]
  refine exists_congr fun location => and_congr_right fun located => ?_
  rw [locate_eq_spot located, there]

theorem isDirectory_iff :
    tree.isDirectory path = true ↔ ∃ location, tree.locate path = .ok location ∧ tree.node? location = some .directory := by
  unfold isDirectory
  rw [← stat_eq_ok_iff]
  cases tree.stat path with
  | error cause => simp
  | ok node => cases node <;> simp

theorem spot_dropSlashes (tree : FileTree) (path : Path) : tree.spot (dropSlashes path) = tree.spot path := by
  obtain ⟨steps, absolute, -⟩ := Path.dropSlashes_spec path
  rw [spot, spot, startOf, startOf, steps, absolute]

/-- Nothing is made where a directory is already. -/
theorem makeDirs_of_isDirectory (present : tree.isDirectory path = true) : tree.makeDirs path = .ok tree := by
  have stays : tree.ensureDir path = .ok tree := by
    unfold ensureDir
    cases made : tree.makeDir path with
    | error cause => simp [present]
    | ok after =>
      obtain ⟨location, located, free, -, -⟩ := makeDir_eq_ok made
      obtain ⟨place, found, directory⟩ := isDirectory_iff.1 present
      rw [locate_eq_spot located, spot_dropSlashes, ← locate_eq_spot found, directory] at free
      cases free
  unfold makeDirs makeDirsUpTo
  rw [stays]
  split <;> rfl

private theorem exists_join_eq {base addition : Path} (relative : Path.isAbsolute addition = false) :
    ∃ rest, Path.join base addition = base ++ rest := by
  unfold Path.join
  rw [relative]
  split
  · cases ‹false = true›
  · split
    · exact ⟨addition, rfl⟩
    · exact ⟨"/" ++ addition, String.append_assoc⟩

/-- A file can only be named below a directory. -/
theorem isDirectory_of_locate_join {dir : Path} {name : String} (named : Path.IsName name) (written : dir ≠ "")
    (located : tree.locate (Path.join dir name) = .ok location) : tree.isDirectory dir = true := by
  obtain ⟨before, blanks, split, blank, -, joined⟩ := Path.parts_join named.slashless written
  obtain ⟨valid, followed⟩ := locate_eq_ok_iff.1 located
  have start : tree.startOf (Path.join dir name) = tree.startOf dir := by
    rw [startOf, startOf, Path.isAbsolute_join named.relative]
  rw [joined, start] at followed
  obtain ⟨-, passed⟩ := follow_eq_ok_iff.1 followed
  have through (rest : List String) (inside : ∀ part ∈ rest, part = "") :
      (before ++ rest).foldl enter (tree.startOf dir) = before.foldl enter (tree.startOf dir) := by
    rw [List.foldl_append, ← foldl_enter_steps _ rest, List.filter_eq_nil_iff.2]
    · rfl
    · intro part member
      simp [inside part member, Path.isStep]
  have here := (passed before name [] rfl).1
  have writable : Writable dir := by
    obtain ⟨rest, whole⟩ := @exists_join_eq dir _ named.relative
    refine Writable.of_beginning valid written ?_
    rw [whole, String.toList_append]
    exact List.prefix_append ..
  refine isDirectory_iff.2 ⟨_, locate_eq_ok_iff.2 ⟨writable, follow_eq_ok_iff.2 ⟨rfl, ?_⟩⟩, ?_⟩
  · intro front part rest whole
    rw [split] at whole
    rcases List.append_eq_append_iff.1 whole with ⟨later, frontIs, blanksAre⟩ | ⟨more, beforeIs, tail⟩
    · have inside : ∀ part ∈ later, part = "" := fun part member => blank part (by simp [blanksAre, member])
      have last : part = "" := blank part (by simp [blanksAre])
      rw [frontIs, through later inside, last]
      exact ⟨here, by decide⟩
    · cases more with
      | nil =>
        have last : part = "" := blank part (by rw [List.nil_append] at tail; simp [← tail])
        rw [last, ← List.append_nil front, ← beforeIs]
        exact ⟨here, by decide⟩
      | cons next more =>
        cases tail
        exact passed front part (more ++ [name]) (by simp [beforeIs])
  · rw [split, through blanks blank]
    exact here

end SymbolCache.FileTree
