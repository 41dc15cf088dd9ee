import SymbolCache.Proofs.TextSplitting
import SymbolCache.Source.Files

/-! A walk finds only paths at or below its root. -/

namespace SymbolCache.Path

private theorem parts_eq (path : Path) : parts path = (Text.splitAt '/' path.toList).map String.ofList := rfl

private theorem parts_ne_nil (path : Path) : parts path ≠ [] := by
  rw [parts_eq, Ne, List.map_eq_nil_iff]
  exact Text.splitAt_ne_nil '/' _

private theorem isAbsolute_eq_false {name : Path} (slashless : '/' ∉ name.toList) : isAbsolute name = false := by
  rw [isAbsolute, beq_eq_false_iff_ne]
  intro absolute
  exact slashless (List.mem_of_head? absolute)

/-- The parts of a path with a name joined to it: those before, up to an empty last one, and the
name. -/
theorem parts_join {base name : Path} (slashless : '/' ∉ name.toList) (written : base ≠ "") :
    ∃ before after, parts base = before ++ after ∧ (∀ part ∈ after, part = "") ∧ before ≠ [] ∧
      parts (join base name) = before ++ [name] := by
  have relative : isAbsolute name = false := isAbsolute_eq_false slashless
  have single : Text.splitAt '/' name.toList = [name.toList] := Text.splitAt_of_not_mem slashless
  have nonempty : (base == "") = false := by simpa using written
  simp only [join, relative, nonempty, Bool.false_eq_true, if_false, Bool.false_or]
  by_cases ended : base.toList.getLast? = some '/'
  · obtain ⟨front, split⟩ := List.getLast?_eq_some_iff.1 ended
    refine ⟨(Text.splitAt '/' front).map String.ofList, [""], ?_, by simp, by simp [Text.splitAt_ne_nil], ?_⟩
    · rw [parts_eq, split, Text.splitAt_append]
      simp [Text.splitAt]
    · rw [if_pos (by simp [ended]), parts_eq, String.toList_append, split, List.append_assoc,
        List.singleton_append, Text.splitAt_append, single]
      simp
  · refine ⟨parts base, [], by simp, by simp, parts_ne_nil base, ?_⟩
    have slash : "/".toList = ['/'] := rfl
    rw [if_neg (by simp [ended]), parts_eq, String.toList_append, String.toList_append, slash, List.append_assoc,
      List.singleton_append, Text.splitAt_append, single, List.map_append]
    simp [parts_eq]

theorem toList_join {base name : Path} (slashless : '/' ∉ name.toList) (written : base ≠ "") :
    ∃ rest, (join base name).toList = base.toList ++ rest := by
  have relative : isAbsolute name = false := isAbsolute_eq_false slashless
  have nonempty : (base == "") = false := by simpa using written
  simp only [join, relative, nonempty, Bool.false_eq_true, if_false, Bool.false_or]
  split
  · exact ⟨name.toList, String.toList_append⟩
  · exact ⟨"/".toList ++ name.toList, by rw [String.toList_append, String.toList_append, List.append_assoc]⟩

theorem join_ne_empty {base name : Path} (slashless : '/' ∉ name.toList) (written : base ≠ "") :
    join base name ≠ "" := by
  obtain ⟨rest, joined⟩ := toList_join slashless written
  intro empty
  rw [empty] at joined
  have blank : base.toList = [] := (List.append_eq_nil_iff.1 joined.symm).1
  exact written (String.toList_eq_nil_iff.1 blank)

private theorem head?_append_left {α : Type} {first second : List α} (filled : first ≠ []) :
    (first ++ second).head? = first.head? := by
  cases first with
  | nil => exact absurd rfl filled
  | cons item rest => rfl

/-- Joining a name to a path adds it as a component, unless it counts for nothing. -/
theorem components_join_eq {base name : Path} (slashless : '/' ∉ name.toList) (written : base ≠ "") :
    components (join base name) =
      components base ++ ([name].filter fun part => part != "" && part != ".").map component := by
  obtain ⟨before, after, split, blank, filled, joined⟩ := parts_join slashless written
  obtain ⟨rest, text⟩ := toList_join slashless written
  have start : base.toList ≠ [] := fun empty => written (String.toList_eq_nil_iff.1 empty)
  have absolute : isAbsolute (join base name) = isAbsolute base := by
    rw [isAbsolute, isAbsolute, text, head?_append_left start]
  have first : (parts (join base name)).head? = (parts base).head? := by
    rw [joined, split, head?_append_left filled, head?_append_left filled]
  have dropped : after.filter (fun part => part != "" && part != ".") = [] := by
    rw [List.filter_eq_nil_iff]
    intro part member
    simp [blank part member]
  unfold components
  rw [absolute, first, joined, split, List.filter_append, List.filter_append, dropped, List.append_nil,
    List.map_append, ← List.append_assoc]

/-- A path with a name joined to it lies below the path. -/
theorem components_join {base name : Path} (slashless : '/' ∉ name.toList) (written : base ≠ "") :
    components base <+: components (join base name) := by
  rw [components_join_eq slashless written]
  exact List.prefix_append ..

theorem components_joinAll {base : Path} {names : List String} (slashless : ∀ name ∈ names, '/' ∉ name.toList)
    (written : base ≠ "") : components base <+: components (names.foldl join base) := by
  induction names generalizing base with
  | nil => exact List.prefix_refl _
  | cons name rest ih =>
    have here := slashless name (List.mem_cons_self ..)
    have later := ih (fun other member => slashless other (List.mem_cons_of_mem _ member))
      (join_ne_empty here written)
    exact (components_join here written).trans later

theorem sort_of_sorted {paths : List Path} (sorted : paths.Pairwise fun a b => !before b a) : sort paths = paths :=
  List.mergeSort_of_pairwise sorted

end SymbolCache.Path

namespace SymbolCache.FileTree

/-- No name in the tree has a slash in it, as in every file system. -/
def WellNamed (tree : FileTree) : Prop :=
  ∀ entry ∈ tree.nodes, ∀ name ∈ entry.1, '/' ∉ name.toList

theorem WellNamed.childNames {tree : FileTree} (named : tree.WellNamed) {location : Location} {name : String}
    (member : name ∈ tree.childNames location) : '/' ∉ name.toList := by
  rw [FileTree.childNames, List.mem_mergeSort, List.mem_filterMap] at member
  obtain ⟨entry, present, last⟩ := member
  split at last
  · exact named entry present name (List.mem_of_getLast? last)
  · cases last

theorem WellNamed.below {tree : FileTree} (named : tree.WellNamed) {depth : Nat} {location : Location}
    {names : List String} {node : FileNode} (member : (names, node) ∈ tree.below depth location) :
    ∀ name ∈ names, '/' ∉ name.toList := by
  induction depth generalizing location names with
  | zero => cases member
  | succ depth ih =>
    unfold FileTree.below at member
    split at member
    · cases member
    · cases List.mem_singleton.1 member
      nofun
    · rcases List.mem_cons.1 member with same | inside
      · cases same
        nofun
      · obtain ⟨child, present, mapped⟩ := List.mem_flatMap.1 inside
        obtain ⟨⟨rest, found⟩, deeper, equal⟩ := List.mem_map.1 mapped
        cases equal
        intro name within
        rcases List.mem_cons.1 within with rfl | later
        · exact named.childNames present
        · exact ih deeper name later

/-- Every file that a walk finds lies at or below its root. -/
theorem startsWith_of_mem_filesUnder {tree : FileTree} (named : tree.WellNamed) {root path : Path}
    (member : path ∈ tree.filesUnder root) : Path.startsWith path root = true := by
  obtain ⟨⟨found, node⟩, walked, kept⟩ := List.mem_filterMap.1 member
  have same : found = path := by
    cases node with
    | directory => cases kept
    | file content modified => exact Option.some.inj kept
  subst same
  unfold walk at walked
  cases located : tree.locate root with
  | error cause =>
    rw [located] at walked
    cases walked
  | ok location =>
    rw [located] at walked
    obtain ⟨⟨names, inner⟩, below, equal⟩ := List.mem_map.1 walked
    cases equal
    have written : root ≠ "" := by
      intro empty
      rw [empty] at located
      cases located
    rw [Path.startsWith, List.isPrefixOf_iff_prefix]
    exact Path.components_joinAll (named.below below) written

section Listings
variable {tree : FileTree} {location : Location} {names : List String}

theorem childNames_of_sorted (sorted : names.Pairwise fun a b => !decide (b < a))
    (found : (tree.nodes.filterMap fun entry =>
      if entry.1.dropLast == location && !entry.1.isEmpty then entry.1.getLast? else none) = names) :
    tree.childNames location = names := by
  unfold childNames
  dsimp only
  rw [found]
  exact List.mergeSort_of_pairwise sorted

theorem below_file {content : Bytes} {modified : Int} (found : tree.node? location = some (.file content modified))
    (depth : Nat) : tree.below (depth + 1) location = [([], .file content modified)] := by
  rw [below, found]

/-- A directory with nothing but files in it. -/
theorem filesUnder_of_files {root : Path} {depth : Nat} (located : tree.locate root = .ok location)
    (reached : tree.node? location = some .directory) (high : tree.height = depth + 1)
    (children : tree.childNames location = names)
    (files : ∀ name ∈ names, ∃ content modified, tree.node? (location ++ [name]) = some (.file content modified)) :
    tree.filesUnder root = names.map (Path.join root) := by
  rw [filesUnder, walk, located]
  dsimp only
  rw [high, below, reached]
  dsimp only
  rw [children]
  clear children
  rw [List.map_cons, List.filterMap_cons_none rfl]
  induction names with
  | nil => rfl
  | cons name names ih =>
    obtain ⟨content, modified, found⟩ := files name (List.mem_cons_self ..)
    rw [List.flatMap_cons, below_file found, List.map_append, List.filterMap_append,
      ih fun other inside => files other (List.mem_cons_of_mem _ inside)]
    rfl

end Listings

end SymbolCache.FileTree

namespace SymbolCache.Source

theorem startsWith_of_mem_sourceFiles {tree : FileTree} (named : tree.WellNamed) {root path : Path}
    (member : path ∈ sourceFiles tree root) : Path.startsWith path root = true := by
  rw [sourceFiles, Path.sort, List.mem_mergeSort, List.mem_filter] at member
  exact FileTree.startsWith_of_mem_filesUnder named member.1

/-- A directory with nothing but source files in it, whose paths come in the order of the names. -/
theorem sourceFiles_of_files {tree : FileTree} {root : Path} {location : Location} {names : List String} {depth : Nat}
    (located : tree.locate root = .ok location) (reached : tree.node? location = some .directory)
    (high : tree.height = depth + 1) (children : tree.childNames location = names)
    (files : ∀ name ∈ names, ∃ content modified, tree.node? (location ++ [name]) = some (.file content modified))
    (sources : ∀ name ∈ names, isSourceFile (Path.join root name) = true)
    (sorted : (names.map (Path.join root)).Pairwise fun a b => !Path.before b a) :
    sourceFiles tree root = names.map (Path.join root) := by
  have every : (names.map (Path.join root)).filter isSourceFile = names.map (Path.join root) :=
    List.filter_eq_self.2 (List.forall_mem_map.2 sources)
  rw [sourceFiles, FileTree.filesUnder_of_files located reached high children files, every, Path.sort_of_sorted sorted]

end SymbolCache.Source
