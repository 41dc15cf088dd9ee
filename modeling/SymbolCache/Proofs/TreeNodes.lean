import SymbolCache.Files.Tree
import SymbolCache.Proofs.PathSteps

/-! What a file tree holds at each location after an operation, and the location a path leads to. A
path that can be followed leads where its parts say, since there are no links. -/

namespace SymbolCache.FileTree

variable {tree other after : FileTree} {location : Location} {path : Path}

@[simp] theorem node?_nil (tree : FileTree) : tree.node? [] = some .directory := rfl

theorem node?_of_ne_nil (filled : location ≠ []) : tree.node? location = tree.nodes.lookup location := by
  rw [node?, if_neg (by simpa using filled)]

private theorem lookup_filter (entries : List (Location × FileNode)) (test : Location → Bool) (location : Location) :
    (entries.filter fun entry => test entry.1).lookup location =
      if test location then entries.lookup location else none := by
  induction entries with
  | nil => simp
  | cons entry rest ih =>
    obtain ⟨key, node⟩ := entry
    by_cases same : location = key
    · subst same
      cases kept : test location <;> simp [kept, ih]
    · have differs : (location == key) = false := beq_eq_false_iff_ne.2 same
      cases kept : test key <;> simp [kept, ih, List.lookup_cons, differs]

theorem node?_put (filled : location ≠ []) (node : FileNode) (place : Location) :
    (tree.put location node).node? place = if place = location then some node else tree.node? place := by
  by_cases top : place = []
  · subst top
    rw [if_neg (Ne.symm filled)]
    rfl
  · rw [node?_of_ne_nil top, node?_of_ne_nil top, put, List.lookup_append,
      lookup_filter _ fun key => key != location]
    by_cases same : place = location
    · simp [same]
    · have differs : (place == location) = false := beq_eq_false_iff_ne.2 same
      simp [same, List.lookup_cons, differs]

theorem node?_drop (location place : Location) :
    (tree.drop location).node? place = if place = location ∧ place ≠ [] then none else tree.node? place := by
  by_cases top : place = []
  · subst top
    simp
  · rw [node?_of_ne_nil top, node?_of_ne_nil top, drop, lookup_filter _ fun key => key != location]
    by_cases same : place = location
    · subst same
      simp [top]
    · simp [same]

theorem node?_prune (location place : Location) :
    (tree.prune location).node? place = if location <+: place ∧ place ≠ [] then none else tree.node? place := by
  by_cases top : place = []
  · subst top
    simp
  · rw [node?_of_ne_nil top, node?_of_ne_nil top, prune, lookup_filter _ fun key => !isBelow location key]
    by_cases inside : location <+: place
    · have below : isBelow location place = true := List.isPrefixOf_iff_prefix.2 inside
      simp [below, inside, top]
    · have outside : isBelow location place = false := by
        rw [← Bool.not_eq_true, isBelow, List.isPrefixOf_iff_prefix]
        exact inside
      simp [outside, inside]

theorem directoryAt_eq_ok : tree.directoryAt location = .ok () ↔ tree.node? location = some .directory := by
  unfold directoryAt
  split <;> simp_all

/-- Where one part of a path leads. -/
def enter (here : Location) (part : String) : Location :=
  if part == "" || part == "." then here
  else if part == ".." then here.dropLast
  else here ++ [part]

/-- Where paths start. -/
def startOf (tree : FileTree) (path : Path) : Location := if Path.isAbsolute path then [] else tree.workingDir

/-- Where a path leads if all it passes are directories. -/
def spot (tree : FileTree) (path : Path) : Location := (Path.steps path).foldl enter (tree.startOf path)

theorem enter_name (here : Location) {name : String} (named : Path.IsName name) : enter here name = here ++ [name] := by
  have step := named.isStep
  simp only [Path.isStep, Bool.and_eq_true, bne_iff_ne] at step
  simp [enter, step, named.notUp]

theorem foldl_enter_steps (here : Location) (parts : List String) :
    (parts.filter Path.isStep).foldl enter here = parts.foldl enter here := by
  induction parts generalizing here with
  | nil => rfl
  | cons part rest ih =>
    rw [List.filter_cons, List.foldl_cons]
    split
    · rw [List.foldl_cons, ih]
    · rename_i blank
      have stays : enter here part = here := by
        rw [Path.isStep] at blank
        simp only [enter]
        rw [if_pos (by simpa [Decidable.or_iff_not_imp_left] using blank)]
      rw [ih, stays]

theorem spot_join {base addition : Path} (relative : Path.isAbsolute addition = false) :
    tree.spot (Path.join base addition) = (Path.steps addition).foldl enter (tree.spot base) := by
  rw [spot, spot, startOf, startOf, Path.isAbsolute_join relative, Path.steps_join relative, List.foldl_append]

theorem spot_join_name (base : Path) {name : String} (named : Path.IsName name) :
    tree.spot (Path.join base name) = tree.spot base ++ [name] := by
  rw [spot_join named.relative, named.steps, List.foldl_cons, List.foldl_nil, enter_name _ named]

theorem spot_of_fileName? {name : String} (ends : Path.fileName? path = some name) :
    ∃ front, tree.spot path = front ++ [name] := by
  obtain ⟨front, split, notUp⟩ := Path.fileName?_eq_some_iff.1 ends
  have step : Path.isStep name = true := by
    have member : name ∈ Path.steps path := by simp [split]
    exact (List.mem_filter.1 member).2
  simp only [Path.isStep, Bool.and_eq_true, bne_iff_ne] at step
  refine ⟨front.foldl enter (tree.startOf path), ?_⟩
  rw [spot, split, List.foldl_append, List.foldl_cons, List.foldl_nil]
  simp [enter, step, notUp]

private theorem short_of_enter_eq {part : String} (dots : part = "" ∨ part = "." ∨ part = "..") :
    part.utf8ByteSize ≤ 255 := by
  rcases dots with rfl | rfl | rfl <;> decide

theorem follow_cons (tree : FileTree) (here : Location) (part : String) (rest : List String) :
    tree.follow here (part :: rest) =
      match tree.directoryAt here with
      | .error cause => .error cause
      | .ok () => if 255 < part.utf8ByteSize then .error .nameTooLong else tree.follow (enter here part) rest := by
  rw [follow]
  cases tree.directoryAt here with
  | error cause => rfl
  | ok _ =>
    by_cases blank : part = "" ∨ part = "."
    · have short := short_of_enter_eq (blank.elim .inl fun dot => .inr (.inl dot))
      simp [enter, blank, Nat.not_lt.2 short]
    · by_cases up : part = ".."
      · have short := short_of_enter_eq (.inr (.inr up))
        simp [enter, up, Nat.not_lt.2 (up ▸ short)]
      · simp only [not_or] at blank
        by_cases long : 255 < part.utf8ByteSize
        · simp [blank, up, checkName, long]
        · simp [enter, blank, up, checkName, long]

/-- A path can be followed when all it passes are directories and its names are short enough. -/
theorem follow_eq_ok_iff {here : Location} {parts : List String} : tree.follow here parts = .ok location ↔
    location = parts.foldl enter here ∧ ∀ before part rest, parts = before ++ part :: rest →
      tree.node? (before.foldl enter here) = some .directory ∧ part.utf8ByteSize ≤ 255 := by
  induction parts generalizing here with
  | nil => simp [follow, eq_comm]
  | cons part rest ih =>
    rw [follow_cons]
    cases opened : tree.directoryAt here with
    | error cause =>
      refine iff_of_false nofun ?_
      intro ⟨_, passed⟩
      have directory := directoryAt_eq_ok.2 (passed [] part rest rfl).1
      rw [List.foldl_nil, opened] at directory
      cases directory
    | ok _ =>
      have directory := directoryAt_eq_ok.1 opened
      by_cases long : 255 < part.utf8ByteSize
      · simp only [long, if_true]
        refine iff_of_false nofun ?_
        intro ⟨_, passed⟩
        have short := (passed [] part rest rfl).2
        omega
      · simp only [long, if_false, ih, List.foldl_cons]
        refine and_congr_right fun _ => ⟨?_, ?_⟩
        · intro passed before next later split
          cases before with
          | nil =>
            cases split
            exact ⟨directory, Nat.not_lt.1 long⟩
          | cons first before =>
            cases split
            exact passed before next later rfl
        · intro passed before next later split
          exact passed (part :: before) next later (by rw [split, List.cons_append])

/-- Trees with the same directories on the way of a path lead it alike. -/
theorem follow_congr {here : Location} {parts : List String}
    (same : ∀ before, before <+: parts → tree.directoryAt (before.foldl enter here) =
      other.directoryAt (before.foldl enter here)) : tree.follow here parts = other.follow here parts := by
  induction parts generalizing here with
  | nil => rfl
  | cons part rest ih =>
    have first : tree.directoryAt here = other.directoryAt here := same [] (List.nil_prefix ..)
    have later := @ih (enter here part) fun before inside =>
      same (part :: before) ((List.cons_prefix_cons).2 ⟨rfl, inside⟩)
    rw [follow_cons, follow_cons, first, later]

/-- Paths that name a file or directory at all. -/
def Writable (path : Path) : Prop :=
  ¬ path.toList.contains (Char.ofNat 0) ∧ path ≠ "" ∧ path.utf8ByteSize < pathLimit

theorem Writable.of_beginning {parent : Path} (writable : Writable path) (written : parent ≠ "")
    (inside : parent.toList <+: path.toList) : Writable parent := by
  obtain ⟨valid, -, short⟩ := writable
  obtain ⟨rest, whole⟩ := inside
  have text : path = parent ++ String.ofList rest := by
    rw [← String.toList_inj, String.toList_append, String.toList_ofList, whole]
  refine ⟨?_, written, ?_⟩
  · intro zero
    exact valid (by rw [← whole]; simpa using .inl (List.contains_iff_mem.1 zero))
  · rw [text, String.utf8ByteSize_append] at short
    omega

theorem locate_eq_ok_iff : tree.locate path = .ok location ↔
    Writable path ∧ tree.follow (tree.startOf path) (Path.parts path) = .ok location := by
  unfold locate Writable startOf
  split
  · simp_all
  · split
    · simp_all
    · split
      · rename_i long
        refine iff_of_false nofun fun found => ?_
        have short := found.1.2.2
        omega
      · simp_all

theorem locate_congr (start : tree.startOf path = other.startOf path)
    (same : ∀ before, before <+: Path.parts path → tree.directoryAt (before.foldl enter (tree.startOf path)) =
      other.directoryAt (before.foldl enter (tree.startOf path))) : tree.locate path = other.locate path := by
  have followed := follow_congr same
  unfold startOf at start followed
  unfold locate
  rw [← start, followed]

theorem locate_eq_spot (located : tree.locate path = .ok location) : location = tree.spot path := by
  rw [(follow_eq_ok_iff.1 (locate_eq_ok_iff.1 located).2).1, spot, Path.steps, foldl_enter_steps]

theorem stat_eq_ok_iff {node : FileNode} :
    tree.stat path = .ok node ↔ ∃ location, tree.locate path = .ok location ∧ tree.node? location = some node := by
  unfold stat
  cases tree.locate path with
  | error cause => simp [bind, Except.bind]
  | ok location =>
    cases found : tree.node? location <;> simp [bind, Except.bind, found]

theorem read_eq_ok_iff {content : Bytes} :
    tree.read path = .ok content ↔ ∃ modified, tree.stat path = .ok (.file content modified) := by
  unfold read
  cases tree.stat path with
  | error cause => simp [bind, Except.bind]
  | ok node => cases node <;> simp [bind, Except.bind]

end SymbolCache.FileTree
