import SymbolCache.Proofs.FilesBelow
import SymbolCache.Proofs.TreeNodes

/-! Which files a walk finds: those that can be reached from its root through directories. -/

namespace SymbolCache.FileTree

variable {tree : FileTree} {location : Location}

/-- Something stands at the end of some names, and all before it are directories. -/
def Reaches (tree : FileTree) (location : Location) (names : List String) (node : FileNode) : Prop :=
  tree.node? (location ++ names) = some node ∧
    ∀ before name rest, names = before ++ name :: rest → tree.node? (location ++ before) = some .directory

theorem mem_nodes_of_node? {node : FileNode} (found : tree.node? location = some node) (filled : location ≠ []) :
    (location, node) ∈ tree.nodes := by
  rw [node?_of_ne_nil filled] at found
  obtain ⟨before, after, split, -⟩ := List.lookup_eq_some_iff.1 found
  rw [split]
  simp

theorem mem_childNames_iff {name : String} :
    name ∈ tree.childNames location ↔ (tree.node? (location ++ [name])).isSome := by
  have filled : location ++ [name] ≠ [] := by simp
  rw [childNames, List.mem_mergeSort, List.mem_filterMap]
  constructor
  · rintro ⟨⟨key, node⟩, member, kept⟩
    simp only at kept
    split at kept
    · rename_i child
      obtain ⟨front, rfl⟩ := List.getLast?_eq_some_iff.1 kept
      simp only [List.dropLast_concat, Bool.and_eq_true, beq_iff_eq] at child
      rw [node?_of_ne_nil filled, List.lookup_isSome_iff]
      exact ⟨(location ++ [name], node), by rw [← child.1]; exact member, beq_self_eq_true _⟩
    · cases kept
  · intro present
    obtain ⟨node, found⟩ := Option.isSome_iff_exists.1 present
    exact ⟨(location ++ [name], node), mem_nodes_of_node? found filled, by simp⟩

private theorem reaches_nil {node : FileNode} : tree.Reaches location [] node ↔ tree.node? location = some node := by
  simp [Reaches]

theorem reaches_cons {name : String} {names : List String} {node : FileNode} :
    tree.Reaches location (name :: names) node ↔
      tree.node? location = some .directory ∧ tree.Reaches (location ++ [name]) names node := by
  unfold Reaches
  constructor
  · rintro ⟨found, passed⟩
    refine ⟨by simpa using passed [] name names rfl, by simpa using found, ?_⟩
    intro before next rest split
    simpa using passed (name :: before) next rest (by rw [split, List.cons_append])
  · rintro ⟨directory, found, passed⟩
    refine ⟨by simpa using found, ?_⟩
    intro before next rest split
    cases before with
    | nil => simpa using directory
    | cons first before =>
      cases split
      simpa using passed before next rest rfl

theorem mem_below_iff {depth : Nat} {names : List String} {node : FileNode} :
    (names, node) ∈ tree.below depth location ↔ names.length < depth ∧ tree.Reaches location names node := by
  induction depth generalizing location names with
  | zero => simp [below]
  | succ depth ih =>
    cases names with
    | nil =>
      rw [reaches_nil, below]
      cases tree.node? location with
      | none => simp
      | some here => cases here <;> simp [eq_comm]
    | cons name names =>
      rw [reaches_cons, below]
      cases here : tree.node? location with
      | none => simp
      | some found =>
        cases found with
        | file content modified => simp
        | directory =>
          simp only [List.mem_cons, Prod.mk.injEq, reduceCtorEq, false_and, false_or, List.mem_flatMap, List.mem_map,
            Prod.exists, List.cons.injEq, List.length_cons, Nat.add_lt_add_iff_right, true_and]
          constructor
          · rintro ⟨child, -, rest, inner, inside, ⟨rfl, rfl⟩, rfl⟩
            exact ih.1 inside
          · intro reached
            refine ⟨name, ?_, names, node, ih.2 reached, ⟨rfl, rfl⟩, rfl⟩
            -- A child that leads on to something is itself there.
            rw [mem_childNames_iff]
            cases names with
            | nil => simp [reaches_nil.1 reached.2]
            | cons next rest => simp [(reaches_cons.1 reached.2).1]

theorem length_le_height {node : FileNode} (found : tree.node? location = some node) :
    location.length ≤ tree.height := by
  have bound (entries : List (Location × FileNode)) (start : Nat) :
      start ≤ entries.foldl (fun n entry => max n entry.1.length) start ∧
        ∀ entry ∈ entries, entry.1.length ≤ entries.foldl (fun n entry => max n entry.1.length) start := by
    induction entries generalizing start with
    | nil => simp
    | cons entry rest ih =>
      obtain ⟨above, inside⟩ := ih (max start entry.1.length)
      rw [List.foldl_cons]
      refine ⟨by omega, ?_⟩
      intro candidate member
      rcases List.mem_cons.1 member with rfl | later
      · omega
      · exact inside candidate later
  by_cases top : location = []
  · simp [top]
  · exact (bound tree.nodes 0).2 _ (mem_nodes_of_node? found top)

theorem mem_filesUnder_iff {root path : Path} : path ∈ tree.filesUnder root ↔
    ∃ location names content modified, tree.locate root = .ok location ∧
      tree.Reaches location names (.file content modified) ∧ path = names.foldl Path.join root := by
  unfold filesUnder walk
  cases located : tree.locate root with
  | error cause => simp
  | ok location =>
    simp only [List.mem_filterMap, List.mem_map, Prod.exists, mem_below_iff, Except.ok.injEq]
    constructor
    · rintro ⟨_, node, ⟨names, _, ⟨-, reached⟩, same⟩, kept⟩
      cases same
      cases node with
      | directory => cases kept
      | file content modified =>
        cases kept
        exact ⟨location, names, content, modified, rfl, reached, rfl⟩
    · rintro ⟨_, names, content, modified, rfl, reached, rfl⟩
      have bound := length_le_height reached.1
      rw [List.length_append] at bound
      exact ⟨_, _, ⟨names, _, ⟨by omega, reached⟩, rfl⟩, rfl⟩

end SymbolCache.FileTree
