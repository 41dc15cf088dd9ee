import Mathlib.Data.List.Induction
import Mathlib.Data.List.Nodup
import SymbolCache.Proofs.DictLookup
import SymbolCache.Proofs.TreeChanges
import SymbolCache.Proofs.TreeFiles

/-! Trees as file systems have them, and what a walk sees of two such trees that hold the same. -/

namespace SymbolCache

/-- A file or directory, whenever it was changed. -/
def FileNode.timeless : FileNode → FileNode
  | .directory => .directory
  | .file content _ => .file content 0

/-- Whether something is a directory does not depend on times. -/
theorem FileNode.directory_iff {node node' : Option FileNode}
    (same : node.map timeless = node'.map timeless) : node = some .directory ↔ node' = some .directory := by
  rcases node with _ | _ | _ <;> rcases node' with _ | _ | _ <;> simp [timeless] at same ⊢

namespace FileTree

/-- Every location stands once, under proper names and in a directory. -/
structure Sound (tree : FileTree) : Prop where
  distinct : (tree.nodes.map Prod.fst).Nodup
  named : ∀ entry ∈ tree.nodes, ∀ name ∈ entry.1, Path.IsName name
  enclosed : ∀ location node, location ≠ [] → tree.node? location = some node →
    tree.node? location.dropLast = some .directory

variable {tree other : FileTree} {location : Location}

/-- Whether a tree is sound shows in what it lists. -/
theorem sound_iff : tree.Sound ↔ (tree.nodes.map Prod.fst).Nodup ∧
    (∀ entry ∈ tree.nodes, ∀ name ∈ entry.1, Path.IsName name) ∧
    ∀ entry ∈ tree.nodes, tree.node? entry.1.dropLast = some .directory := by
  constructor
  · intro sound
    refine ⟨sound.distinct, sound.named, fun entry inside => ?_⟩
    by_cases top : entry.1 = []
    · rw [top]
      rfl
    · cases found : tree.node? entry.1 with
      | some node => exact sound.enclosed entry.1 node top found
      | none =>
        rw [node?_of_ne_nil top, List.lookup_eq_none_iff] at found
        simpa using found entry inside
  · intro ⟨distinct, named, enclosed⟩
    exact ⟨distinct, named, fun _ _ filled found => enclosed _ (mem_nodes_of_node? found filled)⟩

instance : DecidablePred Sound := fun _ => decidable_of_iff _ sound_iff.symm

namespace Sound

theorem isName (sound : tree.Sound) {node : FileNode} (found : tree.node? location = some node) :
    ∀ name ∈ location, Path.IsName name := by
  by_cases top : location = []
  · subst top
    nofun
  · exact sound.named _ (mem_nodes_of_node? found top)

/-- Everything on the way to something is a directory. -/
theorem directory_of_prefix (sound : tree.Sound) {place : Location} {node : FileNode} (above : place <+: location)
    (found : tree.node? location = some node) (proper : place ≠ location) : tree.node? place = some .directory := by
  obtain ⟨names, rfl⟩ := above
  induction names using List.reverseRecOn generalizing node with
  | nil => exact absurd (List.append_nil _).symm proper
  | append_singleton names name ih =>
    rw [← List.append_assoc] at found
    have next := sound.enclosed _ node (by simp) found
    rw [List.dropLast_concat] at next
    by_cases last : place = place ++ names
    · rwa [← last] at next
    · exact ih next last

theorem put (sound : tree.Sound) {node : FileNode} (filled : location ≠ []) (named : ∀ name ∈ location, Path.IsName name)
    (above : tree.node? location.dropLast = some .directory)
    (kept : node = .directory ∨ tree.node? location ≠ some .directory) : (tree.put location node).Sound := by
  refine ⟨?_, ?_, ?_⟩
  · have others : ((tree.nodes.filter fun entry => entry.1 != location).map Prod.fst).Nodup :=
      sound.distinct.sublist (List.filter_sublist.map _)
    rw [FileTree.put, List.map_append, List.map_singleton, List.nodup_append]
    refine ⟨others, List.nodup_singleton _, ?_⟩
    rintro key inside _ last rfl
    obtain ⟨entry, member, rfl⟩ := List.mem_map.1 inside
    exact absurd (List.mem_singleton.1 last) (by simpa using (List.mem_filter.1 member).2)
  · intro entry inside
    rcases List.mem_append.1 inside with older | last
    · exact sound.named entry (List.mem_filter.1 older).1
    · rw [List.mem_singleton.1 last]
      exact named
  · intro place found notTop present
    have parentOf (directory : tree.node? place.dropLast = some .directory) :
        (tree.put location node).node? place.dropLast = some .directory := by
      rw [node?_put filled]
      split
      · rename_i here
        rcases kept with rfl | free
        · rfl
        · exact absurd (here ▸ directory) free
      · exact directory
    rw [node?_put filled] at present
    split at present
    · rename_i here
      exact parentOf (here ▸ above)
    · exact parentOf (sound.enclosed place found notTop present)

theorem prune (sound : tree.Sound) (location : Location) : (tree.prune location).Sound := by
  refine ⟨sound.distinct.sublist (List.filter_sublist.map _), fun entry inside => sound.named entry (List.mem_filter.1 inside).1,
    ?_⟩
  intro place node notTop present
  rw [node?_prune] at present ⊢
  split at present
  · cases present
  · rename_i outside
    rw [if_neg ?_]
    · exact sound.enclosed place node notTop present
    · rintro ⟨inside, -⟩
      exact outside ⟨inside.trans (List.dropLast_prefix _), notTop⟩

theorem drop (sound : tree.Sound) (free : tree.node? location ≠ some .directory) : (tree.drop location).Sound := by
  refine ⟨sound.distinct.sublist (List.filter_sublist.map _), fun entry inside => sound.named entry (List.mem_filter.1 inside).1,
    ?_⟩
  intro place node notTop present
  rw [node?_drop] at present ⊢
  split at present
  · cases present
  · have above := sound.enclosed place node notTop present
    rw [if_neg ?_]
    · exact above
    · rintro ⟨here, -⟩
      exact free (here ▸ above)

theorem tick (sound : tree.Sound) : tree.tick.Sound := ⟨sound.distinct, sound.named, sound.enclosed⟩

theorem childNames_sorted (sound : tree.Sound) (location : Location) :
    (tree.childNames location).Pairwise (· < ·) := by
  have keyed : tree.childNames location = ((tree.nodes.map Prod.fst).filterMap fun key =>
      if key.dropLast == location && !key.isEmpty then key.getLast? else none).mergeSort fun a b => !decide (b < a) := by
    rw [childNames, List.filterMap_map]
    rfl
  have nodup : (tree.childNames location).Nodup := by
    rw [keyed, (List.mergeSort_perm _ _).nodup_iff]
    refine List.Nodup.filterMap ?_ sound.distinct
    intro first second name inFirst inSecond
    have keyOf (key : Location) (chosen : name ∈ (if key.dropLast == location && !key.isEmpty then key.getLast? else none)) :
        key = location ++ [name] := by
      split at chosen
      · rename_i child
        obtain ⟨front, rfl⟩ := List.getLast?_eq_some_iff.1 chosen
        simp only [List.dropLast_concat, Bool.and_eq_true, beq_iff_eq] at child
        rw [child.1]
      · cases chosen
    rw [keyOf first inFirst, keyOf second inSecond]
  have sorted : (tree.childNames location).Pairwise fun a b => (!decide (b < a)) = true := by
    refine List.pairwise_mergeSort ?_ ?_ _
    · intro a b c
      simp only [Bool.not_eq_true', decide_eq_false_iff_not, String.not_lt]
      exact String.le_trans
    · intro a b
      simp only [Bool.or_eq_true, Bool.not_eq_true', decide_eq_false_iff_not, String.not_lt]
      exact String.le_total ..
  refine (sorted.and nodup).imp ?_
  rintro a b ⟨ordered, distinct⟩
  exact Dict.lt_of_not_lt_of_ne (by simpa using ordered) (Ne.symm distinct)

end Sound

/-- A walk that may go deeper than the tree finds no more. -/
theorem below_of_height_lt {depth deeper : Nat} (enough : tree.height < location.length + depth)
    (enough' : tree.height < location.length + deeper) : tree.below depth location = tree.below deeper location := by
  have nothing {place : Location} (far : tree.height < place.length) : tree.node? place = none := by
    cases found : tree.node? place with
    | none => rfl
    | some node =>
      have bound := length_le_height found
      omega
  induction depth generalizing location deeper with
  | zero =>
    cases deeper with
    | zero => rfl
    | succ deeper => rw [below, below, nothing (by omega)]
  | succ depth ih =>
    cases deeper with
    | zero => rw [below, below, nothing (by omega)]
    | succ deeper =>
      have inner (name : String) : tree.below depth (location ++ [name]) = tree.below deeper (location ++ [name]) :=
        ih (by simp; omega) (by simp; omega)
      rw [below, below]
      simp only [inner]

/-- Two trees hold the same at and below a location, modification times apart. -/
def AlikeBelow (location : Location) (tree other : FileTree) : Prop :=
  ∀ names, (tree.node? (location ++ names)).map FileNode.timeless =
    (other.node? (location ++ names)).map FileNode.timeless

namespace AlikeBelow

theorem child (alike : AlikeBelow location tree other) (name : String) : AlikeBelow (location ++ [name]) tree other := by
  intro names
  rw [List.append_assoc]
  exact alike ([name] ++ names)

theorem childNames_eq (alike : AlikeBelow location tree other) (sound : tree.Sound) (sound' : other.Sound) :
    tree.childNames location = other.childNames location := by
  refine Dict.eq_of_sorted_texts (sound.childNames_sorted location) (sound'.childNames_sorted location) fun name => ?_
  rw [mem_childNames_iff, mem_childNames_iff]
  have same := congrArg Option.isSome (alike [name])
  rw [Option.isSome_map, Option.isSome_map] at same
  rw [same]

theorem below_eq (alike : AlikeBelow location tree other) (sound : tree.Sound) (sound' : other.Sound) (depth : Nat) :
    (tree.below depth location).map (fun entry => (entry.1, entry.2.timeless)) =
      (other.below depth location).map fun entry => (entry.1, entry.2.timeless) := by
  induction depth generalizing location with
  | zero => rfl
  | succ depth ih =>
    have here := alike []
    rw [List.append_nil] at here
    rw [below, below]
    cases first : tree.node? location with
    | none =>
      rw [first] at here
      rw [Option.map_eq_none_iff.1 here.symm]
    | some node =>
      rw [first] at here
      obtain ⟨second, found, same⟩ := Option.map_eq_some_iff.1 here.symm
      rw [found]
      cases node with
      | file content modified =>
        cases second with
        | file content' modified' => simpa [FileNode.timeless] using same.symm
        | directory => cases same
      | directory =>
        cases second with
        | file content' modified' => cases same
        | directory =>
          have children (name : String) : ((tree.below depth (location ++ [name])).map fun entry =>
              (name :: entry.1, entry.2)).map (fun entry => (entry.1, entry.2.timeless)) =
                ((other.below depth (location ++ [name])).map fun entry => (name :: entry.1, entry.2)).map
                  fun entry => (entry.1, entry.2.timeless) := by
            have inner := congrArg (List.map fun entry => (name :: entry.1, entry.2)) (ih (alike.child name))
            rw [List.map_map, List.map_map] at inner ⊢
            exact inner
          simp only [List.map_cons, List.map_flatMap, alike.childNames_eq sound sound', children]

end AlikeBelow

/-- The path of something below a root, when it is a file. -/
def filePath? (root : Path) (entry : List String × FileNode) : Option Path :=
  match entry.2 with
  | .file _ _ => some (entry.1.foldl Path.join root)
  | .directory => none

theorem filePath?_timeless (root : Path) (entry : List String × FileNode) :
    filePath? root (entry.1, entry.2.timeless) = filePath? root entry := by
  obtain ⟨names, node⟩ := entry
  cases node <;> rfl

theorem filesUnder_of_locate {root : Path} (located : tree.locate root = .ok location) :
    tree.filesUnder root = (tree.below (tree.height + 1) location).filterMap (filePath? root) := by
  unfold filesUnder walk
  rw [located]
  exact List.filterMap_map

/-- Both trees have the same files there. -/
theorem AlikeBelow.filesUnder_eq (alike : AlikeBelow location tree other) (sound : tree.Sound) (sound' : other.Sound)
    {root : Path} (located : tree.locate root = .ok location) (located' : other.locate root = .ok location) :
    tree.filesUnder root = other.filesUnder root := by
  have listed (one : FileTree) (here : one.locate root = .ok location) (depth : Nat) (enough : one.height < depth) :
      one.filesUnder root =
        ((one.below depth location).map fun entry => (entry.1, entry.2.timeless)).filterMap (filePath? root) := by
    have deep : one.below (one.height + 1) location = one.below depth location :=
      below_of_height_lt (by omega) (by omega)
    rw [filesUnder_of_locate here, deep, List.filterMap_map]
    congr 1
    funext entry
    exact (filePath?_timeless root entry).symm
  rw [listed tree located (max tree.height other.height + 1) (by omega),
    listed other located' (max tree.height other.height + 1) (by omega), alike.below_eq sound sound']

end FileTree

end SymbolCache
