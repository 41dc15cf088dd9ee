import SymbolCache.Files.Snapshot
import SymbolCache.Proofs.FileActions
import SymbolCache.Proofs.TreeChanges

/-! Replacing a saved copy: the file gets its new content, the file it was first written to is gone,
and everything else stays. -/

namespace SymbolCache

/-- Where a copy with a given file name is written before it replaces the old one. -/
def temporaryName (name : String) : String := (Path.splitName name).1 ++ "." ++ "json.tmp"

structure IsCopyName (name : String) : Prop where
  named : Path.IsName name
  temporary : Path.IsName (temporaryName name)
  distinct : temporaryName name ≠ name

variable {dir : Path} {name : String}

theorem temporaryPath_join (dir : Path) (copy : IsCopyName name) :
    temporaryPath (Path.join dir name) = Path.join dir (temporaryName name) :=
  Path.withExtension_join dir copy.named (by decide) copy.temporary.relative

/-- What a tree holds after the copy under some name has been replaced. -/
structure Replaces (dir : Path) (name : String) (content : Bytes) (before after : FileTree) : Prop where
  located : after.locate (Path.join dir name) = .ok (before.spot dir ++ [name])
  sameDirs : before.SameDirs after
  written : ∃ modified, after.node? (before.spot dir ++ [name]) = some (.file content modified)
  others : ∀ place, place ≠ before.spot dir ++ [name] → place ≠ before.spot dir ++ [temporaryName name] →
    after.node? place = before.node? place

theorem writeSnapshot_eq_ok {value : Json} {space after : Workspace} (copy : IsCopyName name)
    (done : writeSnapshot (Path.join dir name) value space = (.ok (), after)) :
    Replaces dir name (Text.encodeUtf8 value.pretty.toList) space.tree after.tree := by
  obtain ⟨_, middle, wrote, moved⟩ := bind_eq_ok_iff.1 done
  rw [temporaryPath_join dir copy] at wrote moved
  obtain ⟨first, firstAt, notDirectory, written⟩ := FileTree.write_eq_ok (FileAction.change_eq_ok_iff.1 wrote).1
  obtain ⟨start, goal, node, startAt, goalAt, here, free, -, moves⟩ :=
    FileTree.renameFile_eq_ok (FileAction.change_eq_ok_iff.1 moved).1
  have firstIs := FileTree.locate_eq_spot firstAt
  rw [FileTree.spot_join_name dir copy.temporary] at firstIs
  have sameDirs := written.sameDirs notDirectory nofun
  have startIs := FileTree.locate_eq_spot startAt
  have goalIs := FileTree.locate_eq_spot goalAt
  rw [FileTree.spot_join_name dir copy.temporary, sameDirs.spot_eq, ← firstIs] at startIs
  rw [FileTree.spot_join_name dir copy.named, sameDirs.spot_eq] at goalIs
  subst startIs
  rw [written.nodes, if_pos rfl] at here
  cases here
  have apart : start ≠ goal := by
    rw [firstIs, goalIs]
    intro same
    exact copy.distinct (List.append_singleton_inj.1 same).2
  have notRoot : goal ≠ [] := by
    rw [goalIs]
    simp
  have nodes (place : Location) : after.tree.node? place =
      if place = goal then some (.file (Text.encodeUtf8 value.pretty.toList) (space.tree.clock + 1))
      else if place = start then none else space.tree.node? place := by
    rw [moves, FileTree.node?_put notRoot, (FileTree.drop_sets written.filled).nodes, written.nodes]
    split
    · rfl
    · split <;> rfl
  have freeBefore : space.tree.node? goal ≠ some .directory := by
    rwa [written.nodes, if_neg (Ne.symm apart)] at free
  have keeps : space.tree.SameDirs after.tree := by
    refine ⟨by rw [moves]; exact written.workingDir, fun place => ?_⟩
    rw [nodes]
    split
    · rename_i same
      rw [same]
      exact iff_of_false nofun freeBefore
    · split
      · rename_i same
        rw [same]
        exact iff_of_false nofun notDirectory
      · rfl
  rw [goalIs] at goalAt
  refine ⟨keeps.locate_eq_ok_iff.2 (sameDirs.locate_eq_ok_iff.1 goalAt), keeps, ?_, ?_⟩
  · exact ⟨_, by rw [nodes, if_pos goalIs.symm]⟩
  · intro place notGoal notStart
    rw [nodes, if_neg (goalIs ▸ notGoal), if_neg (firstIs ▸ notStart)]

end SymbolCache
