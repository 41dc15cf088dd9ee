import SymbolCache.Proofs.StraightPaths

/-! When a path reaches a directory, in any tree and for any path, steps upwards included. What stands in a tree
may grow without a directory getting out of reach; one that could not be made is out of reach in what is left. -/

namespace SymbolCache

namespace Path

theorem endsInStep_join_name (base : Path) {name : String} (named : IsName name) : EndsInStep (join base name) := by
  by_cases written : base = ""
  · subst written
    have alone : join "" name = name := by simp [join, named.relative]
    refine ⟨[], name, ?_, named.isStep⟩
    rw [alone, parts, Text.splitAt_of_not_mem named.slashless, List.map_singleton, String.ofList_toList]
    rfl
  · exact endsInStep_join written named

end Path

namespace FileTree

variable {tree after : FileTree} {path parent : Path} {place : Location}

theorem exists_parts_of_visits (visits : tree.Visits path place) :
    ∃ before, before <+: Path.parts path ∧ place = before.foldl enter (tree.startOf path) := by
  obtain ⟨before, ⟨rest, split⟩, rfl⟩ := visits
  obtain ⟨front, back, whole, rfl, -⟩ := List.filter_eq_append_iff.1 split.symm
  exact ⟨front, ⟨back, whole.symm⟩, foldl_enter_steps ..⟩

/-- A path reaches a directory when all it visits are directories. -/
theorem isDirectory_iff_visits : tree.isDirectory path = true ↔
    Writable path ∧ Path.Short path ∧ ∀ place, tree.Visits path place → tree.node? place = some .directory := by
  rw [isDirectory_iff]
  constructor
  · rintro ⟨location, located, directory⟩
    obtain ⟨writable, followed⟩ := locate_eq_ok_iff.1 located
    obtain ⟨ends, passed⟩ := follow_eq_ok_iff.1 followed
    refine ⟨writable, ?_, ?_⟩
    · intro step inside
      obtain ⟨before, rest, split⟩ := List.append_of_mem (List.mem_filter.1 inside).1
      exact (passed before step rest split).2
    · intro place visits
      obtain ⟨before, ⟨rest, split⟩, rfl⟩ := exists_parts_of_visits visits
      cases rest with
      | nil =>
        rw [List.append_nil] at split
        rwa [split, ← ends]
      | cons part rest => exact (passed before part rest split.symm).1
  · rintro ⟨writable, short, directories⟩
    refine ⟨tree.spot path, locate_eq_ok_iff.2 ⟨writable, follow_eq_ok_iff.2 ⟨?_, ?_⟩⟩, ?_⟩
    · rw [spot, Path.steps, foldl_enter_steps]
    · intro before part rest split
      have early : before <+: Path.parts path := ⟨part :: rest, split.symm⟩
      exact ⟨directories _ (visits_of_parts early), short_parts short part (by simp [split])⟩
    · exact directories _ (visits_spot tree path)

theorem isDirectory_parent? (cut : Path.parent? path = some parent) (written : parent ≠ "")
    (reached : tree.isDirectory path = true) : tree.isDirectory parent = true := by
  obtain ⟨steps, -, inside⟩ := Path.parent?_eq_some cut
  obtain ⟨writable, short, directories⟩ := isDirectory_iff_visits.1 reached
  refine isDirectory_iff_visits.2 ⟨writable.of_beginning written inside, ?_, fun place visits => ?_⟩
  · intro step member
    rw [steps] at member
    exact short step ((List.dropLast_prefix _).subset member)
  · exact directories place (visits.of_parent? cut)

/-- Directories stay where they are. -/
structure KeepsDirs (before after : FileTree) : Prop where
  workingDir : after.workingDir = before.workingDir
  directories : ∀ place, before.node? place = some .directory → after.node? place = some .directory

namespace KeepsDirs

theorem refl (tree : FileTree) : KeepsDirs tree tree := ⟨rfl, fun _ => id⟩

theorem trans {first second third : FileTree} (earlier : KeepsDirs first second) (later : KeepsDirs second third) :
    KeepsDirs first third :=
  ⟨later.workingDir.trans earlier.workingDir, fun place directory => later.directories place (earlier.directories place directory)⟩

theorem isDirectory (keeps : KeepsDirs tree after) (reached : tree.isDirectory path = true) :
    after.isDirectory path = true := by
  obtain ⟨writable, short, directories⟩ := isDirectory_iff_visits.1 reached
  refine isDirectory_iff_visits.2 ⟨writable, short, fun place visits => ?_⟩
  rw [Visits, startOf_congr keeps.workingDir] at visits
  exact keeps.directories place (directories place visits)

end KeepsDirs

theorem Makes.keepsDirs {way : Location → Prop} (makes : Makes way tree after) : KeepsDirs tree after :=
  ⟨makes.workingDir, fun _ directory => makes.kept directory⟩

theorem write_keepsDirs {content : Bytes} (done : tree.write path content = .ok after) : KeepsDirs tree after := by
  obtain ⟨location, -, free, sets⟩ := write_eq_ok done
  refine ⟨sets.workingDir, fun place directory => ?_⟩
  rw [sets.nodes, if_neg]
  · exact directory
  · rintro rfl
    exact free directory

theorem isDirectory_of_ensureDir (sound : tree.Sound) (ends : Path.EndsInStep path)
    (done : tree.ensureDir path = .ok after) : after.isDirectory path = true := by
  unfold ensureDir at done
  split at done
  · rename_i made
    cases done
    have keeps := (makeDir_makes sound made).keepsDirs
    obtain ⟨location, located, free, -, rfl⟩ := makeDir_eq_ok made
    obtain ⟨filled, -⟩ := isName_of_locate sound located (by simp [free])
    rw [ends.dropSlashes] at located
    obtain ⟨writable, followed⟩ := locate_eq_ok_iff.1 located
    obtain ⟨here, passed⟩ := follow_eq_ok_iff.1 followed
    refine isDirectory_iff.2 ⟨location, locate_eq_ok_iff.2 ⟨writable, follow_eq_ok_iff.2 ⟨here, ?_⟩⟩, ?_⟩
    · intro before part rest split
      obtain ⟨directory, short⟩ := passed before part rest split
      exact ⟨keeps.directories _ directory, short⟩
    · rw [node?_put filled, if_pos rfl]
  · split at done
    · rename_i present
      cases done
      exact present
    · cases done

theorem isDirectory_of_makeDirs (sound : tree.Sound) (written : path ≠ "") (ends : Path.EndsInStep path)
    (done : tree.makeDirs path = .ok after) : after.isDirectory path = true := by
  rw [makeDirs, makeDirsUpTo, if_neg (by simpa using written)] at done
  split at done
  · rename_i ensured
    cases done
    exact isDirectory_of_ensureDir sound ends ensured
  · split at done
    · cases done
    · rename_i parent cut
      cases made : tree.makeDirsUpTo path.length parent with
      | error cause =>
        rw [made] at done
        cases done
      | ok above =>
        simp only [made, bind, Except.bind] at done
        exact isDirectory_of_ensureDir (makeDirsUpTo_makes sound made).1.sound ends done
  · cases done

theorem not_isDirectory_of_ensureDir {cause : FileError} (failed : tree.ensureDir path = .error cause) :
    tree.isDirectory path = false := by
  unfold ensureDir at failed
  split at failed
  · cases failed
  · split at failed
    · cases failed
    · rename_i absent
      simpa using absent

/-- A directory that could not be made is out of reach in what the attempt left. -/
theorem not_isDirectory_unfinishedDirs {cause : FileError} (failed : tree.makeDirs path = .error cause) :
    (tree.unfinishedDirs path).isDirectory path = false := by
  have upTo (levels : Nat) (path : Path) (cause : FileError) (enough : path.length < levels)
      (failed : tree.makeDirsUpTo levels path = .error cause) :
      (tree.unfinishedDirsUpTo levels path).isDirectory path = false := by
    induction levels generalizing path cause with
    | zero => omega
    | succ levels ih =>
      rw [makeDirsUpTo] at failed
      unfold unfinishedDirsUpTo
      split at failed
      · cases failed
      · rename_i written
        cases first : tree.ensureDir path with
        | ok made =>
          rw [first] at failed
          cases failed
        | error reason =>
          have absent := not_isDirectory_of_ensureDir first
          rw [first] at failed
          split
          · rename_i parent same cut
            cases same
            simp only [cut] at failed
            have shorter := Path.length_parent?_lt cut
            cases made : tree.makeDirsUpTo levels parent with
            | ok above =>
              simp only [made, bind, Except.bind] at failed
              exact not_isDirectory_of_ensureDir failed
            | error earlier =>
              have blocked := ih parent earlier (by omega) made
              rw [← Bool.not_eq_true] at blocked ⊢
              intro reached
              refine blocked (isDirectory_parent? cut ?_ reached)
              rintro rfl
              cases levels with
              | zero => omega
              | succ levels => cases made
          · exact absent
  exact upTo (path.length + 1) path cause (by omega) failed

end FileTree

end SymbolCache
