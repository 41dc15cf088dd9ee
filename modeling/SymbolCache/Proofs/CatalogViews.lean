import SymbolCache.Proofs.Unpacking
import SymbolCache.Source.Catalog

/-! The catalog of an unpacked package depends only on what is in its directory. -/

namespace SymbolCache

open FileTree

variable {root : Path} {first second : FileTree}

theorem Path.straight_joinAll {names : List String} (straight : Path.Straight root)
    (named : ∀ name ∈ names, Path.IsName name) : Path.Straight (names.foldl Path.join root) ∧
      Path.steps (names.foldl Path.join root) = Path.steps root ++ names := by
  induction names generalizing root with
  | nil => exact ⟨straight, (List.append_nil _).symm⟩
  | cons name rest ih =>
    have here := named name (List.mem_cons_self ..)
    obtain ⟨whole, steps⟩ := ih (straight.join here) fun other inside => named other (List.mem_cons_of_mem _ inside)
    refine ⟨whole, ?_⟩
    rw [List.foldl_cons, steps, Path.steps_join_name root here, List.append_assoc]
    rfl

namespace FileTree

theorem within_of_straight {place : Location} {path : Path} (straight : Path.Straight path)
    (below : place <+: Path.steps path) : Within place path := by
  refine ⟨straight.absolute, fun before early => ?_⟩
  rw [foldl_enter_names fun _ inside => straight.isName (early.subset inside)]
  exact List.prefix_or_prefix_of_prefix early below

namespace Twin

variable {place : Location} {path : Path}

theorem read_eq (twin : Twin place first second) (within : Within place path) : first.read path = second.read path := by
  unfold read stat
  rw [twin.locate_eq within]
  cases found : second.locate path with
  | error cause => rfl
  | ok location =>
    have near : location <+: place ∨ place <+: location := by
      rw [locate_eq_spot found]
      exact spot_along within second
    have same := twin.along near
    simp only [bind, Except.bind]
    rcases one : first.node? location with _ | _ | _ <;> rcases two : second.node? location with _ | _ | _ <;>
      rw [one, two] at same <;> first | rfl | cases same
    rfl

theorem isFile_eq (twin : Twin place first second) (within : Within place path) :
    first.isFile path = second.isFile path := by
  unfold isFile stat
  rw [twin.locate_eq within]
  cases found : second.locate path with
  | error cause => rfl
  | ok location =>
    have near : location <+: place ∨ place <+: location := by
      rw [locate_eq_spot found]
      exact spot_along within second
    have same := twin.along near
    simp only [bind, Except.bind]
    rcases one : first.node? location with _ | _ | _ <;> rcases two : second.node? location with _ | _ | _ <;>
      rw [one, two] at same <;> first | rfl | cases same

end Twin

end FileTree

namespace Source

/-- The files of a directory can be read alike where they are alike. -/
theorem catalog_congr (twin : Twin (Path.steps root) first second) (straight : Path.Straight root) (withProcedures : Bool) :
    catalog first root withProcedures = catalog second root withProcedures := by
  have files : first.filesUnder root = second.filesUnder root := by
    have same := twin.locate_eq (within_of_straight straight (List.prefix_refl _))
    cases located : first.locate root with
    | error cause =>
      unfold filesUnder walk
      rw [← same, located]
    | ok location =>
      have here := locate_eq_spot located
      rw [spot_of_straight straight] at here
      subst here
      exact twin.alike.filesUnder_eq twin.sound twin.sound' located (same ▸ located)
  have objects : objectFiles first root = objectFiles second root := by
    unfold objectFiles
    rw [files]
  have reads (path : Path) (inside : path ∈ objectFiles second root) : readLossy first path = readLossy second path := by
    rw [← objects, objectFiles, Path.sort, List.mem_mergeSort, List.mem_filter] at inside
    obtain ⟨location, names, content, modified, located, reaches, rfl⟩ := mem_filesUnder_iff.1 inside.1
    have named : ∀ name ∈ names, Path.IsName name := fun name member =>
      twin.sound.isName reaches.1 name (List.mem_append_right _ member)
    obtain ⟨whole, steps⟩ := Path.straight_joinAll straight named
    have within : Within (Path.steps root) (names.foldl Path.join root) :=
      within_of_straight whole (by rw [steps]; exact List.prefix_append ..)
    unfold readLossy
    rw [twin.read_eq within]
  have document : Within (Path.steps root) (documentPath root) := by
    have named : Path.IsName "SymbolReference.json" := ⟨by decide, by decide, by decide⟩
    refine within_of_straight (straight.join named) ?_
    exact (Path.steps_join_name root named) ▸ List.prefix_append ..
  have units : units first root = units second root := by
    unfold Source.units
    rw [objects]
    refine List.flatMap_congr fun path inside => ?_
    rw [reads path inside]
  have holds : (objectFiles first root).any (holdsObjects first) = (objectFiles second root).any (holdsObjects second) := by
    rw [objects, Bool.eq_iff_iff, List.any_eq_true, List.any_eq_true]
    refine exists_congr fun path => and_congr_right fun inside => ?_
    rw [holdsObjects, holdsObjects, reads path inside]
  have strategy : strategy? first root = strategy? second root := by
    rw [strategy?, strategy?, twin.isFile_eq document, holds]
  have table (chosen : Strategy) : readTable first root withProcedures chosen = readTable second root withProcedures chosen := by
    cases chosen with
    | document => rw [readTable, readTable, readLossy, readLossy, twin.read_eq document]
    | sources => rw [readTable, readTable, units]
  unfold catalog collectProcedures
  rw [strategy, units]
  simp only [table]

end Source

end SymbolCache
