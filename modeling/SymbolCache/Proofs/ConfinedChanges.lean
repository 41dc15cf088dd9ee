import SymbolCache.Proofs.FileActions
import SymbolCache.Proofs.SoundTrees

/-! Where operations on a file tree change anything: files in a region, and directories along a way
that leads there. -/

namespace SymbolCache.FileTree

variable {tree after : FileTree} {location : Location} {path : Path} {region way : Location → Prop}

/-- There is no file. -/
def IsOpen (node : Option FileNode) : Prop := node = none ∨ node = some .directory

/-- A tree becomes another one that differs only in a region, and in directories on some way. -/
structure Works (region way : Location → Prop) (before after : FileTree) : Prop where
  sound : after.Sound
  workingDir : after.workingDir = before.workingDir
  nodes : ∀ place, ¬ region place → after.node? place = before.node? place ∨
    way place ∧ IsOpen (before.node? place) ∧ IsOpen (after.node? place)

namespace Works

theorem refl (sound : tree.Sound) : Works region way tree tree := ⟨sound, rfl, fun _ _ => .inl rfl⟩

theorem trans {first second third : FileTree} (earlier : Works region way first second)
    (later : Works region way second third) : Works region way first third := by
  refine ⟨later.sound, later.workingDir.trans earlier.workingDir, fun place outside => ?_⟩
  rcases earlier.nodes place outside with same | ⟨onWay, opened, _⟩
  · rw [← same]
    exact later.nodes place outside
  · rcases later.nodes place outside with same | ⟨_, _, still⟩
    · rw [same]
      exact .inr ⟨onWay, opened, ‹_›⟩
    · exact .inr ⟨onWay, opened, still⟩

theorem mono {wider longer : Location → Prop} (works : Works region way tree after)
    (inside : ∀ place, region place → wider place) (along : ∀ place, way place → wider place ∨ longer place) :
    Works wider longer tree after := by
  refine ⟨works.sound, works.workingDir, fun place outside => ?_⟩
  rcases works.nodes place (fun within => outside (inside place within)) with same | ⟨onWay, both⟩
  · exact .inl same
  · exact .inr ⟨(along place onWay).resolve_left outside, both⟩

/-- Files outside of the region stay files, and nothing else becomes one. -/
theorem isOpen_iff (works : Works region way tree after) {place : Location} (outside : ¬ region place) :
    IsOpen (after.node? place) ↔ IsOpen (tree.node? place) := by
  rcases works.nodes place outside with same | ⟨-, before, now⟩
  · rw [same]
  · exact iff_of_true now before

theorem node?_eq (works : Works region way tree after) {place : Location} (outside : ¬ region place)
    (aside : ¬ way place) : after.node? place = tree.node? place :=
  (works.nodes place outside).resolve_right fun onWay => aside onWay.1

end Works

/-- A tree becomes another one that has more directories on some way. -/
structure Makes (way : Location → Prop) (before after : FileTree) : Prop where
  sound : after.Sound
  workingDir : after.workingDir = before.workingDir
  nodes : ∀ place, after.node? place = before.node? place ∨
    way place ∧ before.node? place = none ∧ after.node? place = some .directory

namespace Makes

theorem refl (sound : tree.Sound) : Makes way tree tree := ⟨sound, rfl, fun _ => .inl rfl⟩

theorem trans {first second third : FileTree} (earlier : Makes way first second) (later : Makes way second third) :
    Makes way first third := by
  refine ⟨later.sound, later.workingDir.trans earlier.workingDir, fun place => ?_⟩
  rcases earlier.nodes place with same | ⟨onWay, free, made⟩
  · rw [← same]
    exact later.nodes place
  · rcases later.nodes place with same | ⟨-, stillFree, -⟩
    · exact .inr ⟨onWay, free, same.trans made⟩
    · rw [made] at stillFree
      cases stillFree

theorem mono {longer : Location → Prop} (makes : Makes way tree after) (along : ∀ place, way place → longer place) :
    Makes longer tree after :=
  ⟨makes.sound, makes.workingDir, fun place => (makes.nodes place).imp_right fun ⟨onWay, both⟩ => ⟨along place onWay, both⟩⟩

theorem works (makes : Makes way tree after) : Works region way tree after :=
  ⟨makes.sound, makes.workingDir, fun place _ => (makes.nodes place).imp_right fun ⟨onWay, free, made⟩ =>
    ⟨onWay, .inl free, .inr made⟩⟩

theorem kept (makes : Makes way tree after) {place : Location} {node : FileNode} (found : tree.node? place = some node) :
    after.node? place = some node := by
  rcases makes.nodes place with same | ⟨-, free, -⟩
  · rw [same, found]
  · rw [found] at free
    cases free

end Makes

/-- The locations that a path passes, its own included. -/
def Visits (tree : FileTree) (path : Path) (place : Location) : Prop :=
  ∃ before, before <+: Path.steps path ∧ place = before.foldl enter (tree.startOf path)

theorem visits_spot (tree : FileTree) (path : Path) : tree.Visits path (tree.spot path) :=
  ⟨Path.steps path, List.prefix_refl _, rfl⟩

theorem Visits.of_parent? {parent : Path} (cut : Path.parent? path = some parent) {place : Location}
    (visits : tree.Visits parent place) : tree.Visits path place := by
  obtain ⟨before, early, rfl⟩ := visits
  obtain ⟨steps, absolute, -⟩ := Path.parent?_eq_some cut
  rw [steps] at early
  exact ⟨before, early.trans (List.dropLast_prefix _), by rw [startOf, startOf, absolute]⟩

theorem startOf_congr {other : FileTree} (same : other.workingDir = tree.workingDir) (path : Path) :
    other.startOf path = tree.startOf path := by
  rw [startOf, startOf, same]

private theorem slashless_of_mem_parts {part : String} (inside : part ∈ Path.parts path) : '/' ∉ part.toList := by
  obtain ⟨chars, member, rfl⟩ := List.mem_map.1 inside
  rw [String.toList_ofList]
  exact Text.not_mem_of_mem_splitAt member

/-- A path leads to a directory, or to a place in a directory under a proper name. -/
private theorem follow_lands (sound : tree.Sound) {here : Location} {parts : List String}
    (slashless : ∀ part ∈ parts, '/' ∉ part.toList) (filled : parts ≠ [])
    (followed : tree.follow here parts = .ok location) : tree.node? location = some .directory ∨
      ∃ front name, location = front ++ [name] ∧ Path.IsName name ∧ tree.node? front = some .directory := by
  induction parts generalizing here with
  | nil => exact absurd rfl filled
  | cons part rest ih =>
    rw [follow_cons] at followed
    cases opened : tree.directoryAt here with
    | error cause =>
      rw [opened] at followed
      cases followed
    | ok _ =>
      have directory := directoryAt_eq_ok.1 opened
      rw [opened] at followed
      simp only at followed
      split at followed
      · cases followed
      · cases rest with
        | cons next rest => exact ih (fun other inside => slashless other (List.mem_cons_of_mem _ inside)) (by simp) followed
        | nil =>
          cases followed
          unfold enter
          split
          · exact .inl directory
          · rename_i step
            split
            · left
              by_cases top : here = []
              · subst top
                exact directory
              · exact sound.enclosed here _ top directory
            · rename_i notUp
              refine .inr ⟨here, part, rfl, ⟨slashless part (List.mem_cons_self ..), ?_, by simpa using notUp⟩, directory⟩
              rw [Path.isStep]
              simpa [not_or] using step

/-- New things get proper names. -/
theorem isName_of_locate (sound : tree.Sound) (located : tree.locate path = .ok location)
    (free : tree.node? location ≠ some .directory) :
    location ≠ [] ∧ (∀ name ∈ location, Path.IsName name) ∧ tree.node? location.dropLast = some .directory := by
  have parts : Path.parts path ≠ [] := by
    rw [Path.parts, Ne, List.map_eq_nil_iff]
    exact Text.splitAt_ne_nil '/' _
  obtain ⟨-, followed⟩ := locate_eq_ok_iff.1 located
  rcases follow_lands sound (fun part inside => slashless_of_mem_parts inside) parts followed with directory |
    ⟨front, name, rfl, named, above⟩
  · exact absurd directory free
  · refine ⟨by simp, ?_, by rwa [List.dropLast_concat]⟩
    intro other inside
    rcases List.mem_append.1 inside with early | last
    · exact sound.isName above other early
    · exact List.mem_singleton.1 last ▸ named

theorem makeDir_makes (sound : tree.Sound) (done : tree.makeDir path = .ok after) :
    Makes (tree.Visits path) tree after := by
  obtain ⟨location, located, free, above, rfl⟩ := makeDir_eq_ok done
  obtain ⟨filled, named, -⟩ := isName_of_locate sound located (by simp [free])
  refine ⟨sound.put filled named above (.inl rfl), rfl, fun place => ?_⟩
  rw [node?_put filled]
  split
  · rename_i here
    refine .inr ⟨?_, here ▸ free, rfl⟩
    rw [here, locate_eq_spot located, spot_dropSlashes]
    exact visits_spot tree path
  · exact .inl rfl

theorem ensureDir_makes (sound : tree.Sound) (done : tree.ensureDir path = .ok after) :
    Makes (tree.Visits path) tree after ∧ after.node? (tree.spot path) = some .directory := by
  unfold ensureDir at done
  split at done
  · rename_i made
    cases done
    refine ⟨makeDir_makes sound made, ?_⟩
    obtain ⟨location, located, free, -, rfl⟩ := makeDir_eq_ok made
    obtain ⟨filled, -⟩ := isName_of_locate sound located (by simp [free])
    rw [← spot_dropSlashes, ← locate_eq_spot located, node?_put filled, if_pos rfl]
  · split at done
    · rename_i present
      cases done
      obtain ⟨location, located, directory⟩ := isDirectory_iff.1 present
      exact ⟨.refl sound, locate_eq_spot located ▸ directory⟩
    · cases done

theorem makeDirsUpTo_makes (sound : tree.Sound) {levels : Nat} (done : tree.makeDirsUpTo levels path = .ok after) :
    Makes (tree.Visits path) tree after ∧ (path ≠ "" → after.node? (tree.spot path) = some .directory) := by
  induction levels generalizing path after with
  | zero => cases done
  | succ levels ih =>
    unfold makeDirsUpTo at done
    split at done
    · rename_i blank
      cases done
      exact ⟨.refl sound, fun written => absurd (beq_iff_eq.1 blank) written⟩
    · split at done
      · rename_i ensured
        cases done
        exact (ensureDir_makes sound ensured).imp_right fun directory _ => directory
      · split at done
        · cases done
        · rename_i parent cut
          cases made : tree.makeDirsUpTo levels parent with
          | error cause =>
            rw [made] at done
            cases done
          | ok above =>
            simp only [made, bind, Except.bind] at done
            have earlier := (ih made).1.mono fun _ visits => visits.of_parent? cut
            obtain ⟨later, directory⟩ := ensureDir_makes earlier.sound done
            have start := startOf_congr earlier.workingDir path
            refine ⟨earlier.trans (later.mono fun place visits => ?_), fun _ => ?_⟩
            · rwa [Visits, start] at visits
            · rwa [spot, start] at directory
      · cases done

/-- Making directories adds what is missing on the way, so that the path leads to one. -/
theorem makeDirs_makes (sound : tree.Sound) (written : path ≠ "") (done : tree.makeDirs path = .ok after) :
    Makes (tree.Visits path) tree after ∧ after.node? (tree.spot path) = some .directory :=
  (makeDirsUpTo_makes sound done).imp_right fun directory => directory written

/-- An attempt that fails leaves more directories on the way, and nothing else. -/
theorem unfinishedDirs_makes (sound : tree.Sound) (path : Path) :
    Makes (tree.Visits path) tree (tree.unfinishedDirs path) := by
  have upTo (levels : Nat) (path : Path) : Makes (tree.Visits path) tree (tree.unfinishedDirsUpTo levels path) := by
    induction levels generalizing path with
    | zero => exact .refl sound
    | succ levels ih =>
      unfold unfinishedDirsUpTo
      split
      · rename_i parent _ cut
        split
        · rename_i above made
          exact (makeDirsUpTo_makes sound made).1.mono fun _ visits => visits.of_parent? cut
        · exact (ih parent).mono fun _ visits => visits.of_parent? cut
      · exact .refl sound
  exact upTo (path.length + 1) path

theorem write_works {content : Bytes} (sound : tree.Sound) (done : tree.write path content = .ok after) :
    Works (· = tree.spot path) (fun _ => False) tree after := by
  obtain ⟨location, located, free, rfl⟩ := write_eq_put done
  obtain ⟨filled, named, above⟩ := isName_of_locate sound located free
  refine ⟨sound.tick.put filled named above (.inr free), rfl, fun place outside => .inl ?_⟩
  rw [node?_put filled, if_neg]
  · rfl
  · rintro rfl
    exact outside (locate_eq_spot located)

theorem removeDirs_works (sound : tree.Sound) (done : tree.removeDirs path = .ok after) :
    Works (fun place => tree.spot path <+: place ∧ place ≠ tree.spot path) (· = tree.spot path) tree after := by
  obtain ⟨location, located, directory, rfl⟩ := removeDirs_eq_ok done
  obtain rfl := locate_eq_spot located
  refine ⟨sound.prune _, rfl, fun place outside => ?_⟩
  rw [node?_prune]
  split
  · rename_i inside
    have here : place = tree.spot path := by
      by_contra differs
      exact outside ⟨inside.1, differs⟩
    exact .inr ⟨here, here ▸ .inr directory, .inl rfl⟩
  · exact .inl rfl

theorem renameFile_works {source target : Path} {content : Bytes} {modified : Int} (sound : tree.Sound)
    (file : tree.node? (tree.spot source) = some (.file content modified))
    (done : tree.renameFile source target = .ok after) :
    Works (fun place => place = tree.spot source ∨ place = tree.spot target) (fun _ => False) tree after := by
  obtain ⟨start, goal, node, startAt, goalAt, here, free, above, rfl⟩ := renameFile_eq_ok done
  obtain rfl := locate_eq_spot startAt
  obtain ⟨filled, named, -⟩ := isName_of_locate sound goalAt free
  have notDirectory : tree.node? (tree.spot source) ≠ some .directory := by simp [file]
  have dropped (place : Location) (directory : tree.node? place = some .directory) :
      (tree.drop (tree.spot source)).node? place = some .directory := by
    rw [node?_drop, if_neg]
    · exact directory
    · rintro ⟨same, -⟩
      exact notDirectory (same ▸ directory)
  have stillFree : (tree.drop (tree.spot source)).node? goal ≠ some .directory := by
    rw [node?_drop]
    split
    · nofun
    · exact free
  refine ⟨(sound.drop notDirectory).put filled named (dropped _ above) (.inr stillFree), rfl, fun place outside => .inl ?_⟩
  rw [not_or] at outside
  rw [node?_put filled, if_neg, node?_drop, if_neg]
  · exact fun both => outside.1 both.1
  · rw [locate_eq_spot goalAt]
    exact outside.2

end SymbolCache.FileTree

namespace SymbolCache

/-- An action changes a tree only in a region, and in directories on some way, whether it succeeds or not. -/
def FileAction.Confined {ε α : Type} (region way : Location → Prop) (action : FileAction ε α) : Prop :=
  ∀ space, space.tree.Sound → FileTree.Works region way space.tree (action space).2.tree

/-- Whether it fails or not, making directories adds what is missing on the way and nothing else. -/
theorem FileAction.makes_makeDirs {ε : Type} {wrap : FileError → ε} {path : Path} {space : Workspace}
    (sound : space.tree.Sound) : FileTree.Makes (space.tree.Visits path) space.tree
      (FileAction.makeDirs wrap path space).2.tree := by
  unfold FileAction.makeDirs
  cases done : space.tree.makeDirs path with
  | error cause => exact FileTree.unfinishedDirs_makes sound path
  | ok after => exact (FileTree.makeDirsUpTo_makes sound done).1

namespace FileAction.Confined

variable {ε α β : Type} {region way : Location → Prop}

theorem pure (value : α) : Confined region way (Pure.pure value : FileAction ε α) := fun _ sound => .refl sound

theorem throw (cause : ε) : Confined region way (MonadExcept.throw cause : FileAction ε α) := fun _ sound => .refl sound

theorem bind {action : FileAction ε α} {next : α → FileAction ε β} (first : Confined region way action)
    (rest : ∀ value, Confined region way (next value)) : Confined region way (action >>= next) := by
  intro space sound
  have works := first space sound
  rw [bind_apply]
  rcases ran : action space with ⟨cause | value, middle⟩ <;> rw [ran] at works
  · exact works
  · exact works.trans (rest value middle works.sound)

theorem change {wrap : FileError → ε} {operation : FileTree → Except FileError FileTree}
    (works : ∀ tree after, tree.Sound → operation tree = .ok after → FileTree.Works region way tree after) :
    Confined region way (FileAction.change wrap operation) := by
  intro space sound
  unfold FileAction.change
  cases done : operation space.tree with
  | error cause => exact .refl sound
  | ok after => exact works space.tree after sound done

theorem makeDirs {wrap : FileError → ε} {path : Path}
    (along : ∀ tree place, FileTree.Visits tree path place → region place ∨ way place) :
    Confined region way (FileAction.makeDirs wrap path) := fun space sound =>
  (makes_makeDirs sound).works.mono (fun _ => id) (along space.tree)

theorem of_eq {action : FileAction ε α} (confined : Confined region way action) {space after : Workspace}
    {result : Except ε α} (sound : space.tree.Sound) (ran : action space = (result, after)) :
    FileTree.Works region way space.tree after.tree := by
  have works := confined space sound
  rwa [ran] at works

theorem on {action : FileAction ε α} (confined : Confined region way action) {tree : FileTree} (sound : tree.Sound) :
    FileTree.Works region way tree (action.on tree).2 := confined ⟨tree, []⟩ sound

end FileAction.Confined

end SymbolCache
