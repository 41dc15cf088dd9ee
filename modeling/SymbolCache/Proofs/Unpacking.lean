import SymbolCache.Proofs.ScratchDirectories

/-! Unpacking writes nothing outside of the scratch directory, and what it writes there depends on
nothing but the package and the directory itself. -/

namespace SymbolCache

namespace FileTree

variable {root : Location} {path : Path} {first second : FileTree}

/-- A path leads only through directories above a location and through what is below it. -/
structure Within (root : Location) (path : Path) : Prop where
  absolute : Path.isAbsolute path = true
  stays : ∀ before, before <+: Path.steps path →
    before.foldl enter [] <+: root ∨ root <+: before.foldl enter []

namespace Within

theorem visits (within : Within root path) {tree : FileTree} {place : Location} (visited : tree.Visits path place) :
    place <+: root ∨ root <+: place := by
  obtain ⟨before, early, rfl⟩ := visited
  rw [startOf_of_isAbsolute within.absolute]
  exact within.stays before early

theorem parent? (within : Within root path) {parent : Path} (cut : Path.parent? path = some parent) :
    Within root parent := by
  obtain ⟨steps, absolute, -⟩ := Path.parent?_eq_some cut
  refine ⟨absolute.trans within.absolute, fun before early => ?_⟩
  rw [steps] at early
  exact within.stays before (early.trans (List.dropLast_prefix _))

end Within

/-- Two trees that hold the same at and below a directory. -/
structure Twin (root : Location) (first second : FileTree) : Prop where
  sound : first.Sound
  sound' : second.Sound
  directory : first.node? root = some .directory
  alike : AlikeBelow root first second

namespace Twin

theorem directory' (twin : Twin root first second) : second.node? root = some .directory := by
  have here := twin.alike []
  rw [List.append_nil] at here
  exact (FileNode.directory_iff here).1 twin.directory

theorem along (twin : Twin root first second) {place : Location} (near : place <+: root ∨ root <+: place) :
    (first.node? place).map FileNode.timeless = (second.node? place).map FileNode.timeless := by
  rcases near with above | ⟨names, rfl⟩
  · by_cases here : place = root
    · rw [here, twin.directory, twin.directory']
    · rw [twin.sound.directory_of_prefix above twin.directory here,
        twin.sound'.directory_of_prefix above twin.directory' here]
  · exact twin.alike names

theorem locate_eq (twin : Twin root first second) (within : Within root path) :
    first.locate path = second.locate path := by
  refine locate_of_visits ?_ fun place visited => twin.along (within.visits visited)
  rw [startOf_of_isAbsolute within.absolute, startOf_of_isAbsolute within.absolute]

theorem spot_along (within : Within root path) (tree : FileTree) :
    tree.spot path <+: root ∨ root <+: tree.spot path := within.visits (visits_spot tree path)

/-- The same is put in both trees. -/
theorem put (twin : Twin root first second) {place : Location} {node node' : FileNode} (inside : Inside root place)
    (same : node.timeless = node'.timeless) (sound : (first.put place node).Sound)
    (sound' : (second.put place node').Sound) : Twin root (first.put place node) (second.put place node') := by
  have filled : place ≠ [] := by
    rintro rfl
    exact inside.2 (List.prefix_nil.1 inside.1).symm
  refine ⟨sound, sound', ?_, fun names => ?_⟩
  · rw [node?_put filled, if_neg (Ne.symm inside.2)]
    exact twin.directory
  · rw [node?_put filled, node?_put filled]
    split
    · simp [same]
    · exact twin.alike names

end Twin

/-- Both operations fail alike, or both succeed and the trees stay alike. -/
def Matches (root : Location) : Except FileError FileTree → Except FileError FileTree → Prop
  | .ok first, .ok second => Twin root first second
  | .error cause, .error cause' => cause = cause'
  | _, _ => False

/-- Something that is not there lies inside. -/
private theorem inside_of_missing (twin : Twin root first second) {place : Location}
    (near : place <+: root ∨ root <+: place) (missing : first.node? place ≠ some .directory) : Inside root place := by
  rcases near with above | below
  · by_cases here : place = root
    · exact absurd (here ▸ twin.directory) missing
    · exact absurd (twin.sound.directory_of_prefix above twin.directory here) missing
  · refine ⟨below, ?_⟩
    rintro rfl
    exact missing twin.directory

theorem matches_makeDir (twin : Twin root first second) (within : Within root (dropSlashes path)) :
    Matches root (first.makeDir path) (second.makeDir path) := by
  unfold makeDir
  have located := twin.locate_eq within
  rw [← located]
  cases found : first.locate (dropSlashes path) with
  | error cause => exact rfl
  | ok place =>
    have near : place <+: root ∨ root <+: place := by
      rw [locate_eq_spot found]
      exact Twin.spot_along within first
    have same := twin.along near
    simp only [bind, Except.bind]
    cases here : first.node? place with
    | some node =>
      rw [here] at same
      obtain ⟨node', here', -⟩ := Option.map_eq_some_iff.1 same.symm
      rw [here']
      exact rfl
    | none =>
      rw [here] at same
      have here' := Option.map_eq_none_iff.1 same.symm
      obtain ⟨filled, named, above⟩ := isName_of_locate twin.sound found (by simp [here])
      obtain ⟨-, -, above'⟩ := isName_of_locate twin.sound' (located ▸ found) (by simp [here'])
      rw [here', directoryAt_eq_ok.2 above, directoryAt_eq_ok.2 above']
      exact twin.put (inside_of_missing twin near (by simp [here])) rfl (twin.sound.put filled named above (.inl rfl))
        (twin.sound'.put filled named above' (.inl rfl))

theorem isDirectory_eq (twin : Twin root first second) (within : Within root path) :
    first.isDirectory path = second.isDirectory path := by
  rw [Bool.eq_iff_iff, isDirectory_iff, isDirectory_iff, twin.locate_eq within]
  refine exists_congr fun place => and_congr_right fun found => ?_
  have near : place <+: root ∨ root <+: place := by
    rw [locate_eq_spot found]
    exact Twin.spot_along within second
  exact FileNode.directory_iff (twin.along near)

theorem matches_ensureDir (twin : Twin root first second) (within : Within root path) :
    Matches root (first.ensureDir path) (second.ensureDir path) := by
  have dropped : Within root (dropSlashes path) := by
    obtain ⟨steps, absolute, -⟩ := Path.dropSlashes_spec path
    exact ⟨absolute.trans within.absolute, by rw [steps]; exact within.stays⟩
  have made := matches_makeDir twin dropped
  unfold ensureDir
  rw [isDirectory_eq twin within]
  cases one : first.makeDir path <;> cases two : second.makeDir path <;> rw [one, two] at made
  · obtain rfl : _ = _ := made
    simp only
    split
    · exact twin
    · exact rfl
  · cases made
  · cases made
  · exact made

theorem matches_makeDirsUpTo (twin : Twin root first second) (within : Within root path) (levels : Nat) :
    Matches root (first.makeDirsUpTo levels path) (second.makeDirsUpTo levels path) := by
  induction levels generalizing path with
  | zero => exact rfl
  | succ levels ih =>
    rw [makeDirsUpTo, makeDirsUpTo]
    split
    · exact twin
    · have ensured := matches_ensureDir twin within
      cases one : first.ensureDir path <;> cases two : second.ensureDir path <;> rw [one, two] at ensured
      · obtain rfl : _ = _ := ensured
        rename_i cause
        cases cause with
        | notFound =>
          simp only
          cases cut : Path.parent? path with
          | none => exact rfl
          | some parent =>
            have above := ih (within.parent? cut)
            cases up : first.makeDirsUpTo levels parent <;> cases up' : second.makeDirsUpTo levels parent <;>
              rw [up, up'] at above
            · simpa only [up, up', bind, Except.bind] using above
            · cases above
            · cases above
            · simpa only [up, up', bind, Except.bind] using matches_ensureDir above within
        | _ => exact rfl
      · cases ensured
      · cases ensured
      · exact ensured

theorem matches_makeDirs (twin : Twin root first second) (within : Within root path) :
    Matches root (first.makeDirs path) (second.makeDirs path) := matches_makeDirsUpTo twin within _

theorem twin_unfinishedDirs (twin : Twin root first second) (within : Within root path) :
    Twin root (first.unfinishedDirs path) (second.unfinishedDirs path) := by
  have upTo (levels : Nat) {path : Path} (within : Within root path) :
      Twin root (first.unfinishedDirsUpTo levels path) (second.unfinishedDirsUpTo levels path) := by
    induction levels generalizing path with
    | zero => exact twin
    | succ levels ih =>
      have ensured := matches_ensureDir twin within
      unfold unfinishedDirsUpTo
      cases one : first.ensureDir path <;> cases two : second.ensureDir path <;> rw [one, two] at ensured
      · obtain rfl : _ = _ := ensured
        rename_i cause
        cases cause with
        | notFound =>
          cases cut : Path.parent? path with
          | none => exact twin
          | some parent =>
            have above := matches_makeDirsUpTo twin (within.parent? cut) levels
            cases up : first.makeDirsUpTo levels parent <;> cases up' : second.makeDirsUpTo levels parent <;>
              rw [up, up'] at above
            · simpa only [up, up'] using ih (within.parent? cut)
            · cases above
            · cases above
            · simpa only [up, up', Matches] using above
        | _ => exact twin
      · cases ensured
      · cases ensured
      · exact twin
  exact upTo (path.length + 1) within

theorem matches_write (twin : Twin root first second) (within : Within root path) (content : Bytes) :
    Matches root (first.write path content) (second.write path content) := by
  have located := twin.locate_eq within
  rw [write_eq, write_eq, ← located]
  cases found : first.locate path with
  | error cause => exact rfl
  | ok place =>
    have near : place <+: root ∨ root <+: place := by
      rw [locate_eq_spot found]
      exact Twin.spot_along within first
    have same := twin.along near
    have puts (free : first.node? place ≠ some .directory) :
        Matches root (.ok (first.tick.put place (.file content (first.clock + 1))))
          (.ok (second.tick.put place (.file content (second.clock + 1)))) := by
      have free' : second.node? place ≠ some .directory := fun directory => free ((FileNode.directory_iff same).2 directory)
      obtain ⟨filled, named, above⟩ := isName_of_locate twin.sound found free
      obtain ⟨-, -, above'⟩ := isName_of_locate twin.sound' (located ▸ found) free'
      have ticked : Twin root first.tick second.tick := ⟨twin.sound.tick, twin.sound'.tick, twin.directory, twin.alike⟩
      exact ticked.put (inside_of_missing twin near free) rfl (twin.sound.tick.put filled named above (.inr free))
        (twin.sound'.tick.put filled named above' (.inr free'))
    simp only [bind, Except.bind]
    rcases here : first.node? place with _ | _ | _ <;> rcases here' : second.node? place with _ | _ | _ <;>
      rw [here, here'] at same <;> first | (cases same; done) | skip
    · simp only
      split
      · exact rfl
      · obtain ⟨-, -, above⟩ := isName_of_locate twin.sound found (by simp [here])
        obtain ⟨-, -, above'⟩ := isName_of_locate twin.sound' (located ▸ found) (by simp [here'])
        rw [directoryAt_eq_ok.2 above, directoryAt_eq_ok.2 above']
        exact puts (by simp [here])
    · exact rfl
    · exact puts (by simp [here])

end FileTree

namespace FileAction

open FileTree

variable {ε α β : Type} {root : Location}

/-- An action that finds a directory changes nothing but what is in it, and does the same to two trees in which
the directory holds the same. -/
structure Tame (root : Location) (action : FileAction ε α) : Prop where
  fills : ∀ space : Workspace, space.tree.Sound → space.tree.node? root = some .directory →
    Works (Inside root) (fun _ => False) space.tree (action space).2.tree
  alike : ∀ first second : Workspace, Twin root first.tree second.tree →
    (action first).1 = (action second).1 ∧ Twin root (action first).2.tree (action second).2.tree

namespace Tame

theorem pure (value : α) : Tame root (Pure.pure value : FileAction ε α) :=
  ⟨fun _ sound _ => .refl sound, fun _ _ twin => ⟨rfl, twin⟩⟩

theorem throw (cause : ε) : Tame root (MonadExcept.throw cause : FileAction ε α) :=
  ⟨fun _ sound _ => .refl sound, fun _ _ twin => ⟨rfl, twin⟩⟩

theorem note (level : LogLevel) (text : String) : Tame root (FileAction.note level text : FileAction ε Unit) :=
  ⟨fun _ sound _ => .refl sound, fun _ _ twin => ⟨rfl, twin⟩⟩

theorem bind {action : FileAction ε α} {next : α → FileAction ε β} (first : Tame root action)
    (rest : ∀ value, Tame root (next value)) : Tame root (action >>= next) where
  fills space sound present := by
    have works := first.fills space sound present
    have still : (action space).2.tree.node? root = some .directory := by
      rw [works.node?_eq (fun inside => inside.2 rfl) nofun]
      exact present
    rw [bind_apply]
    rcases ran : action space with ⟨cause | value, middle⟩ <;> rw [ran] at works still
    · exact works
    · exact works.trans ((rest value).fills middle works.sound still)
  alike one two twin := by
    obtain ⟨same, after⟩ := first.alike one two twin
    rw [bind_apply, bind_apply]
    rcases ran : action one with ⟨result, space⟩
    rcases ran' : action two with ⟨result', space'⟩
    rw [ran, ran'] at same after
    obtain rfl : result = result' := same
    cases result with
    | error cause => exact ⟨rfl, after⟩
    | ok value => exact (rest value).alike space space' after

theorem change {wrap : FileError → ε} {operation : FileTree → Except FileError FileTree}
    (works : ∀ tree after, tree.Sound → tree.node? root = some .directory → operation tree = .ok after →
      Works (Inside root) (fun _ => False) tree after)
    (alike : ∀ first second, Twin root first second → Matches root (operation first) (operation second)) :
    Tame root (FileAction.change wrap operation) where
  fills space sound present := by
    unfold FileAction.change
    cases done : operation space.tree with
    | error cause => exact .refl sound
    | ok after => exact works space.tree after sound present done
  alike one two twin := by
    have both := alike one.tree two.tree twin
    unfold FileAction.change
    cases ran : operation one.tree <;> cases ran' : operation two.tree <;> rw [ran, ran'] at both
    · obtain rfl : _ = _ := both
      exact ⟨rfl, twin⟩
    · cases both
    · cases both
    · exact ⟨rfl, both⟩

end Tame

end FileAction

namespace FileTree

variable {root : Location} {path : Path} {tree after : FileTree}

/-- Directories on a way that stays in a directory are made in it. -/
theorem Makes.fills (within : Within root path) (sound : tree.Sound) (present : tree.node? root = some .directory)
    (makes : Makes (tree.Visits path) tree after) : Works (Inside root) (fun _ => False) tree after := by
  refine ⟨makes.sound, makes.workingDir, fun place outside => .inl ?_⟩
  rcases makes.nodes place with same | ⟨visited, missing, -⟩
  · exact same
  · rcases within.visits visited with above | below
    · by_cases here : place = root
      · rw [here, present] at missing
        cases missing
      · rw [sound.directory_of_prefix above present here] at missing
        cases missing
    · have here : place = root := by
        by_contra differs
        exact outside ⟨below, differs⟩
      rw [here, present] at missing
      cases missing

theorem write_fills {content : Bytes} (within : Within root path) (sound : tree.Sound)
    (present : tree.node? root = some .directory) (done : tree.write path content = .ok after) :
    Works (Inside root) (fun _ => False) tree after := by
  refine (write_works sound done).mono ?_ nofun
  rintro place rfl
  obtain ⟨location, located, free, -⟩ := write_eq_put done
  rw [locate_eq_spot located] at free
  rcases Twin.spot_along within tree with above | below
  · by_cases here : tree.spot path = root
    · exact absurd (here ▸ present) free
    · exact absurd (sound.directory_of_prefix above present here) free
  · refine ⟨below, ?_⟩
    intro here
    exact free (here ▸ present)

end FileTree

theorem FileAction.Tame.makeDirs {ε : Type} {wrap : FileError → ε} {root : Location} {path : Path}
    (within : FileTree.Within root path) : Tame root (FileAction.makeDirs wrap path) where
  fills _ sound present := (makes_makeDirs sound).fills within sound present
  alike one two twin := by
    have both := FileTree.matches_makeDirs twin within
    have left := FileTree.twin_unfinishedDirs twin within
    unfold FileAction.makeDirs
    cases ran : one.tree.makeDirs path <;> cases ran' : two.tree.makeDirs path <;> rw [ran, ran'] at both
    · obtain rfl : _ = _ := both
      exact ⟨rfl, left⟩
    · cases both
    · cases both
    · exact ⟨rfl, both⟩

namespace Package

open FileTree FileAction

variable {scratch path : Path}

/-- The steps of an enclosed name never lead out. -/
private theorem prefix_of_depthAfter {steps : List String} {root rel : Location}
    (stays : (depthAfter rel.length (steps.map Path.component)).isSome = true) (real : ∀ step ∈ steps, Path.isStep step = true)
    {before : List String} (early : before <+: steps) : root <+: before.foldl enter (root ++ rel) := by
  induction steps generalizing rel before with
  | nil =>
    rw [List.prefix_nil.1 early]
    exact List.prefix_append ..
  | cons step rest ih =>
    cases before with
    | nil => exact List.prefix_append ..
    | cons head before =>
      obtain ⟨rfl, later⟩ := List.cons_prefix_cons.1 early
      have named := real head (List.mem_cons_self ..)
      have others : ∀ step ∈ rest, Path.isStep step = true := fun step inside => real step (List.mem_cons_of_mem _ inside)
      rw [Path.isStep, Bool.and_eq_true, bne_iff_ne, bne_iff_ne] at named
      rw [List.foldl_cons]
      by_cases up : head = ".."
      · subst up
        rcases List.eq_nil_or_concat rel with rfl | ⟨front, last, rfl⟩
        · cases stays
        · have dropped : enter (root ++ front.concat last) ".." = root ++ front := by
            rw [List.concat_eq_append, ← List.append_assoc]
            simp [enter]
          rw [dropped]
          refine ih ?_ others later
          rw [List.concat_eq_append, List.length_append] at stays
          exact stays
      · have entered : enter (root ++ rel) head = root ++ (rel ++ [head]) := by
          simp [enter, named.1, named.2, up]
        rw [entered]
        refine ih ?_ others later
        rw [List.length_append]
        simpa [Path.component, up, depthAfter] using stays

theorem relative_of_isEnclosed {name : String} (enclosed : isEnclosed name = true) : Path.isAbsolute name = false := by
  rw [← Bool.not_eq_true]
  intro absolute
  rw [isEnclosed, Path.components, absolute] at enclosed
  simp [depthAfter] at enclosed

/-- From any directory an enclosed name leads into it. -/
theorem prefix_of_isEnclosed {name : String} (enclosed : isEnclosed name = true) {before : List String}
    (early : before <+: Path.steps name) (root : Location) : root <+: before.foldl enter root := by
  have stays : (depthAfter 0 ((Path.steps name).map Path.component)).isSome = true := by
    rw [isEnclosed, Path.components, relative_of_isEnclosed enclosed, Bool.and_eq_true] at enclosed
    have deep := enclosed.2
    simp only [Bool.false_eq_true, if_false] at deep
    split at deep
    · exact deep
    · exact deep
  simpa using @prefix_of_depthAfter _ root [] stays (fun step member => (List.mem_filter.1 member).2) _ early

/-- Entries with enclosed names go into the scratch directory. -/
theorem within_join (straight : Path.Straight scratch) {name : String} (enclosed : isEnclosed name = true) :
    Within (Path.steps scratch) (Path.join scratch name) := by
  have relative := relative_of_isEnclosed enclosed
  refine ⟨(Path.isAbsolute_join relative).trans straight.absolute, fun before early => ?_⟩
  rw [Path.steps_join relative] at early
  have names : ∀ step ∈ Path.steps scratch, Path.IsName step := fun _ inside => straight.isName inside
  rcases List.prefix_or_prefix_of_prefix early (List.prefix_append ..) with above | ⟨more, rfl⟩
  · left
    rwa [foldl_enter_names fun _ member => names _ (above.subset member)]
  · right
    have inside := (List.prefix_append_right_inj _).1 early
    rw [List.foldl_append, foldl_enter_names names]
    exact prefix_of_isEnclosed enclosed inside _

theorem tame_writeContent {target : Path} {root : Location} (within : Within root target) (entry : Archive.Entry)
    (content : Archive.Content) : Tame root (writeContent entry content target) := by
  unfold writeContent
  refine .bind (.change (fun tree after sound present done => write_fills within sound present done)
    fun first second twin => matches_write twin within content.bytes) fun _ => ?_
  split
  · exact .throw _
  · split
    · exact .throw _
    · exact .pure _

theorem tame_writeEntry {target : Path} {root : Location} (within : Within root target) (entry : Archive.Entry)
    (content : Archive.Content) : Tame root (writeEntry entry content target) := by
  have writes := tame_writeContent within entry content
  unfold writeEntry
  cases cut : Path.parent? target with
  | none => exact writes
  | some parent =>
    exact .bind (.makeDirs (within.parent? cut)) fun _ => writes

theorem tame_unpackEntry (straight : Path.Straight scratch) (entry : Archive.Entry) :
    Tame (Path.steps scratch) (unpackEntry path scratch entry) := by
  unfold unpackEntry
  split
  · exact .throw _
  · split
    · exact .bind (.note ..) fun _ => .pure _
    · rename_i enclosed
      have within := within_join straight (show isEnclosed entry.name = true by simpa using enclosed)
      simp only
      split
      · exact .bind (.makeDirs within) fun _ => .pure _
      · exact .bind (tame_writeEntry within entry _) fun _ => .pure _

/-- Unpacking stays in the scratch directory and depends on nothing else. -/
theorem tame_unpackEntries (straight : Path.Straight scratch) (entries : List Archive.Entry) :
    Tame (Path.steps scratch) (unpackEntries path scratch entries) := by
  induction entries with
  | nil => exact .pure _
  | cons entry rest ih =>
    exact .bind (tame_unpackEntry straight entry) fun _ => .bind ih fun _ => .pure _

/-- What is done with the entries of a package that could be opened. -/
def unpackInto (scratch path : Path) (entries : List Archive.Entry) : FileAction ExtractionError Unpacked := do
  prepareScratch scratch
  let fileCount ← (unpackEntries path scratch entries).onFailure do
    removeScratch scratch
    return 0
  .note .debug ("Extracted " ++ toString fileCount ++ " files from " ++ path ++ " into " ++ scratch)
  return ⟨scratch, entries, fileCount⟩

theorem unpack_apply (scratchRoot path : Path) (space : Workspace) : ∃ log, unpack scratchRoot path space =
    match openArchive space.tree path with
    | .error cause => (.error cause, ⟨space.tree, log⟩)
    | .ok entries => unpackInto (scratchPath scratchRoot path) path entries ⟨space.tree, log⟩ := by
  have header : ∃ log, noteHeader path space.tree space = (.ok (), ⟨space.tree, log⟩) := by
    unfold noteHeader
    split
    · exact ⟨_, rfl⟩
    · exact ⟨_, rfl⟩
  obtain ⟨log, noted⟩ := header
  refine ⟨log, ?_⟩
  unfold unpack
  rw [bind_apply]
  show (noteHeader path space.tree >>= _ : FileAction ExtractionError Unpacked) space = _
  rw [bind_apply, noted]
  show (FileAction.inspect _ >>= _ : FileAction ExtractionError Unpacked) ⟨space.tree, log⟩ = _
  rw [bind_apply, FileAction.inspect]
  cases openArchive space.tree path with
  | error cause => rfl
  | ok entries => rfl

theorem confined_unpackInto (straight : Path.Straight scratch) (ends : Path.EndsInStep scratch)
    (entries : List Archive.Entry) : FileAction.Confined (Inside (Path.steps scratch)) (· <+: Path.steps scratch)
      (unpackInto scratch path entries) := by
  intro space sound
  have prepares := confined_prepareScratch straight space sound
  unfold unpackInto
  rw [bind_apply]
  rcases ran : prepareScratch scratch space with ⟨cause | value, prepared⟩ <;> rw [ran] at prepares
  · exact prepares
  · obtain ⟨after, same, vacant⟩ :=
      prepareScratch_of_passable sound straight ends (passable_of_prepareScratch sound straight ends ran)
    obtain rfl : prepared = after := congrArg Prod.snd (ran.symm.trans same)
    have fills : Works (Inside (Path.steps scratch)) (· <+: Path.steps scratch) prepared.tree
        (unpackEntries path scratch entries prepared).2.tree :=
      ((tame_unpackEntries straight entries).fills prepared prepares.sound vacant.directory).mono (fun _ => id) nofun
    have cleans : FileAction.Confined (Inside (Path.steps scratch)) (· <+: Path.steps scratch) (do
        removeScratch scratch
        return 0 : FileAction ExtractionError Nat) := .bind (confined_removeScratch straight) fun _ => .pure 0
    show Works _ _ _ ((FileAction.onFailure _ _ >>= _ : FileAction ExtractionError Unpacked) prepared).2.tree
    rw [bind_apply, FileAction.onFailure]
    rcases unpacks : unpackEntries path scratch entries prepared with ⟨cause | count, middle⟩ <;> rw [unpacks] at fills
    · exact prepares.trans (fills.trans (cleans middle fills.sound))
    · exact prepares.trans fills

/-- Two trees in which the scratch directory of a package can be prepared give the same unpacked package, or it
fails in both. -/
theorem unpackInto_alike (straight : Path.Straight scratch) (ends : Path.EndsInStep scratch)
    (entries : List Archive.Entry) {first second : Workspace} (sound : first.tree.Sound) (sound' : second.tree.Sound)
    (passable : first.tree.Passable scratch) (passable' : second.tree.Passable scratch) :
    (∃ unpacked : Unpacked, unpacked.root = scratch ∧ unpacked.entries = entries ∧
      (unpackInto scratch path entries first).1 = .ok unpacked ∧ (unpackInto scratch path entries second).1 = .ok unpacked ∧
      Twin (Path.steps scratch) (unpackInto scratch path entries first).2.tree
        (unpackInto scratch path entries second).2.tree) ∨
    ((∃ cause, (unpackInto scratch path entries first).1 = .error cause) ∧
      ∃ cause, (unpackInto scratch path entries second).1 = .error cause) := by
  obtain ⟨one, prepared, vacant⟩ := prepareScratch_of_passable sound straight ends passable
  obtain ⟨two, prepared', vacant'⟩ := prepareScratch_of_passable sound' straight ends passable'
  have twin : Twin (Path.steps scratch) one.tree two.tree := by
    refine ⟨((confined_prepareScratch straight).of_eq sound prepared).sound,
      ((confined_prepareScratch straight).of_eq sound' prepared').sound, vacant.directory, fun names => ?_⟩
    by_cases none : names = []
    · rw [none, List.append_nil, vacant.directory, vacant'.directory]
    · rw [vacant.nothing names none, vacant'.nothing names none]
  obtain ⟨same, after⟩ := (@tame_unpackEntries scratch path straight entries).alike one two twin
  unfold unpackInto
  simp only [bind_apply, prepared, prepared', FileAction.onFailure]
  rcases ran : unpackEntries path scratch entries one with ⟨result, space⟩
  rcases ran' : unpackEntries path scratch entries two with ⟨result', space'⟩
  rw [ran, ran'] at same after
  obtain rfl : result = result' := same
  cases result with
  | error cause => exact .inr ⟨⟨_, rfl⟩, ⟨_, rfl⟩⟩
  | ok count => exact .inl ⟨⟨scratch, entries, count⟩, rfl, rfl, rfl, rfl, after⟩

end Package

end SymbolCache
