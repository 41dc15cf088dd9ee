import SymbolCache.Proofs.CacheWrites
import SymbolCache.Proofs.PackageFiles

/-! Sources that have been copied stay. A worker tells of every source file it copies, and no later step of a refresh
takes such a file away, so that the package is found to have sources from then on. -/

namespace SymbolCache

open FileTree Source

namespace FileTree

variable {base : Location} {before after third tree : FileTree} {region way : Location → Prop} {dir : Path}

/-- A source file stands at a location. -/
def SourceAt (tree : FileTree) (place : Location) : Prop :=
  ∃ front name content modified, place = front ++ [name] ∧ isSourceFile name = true ∧
    tree.node? place = some (.file content modified)

/-- Source files at and below a location stay. -/
def Keeps (base : Location) (before after : FileTree) : Prop :=
  ∀ place, base <+: place → before.SourceAt place → after.SourceAt place

theorem Keeps.trans (first : Keeps base before after) (second : Keeps base after third) : Keeps base before third :=
  fun place below source => second place below (first place below source)

/-- Work that leaves source files alone keeps them. -/
theorem Works.keeps (works : Works region way before after)
    (outside : ∀ front name, base <+: front ++ [name] → isSourceFile name = true → ¬ region (front ++ [name])) :
    Keeps base before after := by
  rintro _ below ⟨front, name, content, modified, rfl, source, file⟩
  have closed : ¬ IsOpen (after.node? (front ++ [name])) := by
    rw [works.isOpen_iff (outside front name below source), file]
    rintro (missing | directory)
    · cases missing
    · cases directory
  rcases found : after.node? (front ++ [name]) with _ | _ | ⟨content', modified'⟩
  · exact absurd (.inl found) closed
  · exact absurd (.inr found) closed
  · exact ⟨front, name, content', modified', rfl, source, found⟩

theorem Makes.keeps (makes : Makes way before after) : Keeps base before after := by
  rintro place - ⟨front, name, content, modified, shape, source, file⟩
  exact ⟨front, name, content, modified, shape, source, makes.kept file⟩

theorem keeps_write {path : Path} {content : Bytes} (sound : tree.Sound) (done : tree.write path content = .ok after) :
    Keeps base tree after := by
  obtain ⟨location, located, free, rfl⟩ := write_eq_put done
  obtain ⟨filled, -⟩ := isName_of_locate sound located free
  rintro place - ⟨front, name, old, modified, shape, source, file⟩
  by_cases here : place = location
  · exact ⟨front, name, content, tree.clock + 1, shape, source, by rw [node?_put filled, if_pos here]⟩
  · exact ⟨front, name, old, modified, shape, source, by rw [node?_put filled, if_neg here]; exact file⟩

/-- A directory that can be named and has a source file somewhere in it. -/
structure HoldsSource (tree : FileTree) (dir : Path) : Prop where
  writable : Writable dir
  short : Path.Short dir
  source : ∃ place, Inside (Path.steps dir) place ∧ tree.SourceAt place

theorem HoldsSource.kept (holds : before.HoldsSource dir) (keeps : Keeps base before after)
    (below : base <+: Path.steps dir) : after.HoldsSource dir := by
  obtain ⟨place, inside, source⟩ := holds.source
  exact ⟨holds.writable, holds.short, place, inside, keeps place (below.trans inside.1) source⟩

theorem HoldsSource.any_isSourceFile (sound : tree.Sound) (straight : Path.Straight dir) (holds : tree.HoldsSource dir) :
    (tree.isDirectory dir && (tree.filesUnder dir).any isSourceFile) = true := by
  obtain ⟨place, ⟨⟨names, rfl⟩, proper⟩, front, name, content, modified, shape, source, file⟩ := holds.source
  have directory : tree.node? (Path.steps dir) = some .directory :=
    sound.directory_of_prefix (List.prefix_append _ names) file (Ne.symm proper)
  have isDirectory := (isDirectory_of_straight sound straight).2 ⟨holds.writable, holds.short, directory⟩
  obtain ⟨location, located, -⟩ := isDirectory_iff.1 isDirectory
  rw [locate_eq_spot located, spot_of_straight straight] at located
  rw [Bool.and_eq_true, List.any_eq_true]
  refine ⟨isDirectory, names.foldl Path.join dir, mem_filesUnder_iff.2 ⟨_, names, content, modified, located, ⟨file, ?_⟩,
    rfl⟩, ?_⟩
  · rintro early next rest rfl
    refine sound.directory_of_prefix ?_ file ?_
    · exact (List.prefix_append_right_inj _).2 (List.prefix_append ..)
    · intro same
      have lengths := congrArg List.length same
      simp at lengths
  · -- The last of the names is that of the source file.
    rcases List.eq_nil_or_concat names with rfl | ⟨init, last, rfl⟩
    · exact absurd (List.append_nil _) proper
    · rw [List.concat_eq_append, ← List.append_assoc] at shape
      obtain ⟨rfl, rfl⟩ := List.append_singleton_inj.1 shape
      have named : Path.IsName last := sound.isName file last (by simp)
      have itself : Path.fileName? last = some last := Path.fileName?_eq_some_iff.2 ⟨[], named.steps, named.notUp⟩
      rw [List.concat_eq_append, List.foldl_append, List.foldl_cons, List.foldl_nil, ← source]
      exact isSourceFile_congr ((Path.fileName?_join _ named).trans itself.symm)

end FileTree

/-- An action after which the source files at and below a location are still there, whether it succeeds or not. -/
def FileAction.Keeping {ε α : Type} (base : Location) (action : FileAction ε α) : Prop :=
  ∀ space, space.tree.Sound → (action space).2.tree.Sound ∧ Keeps base space.tree (action space).2.tree

namespace FileAction.Keeping

variable {ε α β : Type} {base : Location}

theorem pure (value : α) : Keeping base (Pure.pure value : FileAction ε α) := fun _ sound => ⟨sound, fun _ _ => id⟩

theorem throw (cause : ε) : Keeping base (MonadExcept.throw cause : FileAction ε α) := fun _ sound => ⟨sound, fun _ _ => id⟩

theorem bind {action : FileAction ε α} {next : α → FileAction ε β} (first : Keeping base action)
    (rest : ∀ value, Keeping base (next value)) : Keeping base (action >>= next) := by
  intro space sound
  have keeps := first space sound
  rw [bind_apply]
  rcases ran : action space with ⟨cause | value, middle⟩ <;> rw [ran] at keeps
  · exact keeps
  · have later := rest value middle keeps.1
    exact ⟨later.1, keeps.2.trans later.2⟩

theorem change {wrap : FileError → ε} {operation : FileTree → Except FileError FileTree}
    (keeps : ∀ tree after, tree.Sound → operation tree = .ok after → after.Sound ∧ Keeps base tree after) :
    Keeping base (FileAction.change wrap operation) := by
  intro space sound
  unfold FileAction.change
  cases done : operation space.tree with
  | error cause => exact ⟨sound, fun _ _ => id⟩
  | ok after => exact keeps space.tree after sound done

theorem of_confined {region way : Location → Prop} {action : FileAction ε α} (confined : Confined region way action)
    (outside : ∀ front name, base <+: front ++ [name] → isSourceFile name = true → ¬ region (front ++ [name])) :
    Keeping base action := fun space sound =>
  have works := confined space sound
  ⟨works.sound, works.keeps outside⟩

end FileAction.Keeping

namespace Package

variable {base : Location} {path dest : Path} {entry : Archive.Entry} {content : Archive.Content}

theorem keeping_writeContent {target : Path} : FileAction.Keeping base (writeContent entry content target) := by
  unfold writeContent
  refine .bind (.change fun tree after sound done => ⟨(write_works sound done).sound, keeps_write sound done⟩) fun _ => ?_
  split
  · exact .throw _
  · split
    · exact .throw _
    · exact .pure _

theorem keeping_writeEntry {target : Path} : FileAction.Keeping base (writeEntry entry content target) := by
  unfold writeEntry
  cases cut : Path.parent? target with
  | none => exact keeping_writeContent
  | some parent =>
    refine .bind (fun space sound => ?_) fun _ => keeping_writeContent
    have makes := @FileAction.makes_makeDirs _ (ExtractionError.file parent) parent space sound
    exact ⟨makes.sound, makes.keeps⟩

theorem write_of_writeContent {target : Path} {space after : Workspace}
    (done : writeContent entry content target space = (.ok (), after)) :
    space.tree.write target content.bytes = .ok after.tree := by
  obtain ⟨_, written, wrote, rest⟩ := bind_eq_ok_iff.1 done
  have changed := (FileAction.change_eq_ok_iff.1 wrote).1
  cases faulty : content.fault with
  | some fault =>
    rw [faulty] at rest
    cases rest
  | none =>
    rw [faulty] at rest
    cases intact : entry.isIntact content with
    | false =>
      rw [intact] at rest
      cases rest
    | true =>
      rw [intact] at rest
      cases rest
      exact changed

/-- An entry that has been written is there. -/
theorem write_of_writeEntry {target : Path} {space after : Workspace} (straight : Path.Straight target)
    (sound : space.tree.Sound) (done : writeEntry entry content target space = (.ok (), after)) :
    ∃ before : FileTree, before.Sound ∧ before.write target content.bytes = .ok after.tree := by
  unfold writeEntry at done
  cases cut : Path.parent? target with
  | none =>
    rw [cut] at done
    exact ⟨space.tree, sound, write_of_writeContent done⟩
  | some parent =>
    rw [cut] at done
    obtain ⟨_, middle, made, rest⟩ := bind_eq_ok_iff.1 done
    have changed := (FileAction.makeDirs_eq_ok_iff.1 made).1
    exact ⟨middle.tree, (makeDirs_makes sound (straight.parent? cut).written changed).1.sound,
      write_of_writeContent rest⟩

/-- Where a source file of a package is copied to. -/
theorem target_of_sourcePath? (straight : Path.Straight dest) {relative : Path}
    (found : sourcePath? entry = some relative) : Path.Straight (Path.join dest relative) ∧
      ∃ front name, Path.steps (Path.join dest relative) = Path.steps dest ++ (front ++ [name]) ∧
        Path.IsName name ∧ isSourceFile name = true := by
  obtain ⟨names, filled, named, rfl⟩ := names_of_sourcePath? found
  obtain ⟨steps, relative⟩ := Path.steps_intercalate named filled
  have whole : Path.steps (Path.join dest ("/".intercalate names)) = Path.steps dest ++ names := by
    rw [Path.steps_join relative, steps]
  refine ⟨⟨(Path.isAbsolute_join relative).trans straight.absolute, ?_⟩, ?_⟩
  · rw [whole, List.mem_append, not_or]
    exact ⟨straight.forward, fun up => (named _ up).notUp rfl⟩
  · obtain ⟨front, name, rfl⟩ := (List.eq_nil_or_concat names).resolve_left filled
    rw [List.concat_eq_append] at whole steps found named
    have last := named name (by simp)
    have itself : Path.fileName? name = some name := Path.fileName?_eq_some_iff.2 ⟨[], last.steps, last.notUp⟩
    have source : isSourceFile ("/".intercalate (front ++ [name])) = true := by
      unfold sourcePath? at found
      split at found
      · cases found
      · obtain ⟨_, -, found⟩ := Option.bind_eq_some_iff.1 found
        simp only at found
        split at found
        · rename_i passes
          rwa [← Option.some.inj found]
        · cases found
    refine ⟨front, name, by rw [List.concat_eq_append, whole], last, ?_⟩
    rw [← source]
    exact isSourceFile_congr (itself.trans (Path.fileName?_eq_some_iff.2 ⟨front, steps, last.notUp⟩).symm)

theorem keeping_copySource (entry : Archive.Entry) : FileAction.Keeping base (copySource path dest entry) := by
  unfold copySource
  split
  · exact .throw _
  · split
    · exact .pure _
    · exact .bind keeping_writeEntry fun _ => .pure _

private theorem writable_of_join {base addition : Path} (written : base ≠ "") (relative : Path.isAbsolute addition = false)
    (writable : Writable (Path.join base addition)) : Writable base := by
  have longer : ∃ rest, Path.join base addition = base ++ rest := by
    unfold Path.join
    rw [relative]
    simp only [Bool.false_eq_true, if_false]
    split
    · exact ⟨_, rfl⟩
    · exact ⟨_, String.append_assoc⟩
  obtain ⟨rest, joined⟩ := longer
  rw [joined] at writable
  refine ⟨fun contains => writable.1 ?_, written, ?_⟩
  · rw [List.contains_iff_mem] at contains ⊢
    rw [String.toList_append]
    exact List.mem_append_left _ contains
  · have size := writable.2.2
    rw [String.utf8ByteSize_append] at size
    omega

/-- A copied source file is there. -/
theorem holdsSource_of_copySource (straight : Path.Straight dest) {space after : Workspace} {relative : Path}
    (sound : space.tree.Sound) (done : copySource path dest entry space = (.ok (some relative), after)) :
    after.tree.HoldsSource dest := by
  unfold copySource at done
  cases contents : entry.content with
  | error cause =>
    rw [contents] at done
    cases done
  | ok content =>
    rw [contents] at done
    cases found : sourcePath? entry with
    | none =>
      rw [found] at done
      cases done
    | some chosen =>
      rw [found] at done
      obtain ⟨_, middle, writes, rest⟩ := bind_eq_ok_iff.1 done
      cases rest
      obtain ⟨target, front, name, whole, -, source⟩ := target_of_sourcePath? straight found
      obtain ⟨before, sound, wrote⟩ := write_of_writeEntry target sound writes
      obtain ⟨location, located, free, written⟩ := write_eq_put wrote
      obtain ⟨filled, -⟩ := isName_of_locate sound located free
      obtain ⟨writable, followed⟩ := locate_eq_ok_iff.1 located
      have here : location = Path.steps dest ++ (front ++ [name]) := by
        rw [locate_eq_spot located, spot_of_straight target, whole]
      obtain ⟨names, filledNames, named, rfl⟩ := names_of_sourcePath? found
      obtain ⟨-, unrooted⟩ := Path.steps_intercalate named filledNames
      refine ⟨writable_of_join straight.written unrooted writable, fun step inside => ?_, location, ⟨?_, ?_⟩,
        Path.steps dest ++ front, name, content.bytes, before.clock + 1, ?_, source, ?_⟩
      · have member : step ∈ Path.steps (Path.join dest ("/".intercalate names)) := by
          rw [whole]
          exact List.mem_append_left _ inside
        obtain ⟨early, late, split⟩ := List.append_of_mem (List.mem_filter.1 member).1
        exact ((follow_eq_ok_iff.1 followed).2 early step late split).2
      · rw [here]
        exact List.prefix_append ..
      · rw [here]
        simp
      · rw [here, List.append_assoc]
      · rw [written, node?_put filled, if_pos rfl]

theorem keeping_of_scratch {ε α : Type} {scratch : Path} {action : FileAction ε α}
    (confined : FileAction.Confined (Inside (Path.steps scratch)) (· <+: Path.steps scratch) action)
    (apart : Apart (Path.steps scratch) base) : FileAction.Keeping base action := by
  refine .of_confined confined fun front name below _ inside => ?_
  rcases List.prefix_or_prefix_of_prefix inside.1 below with first | second
  · exact apart.1 first
  · exact apart.2 second

theorem confined_unpack {root : Path} (straight : Path.Straight (scratchPath root path))
    (ends : Path.EndsInStep (scratchPath root path)) :
    FileAction.Confined (Inside (Path.steps (scratchPath root path))) (· <+: Path.steps (scratchPath root path))
      (unpack root path) := by
  intro space sound
  obtain ⟨log, applied⟩ := unpack_apply root path space
  rw [applied]
  cases openArchive space.tree path with
  | error cause => exact .refl sound
  | ok entries =>
    simp only
    exact @confined_unpackInto _ path straight ends entries ⟨space.tree, log⟩ sound

theorem root_of_unpack {root : Path} {unpacked : Unpacked} {space after : Workspace}
    (done : unpack root path space = (.ok unpacked, after)) : unpacked.root = scratchPath root path := by
  obtain ⟨log, applied⟩ := unpack_apply root path space
  rw [applied] at done
  cases opened : openArchive space.tree path with
  | error cause =>
    rw [opened] at done
    cases done
  | ok entries =>
    rw [opened] at done
    exact (Worker.root_of_unpackInto done).1

end Package

namespace Worker

/-- The message about a copied source file. -/
def copyNotice (relative : Path) : Reply := .progress ("Extracted source " ++ relative)

/-- From one state of a worker to another, source files stay, and a copied file that was told of is there. -/
structure Tells (base : Location) (dir : Path) (before after : Session) : Prop where
  sound : after.tree.Sound
  keeps : Keeps base before.tree after.tree
  backed : ∀ relative, copyNotice relative ∈ after.written → copyNotice relative ∈ before.written ∨
    after.tree.HoldsSource dir

/-- A step that tells the truth about copied sources. -/
def Telling {α : Type} (base : Location) (dir : Path) (step : Step Fault α) : Prop :=
  ∀ session, session.tree.Sound → Tells base dir session (step session).2

section Steps

variable {α β : Type} {base : Location} {dir : Path} {first second third : Session}

theorem Tells.of_eq (sound : second.tree.Sound) (tree : second.tree = first.tree) (written : second.written = first.written) :
    Tells base dir first second :=
  ⟨sound, tree ▸ fun _ _ => id, fun _ told => .inl (written ▸ told)⟩

theorem Tells.trans (below : base <+: Path.steps dir) (earlier : Tells base dir first second)
    (later : Tells base dir second third) : Tells base dir first third := by
  refine ⟨later.sound, earlier.keeps.trans later.keeps, fun relative told => ?_⟩
  rcases later.backed relative told with before | holds
  · exact (earlier.backed relative before).imp_right fun holds => holds.kept later.keeps below
  · exact .inr holds

namespace Telling

theorem pure (value : α) : Telling base dir (Pure.pure value) := fun _ sound => .of_eq sound rfl rfl

theorem throw (fault : Fault) : Telling base dir (MonadExcept.throw fault : Step Fault α) := fun _ sound =>
  .of_eq sound rfl rfl

theorem note (entries : List LogEntry) : Telling base dir (note entries) := fun _ sound => .of_eq sound rfl rfl

theorem send {reply : Reply} (other : ∀ relative, reply ≠ copyNotice relative) :
    Telling base dir (send always reply) := by
  intro session sound
  refine ⟨sound, fun _ _ => id, fun relative told => .inl ?_⟩
  rcases List.mem_append.1 (show copyNotice relative ∈ session.written ++ [reply] from told) with early | last
  · exact early
  · exact absurd (List.mem_singleton.1 last).symm (other relative)

theorem attempt {ε : Type} {action : FileAction ε α} (keeping : FileAction.Keeping base action) :
    Telling base dir (attempt action) := by
  intro session sound
  obtain ⟨sound', keeps⟩ := keeping ⟨session.tree, []⟩ sound
  exact ⟨sound', keeps, fun relative told => .inl told⟩

theorem bind (below : base <+: Path.steps dir) {step : Step Fault α} {next : α → Step Fault β}
    (first : Telling base dir step) (rest : ∀ value, Telling base dir (next value)) : Telling base dir (step >>= next) := by
  intro session sound
  have tells := first session sound
  rw [bind_apply]
  rcases ran : step session with ⟨fault | value, middle⟩ <;> rw [ran] at tells
  · exact tells
  · exact tells.trans below (rest value middle tells.sound)

/-- After an action on the files the next step may rely on what the action gives. -/
theorem onFiles_bind (below : base <+: Path.steps dir) {ε : Type} {wrap : ε → Fault} {action : FileAction ε α}
    {next : α → Step Fault β} (keeping : FileAction.Keeping base action)
    (rest : ∀ value space after, action space = (.ok value, after) → Telling base dir (next value)) :
    Telling base dir (onFiles wrap action >>= next) := by
  intro session sound
  have tells : Tells base dir session (Worker.attempt action session).2 := attempt keeping session sound
  rw [bind_apply]
  unfold onFiles
  rw [bind_apply]
  rcases ran : action ⟨session.tree, []⟩ with ⟨cause | value, space⟩ <;> simp only [Worker.attempt, ran] at tells ⊢
  · exact tells
  · exact tells.trans below (rest value _ _ ran _ tells.sound)

theorem cleaningUp (below : base <+: Path.steps dir) {step : Step Fault α} {cleanup : FileAction Fault Unit}
    (first : Telling base dir step) (keeping : FileAction.Keeping base cleanup) :
    Telling base dir (cleaningUp step cleanup) := by
  intro session sound
  have tells := first session sound
  exact tells.trans below (attempt keeping _ tells.sound)

end Telling

end Steps

section Copying

variable {path dest : Path} {base : Location}

private theorem ne_copyNotice {text : String} {front rest : List Char} {c d : Char} (shape : text.toList = front ++ c :: rest)
    (marked : ∃ after, "Extracted source ".toList = front ++ d :: after) (differs : c ≠ d) (relative : Path) :
    Reply.progress text ≠ copyNotice relative := by
  intro same
  obtain ⟨after, marked⟩ := marked
  have whole : text.toList = "Extracted source ".toList ++ relative.toList := by
    rw [Reply.progress.inj same, String.toList_append]
  rw [shape, marked, List.append_assoc] at whole
  exact differs (List.cons.inj (List.append_cancel_left whole)).1

theorem tells_reportCopy (run : CopyRun) (relative : Path) {session : Session} (sound : session.tree.Sound)
    (holds : session.tree.HoldsSource dest) : Tells base dest session (reportCopy always run relative session).2 := by
  unfold reportCopy
  cases run.refusal with
  | some reason => exact .of_eq sound rfl rfl
  | none => exact ⟨sound, fun _ _ => id, fun _ _ => .inr holds⟩

theorem telling_copyAll (straight : Path.Straight dest) (below : base <+: Path.steps dest) (run : CopyRun)
    (entries : List Archive.Entry) : Telling base dest (copyAll always path dest run entries) := by
  induction entries generalizing run with
  | nil => exact .pure _
  | cons entry rest ih =>
    intro session sound
    have tells : Tells base dest session (attempt (Package.copySource path dest entry) session).2 :=
      Telling.attempt (Package.keeping_copySource entry) session sound
    unfold copyAll
    rw [bind_apply]
    rcases ran : Package.copySource path dest entry ⟨session.tree, []⟩ with ⟨cause | _ | relative, space⟩ <;>
      simp only [attempt, ran] at tells ⊢
    · exact tells
    · exact tells.trans below (ih run _ tells.sound)
    · -- The file is there before the worker tells of it.
      have holds := Package.holdsSource_of_copySource straight sound ran
      have reported := @tells_reportCopy dest base run relative _ tells.sound holds
      rw [bind_apply]
      rcases told : reportCopy always run relative (session.resume space) with ⟨fault | counted, later⟩ <;>
        rw [told] at reported
      · exact tells.trans below reported
      · exact (tells.trans below reported).trans below (ih counted later reported.sound)

private theorem extracting_ne_copyNotice (fileName : String) (relative : Path) :
    Reply.progress ("Extracting " ++ fileName) ≠ copyNotice relative := by
  refine @ne_copyNotice _ "Extract".toList ("ng ".toList ++ fileName.toList) 'i' 'e' ?_ ⟨"d source ".toList, rfl⟩ (by decide)
    relative
  rw [String.toList_append]
  rfl

private theorem parsing_ne_copyNotice (fileName : String) (relative : Path) :
    Reply.progress ("Parsing " ++ fileName) ≠ copyNotice relative := by
  refine @ne_copyNotice _ [] ("arsing ".toList ++ fileName.toList) 'P' 'E' ?_ ⟨"xtracted source ".toList, rfl⟩ (by decide)
    relative
  rw [String.toList_append]
  rfl

/-- The number of copied files does not read like the name of one. -/
private theorem summary_ne_copyNotice (number : Nat) (relative : Path) :
    Reply.progress ("Extracted " ++ toString number ++ " source files") ≠ copyNotice relative := by
  have digits : (toString number).toList = Nat.toDigits 10 number := Nat.toList_repr
  cases shape : Nat.toDigits 10 number with
  | nil => exact absurd shape Nat.toDigits_ne_nil
  | cons c rest =>
    have digit : c.isDigit = true :=
      @Nat.isDigit_of_mem_toDigits 10 number c (by decide) (by decide) (by simp [shape])
    refine @ne_copyNotice _ "Extracted ".toList (rest ++ " source files".toList) c 's' ?_ ⟨"ource ".toList, rfl⟩ ?_ relative
    · rw [String.toList_append, String.toList_append, digits, shape, List.append_assoc, List.cons_append]
    · rintro rfl
      exact absurd digit (by decide)

theorem telling_copySources {artifact : Artifact} {target : Path} (straight : Path.Straight (artifact.sourceDir target))
    (below : base <+: Path.steps (artifact.sourceDir target)) (made : Artifact.ofPath? path = some artifact)
    (fileName : String) (entries : List Archive.Entry) :
    Telling base (artifact.sourceDir target) (copySources always path target fileName entries) := by
  have closes (reply : Reply) (other : ∀ relative, reply ≠ copyNotice relative) (entries : List LogEntry) :
      Telling base (artifact.sourceDir target) (do note entries; send always reply) :=
    .bind below (.note entries) fun _ => .send other
  unfold copySources
  rw [made]
  simp only
  refine .bind below (telling_copyAll straight below _ entries) fun (run, failure) => ?_
  cases failure with
  | none =>
    refine .bind below (.note _) fun _ => ?_
    cases run.refusal with
    | some reason => exact .throw _
    | none => exact .send (summary_ne_copyNotice run.copied)
  | some cause =>
    cases run.refusal with
    | some reason => exact .throw _
    | none => exact closes _ (fun _ same => Reply.noConfusion same) _

end Copying

section Package

variable {path base : Path} {options : ProcessOptions} {artifact : Artifact} (placed : WellPlaced options base)
  (made : Artifact.ofPath? path = some artifact)

include placed made

theorem telling_processPackage :
    Telling (Path.steps base) (artifact.sourceDir base) (processPackage always path options) := by
  obtain ⟨straight, below⟩ := Package.straight_sourceDir placed.sources artifact
  have apart := placed.apart_scratchPath path
  have unpacks := Package.keeping_of_scratch
    (@Package.confined_unpack path options.extractPath (placed.straight path) (placed.endsInStep path)) apart
  have cleans := Package.keeping_of_scratch (@Package.confined_removeScratch _ Fault (placed.straight path)) apart
  unfold processPackage
  refine .bind below (.send (extracting_ne_copyNotice _)) fun _ => ?_
  refine .onFiles_bind below unpacks fun unpacked space after done => ?_
  rw [Package.root_of_unpack done]
  refine .cleaningUp below (.bind below (.note _) fun _ => ?_) cleans
  extract_lets reading
  have reads : Telling (Path.steps base) (artifact.sourceDir base) (reading ()) := by
    refine .bind below (.send (parsing_ne_copyNotice _)) fun _ => ?_
    refine .bind below (fun _ sound => .of_eq sound rfl rfl) fun session => .bind below (.note _) fun _ => ?_
    split
    · exact .bind below (.note _) fun _ => .pure _
    · exact .throw _
  rw [placed.target]
  cases options.enableSrcExtraction with
  | false => exact reads
  | true => exact .bind below (telling_copySources straight below made _ unpacked.entries) fun _ => reads

theorem tells_serve {tree : FileTree} (sound : tree.Sound) : Tells (Path.steps base) (artifact.sourceDir base) (.start tree)
    (serve tree [(Json.ofRequest (.process path options)).compactChars]) := by
  obtain ⟨-, below⟩ := Package.straight_sourceDir placed.sources artifact
  have tells := telling_processPackage placed made ⟨tree, [], 0, .parse options.logLevel, []⟩ sound
  have ends : Telling (Path.steps base) (artifact.sourceDir base) (send always (terminalReply path
      (processPackage always path options ⟨tree, [], 0, .parse options.logLevel, []⟩).1)) := by
    refine .send fun relative same => ?_
    unfold terminalReply at same
    split at same <;> exact Reply.noConfusion same
  rw [Refresh.serve_eq_handleProcess]
  exact Tells.trans below ⟨tells.sound, tells.keeps, tells.backed⟩ (ends _ tells.sound)

end Package

end Worker

namespace Refresh

open Worker

/-- Progress that is heard stands in one of the lines. -/
theorem progress_of_listen {path about : Path} {hearing : Hearing} {lines : List (List Char)} {message : String}
    (heard : Event.progress about message ∈ (listen path hearing lines).1.events) :
    Event.progress about message ∈ hearing.events ∨ about = path ∧
      ∃ line ∈ lines, (Peer.nextMessage [line]).1 = .ok (some (.progress message)) := by
  induction lines generalizing hearing with
  | nil => exact .inl heard
  | cons line rest ih =>
    have later {hearing' : Hearing} (heard : Event.progress about message ∈ (listen path hearing' rest).1.events) :
        Event.progress about message ∈ hearing'.events ∨ about = path ∧
          ∃ line' ∈ line :: rest, (Peer.nextMessage [line']).1 = .ok (some (.progress message)) := by
      refine (ih heard).imp_right fun ⟨same, line', inside, found⟩ => ⟨same, line', List.mem_cons_of_mem _ inside, found⟩
    rw [listen] at heard
    split at heard
    · exact later heard
    · rename_i reply next
      rcases later heard with early | late
      · cases reply with
        | progress text =>
          rcases List.mem_append.1 early with before | here
          · exact .inl before
          · cases List.mem_singleton.1 here
            exact .inr ⟨rfl, line, List.mem_cons_self .., next⟩
        | warning text =>
          rcases List.mem_append.1 early with before | here
          · exact .inl before
          · cases List.mem_singleton.1 here
        | _ => exact .inl early
      · exact .inr late
    · exact .inl heard

/-- Progress that a coordinator hears of a package was written by its worker. -/
theorem written_of_progress {path about : Path} {options : ProcessOptions} {tree : FileTree} {message : String}
    (heard : Event.progress about message ∈ (consult .requestLoop path options tree).events) : about = path ∧
      Reply.progress message ∈ (serve tree [(Json.ofRequest (.process path options)).compactChars]).written := by
  obtain ⟨notices, quiet, written, -⟩ := serve_process path options tree
  have sendable : ∀ reply ∈ (serve tree [(Json.ofRequest (.process path options)).compactChars]).written,
      reply.Sendable := by
    rw [written]
    intro reply inside
    rcases List.mem_append.1 inside with notice | last
    · exact sendable_of_isNotice (quiet reply notice)
    · rw [List.mem_singleton.1 last]
      cases done : (processed path options tree).1 with
      | ok table => exact .success _ path (sendable_processed done).1
      | error chain => exact .error ..
  have events : (consult .requestLoop path options tree).events = (listen path ⟨[], none⟩
      ((serve tree [(Json.ofRequest (.process path options)).compactChars]).written.map Peer.replyLine)).1.events := by
    unfold consult
    simp only [Peer.start, Peer.send, Peer.isAlive, Peer.wait, Peer.closeInput, Bool.not_true, Bool.false_eq_true, if_false,
      Option.isNone_none, List.nil_append]
    split <;> rename_i listened <;> rw [listened]
  rw [events] at heard
  obtain ⟨same, line, inside, found⟩ := (progress_of_listen heard).resolve_left List.not_mem_nil
  obtain ⟨reply, member, rfl⟩ := List.mem_map.1 inside
  rw [nextMessage_replyLine (sendable reply member)] at found
  cases found
  exact ⟨same, member⟩

/-- A package whose copied sources were told of has sources. -/
theorem holdsSource_of_progress {path about relative base : Path} {options : ProcessOptions} {tree : FileTree}
    {artifact : Artifact} (placed : WellPlaced options base) (made : Artifact.ofPath? path = some artifact)
    (sound : tree.Sound)
    (heard : Event.progress about ("Extracted source " ++ relative) ∈ (consult .requestLoop path options tree).events) :
    about = path ∧ (consult .requestLoop path options tree).tree.HoldsSource (artifact.sourceDir base) := by
  obtain ⟨rfl, written⟩ := written_of_progress heard
  refine ⟨rfl, ?_⟩
  rw [(consult_requestLoop about options tree).2]
  obtain ⟨-, -, -, files⟩ := serve_process about options tree
  rw [← files]
  exact ((tells_serve placed made sound).backed relative written).resolve_left nofun

theorem keeps_consult {path base : Path} {options : ProcessOptions} {tree : FileTree} {artifact : Artifact}
    (placed : WellPlaced options base) (made : Artifact.ofPath? path = some artifact) (sound : tree.Sound) :
    Keeps (Path.steps base) tree (consult .requestLoop path options tree).tree := by
  rw [(consult_requestLoop path options tree).2]
  obtain ⟨-, -, -, files⟩ := serve_process path options tree
  rw [← files]
  exact (tells_serve placed made sound).keeps

end Refresh

/-- Saved copies are no source files. -/
theorem CacheFile.notSource {dir : Path} {front : Location} {name : String} (file : CacheFile dir (front ++ [name])) :
    isSourceFile name = false := by
  have checked : ∀ name ∈ cacheNames, isSourceFile name = false ∧ isSourceFile (temporaryName name) = false := by
    decide +kernel
  obtain ⟨known, inside, same | same⟩ := file
  · rw [(List.append_singleton_inj.1 same).2]
    exact (checked known inside).1
  · rw [(List.append_singleton_inj.1 same).2]
    exact (checked known inside).2

end SymbolCache
