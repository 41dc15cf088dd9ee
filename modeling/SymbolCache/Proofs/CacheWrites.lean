import SymbolCache.Proofs.ConfinedChanges
import SymbolCache.Proofs.InterruptedSave
import SymbolCache.Proofs.PackageAnswers
import SymbolCache.Proofs.ScratchDirectories

/-! Saving the store and the field index: nothing but the files of the cache directory is written, and the worker
that updates the field index writes nothing at all. -/

namespace SymbolCache

open FileTree

/-- The names of all files that are saved in a cache directory. -/
def cacheNames : List String := ["symbols.json", "procedures.json"] ++ FieldIndex.copyNames

/-- The files of a cache directory, and those that are written first. -/
def CacheFile (dir : Path) (place : Location) : Prop :=
  ∃ name ∈ cacheNames, place = Path.steps dir ++ [name] ∨ place = Path.steps dir ++ [temporaryName name]

private theorem isCopyName_stored : ∀ name ∈ ["symbols.json", "procedures.json"], IsCopyName name := by
  have checked : ∀ name ∈ ["symbols.json", "procedures.json"],
      ('/' ∉ name.toList ∧ Path.isStep name = true ∧ name ≠ "..") ∧
      ('/' ∉ (temporaryName name).toList ∧ Path.isStep (temporaryName name) = true ∧ temporaryName name ≠ "..") ∧
      temporaryName name ≠ name := by decide +kernel
  intro name inside
  obtain ⟨⟨slashless, step, up⟩, ⟨slashless', step', up'⟩, distinct⟩ := checked name inside
  exact ⟨⟨slashless, step, up⟩, ⟨slashless', step', up'⟩, distinct⟩

theorem isCopyName_of_mem_cacheNames {name : String} (inside : name ∈ cacheNames) : IsCopyName name := by
  rcases List.mem_append.1 inside with stored | indexed
  · exact isCopyName_stored name stored
  · exact FieldIndex.isCopyName_of_mem indexed

/-- Scratch directories have names with a dash, which no file of the cache has. -/
theorem CacheFile.ne_scratch {dir : Path} {place : Location} (file : CacheFile dir place) (front : Location) (path : Path) :
    place ≠ front ++ [Package.scratchName path] := by
  have dashless : ∀ name ∈ cacheNames, '-' ∉ name.toList ∧ '-' ∉ (temporaryName name).toList := by decide +kernel
  have dash : '-' ∈ (Package.scratchName path).toList := by simp [Package.scratchName]
  obtain ⟨name, inside, rfl | rfl⟩ := file
  · intro same
    exact (dashless name inside).1 ((List.append_singleton_inj.1 same).2 ▸ dash)
  · intro same
    exact (dashless name inside).2 ((List.append_singleton_inj.1 same).2 ▸ dash)

variable {dir : Path}

theorem confined_writeSnapshot (straight : Path.Straight dir) {name : String} (inside : name ∈ cacheNames) (value : Json) :
    FileAction.Confined (CacheFile dir) (· <+: Path.steps dir) (writeSnapshot (Path.join dir name) value) := by
  have copy := isCopyName_of_mem_cacheNames inside
  have spot (tree : FileTree) {file : String} (named : Path.IsName file) :
      tree.spot (Path.join dir file) = Path.steps dir ++ [file] := by
    rw [spot_of_straight (straight.join named), Path.steps_join_name dir named]
  intro space sound
  unfold writeSnapshot
  rw [temporaryPath_join dir copy]
  simp only [bind_apply, FileAction.change]
  cases wrote : space.tree.write (Path.join dir (temporaryName name)) (Text.encodeUtf8 value.pretty.toList) with
  | error cause => exact .refl sound
  | ok written =>
    have writes : Works (CacheFile dir) (· <+: Path.steps dir) space.tree written := by
      refine (write_works sound wrote).mono (fun place here => ?_) nofun
      exact ⟨name, inside, .inr (here.trans (spot _ copy.temporary))⟩
    simp only
    cases moved : written.renameFile (Path.join dir (temporaryName name)) (Path.join dir name) with
    | error cause => exact writes
    | ok after =>
      -- What was just written is a file, so moving it takes no directory along.
      have file : ∃ content modified, written.node? (written.spot (Path.join dir (temporaryName name))) =
          some (.file content modified) := by
        obtain ⟨location, located, free, rfl⟩ := write_eq_put wrote
        obtain ⟨filled, -⟩ := isName_of_locate sound located free
        refine ⟨Text.encodeUtf8 value.pretty.toList, space.tree.clock + 1, ?_⟩
        rw [spot _ copy.temporary, ← spot space.tree copy.temporary, ← locate_eq_spot located, node?_put filled, if_pos rfl]
      obtain ⟨content, modified, file⟩ := file
      refine writes.trans ((renameFile_works writes.sound file moved).mono (fun place here => ?_) nofun)
      rcases here with source | target
      · exact ⟨name, inside, .inr (source.trans (spot _ copy.temporary))⟩
      · exact ⟨name, inside, .inl (target.trans (spot _ copy.named))⟩

theorem confined_makeSnapshotDir (straight : Path.Straight dir) :
    FileAction.Confined (CacheFile dir) (· <+: Path.steps dir) (makeSnapshotDir dir) :=
  Package.confined_makeDirs straight

theorem Store.confined_save {store : Store} (straight : Path.Straight store.dir) :
    FileAction.Confined (CacheFile store.dir) (· <+: Path.steps store.dir) store.save :=
  .bind (confined_makeSnapshotDir straight) fun _ =>
    .bind (confined_writeSnapshot straight (by decide) _) fun _ => confined_writeSnapshot straight (by decide) _

namespace FieldIndex

private theorem confined_writeParts (straight : Path.Straight dir) {entries : List (String × Json)}
    (known : ∀ entry ∈ entries, entry.1 ∈ cacheNames) : FileAction.Confined (CacheFile dir) (· <+: Path.steps dir)
      (writeParts (entries.map fun entry => (Path.join dir entry.1, entry.2))) := by
  induction entries with
  | nil => exact .pure ()
  | cons entry rest ih =>
    exact .bind (confined_writeSnapshot straight (known entry (List.mem_cons_self ..)) entry.2) fun _ =>
      ih fun other inside => known other (List.mem_cons_of_mem _ inside)

theorem confined_save (index : FieldIndex) (straight : Path.Straight dir) :
    FileAction.Confined (CacheFile dir) (· <+: Path.steps dir) (index.save dir) := by
  refine .bind (confined_makeSnapshotDir straight) fun _ => ?_
  rw [parts_eq]
  refine confined_writeParts straight fun entry inside => ?_
  exact List.mem_append_right _ (List.of_mem_zip inside).1

end FieldIndex

namespace Worker

/-- A step that writes no files. -/
def Reads {α : Type} (step : Step Fault α) : Prop := ∀ session, (step session).2.tree = session.tree

theorem Reads.bind {α β : Type} {step : Step Fault α} {next : α → Step Fault β} (first : Reads step)
    (rest : ∀ value, Reads (next value)) : Reads (step >>= next) := by
  intro session
  have same := first session
  rw [bind_apply]
  rcases ran : step session with ⟨fault | value, after⟩ <;> rw [ran] at same
  · exact same
  · exact (rest value after).trans same

theorem reads_send (reply : Reply) : Reads (send always reply) := fun _ => rfl

theorem reads_deliver (reply : Reply) : Reads (deliver always reply : StateM Session Verdict) := fun _ => rfl

theorem reads_note (entries : List LogEntry) : Reads (note entries) := fun _ => rfl

theorem reads_get : Reads (get : Step Fault Session) := fun _ => rfl

theorem reads_modify {change : Session → Session} (keeps : ∀ session, (change session).tree = session.tree) :
    Reads (modify change) := keeps

theorem reads_handleFields (options : FieldOptions) : Reads (handleFields always options) := by
  unfold handleFields
  refine .bind (reads_modify fun _ => rfl) fun _ => .bind reads_get fun session => ?_
  refine .bind (reads_note _) fun _ => .bind (reads_note _) fun _ => ?_
  simp only
  split
  · refine .bind (reads_deliver _) fun verdict => ?_
    split
    · exact fun _ => rfl
    · exact reads_send _
  · exact reads_send _

/-- An update of the field index leaves the files as they are. -/
theorem serve_updateFields (options : FieldOptions) (tree : FileTree) :
    (serve tree [(Json.ofRequest (.updateFields options)).compactChars]).tree = tree := by
  have present : (Text.trim (Json.ofRequest (.updateFields options)).compactChars).isEmpty = false :=
    Json.trim_compactChars_object _
  rw [serve, run, handleLine, present, Json.request?_ofRequest]
  exact Reads.bind (reads_handleFields options) (fun _ _ => rfl) (.start tree)

theorem send_updateFields (peer : Peer) (options : FieldOptions) (tree : FileTree) :
    (peer.send (.updateFields options) tree).2 = tree := by
  unfold Peer.send
  split
  · rfl
  · split
    · rfl
    · split
      · rfl
      · show (serve tree _).tree = tree
        exact serve_updateFields options tree
      · rfl

/-- What the update of a field index writes is its saved copy. -/
theorem FieldWorker.works_update (worker : FieldWorker) (options : FieldOptions) {tree : FileTree} (sound : tree.Sound)
    (straight : Path.Straight options.globalStoragePath) :
    Works (CacheFile options.globalStoragePath) (· <+: Path.steps options.globalStoragePath) tree
      (worker.update options tree).2.2 := by
  unfold FieldWorker.update
  split
  · exact .refl sound
  · rename_i peer _
    have unchanged : (exchange peer options tree).2.2 = tree := by
      unfold exchange
      have same := send_updateFields peer options tree
      split <;> rename_i sent <;> rw [sent] at same <;> exact same
    rcases asked : exchange peer options tree with ⟨cause | index, after, changed⟩ <;> rw [asked] at unchanged
    · obtain rfl : changed = tree := unchanged
      exact .refl sound
    · obtain rfl : changed = tree := unchanged
      have works := (index.confined_save straight).on sound
      simp only
      split <;> exact works

end Worker

end SymbolCache
