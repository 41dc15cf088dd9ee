import Mathlib.Data.List.Nodup
import SymbolCache.FieldIndex.Snapshot
import SymbolCache.Proofs.ScanRecovery
import SymbolCache.Proofs.SnapshotFiles
import SymbolCache.Proofs.TreeFiles

/-! A save of the field index that stops between two of its files, and the update after it. Tables,
pages and watermarks are replaced before the ledger. A cut before the watermarks leaves an old ledger
with its own watermarks, which the update brings up to date; a cut after them leaves new watermarks
with the old ledger, and what that ledger says of edited and deleted files stays. -/

namespace SymbolCache.Source

theorem isSourceFile_iff {path : Path} : isSourceFile path = true ↔
    ∃ name ext, Path.fileName? path = some name ∧ (Path.splitName name).2 = some ext ∧
      Text.sameWord ext.toList "al".toList = true := by
  unfold isSourceFile hasExtension Path.extension?
  cases Path.fileName? path with
  | none => simp
  | some name => cases split : (Path.splitName name).2 <;> simp [split]

theorem isSourceFile_congr {path other : Path} (same : Path.fileName? path = Path.fileName? other) :
    isSourceFile path = isSourceFile other := by
  rw [Bool.eq_iff_iff, isSourceFile_iff, isSourceFile_iff, same]

theorem mem_sourceFiles_iff {tree : FileTree} {root path : Path} :
    path ∈ sourceFiles tree root ↔ path ∈ tree.filesUnder root ∧ isSourceFile path = true := by
  rw [sourceFiles, Path.sort, List.mem_mergeSort, List.mem_filter]

end SymbolCache.Source

namespace SymbolCache.FileTree
open Source

/-- Trees that differ only in files that are no source files. -/
structure KeepsSources (before after : FileTree) : Prop where
  sameDirs : before.SameDirs after
  others : ∀ place, after.node? place = before.node? place ∨
    ∃ front name, place = front ++ [name] ∧ Path.IsName name ∧ isSourceFile name = false

namespace KeepsSources

variable {before after : FileTree} {path : Path}

theorem symm (keeps : KeepsSources before after) : KeepsSources after before :=
  ⟨⟨keeps.sameDirs.workingDir.symm, fun place => (keeps.sameDirs.directories place).symm⟩,
    fun place => (keeps.others place).imp Eq.symm id⟩

theorem trans {final : FileTree} (first : KeepsSources before after) (second : KeepsSources after final) :
    KeepsSources before final := by
  refine ⟨first.sameDirs.trans second.sameDirs, fun place => ?_⟩
  rcases second.others place with same | other
  · rw [same]
    exact first.others place
  · exact .inr other

/-- Where a source file is named, nothing has changed. -/
theorem node?_eq (keeps : KeepsSources before after) {place : Location} (source : isSourceFile path = true)
    (named : ∀ front name, place = front ++ [name] → Path.IsName name → Path.fileName? path = some name) :
    after.node? place = before.node? place := by
  rcases keeps.others place with same | ⟨front, name, ends, proper, other⟩
  · exact same
  · have itself : Path.fileName? name = some name :=
      Path.fileName?_eq_some_iff.2 ⟨[], proper.steps, proper.notUp⟩
    rw [isSourceFile_congr ((named front name ends proper).trans itself.symm), other] at source
    cases source

theorem mem_sourceFiles (keeps : KeepsSources before after) {root : Path} (member : path ∈ sourceFiles before root) :
    path ∈ sourceFiles after root := by
  obtain ⟨walked, source⟩ := mem_sourceFiles_iff.1 member
  obtain ⟨location, names, content, modified, located, ⟨found, passed⟩, rfl⟩ := mem_filesUnder_iff.1 walked
  refine mem_sourceFiles_iff.2 ⟨mem_filesUnder_iff.2 ⟨location, names, content, modified, ?_, ⟨?_, ?_⟩, rfl⟩, source⟩
  · exact keeps.sameDirs.locate_eq_ok_iff.2 located
  · rw [keeps.node?_eq source, found]
    intro front name ends proper
    rcases List.eq_nil_or_concat names with none | ⟨init, last, rfl⟩
    · -- The root is the file itself.
      subst none
      obtain ⟨written, -, fileName, -, -⟩ := isSourceFile_iff.1 source
      obtain ⟨above, spot⟩ := @spot_of_fileName? before _ _ fileName
      rw [List.append_nil, locate_eq_spot located] at ends
      rw [List.foldl_nil] at spot
      have same := (List.append_singleton_inj.1 (spot.symm.trans ends)).2
      rw [fileName, same]
    · rw [List.concat_eq_append, ← List.append_assoc] at ends
      have same := (List.append_singleton_inj.1 ends).2
      rw [List.concat_eq_append, List.foldl_append, List.foldl_cons, List.foldl_nil, same]
      exact Path.fileName?_join _ proper
  · intro front name rest split
    exact (keeps.sameDirs.directories _).2 (passed front name rest split)

theorem stat_eq_ok_iff (keeps : KeepsSources before after) {node : FileNode} (source : isSourceFile path = true) :
    after.stat path = .ok node ↔ before.stat path = .ok node := by
  obtain ⟨written, -, fileName, -, -⟩ := isSourceFile_iff.1 source
  refine keeps.sameDirs.stat_eq_ok_iff (keeps.node?_eq source ?_)
  intro front name ends _
  obtain ⟨above, spot⟩ := @spot_of_fileName? before _ _ fileName
  rw [fileName, (List.append_singleton_inj.1 (spot.symm.trans ends)).2]

end KeepsSources

end SymbolCache.FileTree

namespace SymbolCache.FieldIndex
open Source

theorem sighted_eq_some_iff {tree : FileTree} {root path : Path} {sighting : Sighting} :
    sighted tree root path = some sighting ↔ path ∈ sourceFiles tree root ∧
      ∃ content modified, tree.stat path = .ok (.file content modified) ∧
        sighting = (watermarkOf modified, Text.dropByteOrderMarks (Text.decodeLossy content)) := by
  unfold sighted
  by_cases member : path ∈ sourceFiles tree root
  · rw [if_pos member]
    unfold fileWatermark readLossy FileTree.modified FileTree.read
    cases tree.stat path with
    | error cause => simp [member, bind, Except.bind, Except.map]
    | ok node => cases node <;> simp [member, bind, Except.bind, Except.map, pure, Except.pure, eq_comm]
  · simp [member]

theorem sighted_eq_of_keepsSources {before after : FileTree} (keeps : before.KeepsSources after) (root : Path) :
    sighted after root = sighted before root := by
  funext path
  refine Option.ext fun sighting => ?_
  rw [sighted_eq_some_iff, sighted_eq_some_iff]
  have members : path ∈ sourceFiles after root ↔ path ∈ sourceFiles before root :=
    ⟨keeps.symm.mem_sourceFiles, keeps.mem_sourceFiles⟩
  rw [members]
  refine and_congr_right fun member => ?_
  simp only [keeps.stat_eq_ok_iff (mem_sourceFiles_iff.1 member).2]

/-- The names of the files of a saved index. -/
def copyNames : List String :=
  ["fieldTableCache.json", "fieldPageCache.json", "fieldCacheMetadata.json", "fieldCacheContributions.json"]

private theorem copyNames_checked : ∀ name ∈ copyNames,
    (('/' ∉ name.toList ∧ Path.isStep name = true ∧ name ≠ "..") ∧ isSourceFile name = false) ∧
    (('/' ∉ (temporaryName name).toList ∧ Path.isStep (temporaryName name) = true ∧ temporaryName name ≠ "..") ∧
      isSourceFile (temporaryName name) = false) ∧ temporaryName name ∉ copyNames := by
  decide +kernel

theorem isCopyName_of_mem {name : String} (member : name ∈ copyNames) : IsCopyName name := by
  obtain ⟨⟨⟨slashless, step, up⟩, -⟩, ⟨⟨slashless', step', up'⟩, -⟩, apart⟩ := copyNames_checked name member
  exact ⟨⟨slashless, step, up⟩, ⟨slashless', step', up'⟩, fun same => apart (by rwa [same])⟩

/-- The files of a saved index by their names. -/
def contents (index : FieldIndex) : List (String × Json) :=
  copyNames.zip [Json.ofTableFields index.tableFields, Json.ofPageSources index.pageSources,
    Json.ofWatermarks index.watermarks, Json.ofContributions index.contributions]

theorem parts_eq (index : FieldIndex) (dir : Path) :
    index.parts dir = index.contents.map fun entry => (Path.join dir entry.1, entry.2) := rfl

private theorem tables_mem_contents (index : FieldIndex) :
    ("fieldTableCache.json", Json.ofTableFields index.tableFields) ∈ index.contents := List.mem_cons_self ..

private theorem tablesName_mem : "fieldTableCache.json" ∈ copyNames := List.mem_cons_self ..

def bytesOf (content : Json) : Bytes := Text.encodeUtf8 content.pretty.toList

section Replacing

variable {dir : Path} {name : String} {content : Bytes} {before after : FileTree}

theorem read_of_replaces (replaces : Replaces dir name content before after) :
    after.read (Path.join dir name) = .ok content := by
  obtain ⟨modified, found⟩ := replaces.written
  exact FileTree.read_eq_ok_iff.2 ⟨modified, FileTree.stat_eq_ok_iff.2 ⟨_, replaces.located, found⟩⟩

theorem read_kept_of_replaces (replaces : Replaces dir name content before after) {other : String}
    (named : Path.IsName other) (distinct : other ≠ name) (apart : other ≠ temporaryName name) {old : Bytes}
    (read : before.read (Path.join dir other) = .ok old) : after.read (Path.join dir other) = .ok old := by
  obtain ⟨modified, found⟩ := FileTree.read_eq_ok_iff.1 read
  refine FileTree.read_eq_ok_iff.2 ⟨modified, (replaces.sameDirs.stat_eq_ok_iff ?_).2 found⟩
  rw [FileTree.spot_join_name dir named]
  refine replaces.others _ ?_ ?_
  · exact fun same => distinct (List.append_singleton_inj.1 same).2
  · exact fun same => apart (List.append_singleton_inj.1 same).2

theorem keepsSources_of_replaces (member : name ∈ copyNames) (replaces : Replaces dir name content before after) :
    before.KeepsSources after := by
  have copy := isCopyName_of_mem member
  obtain ⟨⟨-, notSource⟩, ⟨-, notSource'⟩, -⟩ := copyNames_checked name member
  refine ⟨replaces.sameDirs, fun place => ?_⟩
  by_cases here : place = before.spot dir ++ [name]
  · exact .inr ⟨_, name, here, copy.named, notSource⟩
  · by_cases beside : place = before.spot dir ++ [temporaryName name]
    · exact .inr ⟨_, temporaryName name, beside, copy.temporary, notSource'⟩
    · exact .inl (replaces.others place here beside)

end Replacing

/-- What a tree has after some files of a saved index have been replaced. -/
structure Written (dir : Path) (entries : List (String × Json)) (before after : FileTree) : Prop where
  sources : before.KeepsSources after
  reads : ∀ entry ∈ entries, after.read (Path.join dir entry.1) = .ok (bytesOf entry.2)
  others : ∀ name ∈ copyNames, name ∉ entries.map Prod.fst → ∀ content,
    before.read (Path.join dir name) = .ok content → after.read (Path.join dir name) = .ok content

theorem writeParts_written {dir : Path} {entries : List (String × Json)} {space after : Workspace}
    (known : ∀ entry ∈ entries, entry.1 ∈ copyNames) (distinct : (entries.map Prod.fst).Nodup)
    (done : writeParts (entries.map fun entry => (Path.join dir entry.1, entry.2)) space = (.ok (), after)) :
    Written dir entries space.tree after.tree := by
  induction entries generalizing space with
  | nil =>
    cases done
    exact ⟨⟨⟨rfl, fun _ => Iff.rfl⟩, fun _ => .inl rfl⟩, nofun, fun _ _ _ _ read => read⟩
  | cons entry rest ih =>
    obtain ⟨name, content⟩ := entry
    obtain ⟨_, middle, first, later⟩ := bind_eq_ok_iff.1 done
    have member := known (name, content) (List.mem_cons_self ..)
    have replaces := writeSnapshot_eq_ok (isCopyName_of_mem member) first
    rw [List.map_cons, List.nodup_cons] at distinct
    have written := ih (fun other inside => known other (List.mem_cons_of_mem _ inside)) distinct.2 later
    refine ⟨(keepsSources_of_replaces member replaces).trans written.sources, ?_, ?_⟩
    · intro other inside
      rcases List.mem_cons.1 inside with rfl | inRest
      · exact written.others name member distinct.1 _ (read_of_replaces replaces)
      · exact written.reads other inRest
    · intro other inside absent old read
      rw [List.map_cons, List.mem_cons, not_or] at absent
      have apart : other ≠ temporaryName name := fun same => (copyNames_checked name member).2.2 (same ▸ inside)
      exact written.others other inside absent.2 old
        (read_kept_of_replaces replaces (isCopyName_of_mem inside).named absent.1 apart read)

/-- The text of a map reads back as the map. -/
def ReadsAs {α : Type} (decoder : Json.Decoder α) (content : Json) (value : α) : Prop :=
  ((Text.decodeUtf8? (bytesOf content)).bind Json.parse?).bind (Json.decode? decoder) = some value

/-- All maps of an index read back. -/
structure ReadsBack (index : FieldIndex) : Prop where
  tables : ReadsAs .tableFields (Json.ofTableFields index.tableFields) index.tableFields
  pages : ReadsAs .pageSources (Json.ofPageSources index.pageSources) index.pageSources
  watermarks : ReadsAs .watermarks (Json.ofWatermarks index.watermarks) index.watermarks
  contributions : ReadsAs .contributions (Json.ofContributions index.contributions) index.contributions

theorem readSnapshot_of_read {α : Type} {decoder : Json.Decoder α} {tree : FileTree} {path : Path} {content : Json}
    {value : α} (read : tree.read path = .ok (bytesOf content)) (readsAs : ReadsAs decoder content value) :
    readSnapshot decoder tree path = .ok (some value) := by
  obtain ⟨json, parsed, decoded⟩ := Option.bind_eq_some_iff.1 readsAs
  obtain ⟨text, decodes, parses⟩ := Option.bind_eq_some_iff.1 parsed
  have texts : tree.readText path = .ok text := by
    simp [FileTree.readText, read, bind, Except.bind, decodes]
  simp [readSnapshot, texts, parses, decoded]

theorem loadMap_of_read {α : Type} {decoder : Json.Decoder (Dict α)} {tree : FileTree} {path : Path} {content : Json}
    {map : Dict α} (read : tree.read path = .ok (bytesOf content)) (readsAs : ReadsAs decoder content map) :
    loadMap decoder tree path = map := by
  rw [loadMap, readSnapshot_of_read read readsAs]

/-- A save that stops after some of its files. -/
def saveUpTo (count : Nat) (index : FieldIndex) (dir : Path) : FileAction SnapshotError Unit := do
  makeSnapshotDir dir
  writeParts ((index.parts dir).take count)

theorem save_eq_saveUpTo (index : FieldIndex) (dir : Path) : index.save dir = index.saveUpTo 4 dir := rfl

/-- The maps on file after a cut: those replaced are new, the others old. -/
def generation (count : Nat) (old new : FieldIndex) : FieldIndex where
  tableFields := if 0 < count then new.tableFields else old.tableFields
  pageSources := if 1 < count then new.pageSources else old.pageSources
  watermarks := if 2 < count then new.watermarks else old.watermarks
  contributions := if 3 < count then new.contributions else old.contributions

theorem on_eq_ok {ε α : Type} {action : FileAction ε α} {tree after : FileTree} {value : α}
    (done : action.on tree = (.ok value, after)) : ∃ log, action ⟨tree, []⟩ = (.ok value, ⟨after, log⟩) := by
  unfold FileAction.on at done
  rcases ran : action ⟨tree, []⟩ with ⟨result, space⟩
  rw [ran] at done
  cases done
  exact ⟨space.log, rfl⟩

private theorem map_fst_contents (index : FieldIndex) : index.contents.map Prod.fst = copyNames := rfl

private theorem copyNames_nodup : copyNames.Nodup := by decide +kernel

theorem mem_copyNames_of_mem_contents {index : FieldIndex} {entry : String × Json}
    (member : entry ∈ index.contents) : entry.1 ∈ copyNames := by
  rw [← map_fst_contents index]
  exact List.mem_map_of_mem member

private theorem writeParts_take_written {count : Nat} {index : FieldIndex} {dir : Path} {space after : Workspace}
    (done : writeParts ((index.parts dir).take count) space = (.ok (), after)) :
    Written dir (index.contents.take count) space.tree after.tree := by
  rw [parts_eq, ← List.map_take] at done
  refine writeParts_written ?_ ?_ done
  · intro entry member
    exact mem_copyNames_of_mem_contents (List.mem_of_mem_take member)
  · rw [List.map_take, map_fst_contents]
    exact copyNames_nodup.sublist (List.take_sublist ..)

theorem save_reads {index : FieldIndex} {dir : Path} {start saved : FileTree}
    (saves : (index.save dir).on start = (.ok (), saved)) :
    ∀ entry ∈ index.contents, saved.read (Path.join dir entry.1) = .ok (bytesOf entry.2) := by
  obtain ⟨log, ran⟩ := on_eq_ok saves
  obtain ⟨_, middle, -, wrote⟩ := bind_eq_ok_iff.1 ran
  exact (@writeParts_take_written 4 index dir _ _ wrote).reads

theorem saveUpTo_makes {count : Nat} {index : FieldIndex} {dir : Path} {start cut : FileTree}
    (stops : (index.saveUpTo count dir).on start = (.ok (), cut)) :
    ∃ made, start.makeDirs dir = .ok made ∧ Written dir (index.contents.take count) made cut := by
  obtain ⟨log, ran⟩ := on_eq_ok stops
  obtain ⟨_, middle, made, wrote⟩ := bind_eq_ok_iff.1 ran
  exact ⟨middle.tree, (FileAction.makeDirs_eq_ok_iff.1 made).1, writeParts_take_written wrote⟩

/-- There is a directory where a file of a saved index can be read. -/
theorem isDirectory_of_read {dir : Path} {tree : FileTree} {name : String} {content : Bytes} (member : name ∈ copyNames)
    (present : tree.read (Path.join dir name) = .ok content) (written : dir ≠ "") : tree.isDirectory dir = true := by
  obtain ⟨_, found⟩ := FileTree.read_eq_ok_iff.1 present
  obtain ⟨_, located, -⟩ := FileTree.stat_eq_ok_iff.1 found
  exact FileTree.isDirectory_of_locate_join (isCopyName_of_mem member).named written located

theorem saveUpTo_written {count : Nat} {index : FieldIndex} {dir : Path} {start cut : FileTree} {name : String}
    {content : Bytes} (member : name ∈ copyNames) (present : start.read (Path.join dir name) = .ok content)
    (stops : (index.saveUpTo count dir).on start = (.ok (), cut)) :
    Written dir (index.contents.take count) start cut := by
  obtain ⟨made, makes, written⟩ := saveUpTo_makes stops
  -- The directory of the files is there, so that none is made.
  have there : start.makeDirs dir = .ok start := by
    by_cases blank : dir = ""
    · subst blank
      rfl
    · exact FileTree.makeDirs_of_isDirectory (isDirectory_of_read member present blank)
  rw [there] at makes
  cases makes
  exact written

section Cut

variable {old new : FieldIndex} {dir : Path} {count : Nat} {changed cut : FileTree}
  (kept : ∀ entry ∈ old.contents, changed.read (Path.join dir entry.1) = .ok (bytesOf entry.2))
  (written : Written dir (new.contents.take count) changed cut)

include kept written

theorem read_cut (place : Nat) {name : String} {before after : Json}
    (inOld : old.contents[place]? = some (name, before)) (inNew : new.contents[place]? = some (name, after)) :
    cut.read (Path.join dir name) = .ok (bytesOf (if place < count then after else before)) := by
  by_cases replaced : place < count
  · rw [if_pos replaced]
    refine written.reads (name, after) (List.mem_of_getElem? (i := place) ?_)
    rw [List.getElem?_take_of_lt replaced, inNew]
  · rw [if_neg replaced]
    have member := List.mem_of_getElem? inOld
    refine written.others name (mem_copyNames_of_mem_contents member) ?_ (bytesOf before) (kept (name, before) member)
    -- The names are distinct, so that one after the cut is not among those before it.
    rw [List.map_take, map_fst_contents]
    intro earlier
    obtain ⟨position, inside, same⟩ := List.mem_take_iff_getElem.1 earlier
    have here : copyNames[place]? = some name := by
      rw [← map_fst_contents new, List.getElem?_map, inNew]
      rfl
    have bound := (List.getElem?_eq_some_iff.1 here).1
    have equal := (List.getElem?_eq_some_iff.1 here).2
    have collision := (copyNames_nodup.getElem_inj_iff).1 (same.trans equal.symm)
    omega

theorem load_cut (oldReads : old.ReadsBack) (newReads : new.ReadsBack) : load cut dir = generation count old new := by
  have mixed {α : Type} {decoder : Json.Decoder α} {before after : Json} {first second : α} (place : Nat)
      (inOld : ReadsAs decoder before first) (inNew : ReadsAs decoder after second) :
      ReadsAs decoder (if place < count then after else before) (if place < count then second else first) := by
    split
    · exact inNew
    · exact inOld
  have tables : loadMap .tableFields cut (tablesPath dir) = (generation count old new).tableFields :=
    loadMap_of_read (read_cut kept written 0 rfl rfl) (mixed 0 oldReads.tables newReads.tables)
  have pages : loadMap .pageSources cut (pagesPath dir) = (generation count old new).pageSources :=
    loadMap_of_read (read_cut kept written 1 rfl rfl) (mixed 1 oldReads.pages newReads.pages)
  have watermarks : loadMap .watermarks cut (watermarksPath dir) = (generation count old new).watermarks :=
    loadMap_of_read (read_cut kept written 2 rfl rfl) (mixed 2 oldReads.watermarks newReads.watermarks)
  have contributions : readSnapshot .contributions cut (contributionsPath dir) =
      .ok (some (generation count old new).contributions) :=
    readSnapshot_of_read (read_cut kept written 3 rfl rfl) (mixed 3 oldReads.contributions newReads.contributions)
  rw [load, contributions, tables, pages, watermarks]

end Cut

theorem generation_settling {old new : FieldIndex} (oldDerived : Derived old) (newDerived : Derived new) (count : Nat) :
    Settling new.contributions (generation count old new) := by
  have ledger (early : ¬ 3 < count) : (generation count old new).contributions = old.contributions := if_neg early
  constructor
  · intro name
    by_cases replaced : 0 < count
    · exact .inr (by simpa only [generation, if_pos replaced] using newDerived.tables name)
    · rw [ledger (by omega)]
      exact .inl (by simpa only [generation, if_neg replaced] using oldDerived.tables name)
  · intro page
    by_cases replaced : 1 < count
    · exact .inr (by simpa only [generation, if_pos replaced] using newDerived.pages page)
    · rw [ledger (by omega)]
      exact .inl (by simpa only [generation, if_neg replaced] using oldDerived.pages page)

/-- After a cut save, loading and updating gives the index of a scan from scratch, except when the cut
falls between the watermarks and the ledger: then it does exactly if every file of the old ledger is
still there with what it contributed. -/
theorem interrupted_save_recovers_iff {root dir : Path} {trees : List FileTree} {start saved changed cut : FileTree}
    {count : Nat} (scannable : Scannable root (trees ++ [changed]))
    (saves : ((scanAll root trees).save dir).on start = (.ok (), saved))
    (untouched : ∀ name ∈ copyNames, changed.read (Path.join dir name) = saved.read (Path.join dir name))
    (oldReads : (scanAll root trees).ReadsBack) (newReads : (update changed root (scanAll root trees)).1.ReadsBack)
    (stops : ((update changed root (scanAll root trees)).1.saveUpTo count dir).on changed = (.ok (), cut)) :
    (update cut root (load cut dir)).1 = (update cut root empty).1 ↔
      (count = 3 → ∀ path contribution, (scanAll root trees).contributions.get? path = some contribution →
        (update changed root (scanAll root trees)).1.contributions.get? path = some contribution) := by
  have earlier : ∀ tree ∈ trees, tree ∈ trees ++ [changed] := fun _ member => List.mem_append_left _ member
  have last : changed ∈ trees ++ [changed] := by simp
  have known : ∀ before ∈ trees.getLast?, before ∈ trees ++ [changed] :=
    fun before member => earlier before (List.mem_of_getLast? member)
  have oldHolds : (scanAll root trees).Holds (viewOf root trees.getLast?) := by
    have nothing : ∀ before ∈ (none : Option FileTree), before ∈ trees ++ [changed] := nofun
    have held := scannable.scanAll_holds nothing empty_holds earlier
    rwa [Option.or_none] at held
  have newHolds := (scannable.step known last oldHolds).1
  have kept : ∀ entry ∈ (scanAll root trees).contents,
      changed.read (Path.join dir entry.1) = .ok (bytesOf entry.2) := by
    intro entry member
    rw [untouched entry.1 (mem_copyNames_of_mem_contents member)]
    exact save_reads saves entry member
  have present : changed.read (Path.join dir "fieldTableCache.json") =
      .ok (bytesOf (Json.ofTableFields (scanAll root trees).tableFields)) :=
    kept ("fieldTableCache.json", Json.ofTableFields (scanAll root trees).tableFields) (tables_mem_contents _)
  have written := saveUpTo_written tablesName_mem present stops
  have same := sighted_eq_of_keepsSources written.sources root
  have agrees {old : Path → Option Sighting} (before : Agrees changed root old) : Agrees cut root old := by
    intro path member marks
    rw [same] at marks ⊢
    exact before path (written.sources.symm.mem_sourceFiles member) marks
  have readable : ∀ path ∈ sourceFiles cut root, ∃ sighting, sighted cut root path = some sighting := by
    intro path member
    rw [same]
    obtain ⟨_, _, -, -, found⟩ := scannable.sights last (written.sources.symm.mem_sourceFiles member)
    exact ⟨_, found⟩
  have scratch : (update cut root empty).1 = (update changed root (scanAll root trees)).1 :=
    (scratch_holds readable).unique (newHolds.congr fun path => (congrFun same path).symm)
  have settling := generation_settling oldHolds.derived newHolds.derived count
  rw [load_cut kept written oldReads newReads]
  rw [← scratch] at settling ⊢
  rcases Nat.lt_trichotomy count 3 with early | between | late
  · refine iff_of_true ?_ (fun three => absurd three (by omega))
    exact update_heals readable (viewOf_plain root _) (agrees (scannable.agrees known last)) (scannable.below known)
      oldHolds ⟨if_neg (by omega), if_neg (by omega)⟩ settling
  · subst between
    have marked : (generation 3 (scanAll root trees) (update cut root empty).1).watermarks =
      (update cut root empty).1.watermarks := rfl
    rw [update_blinded_eq_iff readable marked settling]
    exact ⟨fun right _ => right, fun right => right rfl⟩
  · refine iff_of_true ?_ (fun three => absurd three (by omega))
    have self : ∀ before ∈ some changed, before ∈ trees ++ [changed] := by simp
    refine update_heals readable (viewOf_plain root (some changed)) (agrees (scannable.agrees self last))
      (scannable.below self) newHolds ?_ settling
    rw [← scratch]
    exact ⟨if_pos (by omega), if_pos (by omega)⟩

private def textFile (text : String) (modified : Int) : FileNode := .file (Text.encodeUtf8 text.toList) modified

/-- A source file and a directory for the saved index. -/
def beforeDeletion : FileTree :=
  ⟨[(["c"], .directory), (["r"], .directory),
    (["r", "b.al"], textFile "page 2 Gone \x7b SourceTable = Item; \x7d" 1000)], [], 5000⟩

def onePage : FieldIndex :=
  ⟨.empty, .ofList [("Gone", some "Item")], .ofList [("/r/b.al", ⟨false, Binary64.ofRatio 1000 1⟩)],
    .ofList [("/r/b.al", ⟨.empty, .ofList [("Gone", some "Item")], none⟩)]⟩

def savedBefore : FileTree :=
  ⟨beforeDeletion.nodes ++ [(["c", "fieldTableCache.json"], textFile "\x7b\x7d" 5001),
    (["c", "fieldPageCache.json"], textFile "\x7b\n  \"Gone\": \"Item\"\n\x7d" 5002),
    (["c", "fieldCacheMetadata.json"], textFile "\x7b\n  \"/r/b.al\": 1000.0\n\x7d" 5003),
    (["c", "fieldCacheContributions.json"], textFile ("\x7b\n  \"/r/b.al\": \x7b\n    \"tables\": \x7b\x7d,\n" ++
      "    \"pages\": \x7b\n      \"Gone\": \"Item\"\n    \x7d\n  \x7d\n\x7d") 5004)], [], 5004⟩

def afterDeletion : FileTree := savedBefore.drop ["r", "b.al"]

def cutAfter (count : Nat) : FileTree := ((empty.saveUpTo count "/c").on afterDeletion).2

private theorem eq_mk_snd {α β : Type} {pair : α × β} {first : α} (done : pair.1 = first) : pair = (first, pair.2) := by
  cases pair
  cases done
  rfl

private theorem scanAll_beforeDeletion : scanAll "/r" [beforeDeletion] = onePage := by decide +kernel

private theorem update_afterDeletion : (update afterDeletion "/r" onePage).1 = empty := by decide +kernel

private theorem deletion_scannable : Scannable "/r" ([beforeDeletion] ++ [afterDeletion]) := by
  have first : sourceFiles beforeDeletion "/r" = ["/r/b.al"] := by decide +kernel
  have second : sourceFiles afterDeletion "/r" = [] := by decide +kernel
  constructor
  · unfold FileTree.WellNamed
    decide +kernel
  · simp only [List.singleton_append, List.mem_cons, List.not_mem_nil, or_false, forall_eq_or_imp, forall_eq, first,
      second, false_imp_iff, implies_true, and_true]
    exact ⟨_, rfl⟩
  · simp only [List.singleton_append, List.mem_cons, List.not_mem_nil, or_false, forall_eq_or_imp, forall_eq, first,
      second, false_imp_iff, implies_true, and_true]

/-- The file is forgotten when the cut leaves its old watermark, and stays for good when it does not. -/
theorem interrupted_save_of_deleted_file :
    (Scannable "/r" ([beforeDeletion] ++ [afterDeletion]) ∧
      ((scanAll "/r" [beforeDeletion]).save "/c").on beforeDeletion = (.ok (), savedBefore)) ∧
    (update (cutAfter 2) "/r" (load (cutAfter 2) "/c")).1 = (update (cutAfter 2) "/r" empty).1 ∧
    (update (cutAfter 3) "/r" (load (cutAfter 3) "/c")).1 ≠ (update (cutAfter 3) "/r" empty).1 := by
  have saves : (onePage.save "/c").on beforeDeletion = (.ok (), savedBefore) := by
    have done : ((onePage.save "/c").on beforeDeletion).1 = .ok () := by decide +kernel
    have left : ((onePage.save "/c").on beforeDeletion).2 = savedBefore := by decide +kernel
    exact (eq_mk_snd done).trans (congrArg (Prod.mk (Except.ok ())) left)
  have untouched : ∀ name ∈ copyNames,
      afterDeletion.read (Path.join "/c" name) = savedBefore.read (Path.join "/c" name) := by decide +kernel
  have oldReads : onePage.ReadsBack := by
    constructor <;> (unfold ReadsAs; decide +kernel)
  have newReads : empty.ReadsBack := by
    constructor <;> (unfold ReadsAs; decide +kernel)
  have early : (empty.saveUpTo 2 "/c").on afterDeletion = (.ok (), cutAfter 2) := by
    have done : ((empty.saveUpTo 2 "/c").on afterDeletion).1 = .ok () := by decide +kernel
    exact eq_mk_snd done
  have late : (empty.saveUpTo 3 "/c").on afterDeletion = (.ok (), cutAfter 3) := by
    have done : ((empty.saveUpTo 3 "/c").on afterDeletion).1 = .ok () := by decide +kernel
    exact eq_mk_snd done
  rw [← scanAll_beforeDeletion] at saves oldReads
  rw [← update_afterDeletion, ← scanAll_beforeDeletion] at newReads early late
  refine ⟨⟨deletion_scannable, saves⟩, ?_, ?_⟩
  · exact (interrupted_save_recovers_iff deletion_scannable saves untouched oldReads newReads early).2 nofun
  · intro recovered
    have kept := (interrupted_save_recovers_iff deletion_scannable saves untouched oldReads newReads late).1 recovered
      rfl
    rw [scanAll_beforeDeletion, update_afterDeletion] at kept
    cases kept "/r/b.al" _ rfl

end SymbolCache.FieldIndex
