import SymbolCache.Proofs.InterruptedSave
import SymbolCache.Proofs.MessageReadback
import SymbolCache.Proofs.TextBytes

/-! Saved copies can be written where no directory is in their way, and read back as what was saved. -/

namespace SymbolCache

theorem readsAs_of_printable {α : Type} {decoder : Json.Decoder α} {levels : Nat} {content : Json} {value : α}
    (printable : Json.Printable levels content) (decodes : Json.decode? decoder content = some value) :
    FieldIndex.ReadsAs decoder content value := by
  rw [FieldIndex.ReadsAs, FieldIndex.bytesOf, Text.decodeUtf8?_encodeUtf8, Option.bind_some, Json.parse?_pretty printable,
    Option.bind_some, decodes]

section Writing

variable {dir : Path} {name : String} {tree after : FileTree}

/-- A path at which a file can be written. -/
def FileTree.Free (tree : FileTree) (path : Path) : Prop :=
  ∃ location, tree.locate path = .ok location ∧ tree.node? location ≠ some .directory

/-- Nothing is in the way of a copy. -/
structure Admits (tree : FileTree) (dir : Path) (name : String) : Prop where
  copy : tree.Free (Path.join dir name)
  temporary : tree.Free (Path.join dir (temporaryName name))

theorem FileTree.Free.sameDirs {path : Path} (free : tree.Free path) (same : tree.SameDirs after) : after.Free path := by
  obtain ⟨location, located, empty⟩ := free
  exact ⟨location, same.locate_eq_ok_iff.2 located, fun directory => empty ((same.directories location).1 directory)⟩

theorem Admits.sameDirs (admits : Admits tree dir name) (same : tree.SameDirs after) : Admits after dir name :=
  ⟨admits.copy.sameDirs same, admits.temporary.sameDirs same⟩

theorem FileTree.isDirectory_sameDirs {path : Path} (there : tree.isDirectory path = true) (same : tree.SameDirs after) :
    after.isDirectory path = true := by
  obtain ⟨location, located, directory⟩ := isDirectory_iff.1 there
  exact isDirectory_iff.2 ⟨location, same.locate_eq_ok_iff.2 located, (same.directories location).2 directory⟩

theorem FileTree.dropLast_locate (named : Path.IsName name) (there : tree.isDirectory dir = true) {location : Location}
    (located : tree.locate (Path.join dir name) = .ok location) : tree.directoryAt location.dropLast = .ok () := by
  obtain ⟨above, here, directory⟩ := isDirectory_iff.1 there
  rw [locate_eq_spot located, spot_join_name dir named, List.dropLast_concat, ← locate_eq_spot here, directoryAt_eq_ok]
  exact directory

theorem FileTree.write_free (named : Path.IsName name) (there : tree.isDirectory dir = true)
    (free : tree.Free (Path.join dir name)) (content : Bytes) : ∃ after, tree.write (Path.join dir name) content = .ok after := by
  obtain ⟨location, located, empty⟩ := free
  have slashless : ((Path.join dir name).toList.getLast? == some '/') = false :=
    beq_eq_false_iff_ne.2 (Path.getLast?_join_ne_slash dir named)
  rw [write_eq, located]
  simp only [bind, Except.bind]
  cases found : tree.node? location with
  | none => simp [slashless, dropLast_locate named there located]
  | some node =>
    cases node with
    | directory => exact absurd found empty
    | file old modified => exact ⟨_, rfl⟩

theorem FileTree.renameFile_free (named : Path.IsName name) (there : tree.isDirectory dir = true)
    (free : tree.Free (Path.join dir name)) {source : Path} {node : FileNode} (found : tree.stat source = .ok node) :
    ∃ after, tree.renameFile source (Path.join dir name) = .ok after := by
  obtain ⟨location, located, empty⟩ := free
  obtain ⟨start, here, holds⟩ := stat_eq_ok_iff.1 found
  rw [renameFile, here, located]
  simp only [bind, Except.bind, holds]
  cases target : tree.node? location with
  | none => simp [dropLast_locate named there located]
  | some other =>
    cases other with
    | directory => exact absurd target empty
    | file old modified => simp [dropLast_locate named there located]

theorem writeSnapshot_admitted (copy : IsCopyName name) {space : Workspace} (there : space.tree.isDirectory dir = true)
    (admits : Admits space.tree dir name) (value : Json) :
    ∃ after, writeSnapshot (Path.join dir name) value space = (.ok (), after) := by
  obtain ⟨written, wrote⟩ := FileTree.write_free copy.temporary there admits.temporary (Text.encodeUtf8 value.pretty.toList)
  obtain ⟨location, located, empty, sets⟩ := FileTree.write_eq_ok wrote
  have same := sets.sameDirs empty nofun
  have found : ∃ node, written.stat (Path.join dir (temporaryName name)) = .ok node :=
    ⟨_, FileTree.stat_eq_ok_iff.2 ⟨location, same.locate_eq_ok_iff.2 located, by rw [sets.nodes, if_pos rfl]⟩⟩
  obtain ⟨final, moved⟩ := FileTree.renameFile_free copy.named (FileTree.isDirectory_sameDirs there same)
    (admits.copy.sameDirs same) found.choose_spec
  refine ⟨⟨final, space.log⟩, bind_eq_ok_iff.2 ⟨(), ⟨written, space.log⟩, ?_, ?_⟩⟩
  · rw [temporaryPath_join dir copy]
    exact FileAction.change_eq_ok_iff.2 ⟨wrote, rfl⟩
  · rw [temporaryPath_join dir copy]
    exact FileAction.change_eq_ok_iff.2 ⟨moved, rfl⟩

theorem FieldIndex.writeParts_admitted {entries : List (String × Json)} (known : ∀ entry ∈ entries, entry.1 ∈ copyNames)
    {space : Workspace} (there : space.tree.isDirectory dir = true)
    (admits : ∀ entry ∈ entries, Admits space.tree dir entry.1) :
    ∃ after, writeParts (entries.map fun entry => (Path.join dir entry.1, entry.2)) space = (.ok (), after) ∧
      space.tree.SameDirs after.tree := by
  induction entries generalizing space with
  | nil => exact ⟨space, rfl, rfl, fun _ => Iff.rfl⟩
  | cons entry rest ih =>
    have copy := isCopyName_of_mem (known entry (List.mem_cons_self ..))
    obtain ⟨middle, wrote⟩ := writeSnapshot_admitted copy there (admits entry (List.mem_cons_self ..)) entry.2
    have same := (writeSnapshot_eq_ok copy wrote).sameDirs
    obtain ⟨after, later, still⟩ := ih (fun other inside => known other (List.mem_cons_of_mem _ inside))
      (FileTree.isDirectory_sameDirs there same) fun other inside => (admits other (List.mem_cons_of_mem _ inside)).sameDirs same
    exact ⟨after, bind_eq_ok_iff.2 ⟨(), middle, wrote, later⟩, same.trans still⟩

/-- An index can be saved in a directory in which nothing is in the way of its copies. -/
theorem FieldIndex.save_admitted (index : FieldIndex) (there : tree.isDirectory dir = true)
    (admits : ∀ name ∈ copyNames, Admits tree dir name) :
    ∃ saved, (index.save dir).on tree = (.ok (), saved) ∧ tree.SameDirs saved := by
  obtain ⟨after, wrote, same⟩ := @writeParts_admitted dir index.contents (fun _ inside => mem_copyNames_of_mem_contents inside)
    ⟨tree, []⟩ there fun _ inside => admits _ (mem_copyNames_of_mem_contents inside)
  have ran : index.save dir ⟨tree, []⟩ = (.ok (), after) := by
    refine bind_eq_ok_iff.2 ⟨(), ⟨tree, []⟩, ?_, wrote⟩
    exact FileAction.makeDirs_eq_ok_iff.2 ⟨FileTree.makeDirs_of_isDirectory there, rfl⟩
  refine ⟨after.tree, ?_, same⟩
  rw [FileAction.on, ran]

end Writing

namespace FieldIndex

/-- Every map of an index reads back, if only its watermarks do. -/
theorem readsBack_of_sendable {index : FieldIndex} (sendable : index.Sendable) : index.ReadsBack where
  tables := by
    have printable : Json.Printable Json.maxNesting (Json.ofTableFields index.tableFields) :=
      Json.printable_ofDict fun _ fields _ => Json.printable_ofTexts fields
    exact readsAs_of_printable printable (Json.tableFields_ofTableFields _)
  pages := by
    have printable : Json.Printable Json.maxNesting (Json.ofPageSources index.pageSources) :=
      Json.printable_ofDict fun _ source _ => Json.printable_ofOption _ source
    exact readsAs_of_printable printable (Json.pageSources_ofPageSources _)
  watermarks := by
    have printable : Json.Printable Json.maxNesting (Json.ofWatermarks index.watermarks) :=
      Json.printable_ofDict fun path watermark found => .float (sendable path watermark found)
    exact readsAs_of_printable printable (Json.watermarks_ofWatermarks _)
  contributions := by
    have printable : Json.Printable Json.maxNesting (Json.ofContributions index.contributions) :=
      Json.printable_ofDict fun _ contribution _ => Json.printable_ofContribution contribution
    exact readsAs_of_printable printable (Json.contributions_ofContributions _)

theorem load_of_save {index : FieldIndex} {dir : Path} {start saved : FileTree} (sendable : index.Sendable)
    (saves : (index.save dir).on start = (.ok (), saved)) : load saved dir = index := by
  have back := readsBack_of_sendable sendable
  have reads (place : Nat) {name : String} {content : Json} (here : index.contents[place]? = some (name, content)) :
      saved.read (Path.join dir name) = .ok (bytesOf content) :=
    save_reads saves (name, content) (List.mem_of_getElem? here)
  have tables : loadMap .tableFields saved (tablesPath dir) = index.tableFields :=
    loadMap_of_read (reads 0 rfl) back.tables
  have pages : loadMap .pageSources saved (pagesPath dir) = index.pageSources :=
    loadMap_of_read (reads 1 rfl) back.pages
  have watermarks : loadMap .watermarks saved (watermarksPath dir) = index.watermarks :=
    loadMap_of_read (reads 2 rfl) back.watermarks
  have contributions : readSnapshot .contributions saved (contributionsPath dir) = .ok (some index.contributions) :=
    readSnapshot_of_read (reads 3 rfl) back.contributions
  rw [load, contributions, tables, pages, watermarks]

/-- After a save its directory is there, so that it is not made again. -/
theorem makeDirs_of_save {index : FieldIndex} {dir : Path} {start saved : FileTree}
    (saves : (index.save dir).on start = (.ok (), saved)) : saved.makeDirs dir = .ok saved := by
  by_cases blank : dir = ""
  · subst blank
    rfl
  · have reads := save_reads saves _ (List.mem_cons_self ..)
    exact FileTree.makeDirs_of_isDirectory (isDirectory_of_read (List.mem_cons_self ..) reads blank)

end FieldIndex

end SymbolCache
