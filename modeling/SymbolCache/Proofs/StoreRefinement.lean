import SymbolCache.Proofs.CacheWrites
import SymbolCache.Proofs.SavedCopies
import SymbolCache.Proofs.TextSplitting
import SymbolCache.Store.Snapshot

/-! The store against a pair of maps with one saved copy. Lists of procedures belong to a kind and a name, although the
store files them under one text made of both; its index by ids is rebuilt whenever the objects are replaced and stays in
step with them; what is loaded or opened is what was saved last. -/

namespace SymbolCache

namespace IdIndex

/-- Whatever an index leads to is an object of that kind and id, and every object with an id is led to by it. -/
structure InStep (index : IdIndex) (objects : Dict ObjectRecord) : Prop where
  sound : ∀ kind id name, index.get? kind id = some name →
    ∃ key record, objects.get? key = some record ∧ record.kind = kind ∧ record.id = some id ∧ record.name = name
  complete : ∀ key record id, objects.get? key = some record → record.id = some id →
    (index.get? record.kind id).isSome = true

theorem get?_add (index : IdIndex) (record : ObjectRecord) (kind : ObjectKind) (id : Int) :
    (index.add record).get? kind id =
      if kind = record.kind ∧ record.id = some id then some record.name else index.get? kind id := by
  unfold add
  cases record.id with
  | none => simp
  | some own => simp only [get?_insert, Prod.mk.injEq, Option.some.injEq, eq_comm]

theorem ofRecords_concat (records : List ObjectRecord) (last : ObjectRecord) :
    ofRecords (records ++ [last]) = (ofRecords records).add last := by
  simp [ofRecords]

theorem exists_of_get?_ofRecords {records : List ObjectRecord} {kind : ObjectKind} {id : Int} {name : String}
    (found : (ofRecords records).get? kind id = some name) :
    ∃ record ∈ records, record.kind = kind ∧ record.id = some id ∧ record.name = name := by
  induction records using List.reverseRecOn with
  | nil => cases found
  | append_singleton records last ih =>
    rw [ofRecords_concat, get?_add] at found
    split at found
    · rename_i own
      exact ⟨last, by simp, own.1.symm, own.2, Option.some.inj found⟩
    · obtain ⟨record, inside, leads⟩ := ih found
      exact ⟨record, List.mem_append_left _ inside, leads⟩

theorem isSome_get?_ofRecords {records : List ObjectRecord} {record : ObjectRecord} {id : Int}
    (inside : record ∈ records) (own : record.id = some id) : ((ofRecords records).get? record.kind id).isSome = true := by
  induction records using List.reverseRecOn with
  | nil => cases inside
  | append_singleton records last ih =>
    rw [ofRecords_concat, get?_add]
    split
    · rfl
    · rename_i other
      rcases List.mem_append.1 inside with earlier | here
      · exact ih earlier
      · cases List.mem_singleton.1 here
        exact absurd ⟨rfl, own⟩ other

theorem inStep_empty : empty.InStep .empty := ⟨nofun, nofun⟩

/-- The order of the objects decides only which one of several is led to. -/
theorem inStep_ofRecords {objects : Dict ObjectRecord} {records : List ObjectRecord} (all : records.Perm objects.values) :
    (ofRecords records).InStep objects where
  sound kind id name found := by
    obtain ⟨record, inside, leads⟩ := exists_of_get?_ofRecords found
    obtain ⟨key, there⟩ := Dict.mem_values_iff.1 (all.mem_iff.1 inside)
    exact ⟨key, record, there, leads⟩
  complete key record id there own :=
    isSome_get?_ofRecords (all.mem_iff.2 (Dict.mem_values_iff.2 ⟨key, there⟩)) own

end IdIndex

def procedurePair? (key : String) : Option (ObjectKind × String) := do
  let (keyword, name) ← Text.cutAt? ':' key.toList
  let kind ← ObjectKind.ofKeyword? (String.ofList keyword)
  return (kind, String.ofList name)

/-- Keywords have no colon, so that the first one ends the kind, whatever the name. -/
theorem procedurePair?_eq_some_iff {key : String} {kind : ObjectKind} {name : String} :
    procedurePair? key = some (kind, name) ↔ key = procedureKey kind name := by
  constructor
  · intro pair
    obtain ⟨⟨keyword, rest⟩, cut, pair⟩ := Option.bind_eq_some_iff.1 pair
    obtain ⟨found, known, same⟩ := Option.bind_eq_some_iff.1 pair
    cases same
    rw [ObjectKind.ofKeyword?_eq_some_iff] at known
    rw [← String.toList_inj, Text.eq_of_cutAt? cut, procedureKey, ← known]
    simp
  · rintro rfl
    have plain : ':' ∉ kind.keyword.toList := by cases kind <;> decide
    have cut : Text.cutAt? ':' (procedureKey kind name).toList = some (kind.keyword.toList, name.toList) := by
      simpa [procedureKey] using Text.cutAt?_append plain name.toList
    simp [procedurePair?, cut, ObjectKind.ofKeyword?_eq_some_iff.2 rfl]

namespace Store

structure Maps where
  objects : String → Option ObjectRecord
  procedures : ObjectKind → String → Option (List ProcedureRecord)

namespace Maps

def empty : Maps := ⟨fun _ => none, fun _ _ => none⟩

def assign (maps : Maps) (kind : ObjectKind) (name : String) (list : List ProcedureRecord) : Maps :=
  { maps with procedures := fun k n => if k = kind ∧ n = name then some list else maps.procedures k n }

def assignAll (maps : Maps) (entries : List (String × List ProcedureRecord)) : Maps :=
  entries.foldl (fun maps entry => match procedurePair? entry.1 with
    | some (kind, name) => maps.assign kind name entry.2
    | none => maps) maps

end Maps

/-- What can be done with a store. -/
inductive Operation where
  | replaceObjects (objects : Dict ObjectRecord)
  | setProcedures (kind : ObjectKind) (name : String) (list : List ProcedureRecord)
  | mergeProcedures (entries : List (String × List ProcedureRecord))
  | save
  | load
  | clear
  | reopen

/-- The maps in memory and the copy saved last. -/
structure Reference where
  current : Maps
  saved : Maps

namespace Reference

def start : Reference := ⟨.empty, .empty⟩

def after (reference : Reference) : Operation → Reference
  | .replaceObjects objects => { reference with current := { reference.current with objects := objects.get? } }
  | .setProcedures kind name list => { reference with current := reference.current.assign kind name list }
  | .mergeProcedures entries => { reference with current := reference.current.assignAll entries }
  | .save => { reference with saved := reference.current }
  | .load | .reopen => { reference with current := reference.saved }
  | .clear => start

end Reference

structure World where
  tree : FileTree
  store : Store

/-- Objects as they may be given to a store: each under its own name, and made of JSON that can be read again. -/
structure Filed (objects : Dict ObjectRecord) : Prop where
  named : ∀ name record, objects.get? name = some record → record.name = name
  lasting : ∀ name record, objects.get? name = some record → record.Lasting (Json.maxNesting - 3)

/-- One operation whose writes succeed. -/
inductive Step (world : World) : Operation → World → Prop where
  | replaceObjects {objects : Dict ObjectRecord} (filed : Filed objects) :
    Step world (.replaceObjects objects) { world with store := world.store.replaceObjects objects }
  | setProcedures (kind : ObjectKind) (name : String) (list : List ProcedureRecord) :
    Step world (.setProcedures kind name list) { world with store := world.store.setProcedures kind name list }
  | mergeProcedures (entries : List (String × List ProcedureRecord)) :
    Step world (.mergeProcedures entries) { world with store := world.store.mergeProcedures entries }
  | save {after : FileTree} (done : world.store.save.on world.tree = (.ok (), after)) :
    Step world .save { world with tree := after }
  | load : Step world .load { world with store := world.store.load world.tree }
  | clear {after : FileTree} (done : world.store.cleared.save.on world.tree = (.ok (), after)) :
    Step world .clear ⟨after, world.store.cleared⟩
  | reopen : Step world .reopen { world with store := openAt world.store.dir world.tree }

/-- Operations one after the other. In between, files may change, but not those of the store. The index by ids may have
been built in any order of the objects. -/
inductive Runs : World → List Operation → World → Prop where
  | done (world : World) : Runs world [] world
  | step {world next final : World} {operation : Operation} {operations : List Operation}
    (first : Step world operation next) (rest : Runs next operations final) : Runs world (operation :: operations) final
  | elsewhere {world final : World} {after : FileTree} {operations : List Operation}
    (symbols : after.readText world.store.symbolsPath = world.tree.readText world.store.symbolsPath)
    (procedures : after.readText world.store.proceduresPath = world.tree.readText world.store.proceduresPath)
    (rest : Runs { world with tree := after } operations final) : Runs world operations final
  | reindexed {world final : World} {records : List ObjectRecord} {operations : List Operation}
    (all : records.Perm world.store.objects.values)
    (rest : Runs { world with store := { world.store with ids := .ofRecords records } } operations final) :
    Runs world operations final

/-- Every lookup in a store answers as some maps do. -/
structure Answers (store : Store) (maps : Maps) : Prop where
  object : ∀ name, store.object? name = maps.objects name
  objectId : ∀ name, store.objectId? name = (maps.objects name).bind ObjectRecord.id
  procedures : ∀ kind name, store.proceduresOf kind name = (maps.procedures kind name).getD []
  byId : ∀ kind id, (store.byId? kind id).isSome ↔
    ∃ name record, maps.objects name = some record ∧ record.kind = kind ∧ record.id = some id
  found : ∀ kind id record, store.byId? kind id = some record →
    record.kind = kind ∧ record.id = some id ∧ maps.objects record.name = some record

/-- Two maps of a store hold what a reference says. -/
structure Copies (objects : Dict ObjectRecord) (procedures : Dict (List ProcedureRecord)) (maps : Maps) : Prop where
  filed : Filed objects
  objects : ∀ name, objects.get? name = maps.objects name
  procedures : ∀ kind name, procedures.get? (procedureKey kind name) = maps.procedures kind name

section Lookups

variable {store : Store} {maps : Maps}

theorem byId?_eq_some {kind : ObjectKind} {id : Int} {record : ObjectRecord} (filed : Filed store.objects)
    (inStep : store.ids.InStep store.objects) (found : store.byId? kind id = some record) :
    record.kind = kind ∧ record.id = some id ∧ store.objects.get? record.name = some record := by
  obtain ⟨name, listed, here⟩ := Option.bind_eq_some_iff.1 found
  obtain ⟨key, last, there, sameKind, sameId, rfl⟩ := inStep.sound kind id name listed
  -- The record is filed under its own name, so the name leads back to it.
  have own := filed.named key last there
  rw [Store.object?, own, there] at here
  cases here
  exact ⟨sameKind, sameId, by rw [own, there]⟩

theorem isSome_byId?_iff {kind : ObjectKind} {id : Int} (filed : Filed store.objects)
    (inStep : store.ids.InStep store.objects) : (store.byId? kind id).isSome ↔
      ∃ name record, store.objects.get? name = some record ∧ record.kind = kind ∧ record.id = some id := by
  constructor
  · intro some
    obtain ⟨record, found⟩ := Option.isSome_iff_exists.1 some
    obtain ⟨sameKind, sameId, here⟩ := byId?_eq_some filed inStep found
    exact ⟨record.name, record, here, sameKind, sameId⟩
  · rintro ⟨name, record, here, rfl, sameId⟩
    obtain ⟨other, listed⟩ := Option.isSome_iff_exists.1 (inStep.complete name record id here sameId)
    obtain ⟨key, last, there, -, -, rfl⟩ := inStep.sound _ _ _ listed
    simp [byId?, listed, Store.object?, filed.named key last there, there]

theorem Copies.answers (copies : Copies store.objects store.procedures maps) (inStep : store.ids.InStep store.objects) :
    Answers store maps where
  object := copies.objects
  objectId name := congrArg (Option.bind · ObjectRecord.id) (copies.objects name)
  procedures kind name := congrArg (Option.getD · []) (copies.procedures kind name)
  byId kind id := by
    rw [isSome_byId?_iff copies.filed inStep]
    simp only [copies.objects]
  found kind id record here := by
    rw [← copies.objects]
    exact byId?_eq_some copies.filed inStep here

end Lookups

section Assignments

variable {objects : Dict ObjectRecord} {procedures : Dict (List ProcedureRecord)} {maps : Maps}

theorem Copies.assign (copies : Copies objects procedures maps) (kind : ObjectKind) (name : String)
    (list : List ProcedureRecord) :
    Copies objects (procedures.insert (procedureKey kind name) list) (maps.assign kind name list) := by
  refine ⟨copies.filed, copies.objects, fun otherKind other => ?_⟩
  rw [Dict.get?_insert, Maps.assign, copies.procedures]
  refine if_congr ?_ rfl rfl
  -- Both keys stand for their own pairs, so equal keys stand for equal pairs.
  rw [← procedurePair?_eq_some_iff, procedurePair?_eq_some_iff.2 rfl, Option.some_inj, Prod.mk.injEq]

theorem Copies.ignore (copies : Copies objects procedures maps) {key : String} (stray : procedurePair? key = none)
    (list : List ProcedureRecord) : Copies objects (procedures.insert key list) maps := by
  refine ⟨copies.filed, copies.objects, fun kind name => ?_⟩
  rw [Dict.get?_insert, if_neg, copies.procedures]
  intro same
  rw [procedurePair?_eq_some_iff.2 same.symm] at stray
  cases stray

theorem Copies.assignAll (copies : Copies objects procedures maps) (entries : List (String × List ProcedureRecord)) :
    Copies objects (procedures.insertAll entries) (maps.assignAll entries) := by
  induction entries generalizing procedures maps with
  | nil => exact copies
  | cons entry rest ih =>
    rw [Dict.insertAll, List.foldl_cons, Maps.assignAll, List.foldl_cons]
    refine ih ?_
    cases pair : procedurePair? entry.1 with
    | none => exact copies.ignore pair entry.2
    | some found =>
      obtain ⟨kind, name⟩ := found
      rw [procedurePair?_eq_some_iff.1 pair]
      exact copies.assign kind name entry.2

end Assignments

section Files

theorem readsAs_objects {objects : Dict ObjectRecord} (filed : Filed objects) :
    FieldIndex.ReadsAs (.dict .objectRecord) (Json.ofDict Json.ofRecord objects) objects :=
  readsAs_of_printable (Json.printable_ofDict fun name record found => Json.printable_ofRecord (filed.lasting name record found))
    (Json.Decoder.dict_ofDict fun name record found => Json.objectRecord_ofRecord (filed.lasting name record found))

theorem readsAs_procedures (procedures : Dict (List ProcedureRecord)) :
    FieldIndex.ReadsAs (.dict (.list .procedure)) (Json.ofDict Json.ofProcedures procedures) procedures := by
  have printable : Json.Printable Json.maxNesting (Json.ofDict Json.ofProcedures procedures) :=
    Json.printable_ofDict fun _ list _ => Json.printable_ofProcedures list
  exact readsAs_of_printable printable (Json.Decoder.dict_ofDict fun _ list _ => Json.list_ofProcedures list)

/-- What the files of a store give back, an absent file nothing. -/
structure OnFile (tree : FileTree) (dir : Path) (objects : Option (Dict ObjectRecord))
    (procedures : Option (Dict (List ProcedureRecord))) : Prop where
  objects : readSnapshot (.dict .objectRecord) tree (Path.join dir "symbols.json") = .ok objects
  procedures : readSnapshot (.dict (.list .procedure)) tree (Path.join dir "procedures.json") = .ok procedures

theorem load_of_onFile {store : Store} {tree : FileTree} {objects : Option (Dict ObjectRecord)}
    {procedures : Option (Dict (List ProcedureRecord))} (onFile : OnFile tree store.dir objects procedures) :
    store.load tree = { store.replaceObjects (objects.getD .empty) with procedures := procedures.getD .empty } := by
  unfold load symbolsPath proceduresPath
  rw [onFile.objects, onFile.procedures]
  cases objects <;> cases procedures <;> rfl

theorem onFile_of_save {store : Store} {before after : FileTree} (filed : Filed store.objects)
    (done : store.save.on before = (.ok (), after)) : OnFile after store.dir (some store.objects) (some store.procedures) := by
  obtain ⟨log, ran⟩ := FieldIndex.on_eq_ok done
  obtain ⟨_, made, -, wrote⟩ := bind_eq_ok_iff.1 ran
  obtain ⟨_, middle, first, second⟩ := bind_eq_ok_iff.1 wrote
  have symbols := writeSnapshot_eq_ok (isCopyName_of_mem_cacheNames (by decide)) first
  have procedures := writeSnapshot_eq_ok (isCopyName_of_mem_cacheNames (by decide)) second
  have named : Path.IsName "symbols.json" := (isCopyName_of_mem_cacheNames (by decide)).named
  have kept := FieldIndex.read_kept_of_replaces procedures named (by decide) (by decide +kernel)
    (FieldIndex.read_of_replaces symbols)
  exact ⟨FieldIndex.readSnapshot_of_read kept (readsAs_objects filed),
    FieldIndex.readSnapshot_of_read (FieldIndex.read_of_replaces procedures) (readsAs_procedures store.procedures)⟩

end Files

/-- The store holds the current maps and an index in step with them, and its files hold the saved ones. -/
structure Simulates (world : World) (reference : Reference) : Prop where
  current : Copies world.store.objects world.store.procedures reference.current
  inStep : world.store.ids.InStep world.store.objects
  saved : ∃ objects procedures, OnFile world.tree world.store.dir objects procedures ∧
    Copies (objects.getD .empty) (procedures.getD .empty) reference.saved

theorem Filed.empty : Filed .empty := ⟨nofun, nofun⟩

theorem Copies.empty : Copies .empty .empty .empty := ⟨.empty, fun _ => rfl, fun _ _ => rfl⟩

variable {world next final : World} {reference : Reference}

theorem Simulates.step (simulates : Simulates world reference) {operation : Operation} (step : Step world operation next) :
    Simulates next (reference.after operation) := by
  obtain ⟨current, inStep, objects, procedures, onFile, saved⟩ := simulates
  cases step with
  | replaceObjects filed =>
    exact ⟨⟨filed, fun _ => rfl, current.procedures⟩, IdIndex.inStep_ofRecords (.refl _), objects, procedures, onFile, saved⟩
  | setProcedures kind name list => exact ⟨current.assign kind name list, inStep, objects, procedures, onFile, saved⟩
  | mergeProcedures entries => exact ⟨current.assignAll entries, inStep, objects, procedures, onFile, saved⟩
  | save done => exact ⟨current, inStep, _, _, onFile_of_save current.filed done, current⟩
  | clear done => exact ⟨.empty, IdIndex.inStep_empty, _, _, onFile_of_save .empty done, .empty⟩
  | load =>
    rw [load_of_onFile onFile]
    exact ⟨saved, IdIndex.inStep_ofRecords (.refl _), objects, procedures, onFile, saved⟩
  | reopen =>
    rw [openAt, @load_of_onFile (.new world.store.dir) _ _ _ onFile]
    exact ⟨saved, IdIndex.inStep_ofRecords (.refl _), objects, procedures, onFile, saved⟩

theorem Simulates.runs (simulates : Simulates world reference) {operations : List Operation}
    (runs : Runs world operations final) : Simulates final (operations.foldl Reference.after reference) := by
  induction runs generalizing reference with
  | done world => exact simulates
  | step first rest ih => exact ih (simulates.step first)
  | @elsewhere world _ after _ symbols procedures _ ih =>
    obtain ⟨current, inStep, objects, lists, onFile, saved⟩ := simulates
    have kept : OnFile after world.store.dir objects lists := by
      refine ⟨?_, ?_⟩
      · rw [← onFile.objects, readSnapshot, readSnapshot, ← symbolsPath, symbols]
      · rw [← onFile.procedures, readSnapshot, readSnapshot, ← proceduresPath, procedures]
    exact ih ⟨current, inStep, objects, lists, kept, saved⟩
  | reindexed all _ ih => exact ih ⟨simulates.current, IdIndex.inStep_ofRecords all, simulates.saved⟩

/-- Whatever is done with a store, starting in a directory where nothing is saved: as long as writes succeed and nobody
else writes its two files, every lookup answers as the reference does. -/
theorem lookups_follow_reference {dir : Path} {tree : FileTree} {operations : List Operation}
    (noSymbols : tree.readText (Path.join dir "symbols.json") = .error .notFound)
    (noProcedures : tree.readText (Path.join dir "procedures.json") = .error .notFound)
    (runs : Runs ⟨tree, .new dir⟩ operations final) :
    Answers final.store (operations.foldl Reference.after .start).current := by
  have nothing : OnFile tree dir none none := ⟨by rw [readSnapshot, noSymbols], by rw [readSnapshot, noProcedures]⟩
  have start : Simulates ⟨tree, .new dir⟩ .start := ⟨.empty, IdIndex.inStep_empty, none, none, nothing, .empty⟩
  have simulates := start.runs runs
  exact simulates.current.answers simulates.inStep

def emptyShelf : FileTree := ⟨[(["c"], .directory)], [], 1000⟩

def oneTable : Dict ObjectRecord := Dict.empty.insert "A" ⟨"A", .table, some 7, none, .empty⟩

def savedOnce : List Operation :=
  [.replaceObjects oneTable, .setProcedures .table "A:B" [⟨"P", [], none⟩], .save, .mergeProcedures [("table:A:B", [])], .reopen]

theorem reopened_store_answers : ∃ final, Runs ⟨emptyShelf, .new "/c"⟩ savedOnce final ∧
    final.store.proceduresOf .table "A:B" = [⟨"P", [], none⟩] ∧ (final.store.byId? .table 7).isSome := by
  have filed : Filed oneTable := by
    refine ⟨?_, ?_⟩ <;> intro name record found <;>
      obtain ⟨rfl, rfl⟩ := Prod.mk.inj (List.mem_singleton.1 (Dict.get?_eq_some_iff.1 found))
    · rfl
    · refine ⟨?_, nofun⟩
      rintro _ ⟨⟩
      decide
  let store : Store := ((Store.new "/c").replaceObjects oneTable).setProcedures .table "A:B" [⟨"P", [], none⟩]
  have saves : store.save.on emptyShelf = (.ok (), (store.save.on emptyShelf).2) := by
    have done : (store.save.on emptyShelf).1 = .ok () := by decide +kernel
    rw [← done]
  have runs : Runs ⟨emptyShelf, .new "/c"⟩ savedOnce _ :=
    .step (.replaceObjects filed) (.step (.setProcedures ..) (.step (.save saves) (.step (.mergeProcedures _)
      (.step .reopen (.done _)))))
  have answers := lookups_follow_reference (by decide +kernel) (by decide +kernel) runs
  refine ⟨_, runs, answers.procedures .table "A:B", (answers.byId .table 7).2 ⟨"A", _, rfl, rfl, rfl⟩⟩

end Store

end SymbolCache
