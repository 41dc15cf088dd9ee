import SymbolCache.Proofs.DocumentObjects
import SymbolCache.Proofs.ExportPieces
import SymbolCache.Source.Catalog

/-! Catalogs that are read with and without procedures. The objects are the same, and so is what is wrong when there is no
catalog. A source file may be a symbol document itself; its procedures stay even when none are to be read. -/

namespace SymbolCache

theorem Dict.get?_union {α : Type} (dict other : Dict α) (key : String) :
    (dict.union other).get? key = (other.get? key).or (dict.get? key) := by
  have last : ((other.entries.filter fun entry => entry.1 == key).getLast?).map Prod.snd = other.get? key := by
    cases found : (other.entries.filter fun entry => entry.1 == key).getLast? with
    | none =>
      rw [List.getLast?_eq_none_iff, List.filter_eq_nil_iff] at found
      cases held : other.get? key with
      | none => rfl
      | some value => exact absurd (beq_self_eq_true key) (found _ (Dict.get?_eq_some_iff.1 held))
    | some entry =>
      obtain ⟨member, same⟩ := List.mem_filter.1 (List.mem_of_getLast? found)
      rw [beq_iff_eq] at same
      rw [← same, Option.map_some, Dict.get?_eq_some_iff.2 member]
  rw [union, get?_insertAll, last]

theorem Dict.eq_empty_iff {α : Type} {dict : Dict α} : dict = .empty ↔ ∀ key, dict.get? key = none :=
  ⟨fun empty key => by rw [empty, get?_empty], fun absent => ext_get? fun key => by rw [absent key, get?_empty]⟩

namespace Source

/-- The symbol document that a source file is, if it is one. -/
def documentAt? (tree : FileTree) (path : Path) : Option SymbolTable :=
  match readLossy tree path with
  | .ok text =>
    if isSourceFile path && (Text.trimStart text).head? == some '{' then Symbols.read? text else none
  | .error _ => none

/-- The symbol documents among the source files of a package, unless the package has one in its own place. -/
def sourceDocuments (tree : FileTree) (root : Path) : List SymbolTable :=
  if tree.isFile (documentPath root) then [] else (objectFiles tree root).filterMap (documentAt? tree)

section Units

/-- The symbol document that a unit is. -/
def documentOf? (unit : List Char) : Option SymbolTable :=
  match definition? unit with
  | some (.document table) => some table
  | _ => none

theorem documentOf?_eq (raw : List Char) : documentOf? raw =
    if (Text.trimStart (Text.dropByteOrderMarks raw)).head? == some '{' then Symbols.read? (Text.dropByteOrderMarks raw)
    else none := by
  unfold documentOf? definition?
  extract_lets text
  split
  · rename_i other defines
    split at defines
    · obtain ⟨table, reads, same⟩ := Option.map_eq_some_iff.1 defines
      cases same
      rw [if_pos ‹_›, reads]
    · split at defines <;>
      · obtain ⟨_, -, same⟩ := Option.map_eq_some_iff.1 defines
        cases same
  · rename_i otherwise
    split
    · cases reads : Symbols.read? text with
      | none => rfl
      | some table =>
        refine absurd ?_ (otherwise table)
        rw [if_pos ‹_›, reads, Option.map_some]
    · rfl

theorem get?_procedures_addUnit (table : SymbolTable) (unit : List Char) (key : String) :
    (addUnit table unit).procedures.get? key =
      ((documentOf? unit).bind (·.procedures.get? key)).or (table.procedures.get? key) := by
  unfold addUnit documentOf?
  cases definition? unit with
  | none => rfl
  | some found => cases found with
    | unit record => rfl
    | document other => exact Dict.get?_union ..

/-- Documents are the only units that bring procedures with them, and the last one of a key decides. -/
theorem get?_procedures_foldl (table : SymbolTable) (units : List (List Char)) (key : String) :
    (units.foldl addUnit table).procedures.get? key =
      (((units.filterMap documentOf?).filterMap (·.procedures.get? key)).getLast?).or (table.procedures.get? key) := by
  induction units generalizing table with
  | nil => rfl
  | cons unit units ih =>
    rw [List.foldl_cons, ih, get?_procedures_addUnit]
    cases found : documentOf? unit with
    | none => rw [List.filterMap_cons_none found, Option.bind_none, Option.none_or]
    | some document =>
      rw [List.filterMap_cons_some found, Option.bind_some, List.filterMap_cons]
      cases document.procedures.get? key with
      | none => rw [Option.none_or]
      | some list =>
        rw [List.getLast?_cons]
        cases ((units.filterMap documentOf?).filterMap (·.procedures.get? key)).getLast? <;> rfl

end Units

section Files

/-- A piece of an export begins with a header, so that it is no document. -/
theorem documentOf?_of_mem_splitObjects {text piece : List Char} (member : piece ∈ Legacy.splitObjects text) :
    documentOf? piece = none := by
  obtain ⟨found, after, whole, -, spelled, -⟩ := (Legacy.hasOneHeader_of_mem_splitObjects member []).2 rfl
  rw [List.nil_append] at whole
  subst whole
  cases spelled with
  | @intro indent first type second digits third name trail indented _ _ _ _ _ _ _ _ =>
    rw [List.append_assoc]
    generalize rest : ("OBJECT".toList ++ _) ++ after = body
    have opens : body.head? = some 'O' := by rw [← rest]; rfl
    have stops : Text.Stops Text.isBlank body := by
      intro c first
      rw [opens] at first
      cases first
      rfl
    have unmarked : Text.dropByteOrderMarks (indent ++ body) = indent ++ body := by
      refine Text.dropWhile_stops fun c first => ?_
      cases indent with
      | nil =>
        rw [List.nil_append, opens] at first
        cases first
        rfl
      | cons blank indent =>
        cases first
        rw [beq_eq_false_iff_ne]
        rintro rfl
        exact absurd (indented _ (List.mem_cons_self ..)) (by decide)
    have blank (c : Char) (inside : c ∈ indent) : Text.isBlank c = true := Text.isBlank_of_isSpaceOrTab (indented c inside)
    rw [documentOf?_eq, unmarked, Text.trimStart_run blank stops, opens]
    rfl

theorem dropByteOrderMarks_readLossy {tree : FileTree} {path : Path} {text : List Char}
    (reads : readLossy tree path = .ok text) : Text.dropByteOrderMarks text = text := by
  unfold readLossy at reads
  cases content : tree.read path with
  | error cause =>
    rw [content] at reads
    cases reads
  | ok bytes =>
    rw [content] at reads
    cases reads
    exact Text.dropWhile_stops (Text.Stops.dropWhile _ (Text.decodeLossy bytes))

theorem filterMap_unitsOf {tree : FileTree} {path : Path} {text : List Char} (reads : readLossy tree path = .ok text) :
    (unitsOf path text).filterMap documentOf? = (documentAt? tree path).toList := by
  unfold unitsOf documentAt?
  rw [reads]
  dsimp only
  cases source : isSourceFile path with
  | true =>
    rw [if_pos rfl, Bool.true_and, List.filterMap_cons, List.filterMap_nil, documentOf?_eq,
      dropByteOrderMarks_readLossy reads]
    split <;> rename_i same <;> rw [same] <;> rfl
  | false =>
    rw [if_neg Bool.false_ne_true, Bool.false_and, if_neg Bool.false_ne_true, Option.toList_none,
      List.filterMap_eq_nil_iff]
    split
    · exact fun piece => documentOf?_of_mem_splitObjects
    · exact nofun

theorem filterMap_units (tree : FileTree) (root : Path) :
    (units tree root).filterMap documentOf? = (objectFiles tree root).filterMap (documentAt? tree) := by
  rw [units]
  induction objectFiles tree root with
  | nil => rfl
  | cons path paths ih =>
    rw [List.flatMap_cons, List.filterMap_append, ih, List.filterMap_cons]
    cases reads : readLossy tree path with
    | error cause => simp [documentAt?, reads]
    | ok text =>
      rw [filterMap_unitsOf reads]
      cases documentAt? tree path <;> rfl

end Files

section Toggle

variable {tree : FileTree} {root : Path} {strategy : Strategy} {table : SymbolTable}

/-- What is left of a table when no procedures are to be read. -/
def withoutProcedures : Strategy → SymbolTable → SymbolTable
  | .document, table => { table with procedures := .empty }
  | .sources, table => table

theorem objects_withoutProcedures (strategy : Strategy) (table : SymbolTable) :
    (withoutProcedures strategy table).objects = table.objects := by
  cases strategy <;> rfl

theorem readTable_false (tree : FileTree) (root : Path) (strategy : Strategy) :
    readTable tree root false strategy = (readTable tree root true strategy).map (withoutProcedures strategy) := by
  cases strategy with
  | sources => rfl
  | document =>
    unfold readTable
    dsimp only
    cases readLossy tree (documentPath root) with
    | error cause => rfl
    | ok text =>
      dsimp only
      cases Symbols.read? text <;> rfl

theorem isFile_documentPath (chosen : strategy? tree root = some strategy) :
    tree.isFile (documentPath root) = true ↔ strategy = .document := by
  unfold strategy? at chosen
  split at chosen
  · rename_i own
    cases chosen
    exact ⟨fun _ => rfl, fun _ => own⟩
  · rename_i own
    split at chosen
    · cases chosen
      exact ⟨fun same => absurd same own, nofun⟩
    · cases chosen

theorem get?_withoutProcedures (chosen : strategy? tree root = some strategy)
    (reads : readTable tree root true strategy = .ok table) (key : String) :
    (withoutProcedures strategy table).procedures.get? key =
      ((sourceDocuments tree root).filterMap (·.procedures.get? key)).getLast? := by
  cases strategy with
  | document => rw [sourceDocuments, if_pos ((isFile_documentPath chosen).2 rfl)]; rfl
  | sources =>
    have apart : ¬ tree.isFile (documentPath root) = true := fun own => nomatch (isFile_documentPath chosen).1 own
    cases reads
    rw [sourceDocuments, if_neg apart, ← filterMap_units, withoutProcedures, get?_procedures_foldl]
    exact Option.or_none

/-- Whether procedures are read or not makes no difference to the objects of a catalog and to what is wrong when there is
none. When they are not, those of symbol documents among the source files are there all the same, the last one of a key; so
there are no procedures exactly if those documents declare none. -/
theorem catalog_without_procedures (tree : FileTree) (root : Path) :
    (∀ cause, catalog tree root false = .error cause ↔ catalog tree root true = .error cause) ∧
    ∀ full, catalog tree root true = .ok full → ∃ bare, catalog tree root false = .ok bare ∧ bare.objects = full.objects ∧
      (∀ key, bare.procedures.get? key = ((sourceDocuments tree root).filterMap (·.procedures.get? key)).getLast?) ∧
      (bare.procedures = .empty ↔ ∀ document ∈ sourceDocuments tree root, document.procedures = .empty) := by
  unfold catalog
  cases chosen : strategy? tree root with
  | none => exact ⟨fun _ => Iff.rfl, nofun⟩
  | some strategy =>
    dsimp only
    rw [readTable_false]
    cases reads : readTable tree root true strategy with
    | error cause => exact ⟨fun _ => Iff.rfl, nofun⟩
    | ok table =>
      have procedures := get?_withoutProcedures chosen reads
      refine ⟨fun _ => ⟨nofun, nofun⟩, fun full read => ?_⟩
      cases read
      refine ⟨_, rfl, objects_withoutProcedures strategy table, procedures, ?_⟩
      simp only [Dict.eq_empty_iff, procedures, List.getLast?_eq_none_iff, List.filterMap_eq_nil_iff]
      exact ⟨fun absent document member key => absent key document member,
        fun absent key document member => absent document member key⟩

/-- A package without a document of its own; its only source file is one. -/
def strayDocument : FileTree :=
  ⟨[(["p"], .directory), (["p", "App.al"], .file (Text.encodeUtf8 ("\x7b\"Codeunits\":[\x7b\"Name\":\"A\",".toList ++
    "\"Methods\":[\x7b\"Name\":\"Post\"\x7d]\x7d]\x7d".toList)) 1000)], [], 5000⟩

theorem catalog_strayDocument_without_procedures : ∃ full bare, catalog strayDocument "/p" true = .ok full ∧
    catalog strayDocument "/p" false = .ok bare ∧ bare.objects = full.objects ∧
    bare.procedures.get? "codeunit:A" = some [⟨"Post", [], none⟩] ∧ bare.procedures ≠ .empty := by
  have files : objectFiles strayDocument "/p" = ["/p/App.al"] := by decide +kernel
  have own : strayDocument.isFile (documentPath "/p") = false := by decide +kernel
  have chosen : strategy? strayDocument "/p" = some .sources := by decide +kernel
  have declared : ((documentAt? strayDocument "/p/App.al").bind (·.procedures.get? "codeunit:A")) =
      some [⟨"Post", [], none⟩] := by decide +kernel
  obtain ⟨document, found, post⟩ := Option.bind_eq_some_iff.1 declared
  have documents : sourceDocuments strayDocument "/p" = [document] := by
    rw [sourceDocuments, own, if_neg Bool.false_ne_true, files, List.filterMap_cons_some found, List.filterMap_nil]
  have read : ∃ full, catalog strayDocument "/p" true = .ok full := by
    rw [catalog, chosen]
    exact ⟨_, rfl⟩
  obtain ⟨full, read⟩ := read
  obtain ⟨bare, bareRead, objects, procedures, bareIff⟩ := (catalog_without_procedures strayDocument "/p").2 full read
  refine ⟨full, bare, read, bareRead, objects, ?_, fun empty => ?_⟩
  · rw [procedures, documents]
    simp [post]
  · rw [bareIff.1 empty document (by simp [documents])] at post
    cases post

end Toggle

end Source

end SymbolCache
