import SymbolCache.Proofs.SourceDestinations
import SymbolCache.Proofs.TextSplitting

/-! The names of packages. A name that is not conventional leaves its hash at the end of the source directory, where no
cleaning of other parts can reach it; a conventional name is read back part by part. -/

namespace SymbolCache

theorem Text.cutAtLast?_append {separator : Char} {after : List Char} (absent : separator ∉ after) (before : List Char) :
    cutAtLast? separator (before ++ separator :: after) = some (before, after) := by
  induction before with
  | nil =>
    have nowhere : cutAtLast? separator after = none := by
      induction after with
      | nil => rfl
      | cons c after ih =>
        rw [List.mem_cons, not_or] at absent
        rw [cutAtLast?, ih absent.2]
        exact if_neg (by simpa using Ne.symm absent.1)
    simp [cutAtLast?, nowhere]
  | cons c before ih => rw [List.cons_append, cutAtLast?, ih]

theorem Text.trim_ne_nil {text : List Char} {c : Char} (member : c ∈ text) (visible : isBlank c = false) : trim text ≠ [] := by
  obtain ⟨run, whole, blank⟩ := exists_trimStart text
  have stops : Stops isBlank (trimStart text) := .dropWhile isBlank text
  refine trimEnd_ne_nil stops fun none => ?_
  rw [whole, none, List.append_nil] at member
  exact not_mem_of_blank blank visible member

section Hashes

theorem length_hashText (text : String) : (hashText text).toList.length = 8 := by
  simp [hashText, Digest.short, Digest.wordBytes, Digest.hexDigits]

/-- Segments with a hash behind them are told apart by the hash alone. -/
theorem hashText_inj_of_hashed {segment other text second : String}
    (same : segment ++ "-" ++ hashText text = other ++ "-" ++ hashText second) : hashText text = hashText second := by
  have chars : (segment ++ "-").toList ++ (hashText text).toList = (other ++ "-").toList ++ (hashText second).toList := by
    rw [← String.toList_append, ← String.toList_append, same]
  exact String.toList_inj.1 (List.append_inj_right' chars ((length_hashText text).trans (length_hashText second).symm))

end Hashes

namespace Artifact

theorem components_sourceDir (artifact : Artifact) (base : Path) : ∃ front,
    Path.components (artifact.sourceDir base) = front ++ artifact.sourceSteps.map Component.name := by
  have names : artifact.sourceSteps.map Path.component = artifact.sourceSteps.map Component.name := by
    refine List.map_congr_left fun name inside => ?_
    exact if_neg (by simpa using (artifact.isSafeName_of_mem_sourceSteps name inside).notUp)
  obtain ⟨start, whole⟩ : ∃ start, Path.components (artifact.sourceDir base) =
      start ++ (Path.steps (artifact.sourceDir base)).map Path.component := ⟨_, rfl⟩
  rw [whole, artifact.steps_sourceDir, List.map_append, names]
  exact ⟨_, (List.append_assoc ..).symm⟩

theorem hashText_of_appDirName {first second : Artifact} (malformed : first.conventional = false)
    (otherMalformed : second.conventional = false) (same : first.appDirName = second.appDirName) :
    hashText first.fileName = hashText second.fileName := by
  simp only [appDirName, malformed, otherMalformed, Bool.false_eq_true, if_false] at same
  exact hashText_inj_of_hashed same

end Artifact

/-- The parts of a file name `prefix_name_version.ext`. -/
structure NameParts where
  front : String
  name : String
  version : String
  ext : String

namespace NameParts

def fileName (parts : NameParts) : String :=
  parts.front ++ "_" ++ parts.name ++ "_" ++ parts.version ++ "." ++ parts.ext

/-- Parts that a file name can be taken apart into again. Only the name may have underscores of its own. -/
structure WellFormed (parts : NameParts) : Prop where
  undivided : '_' ∉ parts.front.toList
  named : parts.name ≠ ""
  versioned : parts.version ≠ ""
  versionUndivided : '_' ∉ parts.version.toList
  extended : parts.ext ≠ ""
  letters : ∀ c ∈ parts.ext.toList, c.isAlpha = true

variable {parts : NameParts}

theorem toList_fileName (parts : NameParts) : parts.fileName.toList =
    (parts.front.toList ++ '_' :: (parts.name.toList ++ '_' :: parts.version.toList)) ++ '.' :: parts.ext.toList := by
  simp [fileName]

theorem splitName_fileName (wellFormed : parts.WellFormed) : Path.splitName parts.fileName =
    (parts.front ++ "_" ++ parts.name ++ "_" ++ parts.version, some parts.ext) := by
  have letters : '.' ∉ parts.ext.toList := fun member => absurd (wellFormed.letters '.' member) (by decide)
  have filled : (parts.front.toList ++ '_' :: (parts.name.toList ++ '_' :: parts.version.toList)).isEmpty = false := by simp
  have stem : String.ofList (parts.front.toList ++ '_' :: (parts.name.toList ++ '_' :: parts.version.toList)) =
      parts.front ++ "_" ++ parts.name ++ "_" ++ parts.version := by simp [← String.toList_inj]
  simp only [Path.splitName, toList_fileName, Text.cutAtLast?_append letters, filled, stem, String.ofList_toList,
    Bool.false_eq_true, if_false]

/-- The name between the first underscore and the last one may have underscores of its own. -/
theorem identity_stem (wellFormed : parts.WellFormed) :
    Artifact.identity (parts.front ++ "_" ++ parts.name ++ "_" ++ parts.version) = (parts.name, parts.version, true) := by
  obtain ⟨part, others, split⟩ := List.exists_cons_of_ne_nil (Text.splitAt_ne_nil '_' parts.name.toList)
  have segments : Text.splitAt '_' (parts.front ++ "_" ++ parts.name ++ "_" ++ parts.version).toList =
      parts.front.toList :: part :: (others ++ [parts.version.toList]) := by
    have chars : (parts.front ++ "_" ++ parts.name ++ "_" ++ parts.version).toList =
        parts.front.toList ++ '_' :: (parts.name.toList ++ '_' :: parts.version.toList) := by simp
    rw [chars, Text.splitAt_append, Text.splitAt_append, Text.splitAt_of_not_mem wellFormed.undivided,
      Text.splitAt_of_not_mem wellFormed.versionUndivided, split]
    rfl
  have joined : ['_'].intercalate (part :: others) = parts.name.toList := by rw [← split, Text.intercalate_splitAt]
  have named : parts.name.toList.isEmpty = false := by simpa using wellFormed.named
  have versioned : parts.version.toList.isEmpty = false := by simpa using wellFormed.versioned
  have parted : (part :: (others ++ [parts.version.toList])).dropLast = part :: others := by
    rw [← List.cons_append, List.dropLast_concat]
  have last : (part :: (others ++ [parts.version.toList])).getLastD [] = parts.version.toList :=
    List.getLastD_concat (l := part :: others) ..
  unfold Artifact.identity
  rw [segments]
  cases others with
  | nil => simp_all
  | cons next others =>
    simp only [List.cons_append] at parted last ⊢
    simp only [parted, last, joined, named, versioned]
    simp

/-- A file with a conventional name is taken for what its name says. -/
theorem ofPath?_of_fileName (wellFormed : parts.WellFormed) {path : Path} (named : Path.fileName? path = some parts.fileName) :
    Artifact.ofPath? path = some ⟨path, parts.name, parts.version, true⟩ := by
  have lettersOnly : ((some parts.ext).any fun ext => ext != "" && ext.toList.all Char.isAlpha) = true := by
    simpa [wellFormed.extended] using wellFormed.letters
  have written : (Text.trim (parts.front ++ "_" ++ parts.name ++ "_" ++ parts.version).toList).isEmpty = false :=
    List.isEmpty_eq_false_iff.2 (Text.trim_ne_nil (c := '_') (by simp) (by decide))
  simp only [Artifact.ofPath?, named, Option.bind_eq_bind, Option.bind_some, splitName_fileName wellFormed, lettersOnly,
    if_true, written, Bool.false_eq_true, if_false, identity_stem wellFormed]
  rfl

theorem isName_fileName (parts : NameParts) (slashless : '/' ∉ parts.fileName.toList) : Path.IsName parts.fileName := by
  have underscore : '_' ∈ parts.fileName.toList := by simp [toList_fileName]
  have other {name : String} (absent : '_' ∉ name.toList) : parts.fileName ≠ name := by
    intro same
    exact absent (same ▸ underscore)
  refine ⟨slashless, ?_, other (by decide)⟩
  rw [Path.isStep, Bool.and_eq_true, bne_iff_ne, bne_iff_ne]
  exact ⟨other (by decide), other (by decide)⟩

end NameParts

namespace Artifact

/-- Packages whose names are not conventional have source directories of their own, as long as the hashes of their file
names differ. A conventional file name gives the name and the version that stand in it. -/
theorem malformed_names_keep_apart :
    (∀ path other first second, ofPath? path = some first → ofPath? other = some second →
      first.conventional = false → second.conventional = false → hashText first.fileName ≠ hashText second.fileName →
      ∀ base, Path.components (first.sourceDir base) ≠ Path.components (second.sourceDir base) ∧
        ∀ tree : FileTree, tree.spot (first.sourceDir base) ≠ tree.spot (second.sourceDir base)) ∧
    ∀ parts : NameParts, parts.WellFormed →
      ('/' ∉ parts.fileName.toList → Path.fileName? parts.fileName = some parts.fileName) ∧
      ∀ path, Path.fileName? path = some parts.fileName → ofPath? path = some ⟨path, parts.name, parts.version, true⟩ := by
  refine ⟨?_, ?_⟩
  · intro path other first second _ _ malformed otherMalformed distinct base
    have apart : first.sourceSteps ≠ second.sourceSteps := by
      intro same
      exact distinct (hashText_of_appDirName malformed otherMalformed (List.cons.inj same).1)
    refine ⟨fun same => apart ?_, fun tree same => apart ?_⟩
    · obtain ⟨front, whole⟩ := first.components_sourceDir base
      obtain ⟨start, whole'⟩ := second.components_sourceDir base
      rw [whole, whole'] at same
      have names := List.append_inj_right' same (by simp [sourceSteps])
      exact (List.map_inj_right fun _ _ => Component.name.inj).1 names
    · rw [first.spot_sourceDir, second.spot_sourceDir] at same
      exact List.append_cancel_left same
  · intro parts wellFormed
    refine ⟨fun slashless => ?_, fun path => NameParts.ofPath?_of_fileName wellFormed⟩
    have named := parts.isName_fileName slashless
    exact Path.fileName?_eq_some_iff.2 ⟨[], named.steps, named.notUp⟩

/-- Two packages without a version and one with underscores in its name. -/
theorem sales_and_stock_keep_apart :
    (∃ first second, ofPath? "/pkgs/Sales.app" = some first ∧ ofPath? "/pkgs/Stock.app" = some second ∧
      first.conventional = false ∧ second.conventional = false ∧ hashText first.fileName ≠ hashText second.fileName ∧
      Path.components (first.sourceDir "/src") ≠ Path.components (second.sourceDir "/src")) ∧
    ofPath? "/pkgs/_My_Ext.2_1.0.app" = some ⟨"/pkgs/_My_Ext.2_1.0.app", "My_Ext.2", "1.0", true⟩ := by
  obtain ⟨apart, reads⟩ := malformed_names_keep_apart
  have distinct : hashText "Sales.app" ≠ hashText "Stock.app" := by decide +kernel
  have sales : ofPath? "/pkgs/Sales.app" = some ⟨"/pkgs/Sales.app", "Unknown", "1.0", false⟩ := by decide +kernel
  have stock : ofPath? "/pkgs/Stock.app" = some ⟨"/pkgs/Stock.app", "Unknown", "1.0", false⟩ := by decide +kernel
  have salesName : Path.fileName? "/pkgs/Sales.app" = some "Sales.app" := by decide +kernel
  have stockName : Path.fileName? "/pkgs/Stock.app" = some "Stock.app" := by decide +kernel
  have hashes : hashText (fileName ⟨"/pkgs/Sales.app", "Unknown", "1.0", false⟩) ≠
      hashText (fileName ⟨"/pkgs/Stock.app", "Unknown", "1.0", false⟩) := by
    rw [fileName, fileName, salesName, stockName]
    exact distinct
  refine ⟨⟨_, _, sales, stock, rfl, rfl, hashes, (apart _ _ _ _ sales stock rfl rfl hashes "/src").1⟩, ?_⟩
  have wellFormed : NameParts.WellFormed ⟨"", "My_Ext.2", "1.0", "app"⟩ :=
    ⟨by decide, by decide, by decide, by decide, by decide, List.all_eq_true.1 (by decide)⟩
  exact (reads _ wellFormed).2 _ (by decide +kernel)

end Artifact

end SymbolCache
