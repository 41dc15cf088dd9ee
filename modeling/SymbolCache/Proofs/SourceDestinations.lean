import SymbolCache.Proofs.ProcessFootprint

/-! Where the sources of a package go. Entry names come from outside and may hold anything; a source file still ends up
strictly below the directory of its application and version. -/

namespace SymbolCache

open FileTree Package

namespace Artifact

variable (artifact : Artifact)

/-- The steps from the source root to the sources of a package. -/
def sourceSteps : List String := [artifact.appDirName, sanitizeSegment artifact.appVersion]

theorem isSafeName_of_mem_sourceSteps : ∀ name ∈ artifact.sourceSteps, Path.IsSafeName name := by
  refine List.forall_mem_cons.2 ⟨isSafeName_appDirName artifact, ?_⟩
  exact List.forall_mem_singleton.2 (isSafeName_sanitizeSegment _)

theorem steps_sourceDir (base : Path) : Path.steps (artifact.sourceDir base) = Path.steps base ++ artifact.sourceSteps := by
  rw [sourceDir, Path.steps_join_name _ (isName_sanitizeSegment _), Path.steps_join_name _ (isName_appDirName _),
    List.append_assoc]
  rfl

theorem isAbsolute_sourceDir (base : Path) : Path.isAbsolute (artifact.sourceDir base) = Path.isAbsolute base := by
  rw [sourceDir, Path.isAbsolute_join (isName_sanitizeSegment _).relative,
    Path.isAbsolute_join (isName_appDirName _).relative]

theorem spot_sourceDir (tree : FileTree) (base : Path) :
    tree.spot (artifact.sourceDir base) = tree.spot base ++ artifact.sourceSteps := by
  rw [sourceDir, spot_join_name _ (isName_sanitizeSegment _), spot_join_name _ (isName_appDirName _), List.append_assoc]
  rfl

end Artifact

/-- The path to which a source file is copied leads from the source root down by safe names only. -/
theorem Package.steps_copied {entry : Archive.Entry} {relative : Path} (found : sourcePath? entry = some relative)
    (artifact : Artifact) (base : Path) : ∃ segments, sourceSegments? entry.name = some segments ∧
      Path.steps (Path.join (artifact.sourceDir base) relative) =
        Path.steps base ++ artifact.sourceSteps ++ segments ∧
      Path.isAbsolute (Path.join (artifact.sourceDir base) relative) = Path.isAbsolute base := by
  obtain ⟨segments, read, rfl⟩ := segments_of_sourcePath? found
  obtain ⟨filled, safe⟩ := safe_of_sourceSegments? read
  obtain ⟨steps, relative⟩ := Path.steps_intercalate (fun name inside => (safe name inside).isName) filled
  refine ⟨segments, read, ?_, ?_⟩
  · rw [Path.steps_join relative, artifact.steps_sourceDir, steps]
  · rw [Path.isAbsolute_join relative, artifact.isAbsolute_sourceDir]

namespace Worker

/-- The segments of an entry name and the two of its package are safe names, so that the path of a copied source lies
strictly below the directory of application and version. No other file is touched by copying. -/
theorem sources_stay_inside :
    (∀ name segments, sourceSegments? name = some segments →
      segments ≠ [] ∧ ∀ segment ∈ segments, Path.IsSafeName segment) ∧
    (∀ path artifact, Artifact.ofPath? path = some artifact → ∀ name ∈ artifact.sourceSteps, Path.IsSafeName name) ∧
    (∀ entry relative, sourcePath? entry = some relative → ∀ (artifact : Artifact) base, ∃ segments,
      sourceSegments? entry.name = some segments ∧
      Path.steps (Path.join (artifact.sourceDir base) relative) = Path.steps base ++ artifact.sourceSteps ++ segments ∧
      Path.isAbsolute (Path.join (artifact.sourceDir base) relative) = Path.isAbsolute base) ∧
    (∀ verdict path base fileName entries (session : Session), session.tree.Sound →
      ∀ place content modified, (∀ artifact, Artifact.ofPath? path = some artifact →
          ¬ SafelyBelow (session.tree.spot base ++ artifact.sourceSteps) place) →
        ((copySources verdict path base fileName entries session).2.tree.node? place = some (.file content modified) ↔
          session.tree.node? place = some (.file content modified))) := by
  refine ⟨fun _ _ => safe_of_sourceSegments?, fun _ artifact _ => artifact.isSafeName_of_mem_sourceSteps,
    fun _ _ => steps_copied, ?_⟩
  intro verdict path base fileName entries session sound place content modified outside
  have adds : Adds (fun place => ∃ artifact, Artifact.ofPath? path = some artifact ∧
        SafelyBelow (session.tree.spot base ++ artifact.sourceSteps) place)
      session.tree (copySources verdict path base fileName entries session).2.tree := by
    refine adding_copySources (fun artifact found place below => ⟨artifact, found, ?_⟩) session sound rfl
    rwa [artifact.spot_sourceDir] at below
  refine adds.works.file_iff ?_ content modified
  rintro ⟨artifact, found, below⟩
  exact outside artifact found below

/-- An entry whose name tries to lead upwards in every way it can. -/
def climbingEntry : Archive.Entry :=
  ⟨"pkg\\SRC/..\\%252e%252e/%2e./%2Fetc%5Ca.al", 0, false, false, 2013832146, some [110]⟩

theorem climbingEntry_stays_inside :
    let name := "_etc_a.al"
    let after := (copySources always "/pkgs/Pub_App_1.0.app" "/sources" "Pub_App_1.0.app" [climbingEntry] (.start shelf)).2.tree
    sourceSegments? climbingEntry.name = some [name] ∧ Path.IsSafeName name ∧
      (∃ artifact, Artifact.ofPath? "/pkgs/Pub_App_1.0.app" = some artifact ∧ Path.IsSafeName artifact.appDirName ∧
        Path.steps (Path.join (artifact.sourceDir "/sources") name) = ["sources", "App", "1.0", name]) ∧
      shelf.Sound ∧ after.node? ["pkgs", "notes.txt"] = some (.file [110] 2) := by
  obtain ⟨segments, directories, paths, files⟩ := sources_stay_inside
  have read : sourceSegments? climbingEntry.name = some ["_etc_a.al"] := by decide +kernel
  have relative : sourcePath? climbingEntry = some "_etc_a.al" := by decide +kernel
  have found : Artifact.ofPath? "/pkgs/Pub_App_1.0.app" = some ⟨"/pkgs/Pub_App_1.0.app", "App", "1.0", true⟩ := by
    decide +kernel
  have sound : shelf.Sound := by decide
  refine ⟨read, (segments _ _ read).2 _ (by simp), ⟨_, found, directories _ _ found _ (by simp [Artifact.sourceSteps]), ?_⟩,
    sound, ?_⟩
  · obtain ⟨names, again, steps, -⟩ := paths _ _ relative ⟨"/pkgs/Pub_App_1.0.app", "App", "1.0", true⟩ "/sources"
    obtain rfl : ["_etc_a.al"] = names := Option.some.inj (read.symm.trans again)
    rw [steps]
    decide +kernel
  · refine (files _ _ _ _ _ _ sound _ _ _ fun artifact _ below => ?_).2 rfl
    exact absurd ((List.prefix_append ..).trans below.isPrefix) (by decide)

end Worker

end SymbolCache
