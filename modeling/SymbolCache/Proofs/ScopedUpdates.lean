import SymbolCache.Proofs.ConfinedChanges
import SymbolCache.Proofs.InterruptedSave

/-! Updates of directories side by side. An update settles each path below its directory by itself and leaves all other
paths alone, so that updates of different directories come to the same in every order; and together they come to the
update of the directory above them, when that has nothing else below it. -/

namespace SymbolCache.Path

theorem components_join_name {base name : Path} (named : IsName name) (written : base ≠ "") :
    components (join base name) = components base ++ [.name name] := by
  have kept : (name != "" && name != ".") = true := named.isStep
  have proper : (name == "..") = false := beq_eq_false_iff_ne.2 named.notUp
  rw [components_join_eq named.slashless written, List.filter_cons_of_pos (by exact kept)]
  simp [component, proper]

theorem components_joinNames {base : Path} {names : List String} (named : ∀ name ∈ names, IsName name)
    (written : base ≠ "") : components (names.foldl join base) = components base ++ names.map .name := by
  induction names generalizing base with
  | nil => simp
  | cons name rest ih =>
    have first := named name (List.mem_cons_self ..)
    rw [List.foldl_cons, ih (fun other inside => named other (List.mem_cons_of_mem _ inside))
      (join_ne_empty first.slashless written), components_join_name first written]
    simp

/-- A path lies below one child of a directory at most; names that begin alike are still different names. -/
theorem eq_of_startsWith_join {base path first second : Path} (written : base ≠ "") (named : IsName first)
    (named' : IsName second) (below : startsWith path (join base first) = true)
    (below' : startsWith path (join base second) = true) : first = second := by
  rw [startsWith, List.isPrefixOf_iff_prefix, components_join_name named written] at below
  rw [startsWith, List.isPrefixOf_iff_prefix, components_join_name named' written] at below'
  have same := List.prefix_of_prefix_length_le below below' (by simp)
  simpa using same.eq_of_length (by simp)

end SymbolCache.Path

namespace SymbolCache.FileTree

variable {tree : FileTree} {base : Path}

theorem Sound.wellNamed (sound : tree.Sound) : tree.WellNamed :=
  fun entry inside name within => (sound.named entry inside name within).slashless

theorem exists_locate_of_joinNames {names : List String} (named : ∀ name ∈ names, Path.IsName name) (written : base ≠ "")
    {location : Location} (located : tree.locate (names.foldl Path.join base) = .ok location) :
    ∃ place, tree.locate base = .ok place := by
  induction names generalizing base with
  | nil => exact ⟨location, located⟩
  | cons name rest ih =>
    have first := named name (List.mem_cons_self ..)
    obtain ⟨place, found⟩ := ih (fun other inside => named other (List.mem_cons_of_mem _ inside))
      (Path.join_ne_empty first.slashless written) located
    obtain ⟨above, here, -⟩ := isDirectory_iff.1 (isDirectory_of_locate_join first written found)
    exact ⟨above, here⟩

theorem mem_filesUnder_of_join {name : String} (named : Path.IsName name) (written : base ≠ "") {path : Path}
    (member : path ∈ tree.filesUnder (Path.join base name)) : path ∈ tree.filesUnder base := by
  obtain ⟨location, names, content, modified, located, reached, rfl⟩ := mem_filesUnder_iff.1 member
  obtain ⟨above, here, directory⟩ := isDirectory_iff.1 (isDirectory_of_locate_join named written located)
  have place : location = above ++ [name] := by
    rw [locate_eq_spot located, spot_join_name base named, ← locate_eq_spot here]
  subst place
  exact mem_filesUnder_iff.2 ⟨above, name :: names, content, modified, here, reaches_cons.2 ⟨directory, reached⟩, rfl⟩

theorem mem_filesUnder_join (sound : tree.Sound) {name : String} (named : Path.IsName name) (written : base ≠ "")
    {path : Path} (member : path ∈ tree.filesUnder base) (below : Path.startsWith path (Path.join base name) = true)
    {bytes : Bytes} (readable : tree.read path = .ok bytes) : path ∈ tree.filesUnder (Path.join base name) := by
  obtain ⟨location, names, content, modified, located, reached, rfl⟩ := mem_filesUnder_iff.1 member
  have proper : ∀ name ∈ names, Path.IsName name :=
    fun name inside => sound.isName reached.1 name (List.mem_append_right _ inside)
  obtain ⟨rest, rfl⟩ : ∃ rest, names = name :: rest := by
    rw [Path.startsWith, List.isPrefixOf_iff_prefix, Path.components_join_name named written,
      Path.components_joinNames proper written, List.prefix_append_right_inj] at below
    cases names with
    | nil => simp at below
    | cons first rest =>
      rw [List.map_cons, List.cons_prefix_cons] at below
      exact ⟨rest, by rw [Component.name.inj below.1]⟩
  obtain ⟨directory, onward⟩ := reaches_cons.1 reached
  obtain ⟨_, found⟩ := read_eq_ok_iff.1 readable
  obtain ⟨_, whole, -⟩ := stat_eq_ok_iff.1 found
  obtain ⟨place, here⟩ := exists_locate_of_joinNames (fun other inside => proper other (List.mem_cons_of_mem _ inside))
    (Path.join_ne_empty named.slashless written) whole
  have same : place = location ++ [name] := by
    rw [locate_eq_spot here, spot_join_name base named, ← locate_eq_spot located]
  subst same
  exact mem_filesUnder_iff.2 ⟨_, rest, content, modified, here, onward, rfl⟩

/-- A tree has the source files at or below a path that another one had, as they were, and no others. -/
structure Retains (root : Path) (before after : FileTree) : Prop where
  files : ∀ path, path ∈ Source.sourceFiles after root ↔ path ∈ Source.sourceFiles before root
  stat : ∀ path ∈ Source.sourceFiles before root, ∀ node, before.stat path = .ok node → after.stat path = .ok node

theorem Retains.refl (root : Path) (tree : FileTree) : Retains root tree tree := ⟨fun _ => Iff.rfl, fun _ _ _ found => found⟩

theorem Retains.trans {root : Path} {first second third : FileTree} (earlier : Retains root first second)
    (later : Retains root second third) : Retains root first third where
  files path := (later.files path).trans (earlier.files path)
  stat path member node found := later.stat path ((earlier.files path).2 member) node (earlier.stat path member node found)

theorem KeepsSources.retains {after : FileTree} (keeps : tree.KeepsSources after) (root : Path) : Retains root tree after where
  files _ := ⟨keeps.symm.mem_sourceFiles, keeps.mem_sourceFiles⟩
  stat _ member _ found := (keeps.stat_eq_ok_iff (Source.mem_sourceFiles_iff.1 member).2).2 found

namespace Makes

variable {after : FileTree} {way : Location → Prop} {root path : Path} {location : Location} (makes : Makes way tree after)

include makes

theorem locate (located : tree.locate path = .ok location) : after.locate path = .ok location := by
  have start := startOf_congr makes.workingDir path
  obtain ⟨writable, followed⟩ := locate_eq_ok_iff.1 located
  obtain ⟨ends, passed⟩ := follow_eq_ok_iff.1 followed
  refine locate_eq_ok_iff.2 ⟨writable, follow_eq_ok_iff.2 ⟨by rw [start, ends], ?_⟩⟩
  intro before part rest split
  obtain ⟨directory, short⟩ := passed before part rest split
  exact ⟨by rw [start, makes.kept directory], short⟩

theorem stat {node : FileNode} (found : tree.stat path = .ok node) : after.stat path = .ok node := by
  obtain ⟨location, located, here⟩ := stat_eq_ok_iff.1 found
  exact stat_eq_ok_iff.2 ⟨location, makes.locate located, makes.kept here⟩

theorem mem_filesUnder (member : path ∈ tree.filesUnder root) : path ∈ after.filesUnder root := by
  obtain ⟨location, names, content, modified, located, ⟨found, passed⟩, rfl⟩ := mem_filesUnder_iff.1 member
  refine mem_filesUnder_iff.2 ⟨location, names, content, modified, makes.locate located, ⟨makes.kept found, ?_⟩, rfl⟩
  intro before name rest split
  exact makes.kept (passed before name rest split)

theorem mem_filesUnder_of_locate (sound : tree.Sound) (located : tree.locate root = .ok location)
    (member : path ∈ after.filesUnder root) : path ∈ tree.filesUnder root := by
  obtain ⟨place, names, content, modified, here, ⟨found, -⟩, rfl⟩ := mem_filesUnder_iff.1 member
  rw [makes.locate located] at here
  cases here
  have kept : tree.node? (location ++ names) = some (.file content modified) := by
    rcases makes.nodes (location ++ names) with same | ⟨-, -, made⟩
    · rw [← same, found]
    · rw [found] at made
      cases made
  refine mem_filesUnder_iff.2 ⟨location, names, content, modified, located, ⟨kept, ?_⟩, rfl⟩
  intro before name rest split
  subst split
  exact sound.directory_of_prefix (by simp) kept (by simp)

theorem retains (sound : tree.Sound) (located : tree.locate root = .ok location) : Retains root tree after where
  files path := by
    rw [Source.mem_sourceFiles_iff, Source.mem_sourceFiles_iff]
    exact and_congr_left fun _ => ⟨makes.mem_filesUnder_of_locate sound located, makes.mem_filesUnder⟩
  stat _ _ _ found := makes.stat found

theorem retains_join (sound : tree.Sound) (located : tree.locate base = .ok location) (written : base ≠ "")
    (readable : ∀ path ∈ Source.sourceFiles tree base, ∃ content, tree.read path = .ok content) {name : String}
    (named : Path.IsName name) : Retains (Path.join base name) tree after where
  files path := by
    rw [Source.mem_sourceFiles_iff, Source.mem_sourceFiles_iff]
    refine and_congr_left fun source => ⟨fun member => ?_, makes.mem_filesUnder⟩
    have walked := makes.mem_filesUnder_of_locate sound located (mem_filesUnder_of_join named written member)
    obtain ⟨content, read⟩ := readable path (Source.mem_sourceFiles_iff.2 ⟨walked, source⟩)
    exact mem_filesUnder_join sound named written walked (startsWith_of_mem_filesUnder makes.sound.wellNamed member) read
  stat _ _ _ found := makes.stat found

end Makes

end SymbolCache.FileTree

namespace SymbolCache.FieldIndex
open Source

abbrev Entry := Binary64 × Contribution

/-- An index keeps such entries, and all else in it is made of them. -/
structure Keeps (index : FieldIndex) (entries : Path → Option Entry) : Prop where
  derived : Derived index
  watermarks : ∀ path, index.watermarks.get? path = (entries path).map Prod.fst
  contributions : ∀ path, index.contributions.get? path = (entries path).map Prod.snd

namespace Keeps

variable {index : FieldIndex} {entries : Path → Option Entry}

theorem unique {other : FieldIndex} (keeps : index.Keeps entries) (keeps' : other.Keeps entries) : index = other :=
  keeps.derived.ext keeps'.derived
    (Dict.ext_get? fun path => (keeps.contributions path).trans (keeps'.contributions path).symm)
    (Dict.ext_get? fun path => (keeps.watermarks path).trans (keeps'.watermarks path).symm)

theorem congr {others : Path → Option Entry} (keeps : index.Keeps entries) (same : ∀ path, entries path = others path) :
    index.Keeps others := by
  rwa [funext same] at keeps

theorem updateFile (keeps : index.Keeps entries) (path : Path) (watermark : Binary64) (contribution : Contribution) :
    (index.updateFile path watermark contribution).Keeps
      fun other => if other = path then some (watermark, contribution) else entries other := by
  refine ⟨(apply_preserves keeps.derived path contribution).withWatermarks _, ?_, ?_⟩
  · intro other
    rw [FieldIndex.updateFile, apply_watermarks, Dict.get?_insert, keeps.watermarks]
    split <;> rfl
  · intro other
    rw [FieldIndex.updateFile, apply_contributions, Dict.get?_insert, keeps.contributions]
    split <;> rfl

theorem retractAll (keeps : index.Keeps entries) (paths : List Path) :
    (paths.foldl retract index).Keeps fun other => if other ∈ paths then none else entries other := by
  induction paths generalizing index entries with
  | nil => exact keeps.congr fun path => by simp
  | cons path rest ih =>
    have first : (index.retract path).Keeps fun other => if other = path then none else entries other := by
      refine ⟨retract_preserves keeps.derived path, ?_, ?_⟩
      · intro other
        rw [retract_watermarks, Dict.get?_erase, keeps.watermarks]
        split <;> rfl
      · intro other
        rw [retract_contributions, Dict.get?_erase, keeps.contributions]
        split <;> rfl
    refine (ih first).congr fun other => ?_
    by_cases here : other = path <;> simp [here]

end Keeps

/-- Indexes that come from the empty one by updates. -/
inductive Reached : FieldIndex → Prop where
  | empty : Reached empty
  | update {index : FieldIndex} (earlier : Reached index) (tree : FileTree) (root : Path) :
    Reached (update tree root index).1

private theorem next_keeps {run : UpdateRun} (kept : ∃ entries, run.index.Keeps entries) (tree : FileTree) (path : Path) :
    ∃ entries, (next tree run path).index.Keeps entries := by
  obtain ⟨entries, keeps⟩ := kept
  unfold next visit
  cases fileWatermark tree path with
  | error cause => exact ⟨entries, keeps⟩
  | ok watermark =>
    simp only
    split
    · exact ⟨entries, keeps⟩
    · cases readLossy tree path with
      | error cause => exact ⟨entries, keeps⟩
      | ok text => exact ⟨_, keeps.updateFile path watermark (.ofSource text)⟩

theorem Reached.keeps {index : FieldIndex} (reached : Reached index) : ∃ entries, index.Keeps entries := by
  induction reached with
  | empty => exact ⟨fun _ => none, empty_derived, fun _ => rfl, fun _ => rfl⟩
  | @update index _ tree root ih =>
    have visited (paths : List Path) (run : UpdateRun) (kept : ∃ entries, run.index.Keeps entries) :
        ∃ entries, (paths.foldl (next tree) run).index.Keeps entries := by
      induction paths generalizing run with
      | nil => exact kept
      | cons path rest later => exact later (next tree run path) (next_keeps kept tree path)
    obtain ⟨entries, keeps⟩ := visited (sourceFiles tree root) ⟨index, ⟨0, 0, 0⟩, []⟩ ih
    have folded := foldlM_next tree (sourceFiles tree root) ⟨index, ⟨0, 0, 0⟩, []⟩
    have result : (FieldIndex.update tree root index).1 =
        (dropStale root ((sourceFiles tree root).foldl (next tree) ⟨index, ⟨0, 0, 0⟩, []⟩)).index :=
      congrArg (fun run => (dropStale root run).index) folded
    rw [result]
    exact ⟨_, keeps.retractAll _⟩

section Settling

def resight (sighting : Sighting) (entry : Option Entry) : Option Entry :=
  if entry.any fun known => Binary64.same sighting.1 known.1 then entry
  else some (sighting.1, .ofSource sighting.2)

theorem resight_resight (sighting : Sighting) (entry : Option Entry) :
    resight sighting (resight sighting entry) = resight sighting entry := by
  by_cases known : (entry.any fun known => Binary64.same sighting.1 known.1) = true
  · rw [resight, resight, if_pos known, if_pos known]
  · have fresh : resight sighting entry = some (sighting.1, .ofSource sighting.2) := if_neg known
    have same : Binary64.same sighting.1 sighting.1 = true := by simp [Binary64.same]
    rw [fresh, resight, if_pos (by simpa using same)]

def settle (tree : FileTree) (root : Path) (entries : Path → Option Entry) (path : Path) : Option Entry :=
  match sighted tree root path with
  | some sighting => resight sighting (entries path)
  | none => if Path.startsWith path root then none else entries path

variable {tree : FileTree} {root : Path} {index : FieldIndex} {entries : Path → Option Entry}

theorem Keeps.take {view : Path → Option Sighting} (keeps : index.Keeps entries) {path : Path} {sighting : Sighting}
    (found : view path = some sighting) :
    (index.take view path).Keeps fun other => if other = path then resight sighting (entries path) else entries other := by
  have current : index.isCurrent path sighting.1 = (entries path).any fun known => Binary64.same sighting.1 known.1 := by
    rw [isCurrent, Dict.contains, keeps.watermarks, keeps.contributions]
    cases entries path <;> simp
  rw [FieldIndex.take, found]
  simp only [current]
  by_cases known : ((entries path).any fun known => Binary64.same sighting.1 known.1) = true
  · rw [if_pos known]
    refine keeps.congr fun other => ?_
    split
    · rename_i here
      rw [resight, if_pos known, here]
    · rfl
  · rw [if_neg known]
    refine (keeps.updateFile path sighting.1 (.ofSource sighting.2)).congr fun other => ?_
    rw [resight, if_neg known]

theorem Keeps.takeAll (keeps : index.Keeps entries) {paths : List Path}
    (readable : ∀ path ∈ paths, ∃ sighting, sighted tree root path = some sighting) :
    (takeAll (sighted tree root) paths index).Keeps fun path => if path ∈ paths then settle tree root entries path
      else entries path := by
  induction paths generalizing index entries with
  | nil => exact keeps.congr fun path => by simp
  | cons path rest ih =>
    obtain ⟨sighting, found⟩ := readable path (List.mem_cons_self ..)
    refine (ih (keeps.take found) fun other inside => readable other (List.mem_cons_of_mem _ inside)).congr fun other => ?_
    by_cases here : other = path
    · subst here
      simp [settle, found, resight_resight]
    · simp [settle, here]

theorem Keeps.forget (keeps : index.Keeps entries) (root : Path) (paths : List Path) :
    (index.forget root paths).Keeps fun path =>
      if path ∈ paths then entries path else if Path.startsWith path root then none else entries path := by
  refine (keeps.retractAll (index.stalePaths root paths)).congr fun path => ?_
  have stale : path ∈ index.stalePaths root paths ↔
      (entries path).isSome ∧ Path.startsWith path root = true ∧ path ∉ paths := by
    rw [stalePaths, List.mem_filter, pathsUnder, List.mem_filter, Dict.mem_keys_iff, keeps.watermarks]
    cases entries path <;> simp
  cases known : entries path with
  | none => simp
  | some entry =>
    by_cases present : path ∈ paths <;> simp [stale, known, present]

/-- An update settles every path by itself. -/
theorem Keeps.update (keeps : index.Keeps entries)
    (readable : ∀ path ∈ sourceFiles tree root, ∃ sighting, sighted tree root path = some sighting) :
    (FieldIndex.update tree root index).1.Keeps (settle tree root entries) := by
  rw [update_eq_take readable]
  refine ((keeps.takeAll readable).forget root _).congr fun path => ?_
  by_cases present : path ∈ sourceFiles tree root
  · rw [if_pos present, if_pos present]
  · have nothing : sighted tree root path = none := by rw [sighted, if_neg present]
    rw [if_neg present, if_neg present, settle, nothing]

end Settling

section Scopes

variable {tree : FileTree} {root path : Path} {entries others : Path → Option Entry}

theorem settle_congr (same : entries path = others path) : settle tree root entries path = settle tree root others path := by
  rw [settle, settle, same]

theorem settle_outside (named : tree.WellNamed) (outside : Path.startsWith path root = false) :
    settle tree root entries path = entries path := by
  have absent : path ∉ sourceFiles tree root := by
    intro member
    rw [startsWith_of_mem_sourceFiles named member] at outside
    cases outside
  rw [settle, sighted, if_neg absent]
  simp [outside]

theorem settle_settle : settle tree root (settle tree root entries) path = settle tree root entries path := by
  unfold settle
  cases sighted tree root path with
  | none =>
    simp only
    split <;> rfl
  | some sighting => exact resight_resight sighting _

/-- Directories of which no two have a path in common. -/
def Scattered (roots : List Path) : Prop :=
  ∀ first ∈ roots, ∀ second ∈ roots, ∀ path, Path.startsWith path first = true → Path.startsWith path second = true →
    first = second

/-- What becomes of the entries when directories are updated one after the other. -/
def settleAll (tree : FileTree) (roots : List Path) (entries : Path → Option Entry) : Path → Option Entry :=
  roots.foldl (fun entries root => settle tree root entries) entries

variable {roots : List Path}

theorem settleAll_outside (named : tree.WellNamed) (outside : ∀ root ∈ roots, Path.startsWith path root = false) :
    settleAll tree roots entries path = entries path := by
  induction roots generalizing entries with
  | nil => rfl
  | cons root rest ih =>
    have first := outside root (List.mem_cons_self ..)
    rw [settleAll, List.foldl_cons, ← settleAll, ih fun other inside => outside other (List.mem_cons_of_mem _ inside)]
    exact settle_outside named first

/-- Below one of the directories, its own update is all that counts. -/
theorem settleAll_inside (named : tree.WellNamed) (scattered : Scattered roots) (member : root ∈ roots)
    (inside : Path.startsWith path root = true) : settleAll tree roots entries path = settle tree root entries path := by
  induction roots generalizing entries with
  | nil => cases member
  | cons first rest ih =>
    rw [settleAll, List.foldl_cons, ← settleAll]
    have onlyHere (other : Path) (listed : other ∈ first :: rest) (distinct : other ≠ root) :
        Path.startsWith path other = false := by
      rw [Bool.eq_false_iff]
      intro below
      exact distinct (scattered other listed root member path below inside)
    by_cases later : root ∈ rest
    · rw [ih (fun a inA b inB => scattered a (List.mem_cons_of_mem _ inA) b (List.mem_cons_of_mem _ inB)) later]
      by_cases same : first = root
      · rw [same]
        exact settle_settle
      · exact settle_congr (settle_outside named (onlyHere first (List.mem_cons_self ..) same))
    · obtain rfl := (List.mem_cons.1 member).resolve_right later
      refine settleAll_outside named fun other listed => onlyHere other (List.mem_cons_of_mem _ listed) ?_
      rintro rfl
      exact later listed

/-- The order of the updates does not matter. -/
theorem settleAll_perm (named : tree.WellNamed) (scattered : Scattered roots) {reordered : List Path}
    (perm : reordered.Perm roots) : settleAll tree reordered entries = settleAll tree roots entries := by
  have scattered' : Scattered reordered := fun first inFirst second inSecond =>
    scattered first (perm.mem_iff.1 inFirst) second (perm.mem_iff.1 inSecond)
  funext path
  by_cases below : ∃ root ∈ roots, Path.startsWith path root = true
  · obtain ⟨root, member, inside⟩ := below
    rw [settleAll_inside named scattered member inside, settleAll_inside named scattered' (perm.mem_iff.2 member) inside]
  · have outside : ∀ root ∈ roots, Path.startsWith path root = false := by simpa using below
    rw [settleAll_outside named outside, settleAll_outside named fun root member => outside root (perm.mem_iff.1 member)]

end Scopes

section Children

variable {tree : FileTree} {src path : Path} {names : List String}

theorem scattered_children (written : src ≠ "") (named : ∀ name ∈ names, Path.IsName name) :
    Scattered (names.map (Path.join src)) := by
  intro first inFirst second inSecond path below below'
  obtain ⟨name, member, rfl⟩ := List.mem_map.1 inFirst
  obtain ⟨name', member', rfl⟩ := List.mem_map.1 inSecond
  rw [Path.eq_of_startsWith_join written (named name member) (named name' member') below below']

theorem mem_sourceFiles_of_join {name : String} (named : Path.IsName name) (written : src ≠ "")
    (member : path ∈ sourceFiles tree (Path.join src name)) : path ∈ sourceFiles tree src := by
  obtain ⟨walked, source⟩ := mem_sourceFiles_iff.1 member
  exact mem_sourceFiles_iff.2 ⟨FileTree.mem_filesUnder_of_join named written walked, source⟩

theorem sighted_join (sound : tree.Sound) {name : String} (named : Path.IsName name) (written : src ≠ "")
    (readable : ∀ path ∈ sourceFiles tree src, ∃ content, tree.read path = .ok content)
    (below : Path.startsWith path (Path.join src name) = true) :
    sighted tree (Path.join src name) path = sighted tree src path := by
  have same : path ∈ sourceFiles tree (Path.join src name) ↔ path ∈ sourceFiles tree src := by
    refine ⟨mem_sourceFiles_of_join named written, fun member => ?_⟩
    obtain ⟨content, read⟩ := readable path member
    obtain ⟨walked, source⟩ := mem_sourceFiles_iff.1 member
    exact mem_sourceFiles_iff.2 ⟨FileTree.mem_filesUnder_join sound named written walked below read, source⟩
  simp only [sighted, same]

/-- When all that a directory has and all that is known of it lies below some of its children, updating these comes to
updating the directory. -/
theorem settleAll_children (sound : tree.Sound) (written : src ≠ "") (named : ∀ name ∈ names, Path.IsName name)
    (readable : ∀ path ∈ sourceFiles tree src, ∃ content, tree.read path = .ok content)
    {entries : Path → Option Entry}
    (files : ∀ path ∈ sourceFiles tree src, ∃ name ∈ names, Path.startsWith path (Path.join src name) = true)
    (known : ∀ path, (entries path).isSome → ∃ name ∈ names, Path.startsWith path (Path.join src name) = true) :
    settleAll tree (names.map (Path.join src)) entries = settle tree src entries := by
  have wellNamed := sound.wellNamed
  funext path
  by_cases below : ∃ name ∈ names, Path.startsWith path (Path.join src name) = true
  · obtain ⟨name, member, inside⟩ := below
    have above : Path.startsWith path src = true := by
      rw [Path.startsWith, List.isPrefixOf_iff_prefix] at inside ⊢
      exact (Path.components_join (named name member).slashless written).trans inside
    rw [settleAll_inside wellNamed (scattered_children written named) (List.mem_map_of_mem member) inside, settle, settle,
      sighted_join sound (named name member) written readable inside, inside, above]
  · have absent : path ∉ sourceFiles tree src := fun member => below (files path member)
    have unknown : entries path = none := by
      rw [← Option.not_isSome_iff_eq_none]
      exact fun some => below (known path some)
    have outside : ∀ root ∈ names.map (Path.join src), Path.startsWith path root = false := by simpa using below
    rw [settleAll_outside wellNamed outside, unknown, settle, sighted, if_neg absent]
    simp [unknown]

end Children

end SymbolCache.FieldIndex
