import SymbolCache.Proofs.CatalogViews

/-! Which packages are discovered, and what is read from them, depends only on the package folders. No two of them
have the same path, since they are sorted by their paths and of neighbours with the same path one stays. -/

namespace SymbolCache

namespace Component

theorem before_irrefl (a : Component) : a.before a = false := by
  cases a <;> simp [before, rank]

theorem before_name {x y : String} : before (.name x) (.name y) = true ↔ x < y := decide_eq_true_iff

/-- Names are compared as texts, all else by rank. -/
theorem before_of_rank {a b : Component} (less : a.rank < b.rank) : a.before b = true := by
  cases a with
  | name x => cases b <;> simp [rank] at less
  | root | here | up => exact decide_eq_true less

theorem rank_or_names {a b : Component} (less : a.before b = true) :
    a.rank < b.rank ∨ ∃ x y, a = .name x ∧ b = .name y ∧ x < y := by
  cases a with
  | name x =>
    cases b with
    | name y => exact .inr ⟨x, y, rfl, rfl, before_name.1 less⟩
    | root | here | up => exact .inl (of_decide_eq_true less)
  | root | here | up => exact .inl (of_decide_eq_true less)

theorem before_trans {a b c : Component} (first : a.before b = true) (second : b.before c = true) :
    a.before c = true := by
  rcases rank_or_names first with less | ⟨x, y, rfl, rfl, less⟩
  · rcases rank_or_names second with more | ⟨y, z, rfl, rfl, -⟩
    · exact before_of_rank (Nat.lt_trans less more)
    · exact before_of_rank less
  · rcases rank_or_names second with more | ⟨_, z, same, rfl, more⟩
    · exact before_of_rank more
    · cases same
      exact before_name.2 (String.lt_trans less more)

theorem before_total {a b : Component} (differ : a ≠ b) : a.before b = true ∨ b.before a = true := by
  rcases Nat.lt_trichotomy a.rank b.rank with less | same | more
  · exact .inl (before_of_rank less)
  · cases a with
    | name x =>
      cases b with
      | name y =>
        rw [before_name, before_name]
        by_cases less : x < y
        · exact .inl less
        · exact .inr (Dict.lt_of_not_lt_of_ne less fun equal => differ (by rw [equal]))
      | root | here | up => cases same
    | root | here | up => cases b <;> simp [rank] at same differ
  · exact .inr (before_of_rank more)

end Component

namespace Path

theorem orderBefore_irrefl (a : List Component) : orderBefore a a = false := by
  induction a with
  | nil => rfl
  | cons head rest ih => simp [orderBefore, ih]

theorem orderBefore_trans {a b c : List Component} (first : orderBefore a b = true) (second : orderBefore b c = true) :
    orderBefore a c = true := by
  induction a generalizing b c with
  | nil =>
    cases c with
    | nil => cases b <;> simp [orderBefore] at second
    | cons => rfl
  | cons x a ih =>
    cases b with
    | nil => simp [orderBefore] at first
    | cons y b =>
      cases c with
      | nil => simp [orderBefore] at second
      | cons z c =>
        unfold orderBefore at first second ⊢
        by_cases left : x = y
        · subst left
          rw [if_pos rfl] at first
          by_cases right : x = z
          · rw [if_pos right] at second ⊢
            exact ih first second
          · rwa [if_neg right] at second ⊢
        · rw [if_neg left] at first
          by_cases right : y = z
          · subst right
            rwa [if_neg left]
          · rw [if_neg right] at second
            have less := Component.before_trans first second
            have apart : x ≠ z := by
              rintro rfl
              rw [Component.before_irrefl] at less
              cases less
            rwa [if_neg apart]

theorem orderBefore_total {a b : List Component} (differ : a ≠ b) : orderBefore a b = true ∨ orderBefore b a = true := by
  induction a generalizing b with
  | nil =>
    cases b with
    | nil => exact absurd rfl differ
    | cons => exact .inl rfl
  | cons x a ih =>
    cases b with
    | nil => exact .inr rfl
    | cons y b =>
      unfold orderBefore
      by_cases same : x = y
      · subst same
        rw [if_pos rfl, if_pos rfl]
        exact ih fun equal => differ (by rw [equal])
      · rw [if_neg same, if_neg (Ne.symm same)]
        exact Component.before_total same

theorem not_before_trans {a b c : Path} (first : before b a = false) (second : before c b = false) :
    before c a = false := by
  unfold before at *
  cases less : orderBefore (components c) (components a) with
  | false => rfl
  | true =>
    -- What stands between two paths in order is one of them or makes a circle with them.
    by_cases left : components a = components b
    · rw [left] at less
      rw [less] at second
      cases second
    · rcases orderBefore_total left with above | below
      · rw [orderBefore_trans less above] at second
        cases second
      · rw [below] at first
        cases first

theorem not_before_total (a b : Path) : before b a = false ∨ before a b = false := by
  unfold before
  cases less : orderBefore (components b) (components a) with
  | false => exact .inl rfl
  | true =>
    refine .inr ?_
    cases more : orderBefore (components a) (components b) with
    | false => rfl
    | true =>
      have circle := orderBefore_trans less more
      rw [orderBefore_irrefl] at circle
      cases circle

end Path

end SymbolCache

namespace SymbolCache.Package

open FileTree

variable {first second : FileTree} {dirs : List Path} {settings : PackageSettings} {artifact : Artifact}

/-- The packages directly in a directory. -/
private def found (tree : FileTree) (settings : PackageSettings) (dir : Path) : List Artifact :=
  if !tree.isDirectory dir then []
  else match tree.locate dir with
    | .error _ => []
    | .ok location => (tree.childNames location).filterMap fun name =>
        if tree.isFile (Path.join dir name) && settings.isPackage (Path.join dir name) then
          Artifact.ofPath? (Path.join dir name)
        else none

/-- Of neighbours with the same path one stays. -/
private def keepNew (kept : List Artifact) (artifact : Artifact) : List Artifact :=
  match kept.getLast? with
  | some last =>
    if Path.components last.path == Path.components artifact.path then kept else kept ++ [artifact]
  | none => [artifact]

private theorem discover_eq (tree : FileTree) (dirs : List Path) (settings : PackageSettings) :
    discover tree dirs settings =
      ((dirs.flatMap (found tree settings)).mergeSort fun a b => !Path.before b.path a.path).foldl keepNew [] := rfl

private theorem mem_of_mem_foldl_keepNew {artifacts kept : List Artifact}
    (member : artifact ∈ artifacts.foldl keepNew kept) : artifact ∈ kept ∨ artifact ∈ artifacts := by
  induction artifacts generalizing kept with
  | nil => exact .inl member
  | cons head rest ih =>
    rcases ih member with before | later
    · unfold keepNew at before
      split at before
      · split at before
        · exact .inl before
        · rcases List.mem_append.1 before with early | last
          · exact .inl early
          · exact .inr (List.mem_cons.2 (.inl (List.mem_singleton.1 last)))
      · exact .inr (List.mem_cons.2 (.inl (List.mem_singleton.1 before)))
    · exact .inr (List.mem_cons_of_mem _ later)

/-- Of packages sorted by path those that stay are strictly sorted. -/
private theorem pairwise_foldl_keepNew {artifacts kept : List Artifact}
    (sorted : artifacts.Pairwise fun a b => Path.before b.path a.path = false)
    (strict : kept.Pairwise fun a b => Path.before a.path b.path = true)
    (below : ∀ last, kept.getLast? = some last → ∀ later ∈ artifacts, Path.before later.path last.path = false) :
    (artifacts.foldl keepNew kept).Pairwise fun a b => Path.before a.path b.path = true := by
  induction artifacts generalizing kept with
  | nil => exact strict
  | cons head rest ih =>
    obtain ⟨first, others⟩ := List.pairwise_cons.1 sorted
    rw [List.foldl_cons]
    cases ends : kept.getLast? with
    | none =>
      have alone : keepNew kept head = [head] := by rw [keepNew, ends]
      rw [alone]
      refine ih others (List.pairwise_singleton ..) ?_
      rintro _ ⟨⟩
      exact first
    | some last =>
      by_cases same : Path.components last.path = Path.components head.path
      · have kept_eq : keepNew kept head = kept := by rw [keepNew, ends]; simp [same]
        rw [kept_eq]
        exact ih others strict fun last ends later inside => below last ends later (List.mem_cons_of_mem _ inside)
      · have added : keepNew kept head = kept ++ [head] := by rw [keepNew, ends]; simp [same]
        rw [added]
        have greater : Path.before last.path head.path = true := by
          have notBelow := below last ends head (List.mem_cons_self ..)
          rcases Path.orderBefore_total same with less | more
          · exact less
          · rw [Path.before, more] at notBelow
            cases notBelow
        refine ih others ?_ ?_
        · refine List.pairwise_append.2 ⟨strict, List.pairwise_singleton .., ?_⟩
          intro earlier inside other isHead
          rw [List.mem_singleton.1 isHead]
          obtain ⟨front, rfl⟩ := List.getLast?_eq_some_iff.1 ends
          rcases List.mem_append.1 inside with before | atEnd
          · exact Path.orderBefore_trans
              ((List.pairwise_append.1 strict).2.2 earlier before last (List.mem_singleton.2 rfl)) greater
          · rwa [List.mem_singleton.1 atEnd]
        · intro ended newEnds
          rw [List.getLast?_concat] at newEnds
          cases newEnds
          exact first

/-- No two discovered packages have the same path. -/
theorem nodup_discover (tree : FileTree) (dirs : List Path) (settings : PackageSettings) :
    ((discover tree dirs settings).map Artifact.path).Nodup := by
  have sorted : ((dirs.flatMap (found tree settings)).mergeSort fun a b => !Path.before b.path a.path).Pairwise
      fun a b => (!Path.before b.path a.path) = true := by
    refine List.pairwise_mergeSort ?_ ?_ _
    · intro a b c
      simp only [Bool.not_eq_true']
      exact Path.not_before_trans
    · intro a b
      simp only [Bool.or_eq_true, Bool.not_eq_true']
      exact Path.not_before_total ..
  have strict := pairwise_foldl_keepNew (sorted.imp fun ordered => by simpa using ordered) .nil nofun
  rw [discover_eq, List.Nodup, List.pairwise_map]
  refine strict.imp fun less same => ?_
  rw [same, Path.before, Path.orderBefore_irrefl] at less
  cases less

theorem path_of_ofPath? {path : Path} (made : Artifact.ofPath? path = some artifact) : artifact.path = path := by
  obtain ⟨name, -, made⟩ := Option.bind_eq_some_iff.1 made
  split at made
  extract_lets at made
  split at made
  · cases made
  · cases made
    rfl

/-- Discovered packages stand in the folders under proper names. -/
theorem folder_of_mem_discover (sound : first.Sound) (member : artifact ∈ discover first dirs settings) :
    ∃ dir ∈ dirs, first.isDirectory dir = true ∧
      ∃ name, Path.IsName name ∧ Artifact.ofPath? (Path.join dir name) = some artifact := by
  rw [discover_eq] at member
  have inside := (mem_of_mem_foldl_keepNew member).resolve_left nofun
  obtain ⟨dir, known, inside⟩ := List.mem_flatMap.1 (List.mem_mergeSort.1 inside)
  unfold found at inside
  split at inside
  · cases inside
  · rename_i directory
    split at inside
    · cases inside
    · rename_i location _
      obtain ⟨name, child, made⟩ := List.mem_filterMap.1 inside
      split at made
      · refine ⟨dir, known, by simpa using directory, name, ?_, ?_⟩
        · obtain ⟨node, here⟩ := Option.isSome_iff_exists.1 (mem_childNames_iff.1 child)
          exact sound.isName here name (by simp)
        · exact made
      · cases made

/-- Discovered packages are what their paths make them. -/
theorem ofPath?_of_mem_discover (sound : first.Sound) (member : artifact ∈ discover first dirs settings) :
    Artifact.ofPath? artifact.path = some artifact := by
  obtain ⟨dir, -, -, name, -, made⟩ := folder_of_mem_discover sound member
  rwa [path_of_ofPath? made]

/-- Folders that hold the same are seen alike. -/
private theorem found_congr {dir : Path} (sound : first.Sound) (sound' : second.Sound) (straight : Path.Straight dir)
    (alike : AlikeBelow (Path.steps dir) first second) : found first settings dir = found second settings dir := by
  have here := alike []
  rw [List.append_nil] at here
  have directory : first.isDirectory dir = second.isDirectory dir := by
    rw [Bool.eq_iff_iff, isDirectory_of_straight sound straight, isDirectory_of_straight sound' straight,
      FileNode.directory_iff here]
  unfold found
  cases present : second.isDirectory dir with
  | false => simp [directory, present]
  | true =>
    have twin : Twin (Path.steps dir) first second :=
      ⟨sound, sound', ((isDirectory_of_straight sound straight).1 (directory.trans present)).2.2, alike⟩
    rw [directory, present, twin.locate_eq (within_of_straight straight (List.prefix_refl _))]
    cases located : second.locate dir with
    | error cause => rfl
    | ok location =>
      obtain rfl : location = Path.steps dir := (locate_eq_spot located).trans (spot_of_straight straight)
      simp only [alike.childNames_eq sound sound']
      refine congrArg _ (List.filterMap_congr fun name child => ?_)
      obtain ⟨node, stands⟩ := Option.isSome_iff_exists.1 (mem_childNames_iff.1 child)
      have named := sound'.isName stands name (by simp)
      have below : Path.steps dir <+: Path.steps (Path.join dir name) := by
        rw [Path.steps_join_name dir named]
        exact List.prefix_append ..
      rw [twin.isFile_eq (within_of_straight (straight.join named) below)]

theorem discover_congr (sound : first.Sound) (sound' : second.Sound) (straight : ∀ dir ∈ dirs, Path.Straight dir)
    (alike : ∀ dir ∈ dirs, AlikeBelow (Path.steps dir) first second) :
    discover first dirs settings = discover second dirs settings := by
  have same : dirs.flatMap (found first settings) = dirs.flatMap (found second settings) :=
    List.flatMap_congr fun dir inside => found_congr sound sound' (straight dir inside) (alike dir inside)
  rw [discover_eq, discover_eq, same]

/-- Packages in folders that hold the same are read alike. -/
theorem read_of_mem_discover (sound : first.Sound) (sound' : second.Sound) (straight : ∀ dir ∈ dirs, Path.Straight dir)
    (alike : ∀ dir ∈ dirs, AlikeBelow (Path.steps dir) first second) (member : artifact ∈ discover first dirs settings) :
    first.read artifact.path = second.read artifact.path := by
  obtain ⟨dir, known, directory, name, named, made⟩ := folder_of_mem_discover sound member
  have twin : Twin (Path.steps dir) first second := ⟨sound, sound',
    ((isDirectory_of_straight sound (straight dir known)).1 directory).2.2, alike dir known⟩
  rw [path_of_ofPath? made]
  refine twin.read_eq (within_of_straight ((straight dir known).join named) ?_)
  rw [Path.steps_join_name dir named]
  exact List.prefix_append ..

end SymbolCache.Package
