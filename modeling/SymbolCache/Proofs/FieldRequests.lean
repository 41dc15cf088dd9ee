import SymbolCache.Proofs.CacheWrites
import SymbolCache.Proofs.RequestLoop
import SymbolCache.Proofs.SavedCopies
import SymbolCache.Proofs.ScopedUpdates

/-! Requests for updates of the field index, one after the other. Each one loads what the one before has saved, and
none loses what another one did. -/

namespace SymbolCache.Worker

open FieldIndex

/-- A process that waits for a request. -/
structure Peer.Idle (peer : Peer) : Prop where
  program : peer.program = .requestLoop
  listens : peer.inputOpen = true
  runs : peer.exitCode = none
  heard : peer.unread = []

/-- A field worker between two requests; its process may have died. -/
structure FieldWorker.Ready (worker : FieldWorker) : Prop where
  program : worker.program = .requestLoop
  idle : ∀ peer, worker.peer = some peer → peer.isAlive = true → peer.Idle

/-- The index that a request is answered with. -/
def answerTo (options : FieldOptions) (tree : FileTree) : FieldIndex :=
  (FieldIndex.update tree (fieldRoot options) (load tree options.globalStoragePath)).1

section Exchange

variable {options : FieldOptions} {tree : FileTree} {index : FieldIndex}

theorem serve_written (options : FieldOptions) (tree : FileTree) : ∃ notices, Brief notices ∧
    (serve tree [(Json.ofRequest (.updateFields options)).compactChars]).written =
      notices ++ [.fields (answerTo options tree)] := by
  obtain ⟨notices, brief, done, written⟩ := writes_handleFields options (.start tree)
  have present : (Text.trim (Json.ofRequest (.updateFields options)).compactChars).isEmpty = false :=
    Json.trim_compactChars_object _
  rcases ran : handleFields always options (.start tree) with ⟨result, after⟩
  rw [ran] at done written
  subst done
  refine ⟨notices, brief, ?_⟩
  rw [serve, run, handleLine, present, Json.request?_ofRequest]
  simp only [Bool.false_eq_true, if_false, bind_apply, ran]
  exact written

theorem awaitFields_written {notices : List Reply} (brief : Brief notices) (sendable : index.Sendable) :
    FieldWorker.awaitFields ((notices ++ [Reply.fields index]).map Peer.replyLine) = (.ok index, []) := by
  have present (reply : Reply) : (Text.trim (Peer.replyLine reply)).isEmpty = false := Json.trim_compactChars_object _
  have last : FieldWorker.awaitFields [Peer.replyLine (.fields index)] = (.ok index, []) := by
    simp [FieldWorker.awaitFields, present, Refresh.nextMessage_replyLine (.fields sendable)]
  cases brief with
  | nothing => exact last
  | progress message =>
    rw [List.singleton_append, List.map_cons, List.map_singleton, FieldWorker.awaitFields,
      Refresh.nextMessage_replyLine (.progress message)]
    simp [present, last]

theorem exchange_idle {peer : Peer} (idle : peer.Idle) (sendable : (answerTo options tree).Sendable) :
    ∃ after : Peer, after.Idle ∧ FieldWorker.exchange peer options tree = (.ok (answerTo options tree), after, tree) := by
  obtain ⟨program, inputOpen, unread, exitCode, log⟩ := peer
  obtain ⟨rfl, rfl, rfl, rfl⟩ := idle
  obtain ⟨notices, brief, written⟩ := serve_written options tree
  refine ⟨⟨.requestLoop, true, [], none, log ++ (serve tree [(Json.ofRequest (.updateFields options)).compactChars]).log⟩,
    ⟨rfl, rfl, rfl, rfl⟩, ?_⟩
  simp only [FieldWorker.exchange, Peer.send, Peer.isAlive, Option.isNone_none, Bool.not_true, Bool.false_eq_true, if_false,
    List.nil_append, written, awaitFields_written brief sendable, serve_updateFields]

end Exchange

namespace FieldWorker

variable {worker : FieldWorker} {options : FieldOptions} {tree : FileTree}

theorem Ready.ensure (ready : worker.Ready) : ∃ peer : Peer, worker.ensure = .ok peer ∧ peer.Idle := by
  have started : ∃ peer : Peer, Peer.start worker.program = .ok peer ∧ peer.Idle := by
    rw [ready.program]
    exact ⟨_, rfl, rfl, rfl, rfl, rfl⟩
  unfold FieldWorker.ensure
  cases current : worker.peer with
  | none => exact started
  | some peer =>
    simp only
    split
    · rename_i alive
      exact ⟨peer, rfl, ready.idle peer current alive⟩
    · exact started

/-- A request is answered with the index that has been saved, unless it cannot be saved. -/
theorem Ready.update (ready : worker.Ready) (sendable : (answerTo options tree).Sendable) :
    ∃ after : FieldWorker, after.Ready ∧ worker.update options tree =
      let saved := ((answerTo options tree).save options.globalStoragePath).on tree
      ((saved.1.mapError .snapshot).map fun _ => answerTo options tree, after, saved.2) := by
  obtain ⟨peer, running, idle⟩ := ready.ensure
  obtain ⟨left, leftIdle, exchanged⟩ := exchange_idle idle sendable
  refine ⟨{ worker with peer := some { left with log := [] }, log := worker.log ++ left.log }, ⟨ready.program, ?_⟩, ?_⟩
  · rintro peer ⟨⟩ -
    exact ⟨leftIdle.program, leftIdle.listens, leftIdle.runs, leftIdle.heard⟩
  · unfold FieldWorker.update
    rw [running]
    simp only [exchanged]
    split <;> simp [*, Except.mapError, Except.map]

end FieldWorker

/-- A field worker and the files around it. -/
structure Host where
  worker : FieldWorker
  tree : FileTree

/-- The directory that a request covers: all sources, or those of one application. -/
def scope (src : Path) : Option String → Path
  | some app => Path.join src (sanitizeSegment app)
  | none => src

theorem fieldRoot_eq_scope (src dir : Path) (app : Option String) (level : String) :
    fieldRoot ⟨src, dir, app, level⟩ = scope src app := by
  cases app <;> rfl

/-- Requests that succeed one after the other. -/
inductive Requests (src dir : Path) : Host → List (Option String) → Host → Prop where
  | done (host : Host) : Requests src dir host [] host
  | next {host next final : Host} {app : Option String} {apps : List (Option String)} {level : String} {index : FieldIndex}
    (answered : host.worker.update ⟨src, dir, app, level⟩ host.tree = (.ok index, next.worker, next.tree))
    (rest : Requests src dir next apps final) : Requests src dir host (app :: apps) final

/-- Source files that can be read, at times that JSON gives back. -/
structure Sourced (tree : FileTree) (root : Path) : Prop where
  readable : ∀ path ∈ Source.sourceFiles tree root, ∃ content, tree.read path = .ok content
  exact : ∀ path ∈ Source.sourceFiles tree root, ∀ watermark, fileWatermark tree path = .ok watermark → Json.Exact watermark

theorem Sourced.sights {tree : FileTree} {root path : Path} (sourced : Sourced tree root)
    (member : path ∈ Source.sourceFiles tree root) : ∃ sighting, sighted tree root path = some sighting := by
  obtain ⟨content, read⟩ := sourced.readable path member
  obtain ⟨watermark, -, found⟩ := sighted_of_readable member read
  exact ⟨_, found⟩

theorem Sourced.sighted_eq {before after : FileTree} {root : Path} (sourced : Sourced before root)
    (retains : before.Retains root after) : sighted after root = sighted before root := by
  funext path
  by_cases member : path ∈ Source.sourceFiles before root
  · obtain ⟨sighting, found⟩ := sourced.sights member
    obtain ⟨-, content, modified, here, rfl⟩ := sighted_eq_some_iff.1 found
    rw [found]
    exact sighted_eq_some_iff.2 ⟨(retains.files path).2 member, content, modified, retains.stat path member _ here, rfl⟩
  · rw [sighted, sighted, if_neg member, if_neg (mt (retains.files path).1 member)]

/-- The sources are as they were at the start, and the saved index keeps such entries. -/
structure Serving (start : FileTree) (src dir : Path) (entries : Path → Option Entry) (host : Host) : Prop where
  ready : host.worker.Ready
  sources : ∀ app, start.Retains (scope src app) host.tree
  makes : ∀ made, host.tree.makeDirs dir = .ok made → ∀ app, host.tree.Retains (scope src app) made
  keeps : (load host.tree dir).Keeps entries
  exact : ∀ path entry, entries path = some entry → Json.Exact entry.1

section Serving

variable {start : FileTree} {src dir root : Path} {entries : Path → Option Entry} {host next final : Host}

theorem exact_settle (sourced : Sourced start root) (exact : ∀ path entry, entries path = some entry → Json.Exact entry.1)
    (path : Path) (entry : Entry) (settled : settle start root entries path = some entry) : Json.Exact entry.1 := by
  unfold settle at settled
  split at settled
  · rename_i sighting found
    obtain ⟨member, mark, -⟩ := sighted_eq_some found
    unfold resight at settled
    split at settled
    · exact exact path entry settled
    · cases settled
      exact sourced.exact path member _ mark
  · split at settled
    · cases settled
    · exact exact path entry settled

section Request

variable (serving : Serving start src dir entries host) {app : Option String} (sourced : Sourced start (scope src app))

include serving sourced

theorem Serving.answer (level : String) :
    (answerTo ⟨src, dir, app, level⟩ host.tree).Keeps (settle start (scope src app) entries) := by
  have same := sourced.sighted_eq (serving.sources app)
  have sights : ∀ path ∈ Source.sourceFiles host.tree (scope src app),
      ∃ sighting, sighted host.tree (scope src app) path = some sighting := by
    intro path member
    rw [same]
    exact sourced.sights (((serving.sources app).files path).1 member)
  rw [answerTo, fieldRoot_eq_scope]
  exact (serving.keeps.update sights).congr fun path => by rw [settle, settle, same]

theorem Serving.sendable (level : String) : (answerTo ⟨src, dir, app, level⟩ host.tree).Sendable := by
  intro path watermark found
  rw [(serving.answer sourced level).watermarks] at found
  obtain ⟨entry, settled, rfl⟩ := Option.map_eq_some_iff.1 found
  exact exact_settle sourced serving.exact path entry settled

/-- The saved answer to a request settles the directory it covers. -/
theorem Serving.saved {level : String} (ready : next.worker.Ready)
    (saves : ((answerTo ⟨src, dir, app, level⟩ host.tree).save dir).on host.tree = (.ok (), next.tree)) :
    Serving start src dir (settle start (scope src app) entries) next := by
  obtain ⟨made, makes, written⟩ := saveUpTo_makes (save_eq_saveUpTo _ dir ▸ saves)
  refine ⟨ready, fun app => ?_, ?_, ?_, exact_settle sourced serving.exact⟩
  · exact ((serving.sources app).trans (serving.makes made makes app)).trans (written.sources.retains _)
  · -- The directory is there from now on.
    have settled : next.tree.makeDirs dir = .ok next.tree := makeDirs_of_save saves
    intro again remakes app
    rw [settled] at remakes
    cases remakes
    exact .refl ..
  · rw [load_of_save (serving.sendable sourced level) saves]
    exact serving.answer sourced level

theorem Serving.request {level : String} {index : FieldIndex}
    (answered : host.worker.update ⟨src, dir, app, level⟩ host.tree = (.ok index, next.worker, next.tree)) :
    Serving start src dir (settle start (scope src app) entries) next := by
  obtain ⟨after, ready, updated⟩ := serving.ready.update (serving.sendable sourced level)
  rw [updated] at answered
  obtain ⟨succeeds, rest⟩ := Prod.mk.inj answered
  obtain ⟨rfl, changed⟩ := Prod.mk.inj rest
  refine serving.saved sourced ready (Prod.ext ?_ changed)
  rcases saved : (((answerTo ⟨src, dir, app, level⟩ host.tree).save dir).on host.tree).1 with cause | ⟨⟩
  · rw [saved] at succeeds
    cases succeeds
  · rfl

theorem Serving.answers (there : host.tree.isDirectory dir = true) (admits : ∀ name ∈ copyNames, Admits host.tree dir name)
    (level : String) : ∃ (index : FieldIndex) (next : Host), host.tree.SameDirs next.tree ∧
      host.worker.update ⟨src, dir, app, level⟩ host.tree = (.ok index, next.worker, next.tree) := by
  obtain ⟨after, ready, updated⟩ := serving.ready.update (serving.sendable sourced level)
  obtain ⟨changed, saves, same⟩ := save_admitted (answerTo ⟨src, dir, app, level⟩ host.tree) there admits
  refine ⟨answerTo ⟨src, dir, app, level⟩ host.tree, ⟨after, changed⟩, same, ?_⟩
  rw [updated]
  simp only [saves]
  rfl

end Request

theorem Serving.requests (serving : Serving start src dir entries host) {apps : List (Option String)}
    (sourced : ∀ app ∈ apps, Sourced start (scope src app)) (requests : Requests src dir host apps final) :
    Serving start src dir (settleAll start (apps.map (scope src)) entries) final := by
  induction requests generalizing entries with
  | done host => exact serving
  | next answered _ ih =>
    have first := serving.request (sourced _ (List.mem_cons_self ..)) answered
    exact ih first fun app inside => sourced app (List.mem_cons_of_mem _ inside)

theorem Serving.exists_requests (serving : Serving start src dir entries host) (there : host.tree.isDirectory dir = true)
    (admits : ∀ name ∈ copyNames, Admits host.tree dir name) {apps : List (Option String)}
    (sourced : ∀ app ∈ apps, Sourced start (scope src app)) : ∃ final, Requests src dir host apps final := by
  induction apps generalizing host entries with
  | nil => exact ⟨host, .done host⟩
  | cons app apps ih =>
    have here := sourced app (List.mem_cons_self ..)
    obtain ⟨index, next, same, answered⟩ := serving.answers here there admits ""
    obtain ⟨final, rest⟩ := ih (serving.request here answered) (FileTree.isDirectory_sameDirs there same)
      (fun name inside => (admits name inside).sameDirs same) fun app inside => sourced app (List.mem_cons_of_mem _ inside)
    exact ⟨final, .next answered rest⟩

end Serving

/-- Sources below a directory, and a saved index that came about by updates. All times are numbers that JSON gives back. -/
structure Prepared (src dir : Path) (host : Host) : Prop where
  ready : host.worker.Ready
  sound : host.tree.Sound
  written : src ≠ ""
  sourced : Sourced host.tree src
  -- Otherwise making the directory of the index could open a way to sources.
  there : host.tree.isDirectory src = true ∨ host.tree.isDirectory dir = true
  reached : Reached (load host.tree dir)
  exact : (load host.tree dir).Sendable

namespace Prepared

variable {src dir : Path} {host : Host} (prepared : Prepared src dir host)

include prepared

theorem sourcedScope (app : Option String) : Sourced host.tree (scope src app) := by
  cases app with
  | none => exact prepared.sourced
  | some app =>
    have inside (path : Path) (member : path ∈ Source.sourceFiles host.tree (scope src (some app))) :
        path ∈ Source.sourceFiles host.tree src :=
      mem_sourceFiles_of_join (isName_sanitizeSegment app) prepared.written member
    exact ⟨fun path member => prepared.sourced.readable path (inside path member),
      fun path member => prepared.sourced.exact path (inside path member)⟩

theorem makes (made : FileTree) (done : host.tree.makeDirs dir = .ok made) (app : Option String) :
    host.tree.Retains (scope src app) made := by
  have stays (same : host.tree.makeDirs dir = .ok host.tree) : host.tree.Retains (scope src app) made := by
    rw [same] at done
    cases done
    exact .refl ..
  by_cases blank : dir = ""
  · subst blank
    exact stays rfl
  · rcases prepared.there with present | cached
    · obtain ⟨location, located, -⟩ := FileTree.isDirectory_iff.1 present
      have adds := (FileTree.makeDirs_makes prepared.sound blank done).1
      cases app with
      | none => exact adds.retains prepared.sound located
      | some app =>
        exact adds.retains_join prepared.sound located prepared.written prepared.sourced.readable (isName_sanitizeSegment app)
    · exact stays (FileTree.makeDirs_of_isDirectory cached)

theorem serving : ∃ entries, Serving host.tree src dir entries host := by
  obtain ⟨entries, keeps⟩ := prepared.reached.keeps
  refine ⟨entries, prepared.ready, fun _ => .refl .., prepared.makes, keeps, ?_⟩
  intro path entry known
  exact prepared.exact path entry.1 (by rw [keeps.watermarks, known]; rfl)

end Prepared

/-- Requests for applications end in the same saved index in every order. Each request leaves alone what is saved about
paths elsewhere. If there is nothing but the sources of these applications, the end is that of one request for all.
Every run of requests comes to its end, if the directory of the index is there and nothing is in the way of its files. -/
theorem requests_do_not_lose_each_other {src dir : Path} {host : Host} (prepared : Prepared src dir host)
    (apps : List String) :
    (∀ (first second : List String) (final final' : Host), first.Perm apps → second.Perm apps →
      Requests src dir host (first.map some) final → Requests src dir host (second.map some) final' →
      load final.tree dir = load final'.tree dir) ∧
    (∀ (earlier : List (Option String)) (app : String) (middle final : Host), Requests src dir host earlier middle →
      Requests src dir middle [some app] final → ∀ path, Path.startsWith path (Path.join src (sanitizeSegment app)) = false →
        (load final.tree dir).watermarks.get? path = (load middle.tree dir).watermarks.get? path ∧
        (load final.tree dir).contributions.get? path = (load middle.tree dir).contributions.get? path) ∧
    ((∀ path ∈ Source.sourceFiles host.tree src,
        ∃ app ∈ apps, Path.startsWith path (Path.join src (sanitizeSegment app)) = true) →
      (∀ path, (load host.tree dir).watermarks.contains path = true ∨ (load host.tree dir).contributions.contains path = true →
        ∃ app ∈ apps, Path.startsWith path (Path.join src (sanitizeSegment app)) = true) →
      ∀ final whole, Requests src dir host (apps.map some) final → Requests src dir host [none] whole →
        load final.tree dir = load whole.tree dir) ∧
    (host.tree.isDirectory dir = true → (∀ name ∈ copyNames, Admits host.tree dir name) →
      ∀ requests : List (Option String), ∃ final, Requests src dir host requests final) := by
  obtain ⟨entries, serving⟩ := prepared.serving
  have named : ∀ name ∈ apps.map sanitizeSegment, Path.IsName name := by
    intro name inside
    obtain ⟨app, -, rfl⟩ := List.mem_map.1 inside
    exact isName_sanitizeSegment app
  have roots (list : List String) : (list.map some).map (scope src) = (list.map sanitizeSegment).map (Path.join src) := by
    rw [List.map_map, List.map_map]
    rfl
  have after {list : List String} {final : Host} (requests : Requests src dir host (list.map some) final) :
      (load final.tree dir).Keeps (settleAll host.tree ((list.map sanitizeSegment).map (Path.join src)) entries) := by
    rw [← roots]
    exact (serving.requests (fun app _ => prepared.sourcedScope app) requests).keeps
  refine ⟨?_, ?_, ?_, ?_⟩
  · intro first second final final' perm perm' requests requests'
    have same {list : List String} (reordered : list.Perm apps) := @settleAll_perm host.tree entries _ prepared.sound.wellNamed
      (scattered_children prepared.written named) _ ((reordered.map sanitizeSegment).map (Path.join src))
    have keeps := after requests
    have keeps' := after requests'
    rw [same perm] at keeps
    rw [same perm'] at keeps'
    exact keeps.unique keeps'
  · intro earlier app middle final requests request path outside
    have before := serving.requests (fun app _ => prepared.sourcedScope app) requests
    have later := before.requests (fun app _ => prepared.sourcedScope app) request
    have kept : settleAll host.tree ([some app].map (scope src)) (settleAll host.tree (earlier.map (scope src)) entries) path =
        settleAll host.tree (earlier.map (scope src)) entries path := settle_outside prepared.sound.wellNamed outside
    exact ⟨by rw [later.keeps.watermarks, before.keeps.watermarks, kept],
      by rw [later.keeps.contributions, before.keeps.contributions, kept]⟩
  · intro files known final whole requests request
    have keeps := after requests
    rw [settleAll_children prepared.sound prepared.written named prepared.sourced.readable] at keeps
    · exact keeps.unique (serving.requests (fun app _ => prepared.sourcedScope app) request).keeps
    · simpa using files
    · intro path some
      have marked : (load host.tree dir).watermarks.contains path = true := by
        rw [Dict.contains, serving.keeps.watermarks]
        simpa using some
      simpa using known path (.inl marked)
  · intro there admits requests
    exact serving.exists_requests there admits fun app _ => prepared.sourcedScope app

/-- The sources of two applications; the name of one begins with that of the other. -/
def siblingTree (first second : Bytes) : FileTree :=
  ⟨[(["c"], .directory), (["r"], .directory), (["r", "Alpha"], .directory), (["r", "Alpha", "a.al"], .file first 1000),
    (["r", "AlphaBeta"], .directory), (["r", "AlphaBeta", "b.al"], .file second 1000)], [], 5000⟩

/-- Both applications declare fields of one table. -/
def siblings : Host where
  worker := .new .requestLoop
  tree := siblingTree (Text.encodeUtf8 "table 1 Item \x7b field(1; No; Code) \x7b\x7d \x7d".toList)
    (Text.encodeUtf8 "tableextension 2 More extends Item \x7b field(2; Name; Text) \x7b\x7d \x7d".toList)

private theorem filesUnder_siblingTree (first second : Bytes) :
    (siblingTree first second).filesUnder "/r" = ["/r/Alpha/a.al", "/r/AlphaBeta/b.al"] := by
  have below : (siblingTree first second).below 4 ["r"] = [([], .directory), (["Alpha"], .directory),
      (["Alpha", "a.al"], .file first 1000), (["AlphaBeta"], .directory), (["AlphaBeta", "b.al"], .file second 1000)] := by
    have apps : (siblingTree first second).childNames ["r"] = ["Alpha", "AlphaBeta"] :=
      FileTree.childNames_of_sorted (by decide +kernel) rfl
    have alpha : (siblingTree first second).childNames ["r", "Alpha"] = ["a.al"] :=
      FileTree.childNames_of_sorted (List.pairwise_singleton ..) rfl
    have beta : (siblingTree first second).childNames ["r", "AlphaBeta"] = ["b.al"] :=
      FileTree.childNames_of_sorted (List.pairwise_singleton ..) rfl
    change ([], _) :: ((siblingTree first second).childNames ["r"]).flatMap _ = _
    rw [apps, List.flatMap_cons, List.flatMap_cons]
    change _ :: (List.map _ (([], _) :: ((siblingTree first second).childNames ["r", "Alpha"]).flatMap _) ++
      (List.map _ (([], _) :: ((siblingTree first second).childNames ["r", "AlphaBeta"]).flatMap _) ++ _)) = _
    rw [alpha, beta]
    rfl
  have walk : (siblingTree first second).walk "/r" =
      ((siblingTree first second).below 4 ["r"]).map fun entry => (entry.1.foldl Path.join "/r", entry.2) := rfl
  rw [FileTree.filesUnder, walk, below]
  rfl

private theorem mem_sourceFiles_siblings {path : Path} (member : path ∈ Source.sourceFiles siblings.tree "/r") :
    path = "/r/Alpha/a.al" ∨ path = "/r/AlphaBeta/b.al" := by
  have inside := (Source.mem_sourceFiles_iff.1 member).1
  rw [siblings, filesUnder_siblingTree] at inside
  simpa using inside

private theorem load_siblings : load siblings.tree "/c" = empty := by decide +kernel

private theorem cached_siblings : siblings.tree.isDirectory "/c" = true := by decide +kernel

private theorem prepared_siblings : Prepared "/r" "/c" siblings := by
  have exact : Json.Exact (watermarkOf 1000) := by
    have written : Json.renderFloat (watermarkOf 1000) = "1000.0" := by decide +kernel
    have whole : watermarkOf 1000 = .ofNat 1000 := by decide +kernel
    rw [Json.Exact, written, whole]
    rfl
  refine ⟨⟨rfl, nofun⟩, by decide +kernel, by decide, ⟨?_, ?_⟩, .inr cached_siblings, ?_, ?_⟩
  · intro path member
    obtain rfl | rfl := mem_sourceFiles_siblings member <;> exact ⟨_, rfl⟩
  · intro path member watermark found
    obtain rfl | rfl := mem_sourceFiles_siblings member <;>
    · cases found
      exact exact
  · rw [load_siblings]
    exact .empty
  · rw [load_siblings]
    nofun

private theorem admits_siblings : ∀ name ∈ copyNames, Admits siblings.tree "/c" name := by
  have free : ∀ name ∈ copyNames, ∀ file ∈ [name, temporaryName name],
      siblings.tree.locate (Path.join "/c" file) = .ok ["c", file] ∧ siblings.tree.node? ["c", file] ≠ some .directory := by
    decide +kernel
  intro name inside
  exact ⟨⟨_, free name inside name (by simp)⟩, _, free name inside (temporaryName name) (by simp)⟩

theorem siblings_do_not_lose_each_other : Prepared "/r" "/c" siblings ∧ ∃ first second whole,
    Requests "/r" "/c" siblings [some "Alpha", some "AlphaBeta"] first ∧
    Requests "/r" "/c" siblings [some "AlphaBeta", some "Alpha"] second ∧
    Requests "/r" "/c" siblings [none] whole ∧
    load first.tree "/c" = load second.tree "/c" ∧ load first.tree "/c" = load whole.tree "/c" := by
  obtain ⟨ordered, -, covered, exist⟩ := requests_do_not_lose_each_other prepared_siblings ["Alpha", "AlphaBeta"]
  obtain ⟨first, one⟩ := exist cached_siblings admits_siblings [some "Alpha", some "AlphaBeta"]
  obtain ⟨second, other⟩ := exist cached_siblings admits_siblings [some "AlphaBeta", some "Alpha"]
  obtain ⟨whole, all⟩ := exist cached_siblings admits_siblings [none]
  refine ⟨prepared_siblings, first, second, whole, one, other, all, ?_, ?_⟩
  · exact ordered _ ["AlphaBeta", "Alpha"] first second (.refl _) (.swap ..) one other
  · refine covered ?_ ?_ first whole one all
    · intro path member
      obtain rfl | rfl := mem_sourceFiles_siblings member <;> decide +kernel
    · rw [load_siblings]
      rintro path (marked | kept)
      · cases (show false = true from marked)
      · cases (show false = true from kept)

end SymbolCache.Worker
