import SymbolCache.Command.Script

/-!
Commands that bring the cache and the field index up to date, and the one that empties them.
-/

namespace SymbolCache.Command

def failureLine (report : Refresh.PackageReport) : String :=
  "  " ++ report.artifact.fileName ++ " " ++
    (if report.benign then "skipped (not a package)" else "failed") ++ ": " ++
    report.error.getD "unknown error"

def describeRefresh (report : Refresh.Report) : Script Unit := do
  Script.emit [.text ("Refreshed " ++ toString report.artifacts.length ++ " packages in "), .elapsed,
    .text ("s: " ++ toString (report.count .succeeded) ++ " succeeded, " ++
      toString (report.count .skipped) ++ " skipped, " ++ toString (report.count .failed) ++
      " failed\n")]
  Script.say ("Cache holds " ++ toString report.objectCount ++ " objects and " ++
    toString report.procedureCount ++ " procedures")
  report.failures.forM fun item => Script.say (failureLine item)

/-- Refreshes a project. Packages that fail make the command fail, files that are no archives do
not. -/
def refresh (environment : Environment) (dir : Path) : Script Unit := do
  let project ← Project.load environment dir
  let store ← project.openStore
  let result := Refresh.refresh project.coordinator store (← Script.files)
  Script.setFiles result.tree
  Script.complain (result.coordinator.log.map .log)
  match result.report with
  | none => Script.say "A refresh is already running"
  | some report =>
    describeRefresh report
    let failed := (report.failures.filter fun item => !item.benign).length
    if 0 < failed then Script.fail (toString failed ++ " packages failed to refresh")

def updateFields (environment : Environment) (dir : Path) (app : Option String) : Script Unit := do
  let project ← Project.load environment dir
  let (result, coordinator, tree) := project.coordinator.updateFields app (← Script.files)
  Script.setFiles tree
  Script.complain (coordinator.log.map .log)
  let index ← Script.take WorkerError.chain result
  Script.say ("Field index: " ++ toString index.tableFields.size ++ " tables, " ++
    toString index.pageSources.size ++ " pages, " ++ toString index.watermarks.size ++
    " source files")

/-- Empties the cache of a project and, if asked to, its field index. -/
def clear (environment : Environment) (dir : Path) (fields : Bool) : Script Unit := do
  let project ← Project.load environment dir
  let store ← project.openStore
  Script.onFiles (fun cause => "Failed to clear symbol cache" :: SnapshotError.chain cause)
    store.cleared.save
  Script.say ("Cleared " ++ toString store.objects.size ++ " objects")
  if fields then
    Script.onFiles (fun cause => "Failed to clear field index" :: SnapshotError.chain cause)
      (FieldIndex.empty.save project.options.cacheDir)
    Script.say "Cleared field index"

end SymbolCache.Command
