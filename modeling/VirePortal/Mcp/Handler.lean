import VirePortal.Concurrent.Alone
import VirePortal.Mcp.Catalog

/-!
# The MCP handler and its watcher

`NewHandler`, `RefreshCatalog` and one turn of the loop of `watchServerVersion` (`handler.go`) as
programs over the requests to vire-server and the changes of the registry. vire-server goes through
a sequence of builds, each with its catalog (`Upstream`), and may go on to the next one between any
two operations.
-/

namespace VirePortal.Mcp

open Go Auth Concurrent

/-- The builds that vire-server runs one after the other, and the catalog of each build. -/
structure Upstream where
  builds : ℕ → Str
  catalog : Str → List CatalogTool

/-- The handler's registry, and what vire-server runs. -/
structure HandlerState where
  /-- The number of the build that vire-server runs. -/
  release : ℕ := 0
  /-- The tools of `mcpSrv`. -/
  tools : Table ServerTool := ∅
  /-- `Handler.catalog`. -/
  catalog : List CatalogTool := []
  /-- The builds at which the build was fetched, the last one first. -/
  versions : List ℕ := []
  /-- The builds at which the catalog was fetched, the last one first. -/
  catalogs : List ℕ := []

/-- The operations. -/
inductive HandlerOp where
  /-- `FetchCatalog`. -/
  | fetchCatalog
  /-- `fetchServerBuild`. -/
  | fetchServerBuild
  /-- `AddTool`. -/
  | addTool (t : ServerTool)
  /-- `SetTools`. -/
  | setTools (ts : List ServerTool)
  /-- The assignment of `Handler.catalog`. -/
  | setCatalog (catalog : List CatalogTool)

/-- What a program receives from an operation. `FetchCatalog` may return an error, and
`fetchServerBuild` the empty string. -/
@[reducible]
def HandlerReply : HandlerOp → Type
  | .fetchCatalog => Option (List CatalogTool)
  | .fetchServerBuild => Str
  | .addTool _ => Unit
  | .setTools _ => Unit
  | .setCatalog _ => Unit

/-- What an operation replies and does. The environment decides whether a request succeeds. -/
def handlerExec (up : Upstream) :
    (o : HandlerOp) → Bool → HandlerState → HandlerReply o × HandlerState
  | .fetchCatalog, true, s =>
    (some (up.catalog (up.builds s.release)), { s with catalogs := s.release :: s.catalogs })
  | .fetchCatalog, false, s => (none, s)
  | .fetchServerBuild, true, s =>
      (up.builds s.release, { s with versions := s.release :: s.versions })
  | .fetchServerBuild, false, s => ([], s)
  | .addTool t, _, s => ((), { s with tools := addTool s.tools t })
  | .setTools ts, _, s => ((), { s with tools := Mcp.setTools ts })
  | .setCatalog catalog, _, s => ((), { s with catalog := catalog })

/-- A program over the operations. -/
abbrev H := Prog HandlerOp HandlerReply

/-- The program of one operation. -/
def act (o : HandlerOp) : H (HandlerReply o) := .call o

/-- The loop of `NewHandler` that fetches the catalog, with the attempts that are left, and with the
catalog and whether the last attempt failed. -/
def fetchLoop : ℕ → List CatalogTool × Bool → H (List CatalogTool × Bool)
  | 0, last => return last
  | attempts + 1, _ => do
    match ← act .fetchCatalog with
    | some catalog => return (catalog, false)
    | none => fetchLoop attempts ([], true)

/-- `RegisterToolsFromCatalog`. -/
def registerToolsFromCatalog : List CatalogTool → H Unit
  | [] => return ()
  | ct :: catalog => do
    act (.addTool (catalogServerTool ct))
    registerToolsFromCatalog catalog

/-- `NewHandler`, with `CatalogRetries`. -/
def newHandler (catalogRetries : ℤ) : H Unit := do
  let (catalog, failed) ← fetchLoop catalogRetries.toNat ([], false)
  let validated := if failed then [] else validateCatalog catalog
  registerToolsFromCatalog validated
  act (.addTool versionTool)
  act (.addTool getPageTool)
  act (.setCatalog validated)

/-- `RefreshCatalog`, with whether it returns no error. -/
def refreshCatalog : H Bool := do
  match ← act .fetchCatalog with
  | none => return false
  | some catalog =>
    let validated := validateCatalog catalog
    act (.setTools (catalogServerTools validated))
    act (.setCatalog validated)
    return true

/-- `NewHandler` and the start of `watchServerVersion`, which returns `lastBuild`. -/
def start (catalogRetries : ℤ) : H Str := do
  newHandler catalogRetries
  act .fetchServerBuild

/-- One poll of `watchServerVersion`, with `lastBuild` before and after it. -/
def poll (lastBuild : Str) : H Str := do
  let build ← act .fetchServerBuild
  if build = [] then return lastBuild
  else if lastBuild = [] then
    let _ ← refreshCatalog
    return build
  else if build ≠ lastBuild then
    let _ ← refreshCatalog
    return build
  else return lastBuild

end VirePortal.Mcp
