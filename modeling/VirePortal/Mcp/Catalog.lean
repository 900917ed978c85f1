import VirePortal.Auth.Records

/-!
# The tool catalog

The catalog of vire-server and the tools that the portal makes of it (`catalog.go`, `tools.go`): the
checks of one entry, the loop over a catalog, and the table of registered tools, which holds one
tool of each name. A handler is represented by what it is made of.
-/

namespace VirePortal.Mcp

open Go Auth

/-- `CatalogParam`. -/
structure CatalogParam where
  name : Str
  type : Str := []
  description : Str := []
  required : Bool := false
  /-- The field `In`. -/
  location : Str := []
  defaultFrom : Str := []
  deriving DecidableEq

/-- `CatalogTool`. -/
structure CatalogTool where
  name : Str
  description : Str := []
  method : Str
  path : Str
  params : List CatalogParam := []
  deriving DecidableEq

/-- `allowedMethods`. -/
def allowedMethods : List Str :=
  ["GET", "POST", "PUT", "PATCH", "DELETE"]

/-- What `ValidateCatalogTool` reports, with what its message quotes. -/
inductive CatalogError where
  | emptyName
  | emptyMethod (name : Str)
  | unsupportedMethod (name method : Str)
  | emptyPath (name : Str)
  | outsideAPI (name path : Str)
  | dots (name path : Str)
  deriving DecidableEq

/-- `ValidateCatalogTool`, with the error that it returns. -/
def validateCatalogTool (ct : CatalogTool) : Option CatalogError :=
  if ct.name = [] then some .emptyName
  else if ct.method = [] then some (.emptyMethod ct.name)
  else if upperASCII ct.method ∉ allowedMethods then some (.unsupportedMethod ct.name ct.method)
  else if ct.path = [] then some (.emptyPath ct.name)
  else if hasPrefix ct.path "/api/" = false then some (.outsideAPI ct.name ct.path)
  else if contains ct.path ".." then some (.dots ct.name ct.path)
  else none

/-- The loop of `ValidateCatalog`, with the names that it has seen and the entries that it keeps. -/
def validateLoop : List CatalogTool → List Str → List CatalogTool → List CatalogTool
  | [], _, valid => valid
  | ct :: catalog, seen, valid =>
    if validateCatalogTool ct ≠ none then validateLoop catalog seen valid
    else if ct.name ∈ seen then validateLoop catalog seen valid
    else validateLoop catalog (ct.name :: seen) (valid ++ [ct])

/-- `ValidateCatalog`. -/
def validateCatalog (catalog : List CatalogTool) : List CatalogTool := validateLoop catalog [] []

/-- The type of a parameter of an MCP tool. -/
inductive ParamType where
  | string
  | number
  | boolean
  | array
  deriving DecidableEq

/-- A parameter of an MCP tool. -/
structure ToolParam where
  name : Str
  type : ParamType
  description : Str
  required : Bool
  deriving DecidableEq

/-- `mcp.Tool`, as `mcp.NewTool` gets it. -/
structure Tool where
  name : Str
  description : Str
  params : List ToolParam
  deriving DecidableEq

/-- `buildParamOption`. -/
def buildParamOption (p : CatalogParam) : ToolParam where
  name := p.name
  type := if p.type = "number" then .number
    else if p.type = "boolean" then .boolean
    else if p.type = "array" then .array
    else .string
  description := p.description
  required := p.required

/-- `BuildMCPTool`. -/
def buildMCPTool (ct : CatalogTool) : Tool where
  name := ct.name
  description := ct.description
  params := (ct.params.filter fun p =>
    p.location = ascii "path" || p.location = ascii "query" || p.location = ascii "body").map
      buildParamOption

/-- A handler, by what it is made of. -/
inductive ToolHandler where
  /-- `GenericToolHandler`. -/
  | generic (ct : CatalogTool)
  /-- `VersionToolHandler`. -/
  | version
  /-- `GetPageToolHandler`. -/
  | getPage
  deriving DecidableEq

/-- `server.ServerTool`. -/
structure ServerTool where
  tool : Tool
  handler : ToolHandler
  deriving DecidableEq

/-- The tool of an entry of the catalog. -/
def catalogServerTool (ct : CatalogTool) : ServerTool := ⟨buildMCPTool ct, .generic ct⟩

/-- `VersionTool` with its handler. -/
def versionTool : ServerTool where
  tool := ⟨"get_version",
    "Get Vire MCP server version and status. Use this to verify connectivity.", []⟩
  handler := .version

/-- `GetPageTool` with its handler. -/
def getPageTool : ServerTool where
  tool := ⟨"portal_get_page",
    ascii ("Fetch a rendered portal page as HTML. Returns the full HTML of the requested page " ++
      "as seen by the authenticated user. Use this to review page layout, content accuracy, " ++
      "and data rendering without requiring screenshots."),
    [⟨"page", .string, ascii ("Page to fetch. One of: dashboard, strategy, cash, glossary, " ++
      "changelog, help, mcp-info, profile, docs"), true⟩]⟩
  handler := .getPage

/-- `AddTool`: a tool takes the place of one of the same name. -/
def addTool (tools : Table ServerTool) (t : ServerTool) : Table ServerTool :=
  tools.insert t.tool.name t

/-- `SetTools`. -/
def setTools (ts : List ServerTool) : Table ServerTool := ts.foldl addTool ∅

/-- The list that `RefreshCatalog` registers. -/
def catalogServerTools (validated : List CatalogTool) : List ServerTool :=
  validated.map catalogServerTool ++ [versionTool, getPageTool]

/-- The tools of a catalog. -/
def toolsOf (catalog : List CatalogTool) : Table ServerTool :=
  setTools (catalogServerTools (validateCatalog catalog))

end VirePortal.Mcp
