import VirePortal.Mcp.ToolPath

/-!
# The values of a tool's parameters

Two values that `GenericToolHandler` passes on, and where they change on the way.

A parameter without an argument takes the default portfolio, which `resolveDefaultPortfolio` reads
from the header that `NewMCPProxy` made of the configured names. The names are joined by commas and
cut at the first one, so the first name comes back exactly when it has no comma
(`default_portfolio_iff`). The one list that gives an empty header, a single empty name, counts as
no configuration.

A number is a `float64` between the arguments and the request. Into the body it goes by
`encoding/json`, which writes an integer of this size in full, and into the path and the query by
`fmt.Sprint`, which writes an exponent from a million on. So vire-server reads the same integer on
every channel exactly below a million (`integer_received`). What both packages document about
numbers is `Documented`.
-/

namespace VirePortal.Mcp.ParamValues

open Go Auth Concurrent

/-! ### The default portfolio -/

section DefaultPortfolio

variable {lib : Lib} {p : MCPProxy} {user : Option Str} {args : Table Json} {param : CatalogParam}
  {serverURL : Str} {cfg : ProxyConfig} {first : Str} {rest : List Str}

/-- The header with the names. -/
def joined (names : List Str) : Str := (names.intersperse [44]).flatten

/-- The first name and the rest. -/
theorem joined_cons (first : Str) (rest : List Str) :
    joined (first :: rest) = first ++ if rest = [] then [] else 44 :: joined rest := by
  cases rest with
  | nil => simp [joined]
  | cons name rest => simp [joined]

/-- Only the one empty name is joined to nothing. -/
theorem joined_eq_nil : joined (first :: rest) = [] ↔ first :: rest = [[]] := by
  rw [joined_cons]
  by_cases hrest : rest = []
  · simp [hrest]
  · simp [hrest]

/-- The text before the first comma is that of the first name. -/
theorem cut_joined (first : Str) (rest : List Str) :
    (cut 44 (joined (first :: rest))).1 = (cut 44 first).1 := by
  rw [joined_cons]
  by_cases hcomma : 44 ∈ first
  · rw [cut_append_of_mem hcomma]
  · rw [cut_append hcomma, cut_of_not_mem hcomma]
    split_ifs
    · exact List.append_nil first
    · exact List.append_nil first

/-- A text without the separator is not cut. -/
theorem cut_fst_eq_self {sep : UInt8} {s : Str} : (cut sep s).1 = s ↔ sep ∉ s := by
  constructor
  · intro h hmem
    have hlt := cut_fst_length hmem
    rw [h] at hlt
    exact lt_irrefl _ hlt
  · intro h
    rw [cut_of_not_mem h]

/-- The header is there under its name, whatever the others are. -/
theorem portfolios_newMCPProxy (hcfg : cfg.portfolios = first :: rest) :
    (newMCPProxy serverURL cfg).userHeaders.get "X-Vire-Portfolios" = joined (first :: rest) := by
  have hlength : 0 < cfg.portfolios.length := by rw [hcfg]; exact Nat.succ_pos _
  unfold newMCPProxy
  dsimp only
  rw [if_pos hlength, Header.get_set_of_ne _ (by decide), Header.get_set_of_ne _ (by decide),
    Header.get_set_of_ne _ (by decide), hcfg]
  split_ifs
  · rw [Header.get_set_of_ne _ (by decide), Header.get_set_self]
    rfl
  · rw [Header.get_set_self]
    rfl

/-- The names are read from the header, unless there is only an empty one. -/
theorem resolveDefaultPortfolio_newMCPProxy (hcfg : cfg.portfolios = first :: rest)
    (hne : cfg.portfolios ≠ [[]]) :
    resolveDefaultPortfolio lib (newMCPProxy serverURL cfg) user = pure (cut 44 first).1 := by
  have hheader : joined (first :: rest) ≠ [] := fun h => hne (hcfg.trans (joined_eq_nil.1 h))
  unfold resolveDefaultPortfolio
  dsimp only
  rw [portfolios_newMCPProxy hcfg, if_pos hheader, cut_joined]

/-- For one empty name vire-server is asked, if the URL of the request can be parsed. -/
theorem resolveDefaultPortfolio_empty (hcfg : cfg.portfolios = [[]]) :
    resolveDefaultPortfolio lib (newMCPProxy serverURL cfg) user = pure [] ↔
      URL.parse (serverURL ++ "/api/portfolios/default") = none := by
  have hurl : (newMCPProxy serverURL cfg).serverURL = serverURL := rfl
  unfold resolveDefaultPortfolio Mcp.get send
  dsimp only
  rw [portfolios_newMCPProxy hcfg, if_neg (not_not.2 (joined_eq_nil.2 rfl)), hurl]
  cases URL.parse (serverURL ++ "/api/portfolios/default") with
  | none => exact iff_of_true rfl rfl
  | some url => exact iff_of_false (nofun) (Option.some_ne_none url)

/-- For every list of configured names, and every call that leaves the parameter to the default
portfolio: the parameter's value is the first name exactly when that has no comma, and is not the
only one and empty. Of one empty name this is true only if vire-server cannot be asked instead. -/
theorem default_portfolio_iff (hcfg : cfg.portfolios = first :: rest)
    (hgiven : givenValue args param = none)
    (hdefault : param.defaultFrom = "user_config.default_portfolio") :
    resolveParamValue lib (newMCPProxy serverURL cfg) user args param = pure (.string first) ↔
      44 ∉ first ∧
        (cfg.portfolios = [[]] → URL.parse (serverURL ++ "/api/portfolios/default") = none) := by
  have hsome : param.defaultFrom ≠ [] := hdefault ▸ by decide
  have hvalue : resolveParamValue lib (newMCPProxy serverURL cfg) user args param =
      pure (.string first) ↔
      resolveDefaultPortfolio lib (newMCPProxy serverURL cfg) user = pure first := by
    unfold resolveParamValue resolveDefaultValue
    rw [hgiven]
    dsimp only
    rw [if_pos hsome, if_pos hdefault]
    cases resolveDefaultPortfolio lib (newMCPProxy serverURL cfg) user with
    | ret portfolio =>
      constructor
      · intro h
        exact congrArg Prog.ret (Json.string.inj (Prog.ret.inj h))
      · intro h
        rw [Prog.ret.inj h]
        rfl
    | op o k => exact iff_of_false nofun nofun
  rw [hvalue]
  -- One empty name makes an empty header, which counts as none.
  by_cases hempty : cfg.portfolios = [[]]
  · obtain ⟨rfl, -⟩ := List.cons.inj (hcfg.symm.trans hempty)
    rw [resolveDefaultPortfolio_empty hempty]
    simp [hempty]
  · rw [resolveDefaultPortfolio_newMCPProxy hcfg hempty, and_iff_left (absurd · hempty),
      ← cut_fst_eq_self]
    exact ⟨fun h => Prog.ret.inj h, fun h => by rw [h]⟩

/-- A parameter that takes the default portfolio. -/
def portfolioParam : CatalogParam where
  name := "portfolio_name"
  type := "string"
  location := "path"
  defaultFrom := "user_config.default_portfolio"

/-- A configuration with the given names. -/
def configured (names : List Str) : ProxyConfig where
  portfolios := names
  version := ⟨[], [], []⟩

/-- The first of two plain names. -/
theorem default_portfolio_iff_two :
    resolveParamValue plainLib (newMCPProxy "http://vire" (configured ["SMSF", "Trust"])) none ∅
      portfolioParam = pure (.string "SMSF") :=
  (default_portfolio_iff rfl rfl rfl).2 ⟨by decide, fun h => absurd h (by decide)⟩

/-- A library that reads one answer. -/
def answerLib : Lib where
  codec := { plainLib.codec with
    unmarshal := fun s => if s = [1] then some (.object [("default", .string "Other")])
      else none }
  format := plainLib.format
  quote := plainLib.quote
  urlError := plainLib.urlError
  marshalMap := plainLib.marshalMap
  marshalLoopback := plainLib.marshalLoopback
  marshalVersions := plainLib.marshalVersions

/-- The reply of vire-server with that answer. -/
def answering : (o : McpOp) → McpReply o
  | .now => 0
  | .exchange _ => .reply 200 [1]
  | .loopback _ => .reply 200 [1]
  | .streamable _ => []

/-- A name with a comma comes back without its end, and an empty name as the default of
vire-server. -/
theorem default_portfolio_cut :
    validHeaderFieldValue "Smith, J" = true ∧
      resolveParamValue plainLib (newMCPProxy "http://vire" (configured ["Smith, J"])) none ∅
        portfolioParam = pure (.string "Smith") ∧
      ascii "Smith" ≠ "Smith, J" ∧
      ∃ ops, (resolveParamValue answerLib (newMCPProxy "http://vire" (configured [[]])) none ∅
        portfolioParam).Does ops (.string "Other") := by
  refine ⟨by decide, rfl, by decide, ?_⟩
  exact ⟨_, Prog.does_answer answering _⟩

end DefaultPortfolio

/-! ### Integers as texts -/

/-- The digits of an exponent, at least two. -/
def exponentText (e : ℕ) : Str := if e < 10 then 48 :: formatNat e else formatNat e

/-- A number in scientific notation with as few digits as are needed, the format `%e`. -/
def scientific (n : ℕ) : Str :=
  let digits := ((formatNat n).reverse.dropWhile (· = 48)).reverse
  digits.take 1 ++ (if digits.length ≤ 1 then [] else 46 :: digits.drop 1) ++ "e+" ++
    exponentText ((formatNat n).length - 1)

/-- `fmt.Sprint` of the `float64` of an integer below `2 ^ 53`, the format `%g`: in scientific
notation when the exponent is 6 or more. -/
def sprintFloat (z : ℤ) : Str :=
  if z.natAbs < 10 ^ 6 then formatInt z else (if z < 0 then [45] else []) ++ scientific z.natAbs

example : sprintFloat 999999 = "999999" ∧ sprintFloat (-1234500) = "-1.2345e+06" ∧
    sprintFloat 40000000000 = "4e+10" := by decide

/-- A number has digits. -/
theorem formatInt_ne_nil (z : ℤ) : formatInt z ≠ [] := by
  obtain ⟨d, s, hs, -⟩ := formatNat_head z.natAbs
  unfold formatInt
  split_ifs
  · simp
  · simp [hs]

/-- A number has digits. -/
theorem sprintFloat_ne_nil (z : ℤ) : sprintFloat z ≠ [] := by
  unfold sprintFloat
  split_ifs
  · exact formatInt_ne_nil z
  · simp [scientific, ascii]
  · simp [scientific, ascii]

/-- A byte that is no digit is refused. -/
theorem parseDigits_eq_none {s : Str} {c : UInt8} (hc : c ∈ s)
    (hdigit : isDigit c = false) (acc : ℕ) :
    parseDigits acc s = none := by
  induction s generalizing acc with
  | nil => cases hc
  | cons b s ih =>
    rw [parseDigits]
    rcases List.mem_cons.1 hc with rfl | hc
    · rw [hdigit]
      rfl
    · split_ifs
      · exact ih hc _
      · rfl

/-- A text with a byte that is neither a digit nor a minus sign is no decimal integer. -/
theorem parseInt64_eq_none {s : Str} {c : UInt8} (hc : c ∈ s) (hdigit : isDigit c = false)
    (hminus : c ≠ 45) :
    parseInt64 s = none := by
  unfold parseInt64
  split
  · rfl
  · rename_i digits
    have hmem : c ∈ digits := (List.mem_cons.1 hc).resolve_left hminus
    simp [parseDigits_eq_none hmem hdigit]
  · simp [parseDigits_eq_none hc hdigit]

/-- What `fmt.Sprint` prints is the decimal integer exactly below a million. -/
theorem parseInt64_sprintFloat {z : ℤ} :
    parseInt64 (sprintFloat z) = some z ↔ z.natAbs < 10 ^ 6 := by
  unfold sprintFloat
  by_cases hsmall : z.natAbs < 10 ^ 6
  · rw [if_pos hsmall]
    refine iff_of_true (parseInt64_formatInt ?_ ?_) hsmall
    · omega
    · omega
  · rw [if_neg hsmall]
    -- the letter of the exponent
    have hexponent : 101 ∈ (if z < 0 then [45] else []) ++ scientific z.natAbs := by
      simp [scientific, ascii]
    rw [parseInt64_eq_none hexponent (by decide) (by decide)]
    exact iff_of_false (Option.some_ne_none z).symm hsmall

/-! ### Integers as arguments -/

/-- What the packages document about numbers, which are read into `float64`: `fmt` prints them with
`%g`, and `encoding/json` writes the members of a map under their names, and a number below `1e21`
in full. -/
structure Documented (lib : Lib) : Prop where
  sprint : ∀ z : ℤ, z.natAbs < 2 ^ 53 → lib.format (.number (formatInt z)) = sprintFloat z
  marshal : ∀ (body : Table Json) (text : Str), (∀ name ∈ body, validUTF8 name = true) →
    lib.marshalMap body = .ok text → ∃ members, lib.codec.unmarshal text = some (.object members) ∧
      ∀ (name : Str) (z : ℤ), z.natAbs < 2 ^ 53 → body.lookup name = some (.number (formatInt z)) →
        ∀ v, (name, v) ∈ members ↔ v = .number (formatInt z)

/-- What vire-server receives for a parameter: its text in the segments of the path, the one value
of its name in the query, or the literal of its member in the body. -/
structure Receives (lib : Lib) {names : List Str} (t : Template names) (b : Base)
    (value : Str → Option Str) (queryParams : Values) (req : OutRequest) (param : CatalogParam)
    (text : Str) : Prop where
  path : param.location = "path" →
    t.Preserved b value queryParams req.url ∧ value param.name = some text
  query : param.location = "query" → req.url.query.values param.name = [text]
  body : param.location = "body" → ∃ body members, req.body = some body ∧
    lib.codec.unmarshal body = some (.object members) ∧ ∀ v, (param.name, v) ∈ members ↔
      v = .number text

section Loop

variable {lib : Lib} {p : MCPProxy} {user : Option Str} {args : Table Json}
  {params : List CatalogParam}
  {parts parts' : Parts} {ops : List ((o : McpOp) × McpReply o)} {param : CatalogParam}
    {name : Str} {z : ℤ}

/-- The argument of a parameter of type `number` is its value. -/
theorem resolveParamValue_number (htype : param.type = "number") {v : Json}
    (hgiven : args.lookup param.name = some v) :
    resolveParamValue lib p user args param = pure v := by
  unfold resolveParamValue givenValue
  rw [htype, if_pos (.head _), hgiven]

/-- The text of an integer. -/
theorem textOf_number (hlib : Documented lib) (hz : z.natAbs < 2 ^ 53) :
    lib.textOf (.number (formatInt z)) = some (sprintFloat z) := by
  have hsprint : lib.sprint (.number (formatInt z)) = sprintFloat z := hlib.sprint z hz
  unfold Lib.textOf
  dsimp only
  rw [hsprint, if_neg (sprintFloat_ne_nil z)]

/-- A turn of the loop leaves the other names alone. -/
theorem applyParam_frame {val : Json} (h : applyParam lib param val parts = .ok parts')
    (hname : param.name ≠ name) :
    parts'.queryParams.values name = parts.queryParams.values name ∧
      parts'.bodyParams.lookup name = parts.bodyParams.lookup name := by
  rcases applyParam_cases h with ⟨rfl, -, -⟩ | ⟨-, strVal, -, rfl⟩ |
    ⟨-, strVal, -, rfl⟩ | ⟨-, -, rfl⟩
  · exact ⟨rfl, rfl⟩
  · exact ⟨rfl, rfl⟩
  · refine ⟨?_, rfl⟩
    rw [Values.values_set, if_neg hname]
  · exact ⟨rfl, AList.lookup_insert_ne hname.symm⟩

variable (hdoes : (resolveParams lib p user args params parts).Does ops (.ok parts'))
include hdoes

/-- The loop leaves the names alone that its parameters do not have. -/
theorem resolveParams_frame (hname : name ∉ params.map CatalogParam.name) :
    parts'.queryParams.values name = parts.queryParams.values name ∧
      parts'.bodyParams.lookup name = parts.bodyParams.lookup name := by
  induction params generalizing parts ops with
  | nil =>
    obtain ⟨-, hparts⟩ := hdoes
    cases hparts
    exact ⟨rfl, rfl⟩
  | cons param params ih =>
    obtain ⟨ops1, val, ops2, parts1, -, -, happly, hrest⟩ := does_resolveParams_cons.1 hdoes
    rw [List.map_cons, List.mem_cons, not_or] at hname
    obtain ⟨hquery, hbody⟩ := ih hrest hname.2
    obtain ⟨hquery1, hbody1⟩ := applyParam_frame happly (Ne.symm hname.1)
    exact ⟨hquery.trans hquery1, hbody.trans hbody1⟩

/-- When the names are distinct, what the loop has for a parameter at its end comes from the
parameter's turn. -/
theorem exists_turn (hnodup : (params.map CatalogParam.name).Nodup) (hparam : param ∈ params) :
    ∃ ops1 val parts1 parts2, (resolveParamValue lib p user args param).Does ops1 val ∧
      applyParam lib param val parts1 = .ok parts2 ∧
      parts'.queryParams.values param.name = parts2.queryParams.values param.name ∧
      parts'.bodyParams.lookup param.name = parts2.bodyParams.lookup param.name := by
  induction params generalizing parts ops with
  | nil => cases hparam
  | cons q params ih =>
    obtain ⟨ops1, val, ops2, parts1, -, hval, happly, hrest⟩ := does_resolveParams_cons.1 hdoes
    rw [List.map_cons, List.nodup_cons] at hnodup
    rcases List.mem_cons.1 hparam with rfl | hparam
    · exact ⟨ops1, val, parts, parts1, hval, happly, resolveParams_frame hrest hnodup.1⟩
    · exact ih hrest hnodup.2 hparam

/-- An integer that is given for a query parameter is its value in the query, as `fmt` prints it. -/
theorem queryParams_number (hlib : Documented lib) (hnodup : (params.map CatalogParam.name).Nodup)
    (hparam : param ∈ params) (htype : param.type = "number")
    (hquery : param.location = "query") (hz : z.natAbs < 2 ^ 53)
    (hgiven : args.lookup param.name = some (.number (formatInt z))) :
    parts'.queryParams.values param.name = [sprintFloat z] := by
  obtain ⟨ops1, val, parts1, parts2, hval, happly, hlast, -⟩ := exists_turn hdoes hnodup hparam
  rw [resolveParamValue_number htype hgiven] at hval
  obtain ⟨-, rfl⟩ := hval
  rw [hlast]
  rcases applyParam_cases happly with ⟨-, hnone, -⟩ | ⟨hpath, -⟩ | ⟨-, strVal, htext,
    rfl⟩ | ⟨hbody, -⟩
  · exact absurd (hnone (.inr hquery)) (by simp [textOf_number hlib hz])
  · exact absurd (hpath.symm.trans hquery) (by decide)
  · rw [textOf_number hlib hz, Option.some.injEq] at htext
    rw [Values.values_set, if_pos rfl, htext]
  · exact absurd (hbody.symm.trans hquery) (by decide)

/-- An integer that is given for a body parameter is its member of the body. -/
theorem bodyParams_number (hnodup : (params.map CatalogParam.name).Nodup) (hparam : param ∈ params)
    (htype : param.type = "number") (hbody : param.location = "body")
    (hgiven : args.lookup param.name = some (.number (formatInt z))) :
    parts'.bodyParams.lookup param.name = some (.number (formatInt z)) := by
  obtain ⟨ops1, val, parts1, parts2, hval, happly, -, hlast⟩ := exists_turn hdoes hnodup hparam
  rw [resolveParamValue_number htype hgiven] at hval
  obtain ⟨-, rfl⟩ := hval
  rw [hlast]
  rcases applyParam_cases happly with ⟨-, -, hnull⟩ | ⟨hpath, -⟩ | ⟨hquery, -⟩ | ⟨-, -, rfl⟩
  · cases hnull hbody
  · exact absurd (hpath.symm.trans hbody) (by decide)
  · exact absurd (hquery.symm.trans hbody) (by decide)
  · exact AList.lookup_insert _

/-- The query parameters have distinct names. -/
theorem distinct_queryParams (hparts : parts.queryParams.Distinct) :
    parts'.queryParams.Distinct := by
  induction params generalizing parts ops with
  | nil =>
    obtain ⟨-, h⟩ := hdoes
    cases h
    exact hparts
  | cons param params ih =>
    obtain ⟨ops1, val, ops2, parts1, -, -, happly, hrest⟩ := does_resolveParams_cons.1 hdoes
    refine ih hrest ?_
    rcases applyParam_cases happly with ⟨rfl, -, -⟩ | ⟨-, strVal, -, rfl⟩ |
      ⟨-, strVal, -, rfl⟩ | ⟨-, -, rfl⟩
    · exact hparts
    · exact hparts
    · exact hparts.set _ _
    · exact hparts

/-- The members of the body are named by parameters. -/
theorem mem_bodyParams (hname : name ∈ parts'.bodyParams) :
    name ∈ parts.bodyParams ∨ name ∈ params.map CatalogParam.name := by
  by_cases hmem : name ∈ params.map CatalogParam.name
  · exact .inr hmem
  · left
    obtain ⟨-, hlookup⟩ := resolveParams_frame hdoes hmem
    rw [← AList.lookup_isSome] at hname ⊢
    rwa [hlookup] at hname

end Loop

/-! ### The body of a request -/

section Body

variable {lib : Lib} {p : MCPProxy} {user : Option Str}

/-- A request with this body. -/
def Carries (body : Option Str) : McpOp → Prop
  | .exchange req => req.body = body
  | _ => False

/-- A request carries the body. -/
theorem all_send_carries (method path : Str) (header : Header) (body : Option Str) :
    (send lib p user method path header body).All (Carries body) := by
  unfold send
  cases URL.parse (p.serverURL ++ path) with
  | none => trivial
  | some url =>
    refine Prog.all_bind ((Prog.all_call ..).2 rfl) fun reply => ?_
    cases reply with
    | failed text => trivial
    | unreadable text => trivial
    | reply statusCode body =>
      dsimp only
      split_ifs
      · trivial
      · trivial

/-- A request that is made of data has the data as its body. -/
theorem body_of_doJSON {method path : Str} {data : Table Json} {req : OutRequest} {reply : OutReply}
    {result : Except Str Str}
    (h : (doJSON lib p user method path (some data)).Does [⟨.exchange req, reply⟩] result) :
    ∃ text, lib.marshalMap data = .ok text ∧ req.body = some text := by
  unfold doJSON at h
  dsimp only at h
  cases hmarshal : lib.marshalMap data with
  | error text =>
    rw [hmarshal] at h
    obtain ⟨hnil, -⟩ := h
    cases hnil
  | ok text =>
    rw [hmarshal] at h
    exact ⟨text, rfl, h.all (all_send_carries ..) _ (.head _)⟩

/-- The methods with a body. -/
def bodyMethods : List Str := ["POST", "PUT", "PATCH"]

/-- The body has the parameters. -/
theorem body_of_sendParts {method : Str} {parts : Parts} {req : OutRequest} {reply : OutReply}
    {result : Except Str Str} (hmethod : upperASCII method ∈ bodyMethods) {name : Str}
    (hname : name ∈ parts.bodyParams)
    (h : (sendParts lib p user method parts).Does [⟨.exchange req, reply⟩] result) :
    ∃ text, lib.marshalMap parts.bodyParams = .ok text ∧ req.body = some text := by
  have hbody : bodyOrNil parts.bodyParams = some parts.bodyParams := by
    unfold bodyOrNil
    rw [if_neg]
    intro hlength
    have hnil : parts.bodyParams.keys = [] := by
      rw [AList.keys, List.length_eq_zero_iff.1 hlength]
      rfl
    rw [AList.mem_keys, hnil] at hname
    cases hname
  unfold sendParts at h
  simp only [bodyMethods, List.mem_cons, List.not_mem_nil, or_false] at hmethod
  rcases hmethod with hmethod | hmethod | hmethod
  · rw [hmethod, if_neg (by decide), if_pos rfl, hbody] at h
    exact body_of_doJSON h
  · rw [hmethod, if_neg (by decide), if_neg (by decide), if_pos rfl, hbody] at h
    exact body_of_doJSON h
  · rw [hmethod, if_neg (by decide), if_neg (by decide), if_neg (by decide), if_pos rfl, hbody] at h
    exact body_of_doJSON h

end Body

/-! ### Integers on every channel -/

/-- The text of an integer on the channel of a parameter. -/
def channelText (param : CatalogParam) (z : ℤ) : Str :=
  if param.location = "body" then formatInt z else sprintFloat z

/-- The text is read back as the integer in the body, and elsewhere below a million. -/
theorem parseInt64_channelText (param : CatalogParam) {z : ℤ} (hz : z.natAbs < 2 ^ 53) :
    parseInt64 (channelText param z) = some z ↔ param.location = "body" ∨ z.natAbs < 10 ^ 6 := by
  rw [channelText]
  by_cases hbody : param.location = "body"
  · rw [if_pos hbody]
    exact iff_of_true (parseInt64_formatInt (by omega) (by omega)) (.inl hbody)
  · rw [if_neg hbody, parseInt64_sprintFloat]
    exact (or_iff_right hbody).symm

/-- For every tool with distinct parameter names whose path is a template that the values of the
call fit, and every parameter of type `number` with an integer below `2 ^ 53` as its argument:
vire-server receives the integer as the text of its channel, and this is the decimal integer exactly
in the body, or below a million. -/
theorem integer_received {b : Base} {lib : Lib} {p : MCPProxy} {user : Option Str}
    {ct : CatalogTool} {args : Table Json} {ops : List ((o : McpOp) × McpReply o)} {parts : Parts}
    {req : OutRequest} (hlib : Documented lib) (hserver : p.serverURL = b.apiURL)
    (hvalid : validateCatalogTool ct = none) (hdistinct : (ct.params.map CatalogParam.name).Nodup)
    (hutf8 : ∀ param ∈ ct.params, validUTF8 param.name = true) (t : Template (pathNames ct.params))
    (htemplate : ct.path = t.text) (hsends : Sends lib p user args ct ops parts req) :
    ∃ value, ResolvedBy lib p user args ct.params ops value ∧ (t.Fits b value →
      ∀ param ∈ ct.params, param.type = "number" →
        (param.location = "body" → upperASCII ct.method ∈ bodyMethods) →
        ∀ z : ℤ, z.natAbs < 2 ^ 53 → args.lookup param.name = some (.number (formatInt z)) →
          Receives lib t b value parts.queryParams req param (channelText param z) ∧
            (parseInt64 (channelText param z) = some z ↔
              param.location = "body" ∨ z.natAbs < 10 ^ 6)) := by
  obtain ⟨value, hvalue, hiff⟩ := exists_resolved hserver hvalid hdistinct t htemplate hsends
  obtain ⟨resolving, reply, result, rfl, hresolve, hsend⟩ := hsends
  refine ⟨value, hvalue, fun hfits param hparam htype hmethod z hz hgiven =>
    ⟨⟨?_, ?_, ?_⟩, parseInt64_channelText param hz⟩⟩
  · -- In the path: the text replaces the placeholder, and the template keeps it whole.
    intro hpath
    obtain ⟨ops', val, -, hval, htext⟩ := hvalue.2 param hparam hpath
    rw [resolveParamValue_number htype hgiven] at hval
    have hbody : param.location ≠ "body" := hpath ▸ by decide
    rw [hval.2, textOf_number hlib hz] at htext
    rw [channelText, if_neg hbody]
    exact ⟨hiff.2 hfits, htext⟩
  · -- In the query: `Encode` and the parser of vire-server are inverse to each other.
    intro hquery
    have hbody : param.location ≠ "body" := hquery ▸ by decide
    obtain ⟨segments, -, -, -, hraw, -⟩ := hiff.2 hfits
    have hkeys : parts.queryParams.Distinct :=
        distinct_queryParams hresolve (by exact List.nodup_nil)
    rw [channelText, if_neg hbody]
    calc req.url.query.values param.name
        = (parseQuery parts.queryParams.encode).values param.name := by rw [URL.query, hraw]
      _ = parts.queryParams.values param.name := Values.values_parseQuery_encode hkeys _
      _ = [sprintFloat z] := queryParams_number hresolve hlib hdistinct hparam htype
        hquery hz hgiven
  · -- In the body: the documented `json.Marshal` writes the integer in full.
    intro hbody
    have hlookup : parts.bodyParams.lookup param.name = some (.number (formatInt z)) :=
      bodyParams_number hresolve hdistinct hparam htype hbody hgiven
    have hname : param.name ∈ parts.bodyParams := by
      rw [← AList.lookup_isSome, hlookup]
      rfl
    have hnames : ∀ name ∈ parts.bodyParams, validUTF8 name = true := by
      intro name hmem
      obtain ⟨q, hq, rfl⟩ := List.mem_map.1
        ((mem_bodyParams hresolve hmem).resolve_left (AList.notMem_empty _))
      exact hutf8 q hq
    obtain ⟨text, hmarshal, hreq⟩ := body_of_sendParts (hmethod hbody) hname hsend
    obtain ⟨members, hunmarshal, hmembers⟩ := hlib.marshal _ text hnames hmarshal
    rw [channelText, if_pos hbody]
    exact ⟨text, members, hreq, hunmarshal, hmembers param.name z hz hlookup⟩

/-! ### A tool with a number on every channel -/

/-- The JSON text of an object with one number, whose name is written as it is. -/
def numberText (name literal : Str) : Str :=
  "\x7b\"" ++ name ++ "\":" ++ literal ++ "\x7d"

/-- A library that prints numbers as documented, and writes and reads an object with one number. -/
def numberLib : Lib where
  codec :=
    { sha256 := fun s => s
      hmacSHA256 := fun _ s => s
      unmarshal := fun text => match cut 34 (text.drop 2) with
        | (name, some rest) => some (.object [(name, .number (rest.drop 1).dropLast)])
        | (_, none) => none
      marshalClaims := fun _ => [] }
  format := fun
    | .number literal => ((parseInt64 literal).map sprintFloat).getD literal
    | _ => []
  quote := fun s => s
  urlError := fun _ => []
  marshalMap := fun body => match body.entries with
    | [⟨name, .number literal⟩] => if name.all isLetter then .ok (numberText name literal)
        else .error []
    | _ => .error []
  marshalLoopback := fun _ => none
  marshalVersions := fun _ => none

/-- The sample writes numbers as documented. -/
theorem documented_numberLib : Documented numberLib where
  sprint := by
    intro z hz
    show ((parseInt64 (formatInt z)).map sprintFloat).getD (formatInt z) = sprintFloat z
    rw [parseInt64_formatInt (by omega) (by omega)]
    rfl
  marshal := by
    intro body text _ htext
    obtain ⟨entries, hkeys⟩ := body
    -- The sample marshals one number and nothing else.
    match entries with
    | [] => cases htext
    | _ :: _ :: _ => simp [numberLib] at htext
    | [⟨name, .null⟩] => cases htext
    | [⟨name, .bool _⟩] => cases htext
    | [⟨name, .string _⟩] => cases htext
    | [⟨name, .array _⟩] => cases htext
    | [⟨name, .object _⟩] => cases htext
    | [⟨name, .number literal⟩] =>
      simp only [numberLib] at htext
      split_ifs at htext with hletters
      cases htext
      have hquote : 34 ∉ name := fun h => absurd (List.all_eq_true.1 hletters 34 h) (by decide)
      refine ⟨[(name, .number literal)], ?_, fun name' z _ hlookup v => ?_⟩
      · have hcut : cut 34 ((numberText name literal).drop 2) =
            (name, some (58 :: (literal ++ [125]))) := by
          have hdrop : (numberText name literal).drop 2 = name ++ 34 :: 58 ::
              (literal ++ [125]) := by
            simp [numberText, ascii]
          rw [hdrop, cut_append hquote]
          simp [cut]
        simp [numberLib, hcut]
      · simp only [AList.lookup] at hlookup
        by_cases hname : name' = name
        · subst hname
          rw [List.dlookup_cons_eq, Option.some.injEq] at hlookup
          simp [hlookup]
        · rw [List.dlookup_cons_ne _ _ hname] at hlookup
          cases hlookup

/-- The parameter of a channel. -/
def numberParam (name location : Str) : CatalogParam where
  name := name
  type := "number"
  location := location

def idParam : CatalogParam := numberParam "id" "path"

def limitParam : CatalogParam := numberParam "limit" "query"

def countParam : CatalogParam := numberParam "count" "body"

/-- A tool with a number on every channel. -/
def numbersTool : CatalogTool where
  name := "numbers"
  method := "POST"
  path := "/api/rows/\x7bid\x7d"
  params := [idParam, limitParam, countParam]

/-- The segments of its path. -/
def numbersSegments : List (List Piece) :=
  [[.text "api"], [.text "rows"], [.slot "id"]]

/-- No name of the sample has a brace. -/
theorem numbers_closed : ∀ name ∈ pathNames numbersTool.params, 125 ∉ name := by decide

/-- The braces of the sample are closed. -/
theorem numbers_braced : ∀ segment ∈ numbersSegments, ∀ x ∈ segment, x.Braced := by decide

/-- What stays of the sample is plain. -/
theorem numbers_plain :
    ∀ segment ∈ numbersSegments, ∀ x ∈ segment, Stays (pathNames numbersTool.params) x →
    35 ∉ x.render ∧ 47 ∉ x.render ∧ 63 ∉ x.render := by decide

/-- The template of its path. -/
def numbersTemplate : Template (pathNames numbersTool.params) :=
  ⟨numbersSegments, numbers_closed, numbers_braced, numbers_plain⟩

/-- The arguments of a call with three integers. -/
def numbersArgs (id limit count : ℤ) : Table Json :=
  ((((∅ : Table Json).insert (ascii "id") (.number (formatInt id))).insert (ascii "limit")
    (.number (formatInt limit))).insert (ascii "count") (.number (formatInt count)))

/-- What the handler makes of them. -/
def numbersParts (id limit count : ℤ) : Parts where
  path := replaceAll numbersTool.path (placeholder "id") (pathEscape (sprintFloat id))
  queryParams := [("limit", [sprintFloat limit])]
  bodyParams := (∅ : Table Json).insert "count" (.number (formatInt count))

/-- The request that it sends. -/
def numbersRequest (id limit count : ℤ) : OutRequest where
  method := "POST"
  url := (URL.parse (vireBase.apiURL ++ (numbersParts id limit count).target)).getD {}
  header := applyUserHeaders vireProxy none jsonHeader
  body := some (numberText "count" (formatInt count))

/-- The exchange of it, with an empty reply. -/
def numbersOps (id limit count : ℤ) : List ((o : McpOp) × McpReply o) :=
  [⟨.exchange (numbersRequest id limit count), OutReply.reply 200 []⟩]

/-- A value for the placeholder fits when it is no dot segment. -/
theorem numbers_fits {value : Str → Option Str} {s : Str} (hvalue : value (ascii "id") = some s)
    (hs : ¬ Dots s) :
    numbersTemplate.Fits vireBase value := by
  have htext : ∀ s : Str, unescape .path s = some s →
      ([Piece.text s].mapM (meaning (pathNames numbersTool.params) value)).map List.flatten =
        some s := by
    intro s hs
    simp [meaning, hs]
  have hslot : meaning (pathNames numbersTool.params) value (.slot "id") = some s := hvalue
  have hexpand : numbersTemplate.expand value = some [ascii "api", ascii "rows", s] := by
    unfold Template.expand
    refine mapM_cons_eq_some.2 ⟨_, _, htext _ (by decide), mapM_cons_eq_some.2
      ⟨_, _, htext _ (by decide), mapM_cons_eq_some.2 ⟨_, _, ?_, rfl, rfl⟩, rfl⟩, rfl⟩
    simp [hslot]
  refine ⟨_, hexpand, ?_, .inl ⟨by decide, ?_⟩⟩
  · simp only [List.forall_mem_cons]
    exact ⟨by decide, by decide, hs, by simp⟩
  · show ∀ segment ∈ numbersSegments, _
    decide

/-- The same integers are received from a call with small numbers in the path and the query. -/
theorem integer_received_small : ∃ value,
    Receives numberLib numbersTemplate vireBase value (numbersParts 7 250 5000000).queryParams
      (numbersRequest 7 250 5000000) idParam "7" ∧
    Receives numberLib numbersTemplate vireBase value (numbersParts 7 250 5000000).queryParams
      (numbersRequest 7 250 5000000) limitParam "250" ∧
    Receives numberLib numbersTemplate vireBase value (numbersParts 7 250 5000000).queryParams
      (numbersRequest 7 250 5000000) countParam (ascii "5000000") := by
  have hsends : Sends numberLib vireProxy none (numbersArgs 7 250 5000000) numbersTool
      (numbersOps 7 250 5000000)
      (numbersParts 7 250 5000000) (numbersRequest 7 250 5000000) :=
    ⟨[], .reply 200 [], .ok [], rfl, ⟨rfl, rfl⟩, ⟨_, [], rfl, rfl, rfl⟩⟩
  obtain ⟨value, hresolved, hreceives⟩ :=
    integer_received (b := vireBase) documented_numberLib rfl (by decide)
    (by decide) (by decide) numbersTemplate (by decide) hsends
  obtain ⟨ops', val, -, ⟨-, rfl⟩, hvalue⟩ := hresolved.2 idParam (.head _) rfl
  have hid : value (ascii "id") = some (ascii "7") := hvalue
  have hall := hreceives (numbers_fits hid (by decide))
  refine ⟨value, ?_, ?_, ?_⟩
  · exact (hall idParam (by decide) rfl (by decide) 7 (by decide) rfl).1
  · exact (hall limitParam (by decide) rfl (by decide) 250 (by decide) rfl).1
  · exact (hall countParam (by decide) rfl (by decide) 5000000 (by decide) rfl).1

/-- A million is received as `1e+06` from the path and the query, and in full from the body. -/
theorem integer_received_million :
    Documented numberLib ∧ validateCatalogTool numbersTool = none ∧
    Sends numberLib vireProxy none (numbersArgs 1000000 1000000 1000000) numbersTool
      (numbersOps 1000000 1000000 1000000) (numbersParts 1000000 1000000 1000000)
      (numbersRequest 1000000 1000000 1000000) ∧
    (numbersRequest 1000000 1000000 1000000).url.segments =
      some [ascii "api", ascii "rows", ascii "1e+06"] ∧
    (numbersRequest 1000000 1000000 1000000).url.query.values "limit" = [ascii "1e+06"] ∧
    (numbersRequest 1000000 1000000 1000000).body = some (ascii "\x7b\"count\":1000000\x7d") ∧
    parseInt64 (ascii "1e+06") = none ∧ parseInt64 (ascii "1000000") = some 1000000 :=
  ⟨documented_numberLib, by decide, ⟨[], .reply 200 [], .ok [], rfl, ⟨rfl, rfl⟩,
    ⟨_, [], rfl, rfl, rfl⟩⟩, by decide, by decide, by decide, by decide, by decide⟩

end VirePortal.Mcp.ParamValues
