import VirePortal.Auth.Backend
import VirePortal.Go.Query
import VirePortal.Mcp.Proxy

/-!
# The path of a tool's request

`GenericToolHandler` puts the arguments of a call into the path of the tool by one `ReplaceAll` for
each path parameter, escapes them with `PathEscape`, and leaves the rest to the parser of URLs.
`Template` is a path cut at its slashes and placeholders, and its expansion says what the segments
of the request should be. The request has these segments exactly when every placeholder of a
parameter gets a value, no segment comes out as a dot segment (`PathEscape` keeps dots), and the
path is sent as it was put together, or else no segment holds a slash (`tool_path_iff`).
-/

namespace VirePortal.Mcp

open Go Auth Concurrent

/-- The names of the path parameters. -/
def pathNames (params : List CatalogParam) : List Str :=
  (params.filter fun param => param.location = ascii "path").map CatalogParam.name

/-- The piece is no placeholder of one of the names. -/
def Stays (names : List Str) : Piece → Prop
  | .text _ => True
  | .slot name => name ∉ names

instance (names : List Str) : DecidablePred (Stays names)
  | .text _ => isTrue trivial
  | .slot name => inferInstanceAs (Decidable (name ∉ names))

/-- A path template for the given names of parameters, by its segments. Text opens no brace, and
what is not replaced has none of the bytes that separate the parts of a URL. A catalog may also have
a path with a brace that opens no placeholder, or with a `?` or a `#` of its own: such a path is no
template. -/
structure Template (names : List Str) where
  segments : List (List Piece)
  closed : ∀ name ∈ names, 125 ∉ name
  braced : ∀ segment ∈ segments, ∀ x ∈ segment, x.Braced
  plain : ∀ segment ∈ segments, ∀ x ∈ segment, Stays names x →
    35 ∉ x.render ∧ 47 ∉ x.render ∧ 63 ∉ x.render

/-- The piece after decoding: a parameter has its value. -/
def meaning (names : List Str) (value : Str → Option Str) : Piece → Option Str
  | .text s => unescape .path s
  | .slot name => if name ∈ names then value name else unescape .path (placeholder name)

namespace Template

variable {names : List Str} (t : Template names)

/-- The template as it is written. -/
def text : Str := slashed (t.segments.map Go.render)

/-- The segments with the values of the parameters in place of the placeholders. -/
def expand (value : Str → Option Str) : Option (List Str) :=
  t.segments.mapM fun segment => (segment.mapM (meaning names value)).map List.flatten

/-- Everything that is sent as it is written may stand in a path. -/
def Encoded (b : Base) : Prop :=
  (∀ s ∈ b.segments, validEncoded s .path = true) ∧
    ∀ segment ∈ t.segments, ∀ x ∈ segment, Stays names x → validEncoded x.render .path = true

/-- The URL is one of the server, its path has the segments of the template with the values, behind
those of the server, its query consists of the query parameters, and it has no fragment. -/
def Preserved (b : Base) (value : Str → Option Str) (queryParams : Values) (u : URL) : Prop :=
  ∃ segments, t.expand value = some segments ∧
    u.segments.map removeDots = some (b.segments ++ segments) ∧
    u.host = b.origin.host ∧ u.rawQuery = queryParams.encode ∧ u.forceQuery = false ∧ u.frag = []

/-- The values keep the template: there is one for each placeholder of a parameter, they make no dot
segment, and where the path is encoded anew they hold no slash. -/
def Fits (b : Base) (value : Str → Option Str) : Prop :=
  ∃ segments, t.expand value = some segments ∧ (∀ s ∈ segments, ¬ Dots s) ∧
    (t.Encoded b ∨ ∀ s ∈ segments, 47 ∉ s)

end Template

section Sending

variable (lib : Lib) (p : MCPProxy) (user : Option Str) (args : Table Json)

/-- The values are those that `resolveParamValue` returned for the path parameters, as texts. -/
def ResolvedBy (params : List CatalogParam) (ops : List ((o : McpOp) × McpReply o))
    (value : Str → Option Str) : Prop :=
  (∀ name, name ∉ pathNames params → value name = none) ∧
    ∀ param ∈ params, param.location = "path" → ∃ ops' val, ops' <:+: ops ∧
      (resolveParamValue lib p user args param).Does ops' val ∧ value param.name = lib.textOf val

/-- The handler has made `parts` of its arguments, and sends the request `req`, its last
operation. -/
def Sends (ct : CatalogTool) (ops : List ((o : McpOp) × McpReply o)) (parts : Parts)
    (req : OutRequest) :
    Prop :=
  ∃ resolving reply result, ops = resolving ++ [⟨.exchange req, reply⟩] ∧
    (resolveParams lib p user args ct.params { path := ct.path }).Does resolving (.ok parts) ∧
    (sendParts lib p user ct.method parts).Does [⟨.exchange req, reply⟩] result

end Sending

/-! ### What the loop makes of the template -/

section Loop

variable {lib : Lib} {p : MCPProxy} {user : Option Str} {args : Table Json}
  {params : List CatalogParam}
  {parts parts' : Parts} {pieces : List Piece} {ops : List ((o : McpOp) × McpReply o)}

/-- The texts that the loop puts in place of the placeholders. -/
def escaped (value : Str → Option Str) (name : Str) : Option Str := (value name).map pathEscape

/-- An escaped value has no brace. -/
theorem open_not_mem_pathEscape (s : Str) : 123 ∉ pathEscape s :=
  not_mem_pathEscape (by decide) (by decide) s

variable {param : CatalogParam} {ops2 ops1 : List ((o : McpOp) × McpReply o)}

/-- What one turn of the loop does: a parameter with a value goes where it belongs, and one without
a value changes nothing. -/
theorem applyParam_cases {val : Json} (h : applyParam lib param val parts = .ok parts') :
    (parts' = parts ∧ (param.location = "path" ∨ param.location = "query" → lib.textOf val = none) ∧
      (param.location = "body" → val = .null)) ∨
    (param.location = "path" ∧ ∃ strVal, lib.textOf val = some strVal ∧ parts' =
      { parts with path := replaceAll parts.path (placeholder param.name) (pathEscape strVal) }) ∨
    (param.location = "query" ∧ ∃ strVal, lib.textOf val = some strVal ∧ parts' =
      { parts with queryParams := parts.queryParams.set param.name strVal }) ∨
    (param.location = "body" ∧ val ≠ .null ∧ parts' =
      { parts with bodyParams := parts.bodyParams.insert param.name val }) := by
  unfold applyParam at h
  by_cases hpath : param.location = "path"
  · have hbody : param.location ≠ "body" := hpath ▸ by decide
    rw [if_pos hpath] at h
    cases htext : lib.textOf val with
    | none =>
      rw [htext] at h
      dsimp only at h
      -- A required path parameter without a value is an error, so this one is optional.
      split_ifs at h
      exact .inl ⟨(Except.ok.inj h).symm, fun _ => rfl, fun h => absurd h hbody⟩
    | some strVal =>
      rw [htext] at h
      exact .inr (.inl ⟨hpath, strVal, rfl, (Except.ok.inj h).symm⟩)
  · rw [if_neg hpath] at h
    by_cases hquery : param.location = "query"
    · have hbody : param.location ≠ "body" := hquery ▸ by decide
      rw [if_pos hquery] at h
      cases htext : lib.textOf val with
      | none =>
        rw [htext] at h
        exact .inl ⟨(Except.ok.inj h).symm, fun _ => rfl, fun h => absurd h hbody⟩
      | some strVal =>
        rw [htext] at h
        exact .inr (.inr (.inl ⟨hquery, strVal, rfl, (Except.ok.inj h).symm⟩))
    · rw [if_neg hquery] at h
      have hneither : ¬ (param.location = "path" ∨ param.location = "query") :=
        not_or.2 ⟨hpath, hquery⟩
      by_cases hbody : param.location = "body"
      · rw [if_pos hbody] at h
        by_cases hnull : val = .null
        · rw [hnull] at h
          exact .inl ⟨(Except.ok.inj h).symm, fun h => absurd h hneither, fun _ => hnull⟩
        · refine .inr (.inr (.inr ⟨hbody, hnull, ?_⟩))
          cases val <;> first | exact absurd rfl hnull | exact (Except.ok.inj h).symm
      · rw [if_neg hbody] at h
        exact .inl ⟨(Except.ok.inj h).symm, fun h => absurd h hneither, fun h => absurd h hbody⟩

/-- The loop, taken apart. -/
theorem does_resolveParams_cons :
    (resolveParams lib p user args (param :: params) parts).Does ops (.ok parts') ↔
      ∃ ops1 val ops2 parts1, ops = ops1 ++ ops2 ∧
        (resolveParamValue lib p user args param).Does ops1 val ∧
        applyParam lib param val parts = .ok parts1 ∧
        (resolveParams lib p user args params parts1).Does ops2 (.ok parts') := by
  rw [resolveParams, Prog.does_bind]
  refine exists_congr fun ops1 => exists_congr fun val => exists_congr fun ops2 => ?_
  cases applyParam lib param val parts with
  | error text =>
    constructor
    · rintro ⟨-, -, -, h⟩
      cases h
    · rintro ⟨parts1, -, -, h, -⟩
      cases h
  | ok parts1 =>
    constructor
    · rintro ⟨hops, hval, hrest⟩
      exact ⟨parts1, hops, hval, rfl, hrest⟩
    · rintro ⟨parts2, hops, hval, h, hrest⟩
      rw [← Except.ok.inj h] at hrest
      exact ⟨hops, hval, hrest⟩

/-- The first parameter and the rest. -/
theorem pathNames_cons (param : CatalogParam) (params : List CatalogParam) :
    pathNames (param :: params) =
      if param.location = ascii "path" then param.name :: pathNames params
        else pathNames params := by
  unfold pathNames
  rw [List.filter_cons]
  by_cases h : param.location = ascii "path"
  · simp [h]
  · simp [h]

/-- A path parameter's own value, beside those of the parameters that follow. -/
theorem ResolvedBy.add {val : Json} {value : Str → Option Str}
    (h : ResolvedBy lib p user args params ops2 value)
    (hfresh : param.name ∉ params.map CatalogParam.name) (hparam : param.location = "path")
    (hval : (resolveParamValue lib p user args param).Does ops1 val) :
    ResolvedBy lib p user args (param :: params) (ops1 ++ ops2)
      (Function.update value param.name (lib.textOf val)) := by
  constructor
  · intro name hname
    rw [pathNames_cons, if_pos hparam, List.mem_cons, not_or] at hname
    rw [Function.update_of_ne hname.1]
    exact h.1 name hname.2
  · intro q hq hpath
    rcases List.mem_cons.1 hq with rfl | hq
    · exact ⟨ops1, val, (List.prefix_append ..).isInfix, hval, Function.update_self ..⟩
    · obtain ⟨ops', val', hinfix, hval', hvalue⟩ := h.2 q hq hpath
      have hne : q.name ≠ param.name := fun heq => hfresh (heq ▸ List.mem_map_of_mem hq)
      refine ⟨ops', val', hinfix.trans (List.suffix_append ..).isInfix, hval', ?_⟩
      rw [Function.update_of_ne hne]
      exact hvalue

/-- A parameter that is not in the path has no part in the values. -/
theorem ResolvedBy.skip {value : Str → Option Str}
    (h : ResolvedBy lib p user args params ops2 value) (hparam : param.location ≠ "path") :
    ResolvedBy lib p user args (param :: params) (ops1 ++ ops2) value := by
  constructor
  · intro name hname
    rw [pathNames_cons, if_neg hparam] at hname
    exact h.1 name hname
  · intro q hq hpath
    rcases List.mem_cons.1 hq with rfl | hq
    · exact absurd hpath hparam
    · obtain ⟨ops', val', hinfix, hval', hvalue⟩ := h.2 q hq hpath
      exact ⟨ops', val', hinfix.trans (List.suffix_append ..).isInfix, hval', hvalue⟩

/-- One more value is escaped. -/
theorem escaped_update (value : Str → Option Str) (name strVal : Str) :
    escaped (Function.update value name (some strVal)) =
      Function.update (escaped value) name (some (pathEscape strVal)) := by
  funext n
  by_cases hn : n = name
  · rw [hn, Function.update_self, escaped, Function.update_self, Option.map_some]
  · rw [Function.update_of_ne hn, escaped, escaped, Function.update_of_ne hn]

/-- The path after the loop is the template with the escaped values in place of the placeholders. -/
theorem does_resolveParams (hnodup : (params.map CatalogParam.name).Nodup)
    (hclosed : ∀ name ∈ pathNames params, 125 ∉ name) (hbraced : ∀ x ∈ pieces, x.Braced)
    (hpath : parts.path = render pieces)
    (hdoes : (resolveParams lib p user args params parts).Does ops (.ok parts')) :
    ∃ value, ResolvedBy lib p user args params ops value ∧
      parts'.path = render (pieces.map (Piece.subst (escaped value))) := by
  induction params generalizing parts pieces ops with
  | nil =>
    obtain ⟨rfl, hparts⟩ := hdoes
    cases hparts
    refine ⟨fun _ => none, ⟨fun _ _ => rfl, nofun⟩, ?_⟩
    rw [hpath, show Piece.subst (escaped fun _ => none) = id from funext Piece.subst_none,
      List.map_id]
  | cons param params ih =>
    obtain ⟨ops1, val, ops2, parts1, rfl, hval, happly, hrest⟩ := does_resolveParams_cons.1 hdoes
    rw [List.map_cons, List.nodup_cons] at hnodup
    have hfresh : param.name ∉ pathNames params := by
      intro hmem
      obtain ⟨q, hq, hname⟩ := List.mem_map.1 hmem
      exact hnodup.1 (hname ▸ List.mem_map_of_mem (List.mem_filter.1 hq).1)
    have hclosed' : ∀ name ∈ pathNames params, 125 ∉ name := by
      intro name hname
      apply hclosed
      rw [pathNames_cons]
      split_ifs
      · exact List.mem_cons_of_mem _ hname
      · exact hname
    -- a turn that leaves the path alone, for a parameter that is not in the path
    have hskip : param.location ≠ ascii "path" → parts1.path = parts.path →
        ∃ value, ResolvedBy lib p user args (param :: params) (ops1 ++ ops2) value ∧
          parts'.path = render (pieces.map (Piece.subst (escaped value))) := by
      intro hparam hpath1
      obtain ⟨value, hvalue, hpath'⟩ := ih hnodup.2 hclosed' hbraced (hpath1.trans hpath) hrest
      exact ⟨value, hvalue.skip hparam, hpath'⟩
    rcases applyParam_cases happly with
      ⟨rfl, htext, -⟩ | ⟨hparam, strVal, htext, rfl⟩ | ⟨hparam, strVal, -, rfl⟩ | ⟨hparam, -, rfl⟩
    · by_cases hparam : param.location = ascii "path"
      · -- no value: the placeholder stays
        obtain ⟨value, hvalue, hpath'⟩ := ih hnodup.2 hclosed' hbraced hpath hrest
        refine ⟨_, hvalue.add hnodup.1 hparam hval, ?_⟩
        rw [htext (.inl hparam), Function.update_eq_self_iff.2 (hvalue.1 _ hfresh).symm]
        exact hpath'
      · exact hskip hparam rfl
    · have hname : 125 ∉ param.name := by
        apply hclosed
        rw [pathNames_cons, if_pos hparam]
        exact (.head _)
      have hbraced' : ∀ x ∈ pieces.map (Piece.fill param.name (pathEscape strVal)), x.Braced := by
        intro x hx
        obtain ⟨y, hy, rfl⟩ := List.mem_map.1 hx
        exact (hbraced y hy).fill (open_not_mem_pathEscape strVal)
      have hpath1 : replaceAll parts.path (placeholder param.name) (pathEscape strVal) =
          render (pieces.map (Piece.fill param.name (pathEscape strVal))) := by
        rw [hpath]
        exact replaceAll_render hbraced hname
      obtain ⟨value, hvalue, hpath'⟩ := ih hnodup.2 hclosed' hbraced' hpath1 hrest
      refine ⟨_, hvalue.add hnodup.1 hparam hval, ?_⟩
      rw [hpath', List.map_map, htext, escaped_update]
      exact congrArg render (List.map_congr_left fun x _ => Piece.subst_fill (escaped value) x)
    · exact hskip (hparam ▸ by decide) rfl
    · exact hskip (hparam ▸ by decide) rfl

/-- The query parameters of the request are those of the tool, each with a value. -/
theorem queryParams_of_does
    (hdoes : (resolveParams lib p user args params parts).Does ops (.ok parts')) :
    ∀ e ∈ parts'.queryParams, e ∈ parts.queryParams ∨
      e.2 ≠ [] ∧ ∃ param ∈ params, param.location = "query" ∧ param.name = e.1 := by
  induction params generalizing parts ops with
  | nil =>
    obtain ⟨rfl, hparts⟩ := hdoes
    cases hparts
    exact fun e he => .inl he
  | cons param params ih =>
    obtain ⟨ops1, val, ops2, parts1, rfl, -, happly, hrest⟩ := does_resolveParams_cons.1 hdoes
    intro e he
    rcases ih hrest e he with he | ⟨hne, q, hq, hquery⟩
    · rcases applyParam_cases happly with
        ⟨rfl, -, -⟩ | ⟨-, strVal, -, rfl⟩ | ⟨hquery, strVal, -, rfl⟩ | ⟨-, -, rfl⟩
      · exact .inl he
      · exact .inl he
      · rcases List.mem_append.1 he with he | he
        · exact .inl (List.mem_filter.1 he).1
        · obtain rfl := List.mem_singleton.1 he
          exact .inr ⟨List.cons_ne_nil _ _, param, .head _, hquery, rfl⟩
      · exact .inl he
    · exact .inr ⟨hne, q, .tail _ hq, hquery⟩

end Loop

/-! ### From the path to the URL -/

namespace Template

variable {names : List Str} (t : Template names) {value : Str → Option Str} {b : Base}
  {segments : List Str}

/-- The template as one list of pieces, with its slashes. -/
def pieces : List Piece := t.segments.flatMap (Piece.text [47] :: ·)

/-- A segment as it is sent. -/
def sent (value : Str → Option Str) (segment : List Piece) : Str :=
  render (segment.map (Piece.subst (escaped value)))

/-- The path is rendered segment by segment. -/
theorem render_pieces (texts : Str → Option Str) : render (t.pieces.map (Piece.subst texts)) =
    slashed (t.segments.map fun segment => render (segment.map (Piece.subst texts))) := by
  unfold pieces
  induction t.segments with
  | nil => rfl
  | cons segment rest ih =>
    have hcons : (Piece.text [47] :: segment).map (Piece.subst texts) =
        Piece.text [47] :: segment.map (Piece.subst texts) := rfl
    rw [List.flatMap_cons, List.map_append, hcons]
    simp only [render, List.flatMap_append, List.flatMap_cons] at ih ⊢
    rw [ih]
    rfl

/-- The text of a template is that of its pieces. -/
theorem text_eq : t.text = render t.pieces := by
  have hid : Piece.subst (fun _ => none) = id := funext Piece.subst_none
  have hrender := t.render_pieces fun _ => none
  rw [hid, List.map_id] at hrender
  rw [hrender]
  simp [text]

/-- The braces of a template are closed. -/
theorem pieces_braced : ∀ x ∈ t.pieces, x.Braced := by
  intro x hx
  obtain ⟨segment, hsegment, hx⟩ := List.mem_flatMap.1 hx
  rcases List.mem_cons.1 hx with rfl | hx
  · show (123 : UInt8) ∉ [47]
    decide
  · exact t.braced segment hsegment x hx

/-- A piece as it is sent: it stays, or it is an escaped value. -/
theorem subst_cases (hvalue : ∀ name, name ∉ names → value name = none) {x : Piece} {m : Str}
    (hm : meaning names value x = some m) :
    (Stays names x ∧ (x.subst (escaped value)).render = x.render ∧
      unescape .path x.render = some m) ∨
      (¬ Stays names x ∧ (x.subst (escaped value)).render = pathEscape m) := by
  cases x with
  | text s => exact .inl ⟨trivial, rfl, hm⟩
  | slot name =>
    rw [meaning] at hm
    by_cases hname : name ∈ names
    · rw [if_pos hname] at hm
      refine .inr ⟨not_not.2 hname, ?_⟩
      rw [Piece.subst, escaped, hm]
      rfl
    · rw [if_neg hname] at hm
      refine .inl ⟨hname, ?_, hm⟩
      rw [Piece.subst, escaped, hvalue name hname]
      rfl

/-- A segment as it is sent decodes to what it stands for. -/
theorem unescape_sent (hvalue : ∀ name, name ∉ names → value name = none) {segment : List Piece}
    {s : Str} (hs : (segment.mapM (meaning names value)).map List.flatten = some s) :
    unescape .path (sent value segment) = some s := by
  obtain ⟨ms, hms, rfl⟩ := Option.map_eq_some_iff.1 hs
  rw [sent, render, List.flatMap_map]
  refine unescape_flatMap_of (fun x _ m hm => ?_) hms
  rcases subst_cases hvalue hm with ⟨-, hrender, hdecode⟩ | ⟨-, hrender⟩
  · rw [hrender]
    exact hdecode
  · rw [hrender]
    exact unescape_pathEscape m

/-- The segments decode to the expansion of the template. -/
theorem mapM_unescape_sent (hvalue : ∀ name, name ∉ names → value name = none)
    (hexpand : t.expand value = some segments) :
    (t.segments.map (sent value)).mapM (unescape .path) = some segments := by
  rw [List.mapM_map]
  exact mapM_imp (fun segment _ s hs => unescape_sent hvalue hs) hexpand

/-- Every piece of a template that expands has a meaning. -/
theorem exists_meaning (hexpand : t.expand value = some segments) {segment : List Piece}
    (hsegment : segment ∈ t.segments) {x : Piece} (hx : x ∈ segment) :
    ∃ m, meaning names value x = some m := by
  obtain ⟨s, -, hs⟩ := exists_of_mapM hexpand hsegment
  obtain ⟨ms, hms, -⟩ := Option.map_eq_some_iff.1 hs
  obtain ⟨m, -, hm⟩ := exists_of_mapM hms hx
  exact ⟨m, hm⟩

/-- A byte that separates the parts of a URL is in no segment that is sent. -/
theorem not_mem_sent (hvalue : ∀ name, name ∉ names → value name = none)
    (hexpand : t.expand value = some segments) {c : UInt8} (hc : c = 35 ∨ c = 47 ∨ c = 63) :
    ∀ s ∈ t.segments.map (sent value), c ∉ s := by
  intro s hs hmem
  obtain ⟨segment, hsegment, rfl⟩ := List.mem_map.1 hs
  rw [sent, render, List.flatMap_map] at hmem
  obtain ⟨x, hx, hmem⟩ := List.mem_flatMap.1 hmem
  obtain ⟨m, hm⟩ := t.exists_meaning hexpand hsegment hx
  rcases subst_cases hvalue hm with ⟨hstays, hrender, -⟩ | ⟨-, hrender⟩
  · rw [hrender] at hmem
    obtain ⟨h35, h47, h63⟩ := t.plain segment hsegment x hx hstays
    rcases hc with rfl | rfl | rfl
    · exact h35 hmem
    · exact h47 hmem
    · exact h63 hmem
  · rw [hrender] at hmem
    rcases hc with rfl | rfl | rfl
    · exact not_mem_pathEscape (by decide) (by decide) m hmem
    · exact not_mem_pathEscape (by decide) (by decide) m hmem
    · exact not_mem_pathEscape (by decide) (by decide) m hmem

/-- The path is sent as it was put together when what stays of the template may stand in a path. -/
theorem validEncoded_sent (hvalue : ∀ name, name ∉ names → value name = none)
    (hexpand : t.expand value = some segments) :
    validEncoded (slashed (b.segments ++ t.segments.map (sent value))) .path = true ↔
      t.Encoded b := by
  have hall : ∀ texts : List Str, validEncoded (slashed texts) .path = true ↔
      ∀ s ∈ texts, validEncoded s .path = true := by
    intro texts
    unfold validEncoded slashed
    rw [List.all_flatMap, List.all_eq_true]
    refine forall₂_congr fun s _ => ?_
    rw [List.all_cons]
    simp only [Bool.and_eq_true]
    exact and_iff_right (by decide)
  have hsent : ∀ segment ∈ t.segments, validEncoded (sent value segment) .path = true ↔
      ∀ x ∈ segment, Stays names x → validEncoded x.render .path = true := by
    intro segment hsegment
    rw [sent, render, List.flatMap_map, validEncoded, List.all_flatMap, List.all_eq_true]
    refine forall₂_congr fun x hx => ?_
    obtain ⟨m, hm⟩ := t.exists_meaning hexpand hsegment hx
    -- A piece stays as it is, or it is a value, which is escaped.
    rcases subst_cases hvalue hm with ⟨hstays, hrender, -⟩ | ⟨hstays, hrender⟩
    · rw [hrender]
      exact ⟨fun h _ => h, fun h => h hstays⟩
    · rw [hrender]
      exact iff_of_true (validEncoded_pathEscape m) fun h => absurd h hstays
  rw [hall, Encoded]
  constructor
  · intro h
    refine ⟨fun s hs => h s (List.mem_append_left _ hs), fun segment hsegment => ?_⟩
    exact (hsent segment hsegment).1 (h _ (List.mem_append_right _ (List.mem_map_of_mem hsegment)))
  · rintro ⟨hbase, hsegments⟩ s hs
    rcases List.mem_append.1 hs with hs | hs
    · exact hbase s hs
    · obtain ⟨segment, hsegment, rfl⟩ := List.mem_map.1 hs
      exact (hsent segment hsegment).2 (hsegments segment hsegment)

end Template

/-- The segments of the base are proper. -/
theorem base_proper (b : Base) : ∀ s ∈ b.segments, ¬ Dots s ∧ 47 ∉ s := by
  intro s hs
  obtain ⟨⟨⟨-, hdot, hdots⟩, -, -, hslash, -⟩, -⟩ := b.plain s hs
  exact ⟨not_or.2 ⟨hdot, hdots⟩, hslash⟩

/-- The segments of the base are read as they are. -/
theorem mapM_unescape_base (b : Base) : b.segments.mapM (unescape .path) = some b.segments := by
  rw [← funext unescape_pathSegment]
  exact mapM_unescape_of_not_mem fun s hs => (b.plain s hs).1.2.2.1

/-- The target of a request, with its query behind a question mark when there is one. -/
theorem target_eq {parts : Parts} (hvalues : ∀ e ∈ parts.queryParams, e.2 ≠ []) :
    parts.target = parts.path ++
      if parts.queryParams.encode = [] then [] else 63 :: parts.queryParams.encode := by
  unfold Parts.target
  cases hquery : parts.queryParams with
  | nil => exact (List.append_nil _).symm
  | cons e rest =>
    have hne : Values.encode (e :: rest) ≠ [] :=
      encode_ne_nil (List.cons_ne_nil e rest) (hquery ▸ hvalues)
    have hlength : 0 < (e :: rest).length := Nat.succ_pos _
    rw [if_pos hlength, if_neg hne]

/-- The URL of a request whose path is a template with its placeholders replaced. -/
theorem preserved_iff_fits {names : List Str} (t : Template names) (hne : t.segments ≠ [])
    {value : Str → Option Str} (hvalue : ∀ name, name ∉ names → value name = none) {b : Base}
    {query : Values} {u : URL}
    (hu : URL.parse (b.apiURL ++ (slashed (t.segments.map (Template.sent value)) ++
      if query.encode = [] then [] else 63 :: query.encode)) = some u) :
    t.Preserved b value query u ↔ t.Fits b value := by
  refine exists_congr fun segments => and_congr_right fun hexpand => ?_
  set texts := b.segments ++ t.segments.map (Template.sent value) with htexts
  have htexts_ne : texts ≠ [] := by simp [htexts, hne]
  have hplain : ∀ c : UInt8, c = 35 ∨ c = 47 ∨ c = 63 → ∀ s ∈ texts, c ∉ s := by
    intro c hc s hs
    rcases List.mem_append.1 hs with hs | hs
    · obtain ⟨⟨-, h35, -, h47, h63⟩, -⟩ := b.plain s hs
      rcases hc with rfl | rfl | rfl
      · exact h35
      · exact h47
      · exact h63
    · exact t.not_mem_sent hvalue hexpand hc s hs
  have hdecode : texts.mapM (unescape .path) = some (b.segments ++ segments) :=
    mapM_append_some (mapM_unescape_base b) (t.mapM_unescape_sent hvalue hexpand)
  have hparse : b.origin.url (slashed texts ++ if query.encode = [] then []
      else 63 :: query.encode) =
      some u := by
    rw [← hu, ← b.origin.parse_append]
    · simp [htexts, Base.apiURL, slashed]
    · obtain ⟨s, rest, hcons⟩ := List.exists_cons_of_ne_nil htexts_ne
      rw [hcons]
      rfl
  obtain ⟨⟨v, hv, hsegments⟩, hhost, hquery, hforce, hfrag⟩ := Origin.url_slashed
    (hplain 35 (.inl rfl)) (hplain 63 (.inr (.inr rfl))) (hash_not_mem_encode query) hparse
  rw [URL.segments_slashed hv htexts_ne (hplain 47 (.inr (.inl rfl))) hdecode] at hsegments
  have hbase : ∀ P : Str → Prop, (∀ s ∈ b.segments, P s) →
      ((∀ s ∈ b.segments ++ segments, P s) ↔ ∀ s ∈ segments, P s) := by
    intro P hP
    rw [List.forall_mem_append]
    exact and_iff_right hP
  -- the parts beside the path hold in any case
  have hpath : (u.segments.map removeDots = some (b.segments ++ segments) ∧ u.host = b.origin.host ∧
      u.rawQuery = query.encode ∧ u.forceQuery = false ∧ u.frag = []) ↔
      u.segments.map removeDots = some (b.segments ++ segments) :=
    and_iff_left ⟨hhost, hquery, hforce, hfrag⟩
  rw [hpath, hsegments, Option.map_some, Option.some.injEq]
  by_cases hencoded : t.Encoded b
  · rw [if_pos ((t.validEncoded_sent hvalue hexpand).2 hencoded), removeDots_eq_self_iff,
      hbase _ fun s hs => (base_proper b s hs).1]
    exact (and_iff_left (.inl hencoded)).symm
  · rw [if_neg fun h => hencoded ((t.validEncoded_sent hvalue hexpand).1 h), removeDots_split_iff,
      hbase _ (base_proper b)]
    constructor
    · exact fun h => ⟨fun s hs => (h s hs).1, .inr fun s hs => (h s hs).2⟩
    · rintro ⟨hdots, hslash⟩ s hs
      exact ⟨hdots s hs, hslash.resolve_left hencoded s hs⟩

section Request

variable {b : Base} {lib : Lib} {p : MCPProxy} {user : Option Str} {ct : CatalogTool}
  {args : Table Json}
  {ops : List ((o : McpOp) × McpReply o)} {parts : Parts} {req : OutRequest}

/-- The values of a call that has sent its request, and what they make of the template. -/
theorem exists_resolved (hserver : p.serverURL = b.apiURL) (hvalid : validateCatalogTool ct = none)
    (hdistinct : (ct.params.map CatalogParam.name).Nodup) (t : Template (pathNames ct.params))
    (htemplate : ct.path = t.text) (hsends : Sends lib p user args ct ops parts req) :
    ∃ value, ResolvedBy lib p user args ct.params ops value ∧
      (t.Preserved b value parts.queryParams req.url ↔ t.Fits b value) := by
  obtain ⟨resolving, reply, result, rfl, hresolve, hsend⟩ := hsends
  have hpath : ct.path = render t.pieces := htemplate.trans t.text_eq
  obtain ⟨value, ⟨hnone, hvalues⟩, hpath'⟩ :=
    does_resolveParams hdistinct t.closed t.pieces_braced hpath hresolve
  have hquery := queryParams_of_does hresolve
  have hne : t.segments ≠ [] := by
    intro hnil
    have hempty : ct.path = [] := by rw [htemplate, Template.text, hnil]; rfl
    unfold validateCatalogTool at hvalid
    split_ifs at hvalid
  have hurl : URL.parse (p.serverURL ++ parts.target) = some req.url :=
    (hsend.all (all_sendParts ct.method parts) _ (.head _)).1
  refine ⟨value, ⟨hnone, fun param hparam hlocation => ?_⟩, ?_⟩
  · obtain ⟨ops', val, hinfix, hdoes⟩ := hvalues param hparam hlocation
    exact ⟨ops', val, hinfix.trans (List.prefix_append ..).isInfix, hdoes⟩
  · rw [hserver, target_eq fun e he => ((hquery e he).resolve_left List.not_mem_nil).1, hpath',
      t.render_pieces] at hurl
    exact preserved_iff_fits t hne hnone hurl

end Request

/-- For every tool with distinct parameter names whose path is a template, every call of it, and
every URL of a server: the request of the tool has the segments of the template with the values of
the call in place of the placeholders, no fragment and no query beside its query parameters, exactly
when the values fit. -/
theorem tool_path_iff {b : Base} {lib : Lib} {p : MCPProxy} {user : Option Str} {ct : CatalogTool}
    {args : Table Json} {ops : List ((o : McpOp) × McpReply o)} {parts : Parts} {req : OutRequest}
    (hserver : p.serverURL = b.apiURL) (hvalid : validateCatalogTool ct = none)
    (hdistinct : (ct.params.map CatalogParam.name).Nodup) (t : Template (pathNames ct.params))
    (htemplate : ct.path = t.text) (hsends : Sends lib p user args ct ops parts req) :
    ∃ value, ResolvedBy lib p user args ct.params ops value ∧
      (t.Preserved b value parts.queryParams req.url ↔ t.Fits b value) ∧
      ∀ e ∈ parts.queryParams,
        ∃ param ∈ ct.params, param.location = "query" ∧ param.name = e.1 := by
  obtain ⟨value, hvalue, hiff⟩ := exists_resolved hserver hvalid hdistinct t htemplate hsends
  obtain ⟨resolving, reply, result, -, hresolve, -⟩ := hsends
  refine ⟨value, hvalue, hiff, fun e he => ?_⟩
  exact ((queryParams_of_does hresolve e he).resolve_left List.not_mem_nil).2

/-! ### A tool with one path parameter -/

/-- The authority of the sample is plain. -/
theorem vire_plain : 35 ∉ ascii "vire" ∧ 47 ∉ ascii "vire" ∧ 63 ∉ ascii "vire" ∧
    containsCTL (ascii "vire") = false := by decide

/-- The authority of the sample parses. -/
theorem vire_parses : parseAuthority (ascii "vire") = some (none, ascii "vire") := by decide

/-- `http://vire`. -/
def vireBase : Base :=
  ⟨⟨ascii "http", ascii "vire", none, ascii "vire", http_head, http_bytes, vire_plain, vire_parses⟩,
    [], plainSegment_nil⟩

/-- The parameter `name`. -/
def nameParam : CatalogParam where
  name := "name"
  type := "string"
  required := true
  location := "path"

/-- A tool that reads the summary of a portfolio. -/
def summaryTool : CatalogTool where
  name := "portfolio_summary"
  method := "GET"
  path := "/api/portfolios/\x7bname\x7d/summary"
  params := [nameParam]

/-- The segments of its path. -/
def summarySegments : List (List Piece) :=
  [[.text "api"], [.text "portfolios"], [.slot "name"], [.text "summary"]]

/-- No name of the sample has a brace. -/
theorem summary_closed : ∀ name ∈ pathNames summaryTool.params, 125 ∉ name := by decide

/-- The braces of the sample are closed. -/
theorem summary_braced : ∀ segment ∈ summarySegments, ∀ x ∈ segment, x.Braced := by decide

/-- What stays of the sample is plain. -/
theorem summary_plain :
    ∀ segment ∈ summarySegments, ∀ x ∈ segment, Stays (pathNames summaryTool.params) x →
    35 ∉ x.render ∧ 47 ∉ x.render ∧ 63 ∉ x.render := by decide

/-- The template of its path. -/
def summaryTemplate : Template (pathNames summaryTool.params) :=
  ⟨summarySegments, summary_closed, summary_braced, summary_plain⟩

/-- A library that prints nothing but strings. -/
def plainLib : Lib where
  codec :=
    { sha256 := fun s => s
      hmacSHA256 := fun _ s => s
      unmarshal := fun _ => none
      marshalClaims := fun _ => [] }
  format := fun _ => []
  quote := fun s => s
  urlError := fun _ => []
  marshalMap := fun _ => .ok []
  marshalLoopback := fun _ => none
  marshalVersions := fun _ => none

/-- The proxy of that server. -/
def vireProxy : MCPProxy := ⟨vireBase.apiURL, []⟩

/-- The arguments of a call for the portfolio `name`. -/
def namedArgs (name : Str) : Table Json := (∅ : Table Json).insert "name" (.string name)

/-- What the handler makes of them. -/
def namedParts (name : Str) : Parts where
  path := replaceAll summaryTool.path (placeholder "name") (pathEscape name)

/-- The request that it sends. -/
def namedRequest (name : Str) : OutRequest where
  method := "GET"
  url := (URL.parse (vireBase.apiURL ++ (namedParts name).path)).getD {}
  header := []

/-- The exchange of it, with an empty reply. -/
def namedOps (name : Str) : List ((o : McpOp) × McpReply o) :=
  [⟨.exchange (namedRequest name), OutReply.reply 200 []⟩]

/-- The value of the parameter. -/
def namedValue (name : Str) : Str → Option Str :=
  fun n => if n = "name" then some name else none

/-- A slash in the value is escaped, so the template is preserved. -/
theorem tool_path_iff_slash : ∃ value, value (ascii "name") = some (ascii "a/b") ∧
    summaryTemplate.Preserved vireBase value [] (namedRequest "a/b").url := by
  have hsends : Sends plainLib vireProxy none (namedArgs "a/b") summaryTool
      (namedOps "a/b") (namedParts "a/b") (namedRequest "a/b") :=
    ⟨[], .reply 200 [], .ok [], rfl, ⟨rfl, rfl⟩, ⟨_, [], rfl, rfl, rfl⟩⟩
  obtain ⟨value, hresolved, hiff, -⟩ :=
    tool_path_iff (b := vireBase) rfl (by decide) (by decide) summaryTemplate (by decide) hsends
  obtain ⟨ops', val, -, ⟨-, rfl⟩, hvalue⟩ := hresolved.2 nameParam (.head _) rfl
  have hname : value (ascii "name") = some (ascii "a/b") := hvalue
  have hexpand : summaryTemplate.expand value =
      some [ascii "api", ascii "portfolios", ascii "a/b", ascii "summary"] := by
    have hslot : meaning (pathNames summaryTool.params) value (.slot (ascii "name")) =
        some (ascii "a/b") := hname
    have htext : ∀ s : Str, unescape .path s = some s →
        ([Piece.text s].mapM (meaning (pathNames summaryTool.params) value)).map List.flatten =
          some s := by
      intro s hs
      simp [meaning, hs]
    unfold Template.expand
    refine mapM_cons_eq_some.2 ⟨_, _, htext _ (by decide), mapM_cons_eq_some.2
      ⟨_, _, htext _ (by decide), mapM_cons_eq_some.2 ⟨_, _, ?_, mapM_cons_eq_some.2
        ⟨_, _, htext _ (by decide), rfl, rfl⟩, rfl⟩, rfl⟩, rfl⟩
    simp [hslot]
  refine ⟨value, hname, hiff.2 ⟨_, hexpand, by decide, .inl ⟨by decide, ?_⟩⟩⟩
  show ∀ segment ∈ summarySegments, _
  decide

/-- With `..` as its argument the tool asks for `/api/summary`. -/
theorem tool_path_escapes : validateCatalogTool summaryTool = none ∧
    (summaryTool.params.map CatalogParam.name).Nodup ∧ summaryTool.path = summaryTemplate.text ∧
    Sends plainLib vireProxy none (namedArgs "..") summaryTool (namedOps "..")
      (namedParts "..") (namedRequest "..") ∧
    ResolvedBy plainLib vireProxy none (namedArgs "..") summaryTool.params (namedOps "..")
      (namedValue "..") ∧
    (namedRequest (ascii "..")).url.segments.map removeDots = some [ascii "api", ascii "summary"] ∧
    ¬ summaryTemplate.Preserved vireBase (namedValue "..") [] (namedRequest "..").url := by
  have hsegments : (namedRequest "..").url.segments.map removeDots =
      some [ascii "api", ascii "summary"] := by decide
  refine ⟨by decide, by decide, by decide,
    ⟨[], .reply 200 [], .ok [], rfl, ⟨rfl, rfl⟩, ⟨_, [], rfl, rfl, rfl⟩⟩,
      ⟨fun name hname => ?_, ?_⟩,
    hsegments, ?_⟩
  · apply if_neg
    rintro rfl
    exact hname (.head _)
  · intro param hparam _
    obtain rfl := List.mem_singleton.1 hparam
    exact ⟨[], .string (ascii ".."), List.nil_infix, ⟨rfl, rfl⟩, rfl⟩
  · rintro ⟨segments, hexpand, hpath, -⟩
    -- The value `..` is sent as it is, and as a segment it means the parent.
    have hdots : summaryTemplate.expand (namedValue (ascii "..")) =
        some [ascii "api", ascii "portfolios", ascii "..", ascii "summary"] := by decide
    obtain rfl := Option.some.inj (hdots.symm.trans hexpand)
    rw [hsegments] at hpath
    exact absurd hpath (by decide)

end VirePortal.Mcp
