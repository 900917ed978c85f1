import VirePortal.Concurrent.Join
import VirePortal.Pages.Portfolio

/-!
# The data that the dashboard page is rendered with

`DashboardHandler.ServeHTTP` puts the replies of five endpoints of vire-server into the script of
the page. It fetches the list of the portfolios first, which decides the portfolio, and then the
other four at once (`Renders`, with `Awaited` for the goroutines that `wg.Wait` waits for). Each
goroutine assigns to a variable of its own when its fetch succeeds, and every variable is `null`
before. What becomes of a request is decided by the environment (`Exchanged`), so a statement about
every log is one about every vire-server and every order in which the goroutines go on.

`ProxyGet` reads a reply up to 1 MiB and takes what it read for the whole of it. So a value of the
page is the first MiB of the document that its endpoint returned (`Renders.value`), and this is the
document exactly if the document is not longer (`hydration_complete`). The portfolio that the page
is for is the one that `serveDashboard` chooses from the same list.
-/

namespace VirePortal.Pages.Hydration

open Go Auth Concurrent

/-- The endpoints that the page is rendered from. -/
inductive Endpoint where
  | portfolios
  | portfolio
  | timeline
  | watchlist
  | glossary
  deriving DecidableEq

/-- The path of an endpoint, for the escaped name of the portfolio. -/
def Endpoint.path (escapedName : Str) : Endpoint → Str
  | .portfolios => "/api/portfolios"
  | .portfolio => "/api/portfolios/" ++ escapedName
  | .timeline => "/api/portfolios/" ++ escapedName ++ "/timeline"
  | .watchlist => "/api/portfolios/" ++ escapedName ++ "/watchlist"
  | .glossary => "/api/glossary"

/-- What becomes of a request: an error of `Do`, or a reply with its status and the bytes of its
body that arrive, after which the connection may break with an error. -/
inductive Exchanged where
  | unreachable (err : Str)
  | reply (statusCode : ℕ) (body : Str) (broken : Option Str)
  deriving DecidableEq

/-- What the handler and its goroutines do: a request, and an assignment to the variable of an
endpoint. -/
inductive HydrationOp where
  | exchange (url : URL) (header : Header)
  | assign (endpoint : Endpoint) (value : Str)

@[reducible]
def HydrationReply : HydrationOp → Type
  | .exchange _ _ => Exchanged
  | .assign _ _ => Unit

/-- A program of the handler. -/
abbrev Hydrating := Prog HydrationOp HydrationReply

/-- What was done, each operation with the endpoint that it is for. -/
abbrev HydrationLog := List (Endpoint × ((o : HydrationOp) × HydrationReply o))

/-- What the handler is set up with. -/
structure Settings where
  /-- The URL of vire-server. -/
  baseURL : Str
  /-- Whether `proxyGetFn` is set, which is `VireClient.ProxyGet` then. -/
  configured : Bool
  /-- The document of a JSON text, `none` for a syntax error. -/
  unmarshal : Str → Option Json
  /-- `json.Marshal` of a string. -/
  marshal : Str → Str
  /-- The text of the error of `http.NewRequest` for a URL that it refuses. -/
  urlError : Str → Str

/-! ### `ProxyGet` -/

/-- The limit of `ProxyGet`. -/
def proxyGetLimit : ℕ := 2 ^ 20

/-- `io.ReadAll(io.LimitReader(resp.Body, n))`: behind the limit neither the rest of the body nor an
error is noticed. -/
def readLimited (n : ℕ) (body : Str) (broken : Option Str) : Except Str Str :=
  match broken with
  | some err => if body.length < n then .error err else .ok (body.take n)
  | none => .ok (body.take n)

/-- The header of a request for a user. -/
def userHeader (userID : Str) : Header :=
  if userID ≠ [] then Header.set [] "X-Vire-User-ID" userID else []

/-- The end of `ProxyGet`, on what became of its request. -/
def Exchanged.result : Exchanged → Except Str Str
  | .unreachable err => .error ("failed to reach vire-server: " ++ err)
  | .reply statusCode body broken =>
    match readLimited proxyGetLimit body broken with
    | .error err => .error ("failed to read response: " ++ err)
    | .ok body =>
      -- The status is looked at after the body is read, and the length not at all.
      if statusCode < 200 ∨ 300 ≤ statusCode then
        .error ("server returned " ++ formatNat statusCode ++ ": " ++ body)
      else .ok body

/-- `VireClient.ProxyGet`. -/
def proxyGet (h : Settings) (path userID : Str) : Hydrating (Except Str Str) :=
  match URL.parse (h.baseURL ++ path) with
  | none => return .error ("failed to create request: " ++ h.urlError (h.baseURL ++ path))
  | some url => Prog.call (HydrationOp.exchange url (userHeader userID)) >>= fun x => pure x.result

/-! ### `DashboardHandler` -/

/-- What the handler does with the result of a fetch: a reply is assigned to the variable of the
endpoint, and an error is only logged. -/
def keep (e : Endpoint) : Except Str Str → Hydrating (Option Str)
  | .ok body => Prog.call (HydrationOp.assign e body) >>= fun _ => pure (some body)
  | .error _ => return none

/-- A fetch of the handler. -/
def fetch (h : Settings) (userID escapedName : Str) (e : Endpoint) : Hydrating (Option Str) :=
  proxyGet h (e.path escapedName) userID >>= keep e

/-- One element of `pData.Portfolios`. -/
def decodeName (element : Json) : Option Str :=
  (structMembers element).bind (stringField "name")

/-- One value stored into `pData.Portfolios`. -/
def storeNames : Json → Option (List Str)
  | .null => some []
  | .array elements => elements.mapM decodeName
  | _ => none

/-- `json.Unmarshal` into `pData`, of a document. -/
def decodePortfolios (document : Json) : Option PortfolioList := do
  let members ← structMembers document
  let names ← (fieldValues "portfolios" members).foldlM (fun _ value => storeNames value) []
  let defaultName ← stringField "default" members
  return ⟨names, defaultName⟩

/-- The list of the portfolios that a reply gives. -/
def Settings.portfolioList (h : Settings) (body : Str) : Option PortfolioList :=
  (h.unmarshal body).bind decodePortfolios

/-- The variable `selectedJSON` at first. -/
def noSelection : Str := "\"\""

/-- `ServeHTTP` up to the choice of the portfolio: the variables `selectedPortfolio` and
`selectedJSON`. -/
def selectFirst (h : Settings) (userID urlPortfolio : Str) : Hydrating (Str × Str) := do
  match ← fetch h userID [] .portfolios with
  | none => return ([], noSelection)
  | some body =>
    -- The list has been assigned already, whether it can be decoded or not.
    match h.portfolioList body with
    | none => return ([], noSelection)
    | some p =>
      let selected := selectPortfolio urlPortfolio p
      return (selected, h.marshal selected)

/-- The goroutines of `ServeHTTP`, one for each endpoint but that of the list. -/
def goroutine (h : Settings) (userID escapedName : Str) (e : Endpoint) : Hydrating Unit :=
  if e = .portfolios then return () else fetch h userID escapedName e >>= fun _ => pure ()

/-- The values of the variables after the assignments of a log. -/
def assigned : HydrationLog → (Endpoint → Str) → Endpoint → Str
  | [], values => values
  | (_, ⟨.assign e value, _⟩) :: log, values => assigned log (Function.update values e value)
  | _ :: log, values => assigned log values

/-- The variables at first. -/
def nulls : Endpoint → Str := fun _ => "null"

/-- What the script of the page is rendered with. -/
structure PageData where
  values : Endpoint → Str
  selectedPortfolio : Str
  selectedJSON : Str

/-- The page of a user at a path is rendered with `data`, after `log`. -/
inductive Renders (h : Settings) (claims : JWTClaims) (path : Str) : HydrationLog → PageData → Prop
  /-- Nothing is fetched. -/
  | unfetched (hno : h.configured = false ∨ claims.sub = []) :
      Renders h claims path [] ⟨nulls, [], noSelection⟩
  /-- No portfolio is selected. -/
  | unselected {ops : List ((o : HydrationOp) × HydrationReply o)} {selectedJSON : Str}
      (hfetch : h.configured = true ∧ claims.sub ≠ [])
      (hfirst : (selectFirst h claims.sub (urlPortfolio "/dashboard" path)).Does ops
        ([], selectedJSON)) :
      Renders h claims path (ops.map (Prod.mk .portfolios))
        ⟨assigned (ops.map (Prod.mk .portfolios)) nulls, [], selectedJSON⟩
  /-- The goroutines have returned. -/
  | awaited {ops : List ((o : HydrationOp) × HydrationReply o)} {selected selectedJSON : Str}
      {log : HydrationLog}
      (hfetch : h.configured = true ∧ claims.sub ≠ [])
      (hfirst : (selectFirst h claims.sub (urlPortfolio "/dashboard" path)).Does ops
        (selected, selectedJSON))
      (hselected : selected ≠ [])
        (hawaited : Awaited (goroutine h claims.sub (pathEscape selected)) log) :
      Renders h claims path (ops.map (Prod.mk .portfolios) ++ log)
        ⟨assigned (ops.map (Prod.mk .portfolios) ++ log) nulls, selected, selectedJSON⟩

/-! ### One fetch -/

section Fetch

variable {h : Settings} {userID escapedName : Str} {e : Endpoint}
variable {ops : List ((o : HydrationOp) × HydrationReply o)} {result : Option Str}

/-- `keep` assigns a body and drops an error. -/
theorem does_keep {x : Except Str Str} (hdoes : (keep e x).Does ops result) :
    result = x.toOption ∧ ops = (x.toOption.map fun body => ⟨.assign e body, ()⟩).toList := by
  cases x with
  | error err =>
    obtain ⟨rfl, rfl⟩ := hdoes
    exact ⟨rfl, rfl⟩
  | ok body =>
    obtain ⟨u, rest, rfl, rfl, rfl⟩ := hdoes
    exact ⟨rfl, rfl⟩

/-- A fetch makes one request, unless its URL is refused, and assigns what it gets. -/
theorem does_fetch (hdoes : (fetch h userID escapedName e).Does ops result) :
    ops = [] ∧ result = none ∨
      ∃ url x, URL.parse (h.baseURL ++ e.path escapedName) = some url ∧ result = x.result.toOption ∧
        ops = ⟨.exchange url (userHeader userID), x⟩ ::
          (x.result.toOption.map fun body => ⟨.assign e body, ()⟩).toList := by
  unfold fetch proxyGet at hdoes
  cases hurl : URL.parse (h.baseURL ++ e.path escapedName) with
  | none =>
    rw [hurl] at hdoes
    exact .inl hdoes
  | some url =>
    rw [hurl] at hdoes
    obtain ⟨x, rest, rfl, hrest⟩ := hdoes
    obtain ⟨rfl, rfl⟩ := does_keep hrest
    exact .inr ⟨url, x, rfl, rfl, rfl⟩

end Fetch

/-! ### The log of a page -/

/-- What became of the request for an endpoint, `none` when none was made. -/
def answered (log : HydrationLog) (e : Endpoint) : Option Exchanged :=
  (logOf e log).findSome? fun x => match x with
    | ⟨.exchange _ _, reply⟩ => some reply
    | ⟨.assign _ _, _⟩ => none

/-- The value of a variable after operations that assign to it. -/
def lastValue : List ((o : HydrationOp) × HydrationReply o) → Str → Str
  | [], value => value
  | ⟨.assign _ value, _⟩ :: ops, _ => lastValue ops value
  | ⟨.exchange _ _, _⟩ :: ops, value => lastValue ops value

/-- The operation assigns to no other variable than that of `e`. -/
def Owns (e : Endpoint) (o : HydrationOp) : Prop := ∀ e' value, o = .assign e' value → e' = e

/-- The variable of an endpoint, when every operation assigns to the variable of its own
endpoint. -/
theorem assigned_apply {log : HydrationLog} (hown : ∀ x ∈ log, Owns x.1 x.2.1)
    (values : Endpoint → Str) (e : Endpoint) :
    assigned log values e = lastValue (logOf e log) (values e) := by
  induction log generalizing values with
  | nil => rfl
  | cons x log ih =>
    have hlog : ∀ x ∈ log, Owns x.1 x.2.1 := fun y hy => hown y (.tail _ hy)
    obtain ⟨j, o, r⟩ := x
    cases o with
    | exchange url header =>
      rw [show assigned ((j, ⟨.exchange url header, r⟩) :: log) values = assigned log values
        from rfl, ih hlog]
      by_cases hj : j = e
      · subst hj
        rw [logOf_cons_self]
        rfl
      · rw [logOf_cons_of_ne hj]
    | assign e' value =>
      -- A goroutine assigns to the variable of its own endpoint.
      obtain rfl : e' = j := hown (j, ⟨.assign e' value, r⟩) (.head _) e' value rfl
      rw [show assigned ((e', ⟨.assign e' value, r⟩) :: log) values =
        assigned log (Function.update values e' value) from rfl, ih hlog]
      by_cases hj : e' = e
      · subst hj
        rw [logOf_cons_self, Function.update_self]
        rfl
      · rw [logOf_cons_of_ne hj, Function.update_of_ne (Ne.symm hj)]

section Renders

variable {h : Settings} {claims : JWTClaims} {path : Str} {log : HydrationLog} {data : PageData}

/-- The portfolio is chosen from the list that was fetched. -/
theorem does_selectFirst {userID urlPortfolio : Str}
    {ops : List ((o : HydrationOp) × HydrationReply o)} {selection : Str × Str}
    (hdoes : (selectFirst h userID urlPortfolio).Does ops selection) :
    ∃ result, (fetch h userID [] .portfolios).Does ops result ∧
      selection.1 = ((result.bind h.portfolioList).map (selectPortfolio urlPortfolio)).getD [] := by
  obtain ⟨ops1, result, ops2, rfl, hfetch, hrest⟩ := Prog.does_bind.1 hdoes
  have hpure : ops2 = [] ∧
      selection.1 = ((result.bind h.portfolioList).map (selectPortfolio urlPortfolio)).getD [] := by
    cases result with
    | none =>
      obtain ⟨rfl, rfl⟩ := hrest
      exact ⟨rfl, rfl⟩
    | some body =>
      dsimp only at hrest
      rw [Option.bind_some]
      cases hlist : h.portfolioList body with
      | none =>
        rw [hlist] at hrest
        obtain ⟨rfl, rfl⟩ := hrest
        exact ⟨rfl, rfl⟩
      | some p =>
        rw [hlist] at hrest
        obtain ⟨rfl, rfl⟩ := hrest
        exact ⟨rfl, rfl⟩
  rw [hpure.1, List.append_nil]
  exact ⟨result, hfetch, hpure.2⟩

/-- The data are what was assigned. -/
theorem Renders.values_eq (hr : Renders h claims path log data) :
    data.values = assigned log nulls := by
  cases hr <;> rfl

/-- What is in the log for an endpoint is its fetch, for the portfolio that the page selects. -/
theorem Renders.fetched (hr : Renders h claims path log data) (e : Endpoint) :
    logOf e log = [] ∨
      ∃ result, (fetch h claims.sub (pathEscape data.selectedPortfolio) e).Does (logOf e log)
        result := by
  cases hr with
  | unfetched hno => exact .inl rfl
  | @unselected ops selectedJSON hfetch hfirst =>
    rw [logOf_map_mk]
    split_ifs with he
    · subst he
      obtain ⟨result, hfetched, -⟩ := does_selectFirst hfirst
      exact .inr ⟨result, hfetched⟩
    · exact .inl rfl
  | @awaited ops selected selectedJSON log hfetch hfirst hselected hawaited =>
    -- The entries of an endpoint come from the first fetch, or from its goroutine, and not from
    -- both.
    have hdoes := hawaited.does e
    rw [logOf_append, logOf_map_mk]
    unfold goroutine at hdoes
    split_ifs at hdoes ⊢ with he he' he'
    · subst he
      rw [hdoes.1, List.append_nil]
      obtain ⟨result, hfetched, -⟩ := does_selectFirst hfirst
      exact .inr ⟨result, hfetched⟩
    · exact absurd he.symm he'
    · exact absurd he'.symm he
    · obtain ⟨ops1, result, ops2, hops, hfetched, rfl, -⟩ := Prog.does_bind.1 hdoes
      rw [List.append_nil] at hops
      rw [hops]
      exact .inr ⟨result, hfetched⟩

/-- For each endpoint, the log has no request and no assignment, or one request and the assignment
of what it brought. -/
theorem Renders.logOf_eq (hr : Renders h claims path log data) (e : Endpoint) :
    logOf e log = [] ∨
      ∃ url x, URL.parse (h.baseURL ++ e.path (pathEscape data.selectedPortfolio)) = some url ∧
        logOf e log = ⟨.exchange url (userHeader claims.sub), x⟩ ::
          (x.result.toOption.map fun body => ⟨.assign e body, ()⟩).toList := by
  rcases hr.fetched e with hnil | ⟨result, hdoes⟩
  · exact .inl hnil
  · rcases does_fetch hdoes with ⟨hnil, -⟩ | ⟨url, x, hurl, -, hlog⟩
    · exact .inl hnil
    · exact .inr ⟨url, x, hurl, hlog⟩

/-- What a fetch returns is what became of its request. -/
theorem answered_of_fetch {userID escapedName : Str} {e : Endpoint} {result : Option Str}
    (hdoes : (fetch h userID escapedName e).Does (logOf e log) result) :
    ((answered log e).bind fun x => x.result.toOption) = result := by
  unfold answered
  rcases does_fetch hdoes with ⟨hnil, rfl⟩ | ⟨url, x, -, rfl, hlog⟩
  · rw [hnil]
    rfl
  · rw [hlog]
    rfl

/-- The list of the portfolios as the page got it. -/
def listed (h : Settings) (log : HydrationLog) : Option PortfolioList :=
  ((answered log .portfolios).bind fun x => x.result.toOption).bind h.portfolioList

/-- The page selects the portfolio that the handler chooses from the list. -/
theorem Renders.serveDashboard_eq {r : Request} (hr : Renders h claims r.url.path log data)
    (hconfigured : h.configured = true)
    (hdesktop : isMobileBrowser (r.header.get "User-Agent") = false) :
    serveDashboard (some claims) (fun _ => listed h log) r = .page data.selectedPortfolio := by
  -- The choice depends on the operations of the first fetch alone.
  have hpage : claims.sub ≠ [] → ∀ ops log' selection,
      (selectFirst h claims.sub (urlPortfolio "/dashboard" r.url.path)).Does ops selection →
      logOf .portfolios log' = ops →
      pageFor claims (fun _ => listed h log') (urlPortfolio "/dashboard" r.url.path) =
        .page selection.1 := by
    intro hsub ops log' selection hfirst hlog
    obtain ⟨result, hfetched, hselection⟩ := does_selectFirst hfirst
    rw [← hlog] at hfetched
    rw [hselection, pageFor, if_pos hsub, listed, answered_of_fetch hfetched]
    cases result.bind h.portfolioList <;> rfl
  unfold serveDashboard
  dsimp only
  rw [if_neg (by simp [hdesktop])]
  cases hr with
  | unfetched hno =>
    rcases hno with hno | hsub
    · cases hno.symm.trans hconfigured
    · rw [pageFor, if_neg (not_not.2 hsub)]
  | unselected hfetch hfirst =>
    exact hpage hfetch.2 _ _ _ hfirst (logOf_map_mk Endpoint.portfolios .portfolios _)
  | awaited hfetch hfirst hselected hawaited =>
    refine hpage hfetch.2 _ _ _ hfirst ?_
    rw [logOf_append, logOf_map_mk, if_pos rfl, (hawaited.does .portfolios).1, List.append_nil]

/-- An entry of the log is the request of its endpoint, or an assignment to the variable of its
endpoint. -/
theorem Renders.entry_cases (hr : Renders h claims path log data) {e : Endpoint}
    {entry : (o : HydrationOp) × HydrationReply o} (hentry : (e, entry) ∈ log) :
    (∃ url x, URL.parse (h.baseURL ++ e.path (pathEscape data.selectedPortfolio)) = some url ∧
        answered log e = some x ∧ entry = ⟨.exchange url (userHeader claims.sub), x⟩) ∨
      ∃ value, entry = ⟨.assign e value, ()⟩ := by
  have hmem := mem_logOf.2 hentry
  rcases hr.logOf_eq e with hnil | ⟨url, x, hurl, hlog⟩
  · rw [hnil] at hmem
    cases hmem
  · rw [hlog] at hmem
    rcases List.mem_cons.1 hmem with rfl | hmem
    · refine .inl ⟨url, x, hurl, ?_, rfl⟩
      rw [answered, hlog]
      rfl
    · obtain ⟨value, -, rfl⟩ := Option.map_eq_some_iff.1 (Option.mem_toList.1 hmem)
      exact .inr ⟨value, rfl⟩

/-- Each goroutine assigns its own fields only. -/
theorem Renders.owns (hr : Renders h claims path log data) : ∀ x ∈ log, Owns x.1 x.2.1 := by
  rintro ⟨e, entry⟩ hentry e' value heq
  rcases hr.entry_cases hentry with ⟨url, x, -, -, rfl⟩ | ⟨value', rfl⟩
  · cases heq
  · cases heq
    rfl

/-- A value of the page is what `ProxyGet` made of the reply of its endpoint, and `null` without
one. -/
theorem Renders.value (hr : Renders h claims path log data) (e : Endpoint) :
    data.values e = ((answered log e).bind fun x => x.result.toOption).getD "null" := by
  rw [hr.values_eq, assigned_apply hr.owns, answered]
  rcases hr.logOf_eq e with hnil | ⟨url, x, -, hlog⟩
  · rw [hnil]
    rfl
  · rw [hlog]
    cases hresult : x.result.toOption with
    | none => simp [lastValue, nulls, hresult]
    | some body => simp [lastValue, hresult]

end Renders

/-! ### Complete documents -/

/-- The document that vire-server returned: the body of a reply with a status of success that
arrives as a whole. -/
def Exchanged.document : Exchanged → Option Str
  | .reply statusCode body none => if 200 ≤ statusCode ∧ statusCode < 300 then some body else none
  | _ => none

/-- A body with a status of success is not longer than the limit, and one that breaks off does so
before it. -/
def Exchanged.Short : Exchanged → Prop
  | .unreachable _ => True
  | .reply statusCode body broken => 200 ≤ statusCode → statusCode < 300 →
      body.length ≤ proxyGetLimit ∧ (broken ≠ none → body.length < proxyGetLimit)

/-- A reply gives what was read of it if its status is one of success. -/
theorem Exchanged.result_reply (statusCode : ℕ) (body : Str) (broken : Option Str) :
    (Exchanged.reply statusCode body broken).result.toOption =
      if 200 ≤ statusCode ∧ statusCode < 300 then (readLimited proxyGetLimit body broken).toOption
      else none := by
  unfold result
  dsimp only
  cases readLimited proxyGetLimit body broken with
  | error err => split_ifs <;> rfl
  | ok read =>
    dsimp only
    split_ifs with hrefused hstatus hstatus
    · omega
    · rfl
    · rfl
    · omega

/-- `ProxyGet` returns the document, or fails when there is none, exactly if the body is short. -/
theorem Exchanged.result_eq_document_iff (x : Exchanged) :
    x.result.toOption.getD "null" = x.document.getD "null" ↔ x.Short := by
  cases x with
  | unreachable err => exact iff_of_true rfl trivial
  | reply statusCode body broken =>
    rw [result_reply]
    by_cases hstatus : 200 ≤ statusCode ∧ statusCode < 300
    · have hshort : (Exchanged.reply statusCode body broken).Short ↔
          body.length ≤ proxyGetLimit ∧ (broken ≠ none → body.length < proxyGetLimit) :=
        ⟨fun h => h hstatus.1 hstatus.2, fun h _ _ => h⟩
      rw [if_pos hstatus, hshort]
      cases broken with
      | none =>
        rw [document, if_pos hstatus]
        show body.take proxyGetLimit = body ↔ _
        rw [List.take_eq_self_iff]
        simp
      | some err =>
        show (if body.length < proxyGetLimit then Except.error err
          else .ok (body.take proxyGetLimit)).toOption.getD "null" = "null" ↔ _
        by_cases hlength : body.length < proxyGetLimit
        · rw [if_pos hlength]
          exact iff_of_true rfl ⟨hlength.le, fun _ => hlength⟩
        · -- What was read is as long as the limit, and `null` is not.
          rw [if_neg hlength]
          refine iff_of_false (fun hnull => ?_) fun h => hlength (h.2 (Option.some_ne_none err))
          have hread : (body.take proxyGetLimit).length = (ascii "null").length :=
            congrArg List.length hnull
          rw [List.length_take, min_eq_left (not_lt.1 hlength)] at hread
          exact absurd hread (by decide)
    · have hdocument : (Exchanged.reply statusCode body broken).document = none := by
        cases broken with
        | none => exact if_neg hstatus
        | some err => rfl
      rw [if_neg hstatus, hdocument]
      exact iff_of_true rfl fun h h' => absurd ⟨h, h'⟩ hstatus

/-- The value of an endpoint is the document that it returned, and `null` if it returned none or was
not asked. -/
def Complete (log : HydrationLog) (data : PageData) (e : Endpoint) : Prop :=
  data.values e = ((answered log e).bind Exchanged.document).getD "null"

/-- For every vire-server and every order in which the goroutines go on, the requests of a page are
those for the portfolio that it selects, the handler chooses that portfolio from the list, and all
values of the page are complete exactly if no endpoint returned more than 1 MiB. -/
theorem hydration_complete {h : Settings} {claims : JWTClaims} {path : Str} {log : HydrationLog}
    {data : PageData} (hr : Renders h claims path log data) :
    (∀ e url header x, (e, ⟨.exchange url header, x⟩) ∈ log →
      URL.parse (h.baseURL ++ e.path (pathEscape data.selectedPortfolio)) = some url ∧
        header = userHeader claims.sub ∧ answered log e = some x) ∧
      (∀ r : Request, r.url.path = path → h.configured = true →
        isMobileBrowser (r.header.get "User-Agent") = false →
        serveDashboard (some claims) (fun _ => listed h log) r = .page data.selectedPortfolio) ∧
      ((∀ e, Complete log data e) ↔ ∀ e x, answered log e = some x → x.Short) := by
  refine ⟨fun e url header x hx => ?_, ?_, forall_congr' fun e => ?_⟩
  · rcases hr.entry_cases hx with ⟨url', x', hurl, hanswered, heq⟩ | ⟨value, heq⟩
    · cases heq
      exact ⟨hurl, rfl, hanswered⟩
    · cases heq
  · rintro r rfl hconfigured hdesktop
    exact hr.serveDashboard_eq hconfigured hdesktop
  · rw [Complete, hr.value]
    cases answered log e with
    | none => exact iff_of_true rfl fun x hx => absurd hx (Option.some_ne_none x).symm
    | some x =>
      refine (Exchanged.result_eq_document_iff x).trans
        ⟨fun hshort y hy => ?_, fun hall => hall x rfl⟩
      exact Option.some.inj hy ▸ hshort

/-! ### A page with every kind of reply -/

/-- The list of the portfolios, as vire-server sends it. -/
def sampleList : Str := "\x7b\"portfolios\":[\x7b\"name\":\"A\"\x7d]\x7d"

def sampleSettings : Settings where
  baseURL := "http://localhost:8501"
  configured := true
  unmarshal text :=
    if text = sampleList then
      some (.object [("portfolios", .array [.object [("name", .string "A")]])])
    else none
  marshal text := "\"" ++ text ++ "\""
  urlError _ := []

def sampleClaims : JWTClaims where
  sub := "u"

/-- The request for an endpoint, with what became of it. -/
def sampleRequest (e : Endpoint) (x : Exchanged) : (o : HydrationOp) × HydrationReply o :=
  ⟨.exchange ((URL.parse (sampleSettings.baseURL ++ e.path "A")).getD {})
    (userHeader sampleClaims.sub), x⟩

def sampleSelection : List ((o : HydrationOp) × HydrationReply o) :=
  [sampleRequest .portfolios (.reply 200 sampleList none), ⟨.assign .portfolios sampleList, ()⟩]

/-- The goroutines go on in turns: the timeline cannot be reached, there is no watchlist, and the
glossary is assigned while the portfolio `document` is under way. -/
def sampleTurns (document : Str) : HydrationLog :=
  [(.glossary, sampleRequest .glossary (.reply 200 "[]" none)),
    (.portfolio, sampleRequest .portfolio (.reply 200 document none)),
    (.timeline, sampleRequest .timeline (.unreachable "EOF")),
    (.glossary, ⟨.assign .glossary "[]", ()⟩),
    (.watchlist, sampleRequest .watchlist (.reply 404 "[]" none)),
    (.portfolio, ⟨.assign .portfolio (document.take proxyGetLimit), ()⟩)]

def sampleLog (document : Str) : HydrationLog :=
  sampleSelection.map (Prod.mk .portfolios) ++ sampleTurns document

def sampleData (document : Str) : PageData :=
  ⟨assigned (sampleLog document) nulls, "A", "\"A\""⟩

/-- The selection of the sample. -/
theorem does_sampleSelection :
    (selectFirst sampleSettings sampleClaims.sub (urlPortfolio "/dashboard" "/dashboard")).Does
      sampleSelection ("A", "\"A\"") :=
  ⟨.reply 200 sampleList none, _, rfl, (), [], rfl, rfl, rfl⟩

/-- The goroutines of the sample, in turn. -/
theorem awaited_sampleTurns (document : Str) :
    Awaited (goroutine sampleSettings sampleClaims.sub (pathEscape "A"))
      (sampleTurns document) := by
  unfold sampleTurns sampleRequest
  -- The log has the goroutine and the reply of every step.
  iterate 6 refine .step _ _ rfl ?_
  refine .done fun e => ?_
  cases e <;> rfl

/-- The page of the sample. -/
theorem renders_sample (document : Str) :
    Renders sampleSettings sampleClaims "/dashboard" (sampleLog document) (sampleData document) :=
  .awaited ⟨rfl, by decide⟩ does_sampleSelection (by decide) (awaited_sampleTurns document)

/-- A portfolio that fits into the limit is embedded as a whole, `null` stands for the timeline, and
the handler chooses the one portfolio. -/
theorem hydration_complete_short :
    Renders sampleSettings sampleClaims "/dashboard" (sampleLog "[1]") (sampleData "[1]") ∧
      (sampleData "[1]").values .portfolio = "[1]" ∧
      (sampleData "[1]").values .timeline = "null" ∧
      serveDashboard (some sampleClaims) (fun _ => listed sampleSettings (sampleLog "[1]"))
        { url := { path := "/dashboard" } } = .page "A" := by
  have hr := renders_sample "[1]"
  have hcomplete := (hydration_complete hr).2.2.2 fun e x hx => by
    cases e with
    | portfolios => exact Option.some.inj hx ▸ fun _ _ => by decide
    | portfolio => exact Option.some.inj hx ▸ fun _ _ => by decide
    | timeline => exact Option.some.inj hx ▸ trivial
    | watchlist => exact Option.some.inj hx ▸ fun _ _ => by decide
    | glossary => exact Option.some.inj hx ▸ fun _ _ => by decide
  exact ⟨hr, hcomplete .portfolio, hcomplete .timeline, (hydration_complete hr).2.1 _ rfl rfl
    (by decide)⟩

/-- A JSON string of 1 MiB, with its quotes. -/
def longDocument : Str := ascii "\"" ++ List.replicate proxyGetLimit 97 ++ ascii "\""

/-- The document is two bytes over the limit. -/
theorem longDocument_length : longDocument.length = proxyGetLimit + 2 := by
  rw [longDocument, List.length_append, List.length_append, List.length_replicate]
  exact Nat.add_right_comm 1 proxyGetLimit 1

/-- The page has the string without the end of it, which is neither the document nor `null`. -/
theorem hydration_truncated :
    Renders sampleSettings sampleClaims "/dashboard" (sampleLog longDocument)
      (sampleData longDocument) ∧
      (answered (sampleLog longDocument) .portfolio).bind Exchanged.document = some longDocument ∧
      (sampleData longDocument).values .portfolio = longDocument.take (2 ^ 20) ∧
      (sampleData longDocument).values .portfolio ≠ longDocument ∧
      (sampleData longDocument).values .portfolio ≠ "null" := by
  have hr := renders_sample longDocument
  have hanswered : answered (sampleLog longDocument) .portfolio =
      some (.reply 200 longDocument none) := rfl
  have hvalue : (sampleData longDocument).values .portfolio = longDocument.take proxyGetLimit := by
    rw [hr.value, hanswered]
    rfl
  have hlength : (longDocument.take proxyGetLimit).length = proxyGetLimit := by
    rw [List.length_take, longDocument_length]
    exact min_eq_left (Nat.le_add_right _ 2)
  refine ⟨hr, hanswered ▸ rfl, hvalue, fun hwhole => ?_, fun hnull => ?_⟩
  · have := congrArg List.length (hvalue.symm.trans hwhole)
    rw [hlength, longDocument_length] at this
    omega
  · have := congrArg List.length (hvalue.symm.trans hnull)
    rw [hlength] at this
    exact absurd this (by decide)

end VirePortal.Pages.Hydration
