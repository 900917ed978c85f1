import VirePortal.Go.Redirects
import VirePortal.Pages.Portfolio

/-!
# The URL of a portfolio

The script writes a portfolio's name into the URL with `encodeURIComponent`. `net/http` decodes the
path, and the handlers decode its last part once more, so a name with a percent sign is not found
(`desktop_iff`, `mobile_iff`). A mobile browser is redirected to the decoded path, which
`http.Redirect` does not encode: what the header, the browser and the URL syntax make of the bytes
of the name then matters too (`Go.returned`). The script itself decodes once and always gets the
name back.
-/

namespace VirePortal.Pages

open Go Auth

/-- `ServeMux` passes the URL to the handler of a page, which is registered for the page and for
every path below it. -/
def RoutedTo (page : Str) (u : URL) : Prop := u.Routed ∧ ∃ rest, u.segments = some (page :: rest)

/-- Whatever portfolios with the name a user has, and whatever the default is, the handler selects
the name. -/
def Selects (serve : Option JWTClaims → (Str → Option PortfolioList) → Request → PageReply)
    (r : Request) (n : Str) : Prop :=
  ∀ claims portfolios p, claims.sub ≠ [] → portfolios claims.sub = some p → n ∈ p.names →
    serve (some claims) portfolios r = .page n

/-- The request comes from a mobile browser. -/
def Request.mobile (r : Request) : Bool := isMobileBrowser (r.header.get "User-Agent")

/-- A portfolio's name: a string of JSON, without empty segments and dot segments. -/
structure Name where
  text : Str
  valid : validUTF8 text = true
  proper : ∀ s ∈ split 47 text, Proper s

/-- What a name goes through comes to the name again. -/
structure RoundTrips (n : Str) : Prop where
  /-- A desktop browser asks for the dashboard. -/
  desktop : ∃ u, URL.parseRequestURI ("/dashboard/" ++ encodeURIComponent n) = some u ∧
    RoutedTo "dashboard" u ∧ ∀ r, r.url = u → Request.mobile r = false → Selects serveDashboard r n
  /-- A browser asks for the mobile page. -/
  mobile : ∃ u, URL.parseRequestURI ("/m/" ++ encodeURIComponent n) = some u ∧
    RoutedTo "m" u ∧ ∀ r, r.url = u → Selects serveMobile r n
  /-- A mobile browser asks for the dashboard and follows the redirect. -/
  redirect : ∃ u, URL.parseRequestURI ("/dashboard/" ++ encodeURIComponent n) = some u ∧
    RoutedTo "dashboard" u ∧ ∀ r, r.url = u → Request.mobile r = true → ∀ claims portfolios,
      ∃ location, serveDashboard (some claims) portfolios r = .redirect location ∧
        ∃ u', URL.parseRequestURI (pathname (headerValue location)) = some u' ∧
          RoutedTo "m" u' ∧ ∀ r', r'.url = u' → Selects serveMobile r' n
  /-- The script reads the path that it wrote. -/
  client : ∀ path, getPortfolioFromURL (updateURL path n) = some n

/-! ### Names -/

namespace Name

variable (n : Name)

/-- A name is a proper segment. -/
theorem proper_text : Proper n.text := by
  by_cases hslash : 47 ∈ n.text
  · refine ⟨?_, ?_, ?_⟩
    all_goals
      intro heq
      rw [heq] at hslash
      exact absurd hslash (by decide)
  · exact n.proper n.text (by rw [split_of_not_mem hslash]; exact List.mem_singleton_self _)

/-- A name is not empty. -/
theorem ne_nil : n.text ≠ [] := n.proper_text.1

end Name

/-! ### The choice -/

/-- The page of every list selects the name exactly when it is the part of the URL. -/
theorem pageFor_iff {n s : Str} (hn : n ≠ []) :
    (∀ claims portfolios p, claims.sub ≠ [] → portfolios claims.sub = some p → n ∈ p.names →
      pageFor claims portfolios s = .page n) ↔ s = n := by
  constructor
  · intro h
    by_contra hne
    -- a list whose default is another name
    have hpage := h { sub := "u" } (fun _ => some ⟨[n], n ++ [0]⟩) ⟨[n], n ++ [0]⟩ (by decide) rfl
      (List.mem_singleton_self n)
    have hdefault : selectPortfolio s ⟨[n], n ++ [0]⟩ = n ++ [0] := by
      have hcleared : (if s ≠ [] ∧ s ∉ [n] then [] else s) = ([] : Str) := by
        split_ifs with hs
        · rfl
        · by_contra hs'
          exact hs ⟨hs', by simpa using hne⟩
      unfold selectPortfolio
      dsimp only
      rw [hcleared, if_pos rfl, if_neg (by simp)]
    rw [pageFor, if_pos (by decide)] at hpage
    have heq : n ++ [0] = n := by
      rw [← hdefault]
      exact PageReply.page.inj hpage
    have hlength := congrArg List.length heq
    rw [List.length_append, List.length_singleton] at hlength
    omega
  · rintro rfl claims portfolios p hsub hlist hmem
    have hselect : selectPortfolio s p = s := by
      have hkept : (if s ≠ [] ∧ s ∉ p.names then [] else s) = s := if_neg fun h => h.2 hmem
      unfold selectPortfolio
      dsimp only
      rw [hkept, if_neg hn, if_neg hn]
    rw [pageFor, if_pos hsub, hlist]
    exact congrArg PageReply.page hselect

/-- The part of the URL that names the portfolio, decoded. -/
theorem urlPortfolio_append (base : Str) {s : Str} (hs : s ≠ []) :
    urlPortfolio base (base ++ 47 :: s) = (unescape .path s).getD [] := by
  obtain ⟨c, rest, rfl⟩ := List.exists_cons_of_ne_nil hs
  rw [urlPortfolio, trimPrefix_append, ← unescape_pathSegment]
  rfl

/-- Decoding gives a string back exactly when it has no percent sign. -/
theorem unescape_getD_iff {s : Str} (hs : s ≠ []) : (unescape .path s).getD [] = s ↔ 37 ∉ s := by
  constructor
  · intro h
    cases hdecode : unescape .path s with
    | none =>
      rw [hdecode] at h
      exact absurd h.symm hs
    | some t =>
      rw [hdecode, Option.getD_some] at h
      exact (unescape_length hdecode).2 (by rw [h])
  · intro h
    rw [unescape_path_of_not_mem h, Option.getD_some]

/-! ### The pages -/

/-- A page and a name, as segments. -/
theorem slashed_page (page s : Str) : 47 :: page ++ [47] ++ s = slashed [page, s] := by
  simp [slashed]

/-- The two pages. -/
theorem slashed_dashboard (s : Str) :
    ascii "/dashboard/" ++ s = slashed [ascii "dashboard", s] := by
  have h : ascii "/dashboard/" = 47 :: ascii "dashboard" ++ [47] := by decide
  rw [h, slashed_page]

/-- A mobile URL, as segments. -/
theorem slashed_m (s : Str) : ascii "/m/" ++ s = slashed [ascii "m", s] := by
  have h : ascii "/m/" = 47 :: ascii "m" ++ [47] := by decide
  rw [h, slashed_page]

variable (n : Name)

/-- The script's URL for a page is that of the page with the name. -/
theorem exists_page {page : Str} (hplain : PlainSegment page)
    (hvalid : validEncoded page .path = true) :
    ∃ u, URL.parseRequestURI (slashed [page, encodeURIComponent n.text]) = some u ∧
      u.path = slashed [page] ++ 47 :: n.text ∧ RoutedTo page u := by
  obtain ⟨u, hparse, hpath, hsegments, hrouted⟩ := parseRequestURI_named hplain hvalid n.proper_text
  exact ⟨u, hparse, hpath, hrouted, _, hsegments⟩

/-- The server accepts the desktop URL and routes it. -/
theorem exists_dashboard :
    ∃ u, URL.parseRequestURI ("/dashboard/" ++ encodeURIComponent n.text) = some u ∧
    u.path = "/dashboard" ++ 47 :: n.text ∧ RoutedTo "dashboard" u := by
  have hplain : PlainSegment "dashboard" := by decide
  rw [slashed_dashboard]
  exact exists_page n hplain (by decide)

/-- The server accepts the mobile URL and routes it. -/
theorem exists_m : ∃ u, URL.parseRequestURI ("/m/" ++ encodeURIComponent n.text) = some u ∧
    u.path = "/m" ++ 47 :: n.text ∧ RoutedTo "m" u := by
  have hplain : PlainSegment "m" := by decide
  rw [slashed_m]
  exact exists_page n hplain (by decide)

variable {n}

/-- A request without a user agent. -/
theorem desktop_request (u : URL) : Request.mobile { url := u } = false := by
  have h : isMobileBrowser (Header.get [] "User-Agent") = false := by decide
  exact h

/-- A request of a mobile browser. -/
theorem mobile_request (u : URL) :
    Request.mobile { url := u, header := [("User-Agent", ["iphone"])] } = true := by
  have h : isMobileBrowser (Header.get [("User-Agent", ["iphone"])] "User-Agent") = true := by
    decide
  exact h

/-- The desktop page unescapes the rest of the path. -/
theorem selects_dashboard_iff {r : Request} {s : Str} (hs : s ≠ [])
    (hpath : r.url.path = "/dashboard" ++ 47 :: s) (hmobile : Request.mobile r = false) :
    Selects serveDashboard r n.text ↔ (unescape .path s).getD [] = n.text := by
  rw [← pageFor_iff n.ne_nil, ← urlPortfolio_append "/dashboard" hs, ← hpath]
  unfold Selects serveDashboard
  rw [Request.mobile] at hmobile
  simp only [hmobile, Bool.false_eq_true, if_false]

/-- The mobile page takes the rest of the path. -/
theorem selects_mobile_iff {r : Request} :
    Selects serveMobile r n.text ↔ urlPortfolio "/m" r.url.path = n.text := by
  rw [← pageFor_iff n.ne_nil]
  rfl

/-- A desktop browser gets the name's page exactly when the name has no percent sign. -/
theorem desktop_iff :
    (∃ u, URL.parseRequestURI ("/dashboard/" ++ encodeURIComponent n.text) = some u ∧
    RoutedTo "dashboard" u ∧ ∀ r, r.url = u → Request.mobile r = false →
      Selects serveDashboard r n.text) ↔ 37 ∉ n.text := by
  obtain ⟨u, hparse, hpath, hrouted⟩ := exists_dashboard n
  rw [← unescape_getD_iff n.ne_nil]
  constructor
  · rintro ⟨v, hv, -, h⟩
    obtain rfl : u = v := Option.some.inj (hparse.symm.trans hv)
    have hselects := h { url := u } rfl (desktop_request u)
    rwa [selects_dashboard_iff n.ne_nil hpath (desktop_request u)] at hselects
  · intro h
    refine ⟨u, hparse, hrouted, ?_⟩
    rintro r rfl hmobile
    exact (selects_dashboard_iff n.ne_nil hpath hmobile).2 h

/-- A browser gets the name's mobile page exactly when the name has no percent sign. -/
theorem mobile_iff : (∃ u, URL.parseRequestURI ("/m/" ++ encodeURIComponent n.text) = some u ∧
    RoutedTo "m" u ∧ ∀ r, r.url = u → Selects serveMobile r n.text) ↔ 37 ∉ n.text := by
  obtain ⟨u, hparse, hpath, hrouted⟩ := exists_m n
  have hname : urlPortfolio "/m" u.path = (unescape .path n.text).getD [] := by
    rw [hpath, urlPortfolio_append _ n.ne_nil]
  rw [← unescape_getD_iff n.ne_nil, ← hname]
  constructor
  · rintro ⟨v, hv, -, h⟩
    obtain rfl : u = v := Option.some.inj (hparse.symm.trans hv)
    exact selects_mobile_iff.1 (h { url := u } rfl)
  · intro h
    refine ⟨u, hparse, hrouted, ?_⟩
    rintro r rfl
    exact selects_mobile_iff.2 h

/-! ### The script -/

/-- A browser decodes what it encoded. -/
theorem decodeURIComponent_encodeURIComponent (n : Name) :
    decodeURIComponent (encodeURIComponent n.text) = some n.text := by
  rw [decodeURIComponent, unescape_encodeURIComponent, Option.bind_some, if_pos n.valid]

/-- The script reads the name in the desktop URL. -/
theorem getPortfolioFromURL_dashboard (n : Name) :
    getPortfolioFromURL ("/dashboard/" ++ encodeURIComponent n.text) = some n.text := by
  have hdir : hasPrefix ("/dashboard/" ++ encodeURIComponent n.text) "/dashboard/" = true :=
    List.isPrefixOf_iff_prefix.2 (List.prefix_append _ _)
  rw [getPortfolioFromURL, if_pos hdir, List.drop_left, decodeURIComponent_encodeURIComponent]

/-- The script reads the name in the mobile URL. -/
theorem getPortfolioFromURL_m (n : Name) :
    getPortfolioFromURL ("/m/" ++ encodeURIComponent n.text) = some n.text := by
  have hother : hasPrefix ("/m/" ++ encodeURIComponent n.text) "/dashboard/" = false := by
    have h : ascii "/m/" = [47, 109, 47] := by decide
    rw [h]
    rfl
  have hdir : hasPrefix ("/m/" ++ encodeURIComponent n.text) "/m/" = true :=
    List.isPrefixOf_iff_prefix.2 (List.prefix_append _ _)
  rw [getPortfolioFromURL, if_neg (by simp [hother]), if_pos hdir, List.drop_left,
    decodeURIComponent_encodeURIComponent]

/-- The script reads the name that it wrote. -/
theorem client_roundTrips (n : Name) (path : Str) :
    getPortfolioFromURL (updateURL path n.text) = some n.text := by
  have hdashboard : pathname ("/dashboard/" ++ encodeURIComponent n.text) =
      "/dashboard/" ++ encodeURIComponent n.text := by
    rw [slashed_dashboard]
    exact pathname_named (by decide) (forall_mem_of_all (by decide)) (by decide) n.proper_text
  have hm : pathname ("/m/" ++ encodeURIComponent n.text) = "/m/" ++ encodeURIComponent
      n.text := by
    rw [slashed_m]
    exact pathname_named (by decide) (forall_mem_of_all (by decide)) (by decide) n.proper_text
  -- the page has the new path afterwards, whether it had it before or not
  have hupdate : ∀ newPath, pathname newPath = newPath →
      (if path ≠ newPath then pathname newPath else path) = newPath := by
    intro newPath hkeep
    split_ifs with hne
    · exact hkeep
    · exact not_not.1 hne
  unfold updateURL
  rw [if_pos n.ne_nil]
  by_cases hpage : hasPrefix path "/m" = true
  · rw [if_pos hpage, hupdate _ hm]
    exact getPortfolioFromURL_m n
  · rw [if_neg hpage, hupdate _ hdashboard]
    exact getPortfolioFromURL_dashboard n

/-! ### The redirect -/

/-- The path that a mobile browser is redirected to. -/
theorem serveDashboard_mobile {r : Request}
    (hpath : r.url.path = "/dashboard" ++ 47 :: n.text) (hmobile : Request.mobile r = true)
    (claims : JWTClaims) (portfolios : Str → Option PortfolioList) :
    serveDashboard (some claims) portfolios r = .redirect
      (redirectLocation ("/m" ++ 47 :: n.text)) := by
  have htarget : mobilePath r.url.path = "/m" ++ 47 :: n.text := by
    obtain ⟨c, s, hcons⟩ := List.exists_cons_of_ne_nil n.ne_nil
    rw [hpath, mobilePath, trimPrefix_append, hcons]
    rfl
  rw [Request.mobile] at hmobile
  unfold serveDashboard
  rw [htarget]
  simp only [hmobile, if_true]

/-- The segments of that path. -/
def mobileSegments (n : Name) : List Str := "m" :: split 47 n.text

/-- The path of the mobile URL. -/
theorem slashed_mobileSegments (n : Name) :
    slashed (mobileSegments n) = "/m" ++ 47 :: n.text := by
  rw [← slashed_split]
  rfl

/-- The segments have no slash. -/
theorem mobileSegments_slash : ∀ s ∈ mobileSegments n, 47 ∉ s := by
  intro s hs
  rcases List.mem_cons.1 hs with rfl | hs
  · decide
  · exact not_mem_of_mem_split hs

/-- The segments are proper. -/
theorem mobileSegments_proper : ∀ s ∈ mobileSegments n, Proper s := by
  intro s hs
  rcases List.mem_cons.1 hs with rfl | hs
  · exact ⟨by decide, by decide, by decide⟩
  · exact n.proper s hs

/-- A mobile page that selects the name has it in its path. -/
theorem path_of_selects {u : URL} {rest : List Str} (hpath : u.path = slashed ("m" :: rest))
    (hpercent : ∀ s ∈ rest, 37 ∉ s) (h : urlPortfolio "/m" u.path = n.text) :
    u.path = "/m" ++ 47 :: n.text := by
  cases rest with
  | nil =>
    -- the path is that of the page itself
    rw [hpath] at h
    exact absurd h.symm n.ne_nil
  | cons first more =>
    have happ : u.path = "/m" ++ 47 :: (first ++ slashed more) := by
      rw [hpath]
      rfl
    have hplain : 37 ∉ first ++ slashed more := by
      intro hmem
      rcases List.mem_append.1 hmem with hmem | hmem
      · exact hpercent first (.head _) hmem
      · exact not_mem_slashed (by decide)
          (fun s hs => hpercent s (.tail _ hs)) hmem
    by_cases hnil : first ++ slashed more = []
    · rw [happ, hnil] at h
      exact absurd h.symm n.ne_nil
    · rw [happ, urlPortfolio_append _ hnil, unescape_path_of_not_mem hplain, Option.getD_some] at h
      rw [happ, h]

/-- A property of the bytes of that path. -/
theorem forall_mem_mobile {P : UInt8 → Prop} (hslash : P 47) (hm : P 109) (s : Str) :
    (∀ c ∈ ascii "/m" ++ 47 :: s, P c) ↔ ∀ c ∈ s, P c := by
  have hbase : ascii "/m" = [47, 109] := by decide
  simp [hbase, hslash, hm]

/-- The path ends as the name does. -/
theorem getLast?_mobile {s : Str} (hs : s ≠ []) :
    ("/m" ++ 47 :: s).getLast? = s.getLast? := by
  obtain ⟨front, c, rfl⟩ : ∃ front c, s = front ++ [c] :=
    ⟨_, _, (List.dropLast_append_getLast hs).symm⟩
  rw [List.getLast?_concat]
  exact List.getLast?_eq_some_iff.2 ⟨"/m" ++ 47 :: front, by simp⟩

/-- The path comes back as it was exactly when no byte of the name is special to a browser and the
name does not end in a blank or a control character. -/
theorem returned_mobile_iff (n : Name) :
    returned ("/m" ++ 47 :: n.text) = "/m" ++ 47 :: n.text ↔
      (∀ c ∈ n.text, c ∉ marks) ∧ ∃ c, n.text.getLast? = some c ∧ 32 < c := by
  rw [← getLast?_mobile n.ne_nil, ← forall_mem_mobile (P := (· ∉ marks)) (by decide) (by decide),
    ← slashed_mobileSegments]
  exact returned_eq_self_iff (List.cons_ne_nil _ _) mobileSegments_slash
    fun s hs => (mobileSegments_proper s hs).not_dots

/-- The path of a mobile URL is clean. -/
theorem cleanedURL_mobile (hmark : 63 ∉ n.text) :
    cleanedURL ("/m" ++ 47 :: n.text) = "/m" ++ 47 :: n.text := by
  have hbyte : ∀ c ∈ "/m" ++ 47 :: n.text, c ≠ 63 :=
    (forall_mem_mobile (by decide) (by decide) n.text).2 fun c hc heq => hmark (heq ▸ hc)
  rw [← slashed_mobileSegments] at hbyte ⊢
  exact cleanedURL_slashed (List.cons_ne_nil _ _) mobileSegments_slash mobileSegments_proper
    fun hmem => hbyte 63 hmem rfl

/-- A mobile browser that follows the redirect gets to the name's page exactly when the decoded path
comes back as it was. -/
theorem redirect_iff (hpercent : 37 ∉ n.text) :
    (∃ u, URL.parseRequestURI
      (pathname (headerValue (redirectLocation ("/m" ++ 47 :: n.text)))) = some u ∧
      RoutedTo "m" u ∧ ∀ r, r.url = u → Selects serveMobile r n.text) ↔
      (∀ c ∈ n.text, c ∉ marks) ∧ ∃ c, n.text.getLast? = some c ∧ 32 < c := by
  have hplain : 37 ∉ cleanedURL ("/m" ++ 47 :: n.text) := by
    have hbyte : ∀ c ∈ "/m" ++ 47 :: n.text, c ≠ 37 :=
      (forall_mem_mobile (by decide) (by decide) n.text).2 fun c hc heq => hpercent (heq ▸ hc)
    intro hmem
    exact hbyte 37 ((mem_cleanedURL hmem).resolve_right (by decide)) rfl
  obtain ⟨u, hparse, hpath, hsegments, hrouted⟩ := exists_returned (cleanedURL_head rfl) hplain
  constructor
  · rintro ⟨v, hv, ⟨-, rest, hrest⟩, hselects⟩
    obtain rfl : u = v := Option.some.inj (hparse.symm.trans hv)
    have hreturned : returnedSegments (cleanedURL ("/m" ++ 47 :: n.text)) = ascii "m" :: rest :=
      Option.some.inj (hsegments.symm.trans hrest)
    have hname : u.path = "/m" ++ 47 :: n.text := by
      have hslashed : u.path = slashed (ascii "m" :: rest) := by rw [hpath, returned, hreturned]
      refine path_of_selects hslashed (fun s hs hmem => ?_)
        (selects_mobile_iff.1 (hselects { url := u } rfl))
      have hs' : s ∈ returnedSegments (cleanedURL ("/m" ++ 47 :: n.text)) := by
        rw [hreturned]
        exact List.mem_cons_of_mem _ hs
      exact ((mem_returnedSegments hs').2.2 37 hmem).1.elim hplain (by decide)
    -- no byte that comes back is special to a browser, so the redirect left the path as it is
    have hmarks : ∀ c ∈ n.text, c ∉ marks := by
      refine (forall_mem_mobile (P := (· ∉ marks)) (by decide) (by decide) n.text).1 fun c hc => ?_
      rw [← hname, hpath] at hc
      obtain ⟨s, hs, hmem⟩ := List.mem_flatMap.1 hc
      rcases List.mem_cons.1 hmem with rfl | hmem
      · decide
      · exact ((mem_returnedSegments hs).2.2 c hmem).2
    rw [cleanedURL_mobile fun hmem => hmarks 63 hmem (by decide)] at hpath
    exact (returned_mobile_iff n).1 (hpath.symm.trans hname)
  · intro h
    have hclean := cleanedURL_mobile fun hmem => h.1 63 hmem (by decide)
    have hreturned := (returned_mobile_iff n).2 h
    have htexts : returnedSegments ("/m" ++ 47 :: n.text) = mobileSegments n := by
      have hslash : ∀ s ∈ returnedSegments ("/m" ++ 47 :: n.text), 47 ∉ s :=
        fun s hs => (mem_returnedSegments hs).2.1
      have hsplit := congrArg (split 47) (hreturned.trans (slashed_mobileSegments n).symm)
      rw [returned, split_slashed_self hslash, split_slashed_self mobileSegments_slash] at hsplit
      exact (List.cons.inj hsplit).2
    rw [hclean, hreturned] at hpath
    rw [hclean, htexts] at hsegments hrouted
    refine ⟨u, hparse, ⟨hrouted mobileSegments_proper, _, hsegments⟩, ?_⟩
    rintro r rfl
    rw [selects_mobile_iff, hpath, urlPortfolio_append _ n.ne_nil, unescape_path_of_not_mem
      hpercent, Option.getD_some]

/-! ### The round trip -/

/-- A name comes back from all its URLs exactly when it has no percent sign, no byte that is special
to a browser, and no blank or control character at its end. -/
theorem portfolio_url_roundTrips_iff (n : Name) : RoundTrips n.text ↔
    (∀ c ∈ n.text, c ∉ 37 :: marks) ∧ ∃ c, n.text.getLast? = some c ∧ 32 < c := by
  constructor
  · intro h
    have hpercent := desktop_iff.1 h.desktop
    obtain ⟨u, hparse, -, hredirect⟩ := h.redirect
    obtain ⟨v, hv, hpath, -⟩ := exists_dashboard n
    obtain rfl : v = u := Option.some.inj (hv.symm.trans hparse)
    -- one request of a mobile browser
    obtain ⟨location, hlocation, hfollow⟩ := hredirect
      { url := v, header := [("User-Agent", ["iphone"])] } rfl (mobile_request v) { sub := [] }
      (fun _ => none)
    rw [serveDashboard_mobile hpath (mobile_request v)] at hlocation
    cases hlocation
    obtain ⟨hmarks, hlast⟩ := (redirect_iff hpercent).1 hfollow
    refine ⟨fun c hc hmem => ?_, hlast⟩
    rcases List.mem_cons.1 hmem with rfl | hmem
    · exact hpercent hc
    · exact hmarks c hc hmem
  · rintro ⟨hplain, hlast⟩
    have hpercent : 37 ∉ n.text := fun hmem => hplain 37 hmem (by decide)
    have hmarks : ∀ c ∈ n.text, c ∉ marks :=
      fun c hc hmem => hplain c hc (.tail _ hmem)
    obtain ⟨u, hparse, hpath, hrouted⟩ := exists_dashboard n
    refine ⟨desktop_iff.2 hpercent, mobile_iff.2 hpercent, ⟨u, hparse, hrouted, ?_⟩,
      client_roundTrips n⟩
    rintro r rfl hmobile claims portfolios
    exact ⟨_, serveDashboard_mobile hpath hmobile claims portfolios, (redirect_iff hpercent).2
      ⟨hmarks, hlast⟩⟩

/-- A name with blanks, a slash and a letter that is not ASCII. -/
def smsf : Name where
  text := ascii "SMSF " ++ [0xC3, 0xA9] ++ ascii "/core fund"
  valid := by decide
  proper := by
    intro s hs
    have hsplit : split 47 (ascii "SMSF " ++ [0xC3, 0xA9] ++ ascii "/core fund") =
        [ascii "SMSF " ++ [0xC3, 0xA9], ascii "core fund"] := by decide
    rw [hsplit] at hs
    simp only [List.mem_cons, List.not_mem_nil, or_false] at hs
    rcases hs with rfl | rfl
    all_goals exact ⟨by decide, by decide, by decide⟩

/-- The name `SMSF` comes back. -/
theorem portfolio_url_roundTrips_smsf : RoundTrips smsf.text := by
  have hplain : ∀ c ∈ smsf.text, c ∉ 37 :: marks := forall_mem_of_all (by decide)
  exact (portfolio_url_roundTrips_iff smsf).2 ⟨hplain, 100, by decide, by decide⟩

/-- A portfolio `50%`: the dashboard's URL with the encoded name gets the page of the default. A
portfolio `A#B`: a mobile browser is redirected to `/m/A`, which gets the page of the default
too. -/
theorem portfolio_url_default :
    (∃ u, URL.parseRequestURI ("/dashboard/" ++ encodeURIComponent "50%") = some u ∧
      serveDashboard (some { sub := "u" }) (fun _ => some ⟨["50%"], "Main"⟩) { url := u } =
        .page "Main") ∧
    (∃ u u', URL.parseRequestURI ("/dashboard/" ++ encodeURIComponent "A#B") = some u ∧
      serveDashboard (some { sub := "u" }) (fun _ => some ⟨["A#B"], "Main"⟩)
        { url := u, header := [("User-Agent", ["iPhone"])] } = .redirect "/m/A#B" ∧
      URL.parseRequestURI (pathname (headerValue "/m/A#B")) = some u' ∧
      serveMobile (some { sub := "u" }) (fun _ => some ⟨["A#B"], "Main"⟩) { url := u' } =
        .page "Main") := by
  refine ⟨⟨_, rfl, by decide⟩, _, _, rfl, by decide, rfl, by decide⟩

end VirePortal.Pages
