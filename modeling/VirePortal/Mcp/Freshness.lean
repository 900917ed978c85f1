import VirePortal.Mcp.Handler

/-!
# Whether the registered tools are those of the running build

The watcher takes a new build as seen before it refreshes the catalog. When the refresh fails, the
tools of the old build stay registered, and since the build is the one seen last, no later poll
tries again (`stale_catalog`). The same holds when the first build that the watcher sees is not the
one that the catalog was fetched from at the start.

`catalog_fresh` says that there is no other way. When every refresh succeeds, and the first build
that the watcher sees is the one of the catalog, then the tools come from the build seen last or a
later one.
-/

namespace VirePortal.Mcp.Freshness

open Go Auth Concurrent

/-- vire-server goes on to a later build, or not. -/
def Upgrades (s s' : HandlerState) : Prop := ∃ n, s.release ≤ n ∧ s' = { s with release := n }

/-- The surroundings of the handler, with what is assumed of the requests. -/
def setting (up : Upstream) (allows : HandlerOp → Bool → HandlerState → Prop) :
    Setting HandlerOp HandlerReply HandlerState Bool where
  exec := handlerExec up
  between := Upgrades
  refl s := ⟨s.release, le_rfl, rfl⟩
  allows := allows

/-- At the start: a build that the watcher sees is the one that the catalog was fetched from. -/
def seesSame (up : Upstream) : HandlerOp → Bool → HandlerState → Prop
  | .fetchServerBuild, true, s => up.builds s.release ≠ [] → s.catalogs.head? = some s.release
  | _, _, _ => True

/-- In a poll: the catalog can be fetched. -/
def refreshes : HandlerOp → Bool → HandlerState → Prop
  | .fetchCatalog, ok, _ => ok = true
  | _, _, _ => True

/-- The values of `lastBuild` and the states between two polls, after a start in `S` and polls in
`P`. -/
inductive Watched (S P : Setting HandlerOp HandlerReply HandlerState Bool) (catalogRetries : ℤ) :
    Str → HandlerState → Prop
  | started {ops : List ((o : HandlerOp) × HandlerReply o)} {b : Str} {s : HandlerState}
      (h : S.Runs (start catalogRetries) {} ops b s) : Watched S P catalogRetries b s
  | polled {ops : List ((o : HandlerOp) × HandlerReply o)} {b b' : Str} {s s' : HandlerState}
      (h : Watched S P catalogRetries b s) (hpoll : P.Runs (poll b) s ops b' s') :
      Watched S P catalogRetries b' s'

/-- The registered tools come from a catalog that was fetched at the build that the watcher saw
last, or a later one. -/
def Fresh (up : Upstream) (lastBuild : Str) (s : HandlerState) : Prop :=
  lastBuild ≠ [] → ∃ i ∈ s.versions, ∃ j ∈ s.catalogs, up.builds i = lastBuild ∧ i ≤ j ∧
    s.tools = toolsOf (up.catalog (up.builds j))

/-- Fetches are made at builds that vire-server has come to. -/
structure Known (s : HandlerState) : Prop where
  versions : ∀ i ∈ s.versions, i ≤ s.release
  catalogs : ∀ j ∈ s.catalogs, j ≤ s.release

variable {up : Upstream} {allows : HandlerOp → Bool → HandlerState → Prop} {s s' : HandlerState}
variable {ops : List ((o : HandlerOp) × HandlerReply o)} {lastBuild b : Str}

/-! ### The start -/

/-- The loop fetches at most one catalog, and returns it. -/
theorem fetchLoop_spec {attempts : ℕ} {last result : List CatalogTool × Bool}
    (h : (setting up allows).Runs (fetchLoop attempts last) s ops result s') :
    s.release ≤ s'.release ∧ s'.tools = s.tools ∧ s'.versions = s.versions ∧
      (s'.catalogs = s.catalogs ∨ ∃ j ≤ s'.release, s'.catalogs = j :: s.catalogs ∧
        result = (up.catalog (up.builds j), false)) := by
  induction attempts generalizing s ops last with
  | zero =>
    obtain ⟨-, -, n, hn, rfl⟩ := h
    exact ⟨hn, rfl, rfl, .inl rfl⟩
  | succ attempts ih =>
    obtain ⟨s1, ok, rest, ⟨n, hn, rfl⟩, -, rfl, hrest⟩ := h
    cases ok with
    | false =>
      obtain ⟨hrelease, htools, hversions, hcatalogs⟩ := ih hrest
      exact ⟨hn.trans hrelease, htools, hversions, hcatalogs⟩
    | true =>
      -- The loop ends with the first catalog.
      obtain ⟨-, rfl, m, hm, rfl⟩ := hrest
      exact ⟨hn.trans hm, rfl, rfl, .inr ⟨n, hm, rfl, rfl⟩⟩

/-- The tools of the entries are added one after the other. -/
theorem registerToolsFromCatalog_spec {catalog : List CatalogTool} {u : Unit}
    (h : (setting up allows).Runs (registerToolsFromCatalog catalog) s ops u s') :
    s.release ≤ s'.release ∧ s'.tools = (catalog.map catalogServerTool).foldl addTool s.tools ∧
      s'.versions = s.versions ∧ s'.catalogs = s.catalogs := by
  induction catalog generalizing s ops with
  | nil =>
    obtain ⟨-, -, n, hn, rfl⟩ := h
    exact ⟨hn, rfl, rfl, rfl⟩
  | cons ct catalog ih =>
    obtain ⟨s1, ok, rest, ⟨n, hn, rfl⟩, -, rfl, hrest⟩ := h
    obtain ⟨hrelease, htools, hversions, hcatalogs⟩ := ih hrest
    exact ⟨hn.trans hrelease, htools, hversions, hcatalogs⟩

/-- After `NewHandler` the tools are those of the catalog that it fetched, if it fetched one. -/
theorem newHandler_spec {catalogRetries : ℤ} {u : Unit}
    (h : (setting up allows).Runs (newHandler catalogRetries) {} ops u s') :
    s'.versions = [] ∧ (s'.catalogs = [] ∨
      ∃ j ≤ s'.release, s'.catalogs = [j] ∧ s'.tools = toolsOf (up.catalog (up.builds j))) := by
  obtain ⟨⟨catalog, failed⟩, s1, ops1, ops2, -, hfetch, hrest⟩ := h.bind
  obtain ⟨-, htools1, hversions1, hcatalogs1⟩ := fetchLoop_spec hfetch
  obtain ⟨u, s2, ops3, ops4, -, hregister, hlast⟩ := hrest.bind
  obtain ⟨hrelease2, htools2, hversions2, hcatalogs2⟩ := registerToolsFromCatalog_spec hregister
  -- The two tools of the portal, and the field of the handler.
  obtain ⟨s3, ok3, rest3, ⟨n3, hn3, rfl⟩, -, -, hlast⟩ := hlast
  obtain ⟨s4, ok4, rest4, ⟨n4, hn4, rfl⟩, -, -, hlast⟩ := hlast
  obtain ⟨s5, ok5, rest5, ⟨n5, hn5, rfl⟩, -, -, hlast⟩ := hlast
  obtain ⟨-, -, n6, hn6, rfl⟩ := hlast
  refine ⟨hversions2.trans hversions1, ?_⟩
  rcases hcatalogs1 with hnone | ⟨j, hj, hone, hresult⟩
  · exact .inl (hcatalogs2.trans hnone)
  · obtain ⟨rfl, rfl⟩ := Prod.mk.inj hresult
    refine .inr ⟨j, ?_, hcatalogs2.trans hone, ?_⟩
    · exact hj.trans (hrelease2.trans (hn3.trans (hn4.trans (hn5.trans hn6))))
    · show addTool (addTool s2.tools versionTool) getPageTool = _
      rw [htools2, htools1, toolsOf, setTools, catalogServerTools, List.foldl_append]
      rfl

/-- After a start in which the watcher sees the build of the catalog, the tools are fresh. -/
theorem start_spec {catalogRetries : ℤ}
    (h : (setting up (seesSame up)).Runs (start catalogRetries) {} ops b s') :
    Fresh up b s' ∧ Known s' := by
  obtain ⟨u, s1, ops1, ops2, -, hnew, hrest⟩ := h.bind
  obtain ⟨hversions, hcatalogs⟩ := newHandler_spec hnew
  obtain ⟨s2, ok, rest, ⟨n, hn, rfl⟩, hallows, -, hrest⟩ := hrest
  have hknown : ∀ j ∈ s1.catalogs, j ≤ n := by
    rcases hcatalogs with hnone | ⟨j, hj, hone, -⟩
    · simp [hnone]
    · simpa [hone] using hj.trans hn
  cases ok with
  | false =>
    obtain ⟨-, rfl, m, hm, rfl⟩ := hrest
    refine ⟨fun hb => absurd rfl hb, ⟨?_, fun j hj => (hknown j hj).trans hm⟩⟩
    show ∀ i ∈ s1.versions, i ≤ m
    simp [hversions]
  | true =>
    obtain ⟨-, rfl, m, hm, rfl⟩ := hrest
    refine ⟨fun hb => ?_, ⟨?_, fun j hj => (hknown j hj).trans hm⟩⟩
    · -- The catalog was fetched, and at the build that the watcher sees.
      have hhead : s1.catalogs.head? = some n := hallows hb
      rcases hcatalogs with hnone | ⟨j, -, hone, htools⟩
      · rw [hnone] at hhead
        cases hhead
      · rw [hone] at hhead
        obtain rfl : j = n := Option.some.inj hhead
        have hmem : j ∈ s1.catalogs := by simp [hone]
        exact ⟨j, .head _, j, hmem, rfl, le_rfl, htools⟩
    · show ∀ i ∈ n :: s1.versions, i ≤ m
      rw [hversions]
      exact List.forall_mem_singleton.2 hm

/-! ### A poll -/

/-- A build that was known stays so. -/
theorem Upgrades.known (h : Known s) (hup : Upgrades s s') : Known s' := by
  obtain ⟨n, hn, rfl⟩ := hup
  exact ⟨fun i hi => (h.versions i hi).trans hn, fun j hj => (h.catalogs j hj).trans hn⟩

/-- A refresh that fetches the catalog registers its tools. -/
theorem refreshCatalog_spec (hallows : ∀ ok s, allows .fetchCatalog ok s → ok = true) {done : Bool}
    (hknown : Known s) (h : (setting up allows).Runs refreshCatalog s ops done s') :
    Known s' ∧ s'.versions = s.versions ∧ ∃ j, s.release ≤ j ∧ j ∈ s'.catalogs ∧
      s'.tools = toolsOf (up.catalog (up.builds j)) := by
  obtain ⟨s1, ok1, rest1, ⟨n1, hn1, rfl⟩, hok, -, h⟩ := h
  obtain rfl : ok1 = true := hallows _ _ hok
  obtain ⟨s2, ok2, rest2, ⟨n2, hn2, rfl⟩, -, -, h⟩ := h
  obtain ⟨s3, ok3, rest3, ⟨n3, hn3, rfl⟩, -, -, h⟩ := h
  obtain ⟨-, -, n4, hn4, rfl⟩ := h
  -- vire-server may go on while the tools are set.
  have hn : n1 ≤ n4 := hn2.trans (hn3.trans hn4)
  refine ⟨⟨fun i hi => (hknown.versions i hi).trans (hn1.trans hn), fun j hj => ?_⟩, rfl, n1, hn1,
    List.mem_cons_self .., rfl⟩
  rcases List.mem_cons.1 hj with rfl | hj
  · exact hn
  · exact (hknown.catalogs j hj).trans (hn1.trans hn)

/-- Fetching the build adds at most one release to those at which it was fetched. -/
theorem fetchServerBuild_spec {n : ℕ} {ok : Bool} {build : Str} {s1 : HandlerState}
    (hknown : Known s) (hn : s.release ≤ n)
    (hexec : handlerExec up .fetchServerBuild ok { s with release := n } = (build, s1)) :
    Known s1 ∧ s1.catalogs = s.catalogs ∧ s1.tools = s.tools ∧ (∀ i ∈ s.versions, i ∈ s1.versions) ∧
      (build ≠ [] → s1.release ∈ s1.versions ∧ up.builds s1.release = build) := by
  have hknown' : Known { s with release := n } := Upgrades.known hknown ⟨n, hn, rfl⟩
  cases ok with
  | false =>
    obtain ⟨rfl, rfl⟩ := Prod.mk.inj hexec
    exact ⟨hknown', rfl, rfl, fun i hi => hi, fun hne => absurd rfl hne⟩
  | true =>
    obtain ⟨rfl, rfl⟩ := Prod.mk.inj hexec
    refine ⟨⟨?_, hknown'.catalogs⟩, rfl, rfl, fun i hi => List.mem_cons_of_mem n hi, fun _ => ?_⟩
    · exact List.forall_mem_cons.2 ⟨le_rfl, hknown'.versions⟩
    · exact ⟨.head _, rfl⟩

/-- What a poll does: it fetches the build at some release, and refreshes the catalog when the build
is a new one. -/
theorem poll_cases (h : (setting up allows).Runs (poll lastBuild) s ops b s') :
    ∃ n ok build s1, s.release ≤ n ∧ allows .fetchServerBuild ok { s with release := n } ∧
      handlerExec up .fetchServerBuild ok { s with release := n } = (build, s1) ∧
      (((build = [] ∨ build = lastBuild) ∧ b = lastBuild ∧ Upgrades s1 s') ∨
        (build ≠ [] ∧ build ≠ lastBuild ∧ b = build ∧ ∃ ops1 done s2,
          (setting up allows).Runs refreshCatalog s1 ops1 done s2 ∧ Upgrades s2 s')) := by
  obtain ⟨s1, ok, rest, ⟨n, hn, rfl⟩, hallows, -, h⟩ := h
  refine ⟨n, ok, _, _, hn, hallows, rfl, ?_⟩
  change (setting up allows).Runs
    (if (handlerExec up .fetchServerBuild ok _).1 = [] then _ else _) _ _ _ _ at h
  have hrefresh : ∀ {build : Str} {t : HandlerState},
      (setting up allows).Runs (refreshCatalog >>= fun _ => pure build) t rest b s' →
      b = build ∧ ∃ ops1 done s2,
        (setting up allows).Runs refreshCatalog t ops1 done s2 ∧ Upgrades s2 s' := by
    intro build t h
    obtain ⟨done, s2, ops1, ops2, -, hrun, -, hb, hup⟩ := h.bind
    exact ⟨hb, ops1, done, s2, hrun, hup⟩
  -- The build is empty, the first one, a new one, or the one seen last.
  split_ifs at h with hnone hlast hnew
  · obtain ⟨-, hb, hup⟩ := h
    exact .inl ⟨.inl hnone, hb, hup⟩
  · exact .inr ⟨hnone, fun heq => hnone (heq.trans hlast), hrefresh h⟩
  · exact .inr ⟨hnone, hnew, hrefresh h⟩
  · obtain ⟨-, hb, hup⟩ := h
    exact .inl ⟨.inr (not_not.1 hnew), hb, hup⟩

/-- A poll keeps the tools fresh, when its refresh succeeds. -/
theorem poll_spec (hfresh : Fresh up lastBuild s) (hknown : Known s)
    (h : (setting up refreshes).Runs (poll lastBuild) s ops b s') : Fresh up b s' ∧ Known s' := by
  obtain ⟨n, ok, build, s1, hn, -, hexec, hcases⟩ := poll_cases h
  obtain ⟨hknown1, hcatalogs, htools, hversions, hbuild⟩ := fetchServerBuild_spec hknown hn hexec
  rcases hcases with ⟨-, rfl, hup⟩ | ⟨hne, -, rfl, ops1, done, s2, hrefresh, hup⟩
  · -- Nothing was refreshed: the releases that witness the freshness are still listed.
    refine ⟨fun hb => ?_, Upgrades.known hknown1 hup⟩
    obtain ⟨i, hi, j, hj, hrest⟩ := hfresh hb
    obtain ⟨m, -, rfl⟩ := hup
    rw [← hcatalogs] at hj
    rw [← htools] at hrest
    exact ⟨i, hversions i hi, j, hj, hrest⟩
  · -- The build was seen first, so the catalog is of its release or a later one.
    obtain ⟨hknown2, hversions2, j, hj, hmem, htools2⟩ :=
      refreshCatalog_spec (fun _ _ hok => hok) hknown1 hrefresh
    refine ⟨fun hb => ?_, Upgrades.known hknown2 hup⟩
    obtain ⟨hmem', hname⟩ := hbuild hne
    rw [← hversions2] at hmem'
    obtain ⟨m, -, rfl⟩ := hup
    exact ⟨s1.release, hmem', j, hmem, hname, hj, htools2⟩

/-- The tools are fresh between two polls. -/
theorem watched_fresh {catalogRetries : ℤ}
    (h : Watched (setting up (seesSame up)) (setting up refreshes) catalogRetries b s) :
    Fresh up b s ∧ Known s := by
  induction h with
  | started h => exact start_spec h
  | polled _ hpoll ih => exact poll_spec ih.1 ih.2 hpoll

/-! ### Runs without end -/

/-- A run in which the watcher polls for ever: `b n` and `s n` are what there is before the poll
with the number `n`. -/
structure Forever (S P : Setting HandlerOp HandlerReply HandlerState Bool) (catalogRetries : ℤ)
    (b : ℕ → Str) (s : ℕ → HandlerState) : Prop where
  start : ∃ ops, S.Runs (start catalogRetries) {} ops (b 0) (s 0)
  poll : ∀ n, ∃ ops, P.Runs (poll (b n)) (s n) ops (b (n + 1)) (s (n + 1))

/-- Every request succeeds. -/
def succeeds : HandlerOp → Bool → HandlerState → Prop := fun _ ok _ => ok = true

/-- From the poll `N` on vire-server stays at the release `R` and every request succeeds. -/
def Settles (up : Upstream) (N R : ℕ) (b : ℕ → Str) (s : ℕ → HandlerState) : Prop :=
  ∀ n, N ≤ n → (s n).release = R ∧
    ∃ ops, (setting up succeeds).Runs (poll (b n)) (s n) ops (b (n + 1)) (s (n + 1))

/-- vire-server does not go back to a build that it ran before another one. -/
def NoReturn (up : Upstream) : Prop :=
  ∀ i j k, i ≤ j → j ≤ k → up.builds i = up.builds k → up.builds j = up.builds k

/-- Each moment of an endless run is one of a watched run. -/
theorem Forever.watched {S P : Setting HandlerOp HandlerReply HandlerState Bool}
    {catalogRetries : ℤ} {b : ℕ → Str} {s : ℕ → HandlerState} (h : Forever S P catalogRetries b s)
    (n : ℕ) :
    Watched S P catalogRetries (b n) (s n) := by
  induction n with
  | zero =>
    obtain ⟨ops, hstart⟩ := h.start
    exact .started hstart
  | succ n ih =>
    obtain ⟨ops, hpoll⟩ := h.poll n
    exact .polled ih hpoll

/-- A poll with successful requests at one release registers the tools of that release. -/
theorem poll_settled (hfresh : Fresh up lastBuild s) (hknown : Known s) (hnoReturn : NoReturn up)
    (hnamed : up.builds s.release ≠ []) (hrelease : s'.release = s.release)
    (h : (setting up succeeds).Runs (poll lastBuild) s ops b s') :
    s'.tools = toolsOf (up.catalog (up.builds s.release)) := by
  obtain ⟨n, ok, build, s1, hn, rfl, hexec, hcases⟩ := poll_cases h
  obtain ⟨hknown1, -, htools, -, hbuild⟩ := fetchServerBuild_spec hknown hn hexec
  obtain ⟨rfl, rfl⟩ := Prod.mk.inj hexec
  rcases hcases with ⟨hsame, rfl, m, hm, rfl⟩ | ⟨-, -, rfl, ops1, done, s2, hrefresh, m, hm, rfl⟩
  · -- The build is the one seen last, and the tools are from then or later.
    obtain rfl : n = s.release := le_antisymm (hm.trans hrelease.le) hn
    have hlast : up.builds s.release = b := hsame.resolve_left hnamed
    rw [hlast] at hnamed
    obtain ⟨i, -, j, hj, hname, hij, htools'⟩ := hfresh hnamed
    have hbuild : up.builds j = up.builds s.release :=
      hnoReturn i j s.release hij (hknown.catalogs j hj) (hname.trans hlast.symm)
    rw [← hbuild]
    exact htools'
  · -- The catalog is fetched at the release.
    obtain ⟨hknown2, -, j, hj, hmem, htools2⟩ :=
      refreshCatalog_spec (fun _ _ hok => hok) hknown1 hrefresh
    have hle : j ≤ s.release := (hknown2.catalogs j hmem).trans (hm.trans hrelease.le)
    obtain rfl : j = s.release := le_antisymm hle (hn.trans hj)
    exact htools2

/-- When the first build that the watcher sees is the one of the catalog, and every refresh
succeeds, then between two polls the tools are those of the build seen last or a later one. When
vire-server then stays at a build with a name, never goes back to a build, and answers every
request, the tools come to be those of its build. -/
theorem catalog_fresh (up : Upstream) (catalogRetries : ℤ) :
    (∀ b s, Watched (setting up (seesSame up)) (setting up refreshes) catalogRetries b s →
      Fresh up b s) ∧
    ∀ b s N R, Forever (setting up (seesSame up)) (setting up refreshes) catalogRetries b s →
      Settles up N R b s → up.builds R ≠ [] → NoReturn up →
      ∀ n, N < n → (s n).tools = toolsOf (up.catalog (up.builds R)) := by
  refine ⟨fun b s h => (watched_fresh h).1,
    fun b s N R hforever hsettles hnamed hnoReturn n hn => ?_⟩
  obtain ⟨n, rfl⟩ : ∃ m, n = m + 1 := ⟨n - 1, by omega⟩
  obtain ⟨hrelease, ops, hpoll⟩ := hsettles n (by omega)
  obtain ⟨hfresh, hknown⟩ := watched_fresh (hforever.watched n)
  rw [← hrelease] at hnamed ⊢
  refine poll_settled hfresh hknown hnoReturn hnamed ?_ hpoll
  rw [hrelease, (hsettles (n + 1) (by omega)).1]

/-- A poll that sees the build seen last changes nothing. -/
theorem poll_same (hallows : allows .fetchServerBuild true s)
    (hbuild : up.builds s.release = lastBuild) (hnamed : lastBuild ≠ []) :
    (setting up allows).Runs (poll lastBuild) s [⟨.fetchServerBuild, up.builds s.release⟩] lastBuild
      { s with versions := s.release :: s.versions } := by
  refine ⟨s, true, [], ⟨s.release, le_rfl, rfl⟩, hallows, rfl, ?_⟩
  have hseen : ((setting up allows).exec .fetchServerBuild true s).1 = lastBuild := hbuild
  change (setting up allows).Runs
    (if ((setting up allows).exec .fetchServerBuild true s).1 = [] then _
    else _) _ _ _ _
  rw [hseen, if_neg hnamed, if_neg hnamed, if_neg (not_not.2 rfl)]
  exact ⟨rfl, rfl, s.release, le_rfl, rfl⟩

/-- The tool of a sample catalog. -/
def sampleTool : CatalogTool :=
  { name := "get_prices", method := "GET", path := "/api/prices" }

/-- A first build without tools, and a second one with a tool. -/
def sampleUpstream : Upstream where
  builds n := if n = 0 then "A" else "B"
  catalog b := if b = "A" then [] else [sampleTool]

/-- The state after the start at the first build, with the releases at which the build was
fetched. -/
def startedState (release : ℕ) (versions : List ℕ) : HandlerState :=
  { release := release, tools := toolsOf [], versions := versions, catalogs := [0] }

/-- The start at the first build, in which all requests succeed. -/
theorem start_sample (hfree : ∀ o s, o ≠ .fetchServerBuild → allows o true s)
    (hfirst : ∀ s, s.catalogs.head? = some s.release → allows .fetchServerBuild true s) :
    ∃ ops, (setting sampleUpstream allows).Runs (start 1) {} ops "A" (startedState 0 [0]) := by
  have hsame : ∀ s, (setting sampleUpstream allows).between s s :=
    (setting sampleUpstream allows).refl
  exact ⟨_, {}, true, _, hsame _, hfree _ _ (by simp), rfl,
    _, true, _, hsame _, hfree _ _ (by simp), rfl,
    _, true, _, hsame _, hfree _ _ (by simp), rfl,
    _, true, _, hsame _, hfree _ _ (by simp), rfl,
    _, true, _, hsame _, hfirst _ rfl, rfl, rfl, rfl, hsame _⟩

/-- The start of the sample. -/
theorem seesSame_sample :
    ∃ ops, (setting sampleUpstream (seesSame sampleUpstream)).Runs (start 1) {} ops "A"
      (startedState 0 [0]) := by
  refine start_sample (fun o s ho => ?_) fun s hhead _ => hhead
  cases o with
  | fetchServerBuild => exact absurd rfl ho
  | _ => trivial

/-- The sample never goes back to a build. -/
theorem sample_noReturn : NoReturn sampleUpstream := by
  intro i j k hij hjk hik
  by_cases hk : k = 0
  · obtain rfl : j = k := by omega
    rfl
  · have hi : i ≠ 0 := by
      rintro rfl
      simp [sampleUpstream, hk, ascii] at hik
    have hj : j ≠ 0 := by omega
    simp [sampleUpstream, hj, hk]

/-- The build that the watcher saw last, when vire-server goes on to the second build before the
first poll. -/
def seenBuild : ℕ → Str
  | 0 => "A"
  | _ + 1 => "B"

/-- The states when the refresh succeeds. -/
def freshState : ℕ → HandlerState
  | 0 => startedState 0 [0]
  | n + 1 =>
    { release := 1, tools := toolsOf [sampleTool], catalog := validateCatalog [sampleTool],
      versions := List.replicate n 1 ++ [1, 0], catalogs := [1, 0] }

/-- The first poll sees the second build and fetches its catalog. -/
theorem poll_first :
    ∃ ops, (setting sampleUpstream refreshes).Runs (poll (seenBuild 0)) (freshState 0) ops
    (seenBuild 1) (freshState 1) := by
  have hsame : ∀ s, (setting sampleUpstream refreshes).between s s :=
    (setting sampleUpstream refreshes).refl
  exact ⟨_, startedState 1 [0], true, _, ⟨1, by decide, rfl⟩, trivial, rfl,
    _, true, _, hsame _, rfl, rfl, _, true, _, hsame _, trivial, rfl, _, true, _, hsame _, trivial,
      rfl,
    rfl, rfl, hsame _⟩

/-- vire-server goes on to the second build once, and every request succeeds. -/
theorem sample_forever : Forever (setting sampleUpstream (seesSame sampleUpstream))
    (setting sampleUpstream refreshes) 1 seenBuild freshState where
  start := seesSame_sample
  poll
    | 0 => poll_first
    | _ + 1 => ⟨_, poll_same trivial rfl (show ascii "B" ≠ [] by decide)⟩

/-- From the first poll on vire-server stays at the second build. -/
theorem sample_settles : Settles sampleUpstream 1 1 seenBuild freshState
  | 0, h => absurd h (by decide)
  | _ + 1, _ => ⟨rfl, _, poll_same rfl rfl (show ascii "B" ≠ [] by decide)⟩

/-- The tool of the second build is registered after the poll that sees it. -/
theorem catalog_fresh_sample : Fresh sampleUpstream "B" (freshState 1) ∧
    (freshState 2).tools = toolsOf [sampleTool] :=
  ⟨(catalog_fresh sampleUpstream 1).1 _ _ (sample_forever.watched 1),
    (catalog_fresh sampleUpstream 1).2 _ _ 1 1 sample_forever sample_settles (by decide)
      sample_noReturn 2
      (by decide)⟩

/-- Any request may fail. -/
def free (up : Upstream) : Setting HandlerOp HandlerReply HandlerState Bool :=
  setting up fun _ _ _ => True

/-- The states when the first refresh fails. -/
def staleState : ℕ → HandlerState
  | 0 => startedState 0 [0]
  | n + 1 => startedState 1 (List.replicate n 1 ++ [1, 0])

/-- The first poll sees the second build, and cannot fetch its catalog. -/
theorem poll_lost : ∃ ops, (free sampleUpstream).Runs (poll (seenBuild 0)) (staleState 0) ops
    (seenBuild 1) (staleState 1) := by
  have hsame : ∀ s, (free sampleUpstream).between s s := (free sampleUpstream).refl
  exact ⟨_, startedState 1 [0], true, _, ⟨1, by decide, rfl⟩, trivial, rfl,
    _, false, _, hsame _, trivial, rfl, rfl, rfl, hsame _⟩

/-- The endless run with a refresh that failed. -/
theorem stale_forever :
    Forever (free sampleUpstream) (free sampleUpstream) 1 seenBuild staleState where
  start := start_sample (fun _ _ _ => trivial) fun _ _ => trivial
  poll n := by
    cases n with
    | zero => exact poll_lost
    | succ n => exact ⟨_, poll_same trivial rfl (show ascii "B" ≠ [] by decide)⟩

/-- A refresh fails once. The tools of the old build stay, although the watcher has seen the new
one, and they stay for ever, although every request from then on succeeds. -/
theorem stale_catalog : Forever (free sampleUpstream) (free sampleUpstream) 1 seenBuild staleState ∧
    Watched (free sampleUpstream) (free sampleUpstream) 1 (seenBuild 1) (staleState 1) ∧
    ¬ Fresh sampleUpstream (seenBuild 1) (staleState 1) ∧
    Settles sampleUpstream 1 1 seenBuild staleState ∧
    ∀ n, (staleState n).tools ≠ toolsOf (sampleUpstream.catalog (sampleUpstream.builds 1)) := by
  refine ⟨stale_forever, stale_forever.watched 1, fun hfresh => ?_, fun n hn => ?_,
    fun n htools => ?_⟩
  · obtain ⟨i, -, j, hj, hname, hij, -⟩ := hfresh (by decide)
    obtain rfl : j = 0 := List.mem_singleton.1 hj
    obtain rfl : i = 0 := by omega
    exact absurd hname (by decide)
  · obtain ⟨m, rfl⟩ : ∃ m, n = m + 1 := ⟨n - 1, by omega⟩
    exact ⟨rfl, _, poll_same rfl rfl (show ascii "B" ≠ [] by decide)⟩
  · have hstate : (staleState n).tools = toolsOf [] := by
      cases n with
      | zero => rfl
      | succ n => rfl
    have hlookup := congrArg (fun t : Table ServerTool => t.lookup (ascii "get_prices"))
      (hstate.symm.trans htools)
    exact absurd hlookup (by decide)

end VirePortal.Mcp.Freshness
