import VirePortal.Pages.Dashboard

/-!
# What the dashboard shows

A function of the component assigns what it has read without a look at the portfolio that is
selected by then. So the page shows the selected portfolio only where the answers come in an order
that suits it. Two things must not happen.

* A task assigns the data of another portfolio, and no task that brings the same part for the
selected portfolio is left (`Late`).
* The load of the selected portfolio throws, after which nothing replaces what the page showed
before (`Lost`).

The invariant is that each part of the page is right or a task is under way that brings it (`Kept`).
Every step keeps it but for those two, and the selection of an empty name, for which the script does
not load anything. When no task is left, every part is right (`shown_of_orderly`).
-/

namespace VirePortal.Pages.Dashboard

open Go

variable {V : Type} (js : Js V)

/-- What the page shows of a portfolio: the holdings with the totals and the breadth, and the
rest. -/
inductive Part where
  | view
  | closed
  | growth
  | watchlist

/-- The part that a function assigns. -/
def Kind.part : Kind → Part
  | .load => .view
  | .refresh => .view
  | .closed => .closed
  | .growth => .growth
  | .watchlist => .watchlist

/-- The URLs that a function fetches for a portfolio. -/
def Kind.urls (name : Str) : Kind → List Str
  | .load => [portfolioURL name]
  | .refresh => [refreshURL name]
  | .closed => [closedURL name]
  | .growth => [growthURL name false, growthURL name true]
  | .watchlist => [watchlistURL name]

/-- The URLs for which the answers may be shown in a part of the page. -/
def Part.urls (name : Str) : Part → List Str
  | .view => Kind.load.urls name ++ Kind.refresh.urls name
  | .closed => Kind.closed.urls name
  | .growth => Kind.growth.urls name
  | .watchlist => Kind.watchlist.urls name

/-- The parts that a function replaces whatever the response is, itself or through the functions
that it calls. A load that throws is the exception. A refresh leaves the page as it is if the
response is not ok. -/
def Kind.brings : Kind → List Part
  | .load => [.view, .growth, .watchlist]
  | .refresh => []
  | .closed => [.closed]
  | .growth => [.growth]
  | .watchlist => [.watchlist]

namespace Component

/-- A part of the page is empty. -/
def Empty (c : Component V) : Part → Prop
  | .view => c.view = .empty js
  | .closed => c.closedHoldings = none ∨ c.closedHoldings = some []
  | .growth => c.growthData = []
  | .watchlist => c.watchlist = js.emptyArray

/-- A part of the page is what the script makes of these data. -/
def Shows (c : Component V) (data : V) : Part → Prop
  | .view => applyPortfolioData js data = some c.view
  | .closed => closedHoldingsOf js data = c.closedHoldings
  | .growth => growthDataOf js data = some c.growthData
  | .watchlist => watchlistOf js data = some c.watchlist

/-- A part of the page is right: it is empty, or it shows data that the server returned for the
selected portfolio. -/
def Right (log : List (Str × Response V)) (c : Component V) (p : Part) : Prop :=
  c.Empty js p ∨ ∃ url ∈ p.urls c.selected, ∃ data, (url, ⟨true, some data⟩) ∈ log ∧
    c.Shows js data p

/-- Two components show the same in a part. -/
def SameAt (c c' : Component V) : Part → Prop
  | .view => c'.view = c.view
  | .closed => c'.closedHoldings = c.closedHoldings
  | .growth => c'.growthData = c.growthData
  | .watchlist => c'.watchlist = c.watchlist

end Component

/-- Every part of the page is right. -/
def World.Shown (w : World V) : Prop := ∀ p, w.comp.Right js w.log p

/-- One of the tasks brings a part of a portfolio. -/
def Coming (tasks : List (Task V)) (name : Str) (p : Part) : Prop :=
  ∃ t ∈ tasks, t.url ∈ t.kind.urls name ∧ p ∈ t.kind.brings

/-- A task assigns what it has read for another portfolio, and no other task brings that part of the
selected one. -/
def Late (w : World V) : Label V → Prop
  | .resume i => ∃ t c, w.tasks[i]? = some t ∧ t.next js w.comp = .assign c ∧
      t.url ∉ t.kind.urls w.comp.selected ∧
        ¬ Coming (w.tasks.eraseIdx i) w.comp.selected t.kind.part
  | _ => False

/-- The load of the selected portfolio fails, a part that it was to replace is not right, and no
other task brings that part. -/
def Lost (w : World V) : Label V → Prop
  | .resume i => ∃ t, w.tasks[i]? = some t ∧ t.kind = .load ∧ t.next js w.comp = .fail ∧
      t.url ∈ t.kind.urls w.comp.selected ∧ ∃ p ∈ t.kind.brings,
        ¬ w.comp.Right js w.log p ∧ ¬ Coming (w.tasks.eraseIdx i) w.comp.selected p
  | _ => False

/-- A run without a late assignment, a lost load and a selection of the empty name. -/
def Orderly (w : World V) : List (Label V) → Prop
  | [] => True
  | l :: ls => ¬ Late js w l ∧ ¬ Lost js w l ∧ l ≠ .select [] ∧ Orderly (w.step js l) ls

/-- A label at which nothing goes wrong: the task that goes on is one for the selected portfolio,
and no load that fails. -/
def prompt (w : World V) : Label V → Bool
  | .select name => name ≠ []
  | .resume i => w.tasks[i]?.all fun t =>
      t.url ∈ t.kind.urls w.comp.selected ∧ (t.kind ≠ .load ∨ (t.next js w.comp).isFail = false)
  | _ => true

/-- A run of such labels. -/
def promptRun (w : World V) : List (Label V) → Bool
  | [] => true
  | l :: ls => prompt js w l && promptRun (w.step js l) ls

variable {js}

/-- A task of a kind fetches a URL of the part. -/
theorem Kind.urls_subset (kind : Kind) (name : Str) : kind.urls name ⊆ kind.part.urls name := by
  cases kind with
  | load => exact List.subset_append_left _ _
  | refresh => exact List.subset_append_right _ _
  | closed | growth | watchlist => exact fun _ h => h

/-! ### The assignments -/

namespace Component

variable {c c' : Component V} {p : Part}

/-- A component agrees with itself. -/
theorem SameAt.refl (c : Component V) (p : Part) : SameAt c c p := by
  cases p <;> exact Eq.refl _

/-- Agreement at a part is transitive. -/
theorem SameAt.trans {c'' : Component V} (h : SameAt c c' p) (h' : SameAt c' c'' p) :
    SameAt c c'' p := by
  cases p <;> exact Eq.trans h' h

/-- A part that is the same is empty as well. -/
theorem Empty.of_same (h : c.Empty js p) (hs : SameAt c c' p) : c'.Empty js p := by
  cases p <;> simp_all only [Empty, SameAt]

/-- A part that is the same shows the same data. -/
theorem Shows.of_same {data : V} (h : c.Shows js data p) (hs : SameAt c c' p) :
    c'.Shows js data p := by
  cases p <;> simp_all only [Shows, SameAt]

/-- A part that is right remains so while it does not change and the same portfolio is selected. -/
theorem Right.of_same {log log' : List (Str × Response V)} (h : c.Right js log p)
    (hsel : c'.selected = c.selected) (hs : SameAt c c' p) (hlog : log ⊆ log') :
    c'.Right js log' p := by
  rcases h with h | ⟨url, hurl, data, hmem, hshows⟩
  · exact Or.inl (h.of_same hs)
  · rw [← hsel] at hurl
    exact Or.inr ⟨url, hurl, data, hlog hmem, hshows.of_same hs⟩

/-- An assignment shows the data in its part and changes no other. -/
theorem assign_spec {data : V} {kind : Kind} (h : c.assign js data kind = some c') :
    c'.selected = c.selected ∧ c'.Shows js data kind.part ∧ ∀ p, p ≠ kind.part → SameAt c c' p := by
  cases kind with
  | load | refresh =>
    obtain ⟨v, hv, rfl⟩ := Option.map_eq_some_iff.1 h
    refine ⟨rfl, hv, fun p hp => ?_⟩
    cases p with
    | view => exact absurd rfl hp
    | closed | growth | watchlist => rfl
  | closed =>
    obtain ⟨l, hl, rfl⟩ := Option.map_eq_some_iff.1 h
    refine ⟨rfl, hl, fun p hp => ?_⟩
    cases p with
    | closed => exact absurd rfl hp
    | view | growth | watchlist => rfl
  | growth =>
    obtain ⟨l, hl, rfl⟩ := Option.map_eq_some_iff.1 h
    refine ⟨rfl, hl, fun p hp => ?_⟩
    cases p with
    | growth => exact absurd rfl hp
    | view | closed | watchlist => rfl
  | watchlist =>
    obtain ⟨v, hv, rfl⟩ := Option.map_eq_some_iff.1 h
    refine ⟨rfl, hv, fun p hp => ?_⟩
    cases p with
    | watchlist => exact absurd rfl hp
    | view | closed | growth => rfl

/-- After a response that is not ok a part is empty or as before, and as before only if it is not
for the function itself to bring it. -/
theorem notOk_spec (c : Component V) (kind : Kind) (p : Part) :
    (c.notOk js kind).Empty js p ∨
      SameAt c (c.notOk js kind) p ∧ (p ∈ kind.brings → kind = .load ∧ p ≠ .view) := by
  cases kind <;> cases p <;> simp [notOk, Empty, SameAt, Kind.brings]

/-- After an error as well, but for the load. -/
theorem failed_spec (c : Component V) (kind : Kind) (p : Part) :
    (c.failed js kind).Empty js p ∨ SameAt c (c.failed js kind) p ∧
      (p ∈ kind.brings → kind = .load) := by
  cases kind <;> cases p <;> simp [failed, Empty, SameAt, Kind.brings]

variable (js) in
/-- A response that is not ok selects nothing. -/
theorem notOk_selected (c : Component V) (kind : Kind) :
    (c.notOk js kind).selected = c.selected := by
  cases kind <;> rfl

variable (js) in
/-- A failed request selects nothing. -/
theorem failed_selected (c : Component V) (kind : Kind) :
    (c.failed js kind).selected = c.selected := by
  cases kind <;> rfl

end Component

/-- Only an ok response is read. -/
theorem Task.next_read {t : Task V} {c : Component V} {resp : Response V}
    (h : t.next js c = .read resp) :
    t.stage = .settled (some resp) ∧ resp.ok = true := by
  unfold Task.next at h
  split at h
  · cases h
  · cases h
  · split_ifs at h with hok
    cases h
    exact ⟨‹_›, hok⟩
  · split at h <;> cases h

/-- Only a body that was read is assigned. -/
theorem Task.next_assign {t : Task V} {c c' : Component V} (h : t.next js c = .assign c') :
    ∃ data ok, t.stage = .reading ⟨ok, some data⟩ ∧ c.assign js data t.kind = some c' := by
  unfold Task.next at h
  split at h
  · cases h
  · cases h
  · split_ifs at h
  · rename_i resp hstage
    split at h
    · rename_i c'' hbind
      cases h
      obtain ⟨data, hbody, hassign⟩ := Option.bind_eq_some_iff.1 hbind
      obtain ⟨ok, body⟩ := resp
      obtain rfl : body = some data := hbody
      exact ⟨data, ok, hstage, hassign⟩
    · cases h

/-! ### Whose response it is -/

namespace World

variable {w w' w'' : World V} {url : Str}

/-- What a task waits for belongs to its URL. -/
def Knows (w : World V) (url : Str) : Stage V → Prop
  | .waiting id => id < w.nextId ∧ ∀ r ∈ w.requests, r.id = id → r.url = url
  | .settled outcome => ∀ resp ∈ outcome, (url, resp) ∈ w.log
  | .reading resp => (url, resp) ∈ w.log ∧ resp.ok = true

/-- The store and the tasks hold responses to their own URLs. -/
structure Sound (w : World V) : Prop where
  requests : ∀ r ∈ w.requests, r.id < w.nextId
  inflight : ∀ url id, w.inflight url = some id → w.Knows url (.waiting id)
  cache : ∀ url resp expiry, w.cache url = some (resp, expiry) → (url, resp) ∈ w.log
  tasks : ∀ t ∈ w.tasks, w.Knows t.url t.stage

/-- The requests and the record of a later world. -/
structure Later (w w' : World V) : Prop where
  next : w.nextId ≤ w'.nextId
  requests : ∀ r ∈ w'.requests, r ∈ w.requests ∨ w.nextId ≤ r.id
  log : w.log ⊆ w'.log

/-- What a stage knows stays in the log. -/
theorem Knows.later {stage : Stage V} (h : w.Knows url stage) (hl : Later w w') :
    w'.Knows url stage := by
  cases stage with
  | waiting id =>
    obtain ⟨hid, hurl⟩ := h
    refine ⟨hid.trans_le hl.next, fun r hr hrid => ?_⟩
    rcases hl.requests r hr with hr | hr
    · exact hurl r hr hrid
    · omega
  | settled outcome => exact fun resp hresp => hl.log (h resp hresp)
  | reading resp => exact ⟨hl.log h.1, h.2⟩

/-- The tasks may be replaced by others that belong to their URLs, and the component by any. -/
theorem Sound.replace (h : w.Sound) (c : Component V) {tasks : List (Task V)}
    (ht : ∀ t ∈ tasks, w.Knows t.url t.stage) : Sound { w with comp := c, tasks := tasks } :=
  ⟨h.requests, h.inflight, h.cache, ht⟩

/-- `invalidate` keeps the store sound. -/
theorem Sound.invalidate (h : w.Sound) (p : Str) : (w.invalidate p).Sound := by
  refine ⟨h.requests, h.inflight, fun url resp expiry hc => ?_, h.tasks⟩
  by_cases hp : hasPrefix url p = true
  · simp [World.invalidate, hp] at hc
  · simp only [World.invalidate, if_neg hp] at hc
    exact h.cache url resp expiry hc

/-- A way to fetch changes neither the component nor the tasks, and what it returns belongs to the
URL. -/
structure Fetched (w : World V) (url : Str) (r : World V × Stage V) : Prop where
  comp : r.1.comp = w.comp
  log : r.1.log = w.log
  tasks : r.1.tasks = w.tasks
  sound : w.Sound → r.1.Sound ∧ r.1.Knows url r.2

/-- `fetch` fetches. -/
theorem fetched_fetch (w : World V) (url : Str) (stored : Bool) :
    Fetched w url (w.fetch url stored) where
  comp := rfl
  log := rfl
  tasks := rfl
  sound h := by
    have hl : Later w (w.fetch url stored).1 := by
      refine ⟨Nat.le_succ _, fun r hr => ?_, fun e he => he⟩
      rcases List.mem_append.1 hr with hr | hr
      · exact Or.inl hr
      · rw [List.mem_singleton.1 hr]
        exact Or.inr le_rfl
    refine ⟨⟨fun r hr => ?_, fun u id hu => (h.inflight u id hu).later hl, h.cache,
      fun t ht => (h.tasks t ht).later hl⟩, Nat.lt_succ_self _, fun r hr hid => ?_⟩
    · rcases List.mem_append.1 hr with hr | hr
      · exact (h.requests r hr).trans (Nat.lt_succ_self _)
      · rw [List.mem_singleton.1 hr]
        exact Nat.lt_succ_self _
    · rcases List.mem_append.1 hr with hr | hr
      -- the number of the new request is that of no other
      · exact absurd hid (h.requests r hr).ne
      · rw [List.mem_singleton.1 hr]

/-- The store remembers the request that it has made. -/
theorem Sound.remember (h : w.Sound) {id : ℕ} (hk : w.Knows url (.waiting id)) :
    Sound { w with inflight := Function.update w.inflight url (some id) } := by
  refine ⟨h.requests, fun u n hu => ?_, h.cache, h.tasks⟩
  by_cases hurl : u = url
  · subst hurl
    simp only [Function.update_self, Option.some.injEq] at hu
    rw [← hu]
    exact hk
  · simp only [Function.update_of_ne hurl] at hu
    exact h.inflight u n hu

/-- A miss of the store fetches. -/
theorem fetched_storeMiss (w : World V) (url : Str) : Fetched w url (w.storeMiss url) := by
  unfold storeMiss
  cases hin : w.inflight url with
  | some id => exact ⟨rfl, rfl, rfl, fun h => ⟨h, h.inflight url id hin⟩⟩
  | none =>
    refine ⟨rfl, rfl, rfl, fun h => ?_⟩
    obtain ⟨hs, hk⟩ := (fetched_fetch w url true).sound h
    exact ⟨hs.remember hk, hk⟩

/-- The store fetches, or answers from the cache. -/
theorem fetched_storeFetch (w : World V) (url : Str) : Fetched w url (w.storeFetch url) := by
  unfold storeFetch
  cases hc : w.cache url with
  | none => exact fetched_storeMiss w url
  | some entry =>
    obtain ⟨resp, expiry⟩ := entry
    by_cases hnow : w.now < expiry
    · simp only [if_pos hnow]
      refine ⟨rfl, rfl, rfl, fun h => ⟨h, fun resp' hresp => ?_⟩⟩
      rw [← Option.some.inj hresp]
      exact h.cache url resp expiry hc
    · simp only [if_neg hnow]
      exact fetched_storeMiss w url

/-! ### Steps that only add tasks -/

/-- A world that shows the same as another and has at least its tasks. -/
structure Adds (w w' : World V) : Prop where
  selected : w'.comp.selected = w.comp.selected
  same : ∀ p, Component.SameAt w.comp w'.comp p
  log : w'.log = w.log
  tasks : w.tasks ⊆ w'.tasks
  sound : w.Sound → w'.Sound

/-- Nothing adds nothing. -/
theorem Adds.refl (w : World V) : Adds w w :=
  ⟨rfl, fun p => .refl _ p, rfl, fun _ h => h, fun h => h⟩

/-- Additions compose. -/
theorem Adds.trans (h : Adds w w') (h' : Adds w' w'') : Adds w w'' where
  selected := h'.selected.trans h.selected
  same p := (h.same p).trans (h'.same p)
  log := h'.log.trans h.log
  tasks := fun _ ht => h'.tasks (h.tasks ht)
  sound hs := h'.sound (h.sound hs)

/-- Waiting for what was fetched adds a task. -/
theorem adds_await {r : World V × Stage V} (h : Fetched w url r) (kind : Kind) :
    Adds w (await kind url r) where
  selected := by rw [await, h.comp]
  same p := by
    rw [await, h.comp]
    exact .refl _ p
  log := h.log
  tasks := by
    rw [await, h.tasks]
    exact List.subset_append_left _ _
  sound hs := by
    obtain ⟨hr, hk⟩ := h.sound hs
    refine hr.replace r.1.comp fun t ht => ?_
    rcases List.mem_append.1 ht with ht | ht
    · exact hr.tasks t ht
    · rw [List.mem_singleton.1 ht]
      exact hk

/-- A task that is added brings its parts. -/
theorem coming_await {r : World V × Stage V} {kind : Kind} {name : Str} {p : Part}
    (hurl : url ∈ kind.urls name) (hp : p ∈ kind.brings) : Coming (await kind url r).tasks name p :=
  ⟨⟨kind, url, r.2⟩, List.mem_append_right _ (List.mem_singleton.2 rfl), hurl, hp⟩

/-- What is coming comes among more tasks. -/
theorem coming_mono {tasks tasks' : List (Task V)} {name : Str} {p : Part} (h : Coming tasks name p)
    (hsub : tasks ⊆ tasks') : Coming tasks' name p := by
  obtain ⟨t, ht, hurl, hp⟩ := h
  exact ⟨t, hsub ht, hurl, hp⟩

/-- `fetchGrowthData` adds at most a task. -/
theorem adds_fetchGrowthData (w : World V) (force : Bool) : Adds w (w.fetchGrowthData force) :=
  adds_await (fetched_storeFetch w _) .growth

/-- `fetchWatchlist` adds at most a task. -/
theorem adds_fetchWatchlist (w : World V) : Adds w w.fetchWatchlist :=
  adds_await (fetched_storeFetch w _) .watchlist

/-- `fetchClosedHoldings` adds at most a task. -/
theorem adds_fetchClosedHoldings (w : World V) : Adds w w.fetchClosedHoldings := by
  unfold fetchClosedHoldings
  split_ifs
  · exact Adds.refl w
  · exact adds_await (fetched_fetch w _ false) .closed

/-- Other fields than those that the page shows may change. -/
theorem adds_comp (w : World V) {c : Component V} (hsel : c.selected = w.comp.selected)
    (hs : ∀ p, Component.SameAt w.comp c p) : Adds w { w with comp := c } :=
  ⟨hsel, hs, rfl, fun _ ht => ht, fun h => h.replace c h.tasks⟩

/-- `toggleClosed` adds at most a task. -/
theorem adds_toggleClosed (w : World V) : Adds w w.toggleClosed := by
  have ha : Adds w { w with comp := { w.comp with showClosed := !w.comp.showClosed } } :=
    adds_comp w rfl fun p => by cases p <;> rfl
  simp only [toggleClosed]
  split_ifs
  · exact ha.trans (adds_fetchClosedHoldings _)
  · exact ha

/-- What follows a task adds at most tasks. -/
theorem adds_goOn (w : World V) (kind : Kind) : Adds w (w.goOn kind) := by
  have h (force : Bool) : Adds w (w.fetchGrowthData force).fetchWatchlist :=
    (adds_fetchGrowthData w force).trans (adds_fetchWatchlist _)
  cases kind with
  | load => exact h false
  | refresh =>
    refine (h true).trans (adds_comp _ rfl fun p => ?_)
    cases p <;> rfl
  | closed | growth | watchlist => exact Adds.refl w

/-- After the load of any portfolio the growth data and the watchlist of the selected one are
fetched. -/
theorem coming_goOn (w : World V) {p : Part} (hp : p ∈ Kind.load.brings) (hview : p ≠ .view) :
    Coming (w.goOn .load).tasks w.comp.selected p := by
  cases p with
  | view => exact absurd rfl hview
  | closed => simp [Kind.brings] at hp
  | growth =>
    have hurl : growthURL w.comp.selected false ∈ Kind.growth.urls w.comp.selected :=
      List.mem_cons_self
    exact coming_mono (coming_await hurl (List.mem_singleton.2 rfl)) (adds_fetchWatchlist _).tasks
  | watchlist =>
    have hsel := (adds_fetchGrowthData w false).selected
    apply coming_await
    · rw [hsel]
      exact List.mem_singleton.2 rfl
    · exact List.mem_singleton.2 rfl

/-! ### The invariant -/

/-- A part is right, or a task brings it. -/
def Kept (js : Js V) (w : World V) (p : Part) : Prop :=
  w.comp.Right js w.log p ∨ Coming w.tasks w.comp.selected p

/-- A part is kept when tasks are added. -/
theorem Adds.kept {p : Part} (h : Adds w w') (hk : w.Kept js p) : w'.Kept js p := by
  rcases hk with hk | hk
  · exact Or.inl (hk.of_same h.selected (h.same p) (by rw [h.log]; exact fun _ he => he))
  · rw [Kept, h.selected]
    exact Or.inr (coming_mono hk h.tasks)

/-- The invariant of the runs. -/
structure Good (js : Js V) (w : World V) : Prop where
  sound : w.Sound
  kept : ∀ p, w.Kept js p

/-- The invariant holds when tasks are added. -/
theorem Good.adds (h : w.Good js) (ha : Adds w w') : w'.Good js :=
  ⟨ha.sound h.sound, fun p => ha.kept (h.kept p)⟩

/-- A world in which nothing is left to do shows what it should. -/
theorem Good.shown (h : w.Good js) (hq : w.Quiet) : w.Shown js := by
  intro p
  rcases h.kept p with hp | ⟨t, ht, -⟩
  · exact hp
  · rw [hq.2] at ht
    exact absurd ht List.not_mem_nil

/-- The load of a portfolio brings every part. -/
theorem good_loadPortfolio (h : w.Sound) (hsel : w.comp.selected ≠ []) :
    w.loadPortfolio.Good js := by
  unfold loadPortfolio
  rw [if_neg hsel]
  have ha :=
    adds_await (fetched_storeFetch { w with comp := { w.comp with closedHoldings := none } }
    (portfolioURL w.comp.selected)) .load
  refine ⟨ha.sound (h.replace _ h.tasks), fun p => ?_⟩
  -- the closed holdings are emptied at once, and the load brings the rest
  cases p with
  | closed => exact ha.kept (Or.inl (Or.inl (Or.inl rfl)))
  | view | growth | watchlist =>
    right
    rw [ha.selected]
    exact coming_await (List.mem_singleton.2 rfl) (by simp [Kind.brings])

/-- A refresh keeps the invariant. -/
theorem good_refreshPortfolio (h : w.Good js) : w.refreshPortfolio.Good js := by
  unfold refreshPortfolio
  split_ifs with hsel
  · exact h
  · refine Good.adds ⟨(h.sound.replace _ h.sound.tasks).invalidate _, fun p => ?_⟩
      (adds_await (fetched_fetch _ _ false) .refresh)
    cases p with
    | closed => exact Or.inl (Or.inl (Or.inl rfl))
    | view | growth | watchlist =>
      refine (h.kept _).imp (fun hr => hr.of_same ?_ ?_ fun _ he => he) fun hc => hc
      · rfl
      · rfl

/-! ### Answers -/

/-- An answer changes the task that waits for it. -/
theorem answered_stage (id : ℕ) (outcome : Option (Response V)) (t : Task V) :
    t.answered id outcome = t ∨ t.stage = .waiting id ∧ t.answered id outcome =
      { t with stage := .settled outcome } := by
  unfold Task.answered
  cases ht : t.stage with
  | waiting n =>
    by_cases hn : n = id
    · subst hn
      exact Or.inr ⟨rfl, if_pos rfl⟩
    · exact Or.inl (if_neg hn)
  | settled _ | reading _ => exact Or.inl rfl

/-- An answer is added to the log. -/
theorem later_answer (w : World V) (r : Request) (outcome : Option (Response V)) :
    Later w (w.answer r outcome) :=
  ⟨le_rfl, fun _ hr => Or.inl (List.mem_of_mem_filter hr), List.subset_append_left _ _⟩

/-- The response of an answer is in the log. -/
theorem mem_log_answer {r : Request} {outcome : Option (Response V)} {resp : Response V}
    (h : resp ∈ outcome) : (r.url, resp) ∈ (w.answer r outcome).log := by
  apply List.mem_append_right
  exact List.mem_map.2 ⟨resp, Option.mem_toList.2 h, rfl⟩

/-- An answer keeps the world sound. -/
theorem Sound.answer (h : w.Sound) {r : Request} (hr : r ∈ w.requests)
    (outcome : Option (Response V)) :
    (w.answer r outcome).Sound := by
  have hl := later_answer w r outcome
  refine ⟨fun r' hr' => h.requests r' (List.mem_of_mem_filter hr'), fun u id hu =>
    (h.inflight u id hu).later hl,
    fun u resp e hc => hl.log (h.cache u resp e hc), fun t' ht' => ?_⟩
  obtain ⟨t, ht, rfl⟩ := List.mem_map.1 ht'
  have hknows := h.tasks t ht
  rcases answered_stage r.id outcome t with heq | ⟨hstage, heq⟩
  · rw [heq]
    exact hknows.later hl
  · -- the task waited for this request, so it is its URL that the request has
    rw [hstage] at hknows
    rw [heq, ← hknows.2 r hr rfl]
    exact fun resp hresp => mem_log_answer hresp

/-- The store stays sound when it gets a response of the log. -/
theorem Sound.storeSettle (h : w.Sound) {outcome : Option (Response V)}
    (hlog : ∀ resp ∈ outcome, (url, resp) ∈ w.log) : (w.storeSettle url outcome).Sound := by
  refine ⟨h.requests, fun u id hu => ?_, fun u resp e hc => ?_, h.tasks⟩
  · by_cases hurl : u = url
    · simp [World.storeSettle, hurl] at hu
    · simp only [World.storeSettle, Function.update_of_ne hurl] at hu
      exact h.inflight u id hu
  · cases outcome with
    | none => exact h.cache u resp e hc
    | some new =>
      by_cases hok : new.ok = true
      · simp only [World.storeSettle, if_pos hok] at hc
        by_cases hurl : u = url
        · subst hurl
          rw [Function.update_self] at hc
          obtain ⟨rfl, -⟩ := Prod.mk.inj (Option.some.inj hc)
          exact hlog new rfl
        · rw [Function.update_of_ne hurl] at hc
          exact h.cache u resp e hc
      · simp only [World.storeSettle, if_neg hok] at hc
        exact h.cache u resp e hc

/-- An answer keeps the invariant. -/
theorem good_answer (h : w.Good js) {r : Request} (hr : r ∈ w.requests)
    (outcome : Option (Response V)) :
    (w.answer r outcome).Good js := by
  refine ⟨h.sound.answer hr outcome, fun p => ?_⟩
  rcases h.kept p with hp | ⟨t, ht, hurl, hp⟩
  · exact Or.inl (hp.of_same rfl (.refl _ p) (later_answer w r outcome).log)
  · refine Or.inr ⟨t.answered r.id outcome, List.mem_map_of_mem ht, ?_⟩
    rcases answered_stage r.id outcome t with heq | ⟨-, heq⟩
    · rw [heq]
      exact ⟨hurl, hp⟩
    · rw [heq]
      exact ⟨hurl, hp⟩

/-- A settled request keeps the invariant. -/
theorem good_settle (h : w.Good js) {r : Request} (hr : r ∈ w.requests)
    (outcome : Option (Response V)) :
    (w.settle r outcome).Good js := by
  have ha := good_answer h hr outcome
  unfold settle
  split_ifs
  · exact ⟨ha.sound.storeSettle fun resp hresp => mem_log_answer hresp, ha.kept⟩
  · exact ha

/-! ### A task goes on -/

section resume

variable {i : ℕ} {t : Task V} {c : Component V} {p : Part}

/-- A part that comes with the tasks comes with the one that goes on or with the others. -/
theorem coming_erase (ht : w.tasks[i]? = some t) {name : Str} (h : Coming w.tasks name p) :
    t.url ∈ t.kind.urls name ∧ p ∈ t.kind.brings ∨ Coming (w.tasks.eraseIdx i) name p := by
  obtain ⟨t', ht', hurl, hp⟩ := h
  obtain ⟨j, hj⟩ := List.mem_iff_getElem?.1 ht'
  by_cases hij : j = i
  · subst hij
    rw [hj] at ht
    cases ht
    exact Or.inl ⟨hurl, hp⟩
  · exact Or.inr ⟨t', List.mem_eraseIdx_iff_getElem?.2 ⟨j, hij, hj⟩, hurl, hp⟩

/-- Without the task, and with another component. -/
theorem Sound.erase (h : w.Sound) (i : ℕ) (c : Component V) :
    Sound { w with comp := c, tasks := w.tasks.eraseIdx i } :=
  h.replace c fun t ht => h.tasks t (List.mem_of_mem_eraseIdx ht)

/-- What is known of a part without the task: it is as before unless the task was to bring it. -/
theorem kept_erase (h : w.Good js) (ht : w.tasks[i]? = some t) (hsel : c.selected = w.comp.selected)
    (hs : Component.SameAt w.comp c p) :
    t.url ∈ t.kind.urls w.comp.selected ∧ p ∈ t.kind.brings ∨
      Kept js { w with comp := c, tasks := w.tasks.eraseIdx i } p := by
  rcases h.kept p with hr | hc
  · exact Or.inr (Or.inl (hr.of_same hsel hs fun _ he => he))
  · rcases coming_erase ht hc with hown | hrest
    · exact Or.inl hown
    · rw [← hsel] at hrest
      exact Or.inr (Or.inr hrest)

/-- A part other than its own that a function brings is one that the load fetches after its
assignments. -/
theorem brings_other {kind : Kind} (h : p ∈ kind.brings) (hp : p ≠ kind.part) :
    kind = .load ∧ p ≠ .view := by
  cases kind <;> cases p <;> simp_all [Kind.brings, Kind.part]

/-- An assignment keeps the invariant, unless it is late. -/
theorem good_assign (h : w.Good js) (ht : w.tasks[i]? = some t) {data : V}
    (hlog : (t.url, ⟨true, some data⟩) ∈ w.log) (hc : w.comp.assign js data t.kind = some c)
    (hlate : t.url ∉ t.kind.urls w.comp.selected → Coming (w.tasks.eraseIdx i) w.comp.selected
      t.kind.part) :
    (World.goOn { w with comp := c, tasks := w.tasks.eraseIdx i } t.kind).Good js := by
  obtain ⟨hsel, hshows, hsame⟩ := Component.assign_spec hc
  have ha := adds_goOn { w with comp := c, tasks := w.tasks.eraseIdx i } t.kind
  refine ⟨ha.sound (h.sound.erase i c), fun p => ?_⟩
  by_cases hp : p = t.kind.part
  · subst hp
    apply ha.kept
    by_cases hown : t.url ∈ t.kind.urls w.comp.selected
    · rw [← hsel] at hown
      exact Or.inl (Or.inr ⟨t.url, Kind.urls_subset t.kind _ hown, data, hlog, hshows⟩)
    · have hcoming := hlate hown
      rw [← hsel] at hcoming
      exact Or.inr hcoming
  · rcases kept_erase h ht hsel (hsame p hp) with ⟨-, hbrings⟩ | hkept
    · obtain ⟨hload, hview⟩ := brings_other hbrings hp
      rw [hload] at hbrings ⊢
      have hcoming := coming_goOn { w with comp := c, tasks := w.tasks.eraseIdx i } hbrings hview
      rw [← (adds_goOn _ .load).selected] at hcoming
      exact Or.inr hcoming
    · exact ha.kept hkept

/-- A response that is not ok keeps the invariant. -/
theorem good_notOk (h : w.Good js) (ht : w.tasks[i]? = some t) :
    (World.goOn { w with comp := w.comp.notOk js t.kind, tasks := w.tasks.eraseIdx i }
      t.kind).Good js := by
  have ha := adds_goOn { w with comp := w.comp.notOk js t.kind, tasks := w.tasks.eraseIdx i } t.kind
  refine ⟨ha.sound (h.sound.erase i _), fun p => ?_⟩
  rcases Component.notOk_spec w.comp t.kind p with hempty | ⟨hsame, hload⟩
  · exact ha.kept (Or.inl (Or.inl hempty))
  · rcases kept_erase h ht (Component.notOk_selected js _ _) hsame with ⟨-, hbrings⟩ | hkept
    · obtain ⟨hkind, hview⟩ := hload hbrings
      rw [hkind] at hbrings ⊢
      have hcoming :=
        coming_goOn { w with comp := w.comp.notOk js .load, tasks := w.tasks.eraseIdx i } hbrings
        hview
      rw [← (adds_goOn _ .load).selected] at hcoming
      exact Or.inr hcoming
    · exact ha.kept hkept

/-- A failed task keeps the invariant, unless the load is lost. -/
theorem good_failed (h : w.Good js) (ht : w.tasks[i]? = some t)
    (hlost : t.kind = .load → t.url ∈ t.kind.urls w.comp.selected → ∀ p ∈ t.kind.brings,
      w.comp.Right js w.log p ∨ Coming (w.tasks.eraseIdx i) w.comp.selected p) :
    Good js { w with comp := w.comp.failed js t.kind, tasks := w.tasks.eraseIdx i } := by
  refine ⟨h.sound.erase i _, fun p => ?_⟩
  have hsel := Component.failed_selected js w.comp t.kind
  rcases Component.failed_spec w.comp t.kind p with hempty | ⟨hsame, hload⟩
  · exact Or.inl (Or.inl hempty)
  · rcases kept_erase h ht hsel hsame with ⟨hown, hbrings⟩ | hkept
    · rcases hlost (hload hbrings) hown p hbrings with hr | hcoming
      · exact Or.inl (hr.of_same hsel hsame fun _ he => he)
      · rw [← hsel] at hcoming
        exact Or.inr hcoming
    · exact hkept

/-- Reading the body keeps the invariant. -/
theorem good_read (h : w.Good js) (ht : w.tasks[i]? = some t) {resp : Response V}
    (hstage : t.stage = .settled (some resp)) (hok : resp.ok = true) :
    Good js { w with tasks := w.tasks.set i { t with stage := .reading resp } } := by
  have hknows := h.sound.tasks t (List.mem_of_getElem? ht)
  rw [hstage] at hknows
  refine ⟨h.sound.replace w.comp fun t' ht' => ?_, fun p => (h.kept p).imp (fun hr => hr)
    fun hc => ?_⟩
  · rcases List.mem_or_eq_of_mem_set ht' with ht' | rfl
    · exact h.sound.tasks t' ht'
    · exact ⟨hknows resp rfl, hok⟩
  · rcases coming_erase ht hc with ⟨hurl, hp⟩ | ⟨t', ht', hurl, hp⟩
    · have hlt := (List.getElem?_eq_some_iff.1 ht).1
      exact ⟨{ t with stage := .reading resp }, List.mem_set hlt _, hurl, hp⟩
    · obtain ⟨j, hij, hj⟩ := List.mem_eraseIdx_iff_getElem?.1 ht'
      rw [← List.getElem?_set_ne hij.symm] at hj
      exact ⟨t', List.mem_of_getElem? hj, hurl, hp⟩

/-- What the steps of a task keep, unless it is late or lost. -/
theorem good_resume (h : w.Good js) (ht : w.tasks[i]? = some t) (hlate : ¬ Late js w (.resume i))
    (hlost : ¬ Lost js w (.resume i)) : (w.resume js i t).Good js := by
  have hknows := h.sound.tasks t (List.mem_of_getElem? ht)
  unfold World.resume
  cases hnext : t.next js w.comp with
  | wait => exact h
  | read resp =>
    obtain ⟨hstage, hok⟩ := Task.next_read hnext
    exact good_read h ht hstage hok
  | assign c =>
    obtain ⟨data, ok, hstage, hassign⟩ := Task.next_assign hnext
    rw [hstage] at hknows
    obtain ⟨hlog, rfl⟩ := hknows
    apply good_assign h ht hlog hassign
    intro hother
    by_contra hno
    exact hlate ⟨t, c, ht, hnext, hother, hno⟩
  | notOk => exact good_notOk h ht
  | fail =>
    apply good_failed h ht
    intro hkind hown p hp
    by_contra hno
    exact hlost ⟨t, ht, hkind, hnext, hown, p, hp, not_or.1 hno⟩

end resume

/-- A step that is neither late nor lost keeps the invariant. -/
theorem good_step (h : w.Good js) {l : Label V} (hlate : ¬ Late js w l) (hlost : ¬ Lost js w l)
    (hsel : l ≠ .select []) : (w.step js l).Good js := by
  -- Only a task that goes on can be late or lose its data.
  cases l with
  | select name =>
    apply good_loadPortfolio (h.sound.replace _ h.sound.tasks)
    rintro rfl
    exact hsel rfl
  | toggleClosed => exact h.adds (adds_toggleClosed w)
  | refresh => exact good_refreshPortfolio h
  | settle id outcome =>
    cases hr : w.requests.find? (·.id = id) with
    | some r =>
      simp only [step, hr]
      exact good_settle h (List.mem_of_find?_eq_some hr) outcome
    | none =>
      simp only [step, hr]
      exact h
  | resume i =>
    cases ht : w.tasks[i]? with
    | some t =>
      simp only [step, ht]
      exact good_resume h ht hlate hlost
    | none =>
      simp only [step, ht]
      exact h
  | tick ms => exact ⟨⟨h.sound.requests, h.sound.inflight, h.sound.cache, h.sound.tasks⟩, h.kept⟩

/-- An orderly run keeps the invariant. -/
theorem good_run {ls : List (Label V)} (h : w.Good js) (ho : Orderly js w ls) :
    (w.run js ls).Good js := by
  induction ls generalizing w with
  | nil => exact h
  | cons l ls ih =>
    obtain ⟨hlate, hlost, hsel, hrest⟩ := ho
    exact ih (good_step h hlate hlost hsel) hrest

end World

/-! ### The start -/

namespace Component

/-- Taking the data that the server has embedded leaves every part right, if the record has them. -/
theorem right_hydrate {log : List (Str × Response V)} {name : Str} (data : List (Kind × V))
    (hlog : ∀ kind v, (kind, v) ∈ data → js.truthy v = true →
      ∃ url ∈ kind.urls name, (url, ⟨true, some v⟩) ∈ log)
    (c : Component V) (hsel : c.selected = name) (hright : ∀ p, c.Right js log p) (p : Part) :
    (c.hydrate js data).Right js log p := by
  induction data generalizing c with
  | nil => exact hright p
  | cons entry rest ih =>
    obtain ⟨kind, v⟩ := entry
    have hrest := fun k x hx => hlog k x (.tail _ hx)
    unfold hydrate
    split_ifs with hv
    · cases hc : c.assign js v kind with
      | none => exact hright p
      | some c' =>
        obtain ⟨hsel', hshows, hsame⟩ := assign_spec hc
        refine ih hrest c' (hsel'.trans hsel) fun q => ?_
        by_cases hq : q = kind.part
        · subst hq
          obtain ⟨url, hurl, hmem⟩ := hlog kind v (.head _) hv
          rw [← hsel, ← hsel'] at hurl
          exact Or.inr ⟨url, Kind.urls_subset kind _ hurl, v, hmem, hshows⟩
        · exact (hright q).of_same hsel' (hsame q hq) fun _ he => he
    · exact ih hrest c hsel hright

end Component

/-- The page that the server rendered is right. -/
theorem good_start (selected : Str) (portfolio timeline watchlist : V) :
    (start js selected portfolio timeline watchlist).Good js := by
  refine ⟨⟨?_, ?_, ?_, ?_⟩, fun p => Or.inl ?_⟩
  · exact nofun
  · exact fun url id h => absurd h (by simp [start])
  · exact fun url resp e h => absurd h (by simp [start])
  · exact nofun
  · refine Component.right_hydrate _ (fun kind v hmem hv => ?_)
      (Component.fresh js selected) rfl ?_ p
    · have hlog (url : Str) (h : (url, v) ∈ [(portfolioURL selected, portfolio),
          (growthURL selected false, timeline), (watchlistURL selected, watchlist)]) :
          (url, ⟨true, some v⟩) ∈ (start js selected portfolio timeline watchlist).log := by
        exact List.mem_filterMap.2 ⟨_, h, if_pos hv⟩
      simp only [List.mem_cons, Prod.mk.injEq, List.not_mem_nil, or_false] at hmem
      rcases hmem with ⟨rfl, rfl⟩ | ⟨rfl, rfl⟩ | ⟨rfl, rfl⟩
      · exact ⟨portfolioURL selected, List.mem_singleton.2 rfl, hlog _ (by simp)⟩
      · exact ⟨growthURL selected false, .head _, hlog _ (by simp)⟩
      · exact ⟨watchlistURL selected, List.mem_singleton.2 rfl, hlog _ (by simp)⟩
    · intro q
      left
      cases q with
      | closed => exact Or.inl rfl
      | view | growth | watchlist => rfl

/-- The dashboard shows the selected portfolio: when no request is outstanding after an orderly run,
the holdings with the totals and the breadth, the closed holdings, the growth data and the watchlist
are each empty or what the server returned for the selected portfolio. -/
theorem shown_of_orderly (selected : Str) (portfolio timeline watchlist : V) (ls : List (Label V))
    (ho : Orderly js (start js selected portfolio timeline watchlist) ls)
    (hq : ((start js selected portfolio timeline watchlist).run js ls).Quiet) :
    ((start js selected portfolio timeline watchlist).run js ls).Shown js :=
  (World.good_run (good_start selected portfolio timeline watchlist) ho).shown hq

/-- Such a run is orderly. -/
theorem orderly_of_promptRun {w : World V} {ls : List (Label V)} (h : promptRun js w ls = true) :
    Orderly js w ls := by
  induction ls generalizing w with
  | nil => trivial
  | cons l ls ih =>
    obtain ⟨hl, hls⟩ := Bool.and_eq_true_iff.1 h
    refine ⟨?_, ?_, ?_, ih hls⟩
    · cases l with
      | resume i =>
        rintro ⟨t, c, ht, -, hother, -⟩
        simp only [prompt, ht, Option.all_some, decide_eq_true_eq] at hl
        exact hother hl.1
      | select _ | toggleClosed | refresh | settle _ _ | tick _ => exact id
    · cases l with
      | resume i =>
        rintro ⟨t, ht, hkind, hfail, -⟩
        simp [prompt, ht, hkind, hfail, Next.isFail] at hl
      | select _ | toggleClosed | refresh | settle _ _ | tick _ => exact id
    · rintro rfl
      simp [prompt] at hl

/-- A portfolio with one holding. -/
def oneHolding (ticker : Str) : Value :=
  .object [("holdings", .array [.object [("ticker", .string ticker)]])]

/-- The growth data fail to arrive and the watchlist is refused: the page shows the holding of the
portfolio that was selected last, and nothing else. -/
theorem shown_of_orderly_select :
    let w := World.run Js.exact (start Js.exact "A" (oneHolding "BHP") .null .null)
      [.select "B", .settle 0 (some ⟨true, some (oneHolding "CBA")⟩), .resume 0,
        .resume 0, .settle 1 none, .settle 2 (some ⟨false, none⟩), .resume 0, .resume 0]
    w.comp.view.holdings.length = 1 ∧ w.Shown Js.exact :=
  ⟨rfl, shown_of_orderly _ _ _ _ _ (orderly_of_promptRun (by decide +kernel)) ⟨rfl, rfl⟩⟩

/-- A page is not right if it shows something that no answer for the selected portfolio accounts
for. -/
theorem not_shown_of_answers {w : World V} (p : Part) (hne : ¬ w.comp.Empty js p)
    (hlog : ∀ e ∈ w.log.filter (·.1 ∈ p.urls w.comp.selected), ∀ data ∈ e.2.body,
      ¬ w.comp.Shows js data p) :
    ¬ w.Shown js := by
  intro h
  rcases h p with hempty | ⟨url, hurl, data, hmem, hshows⟩
  · exact hne hempty
  · exact hlog _ (List.mem_filter.2 ⟨hmem, decide_eq_true hurl⟩) data rfl hshows

/-- A timeline with one point. -/
def onePoint (value : ℚ) : Value :=
  .object [("data_points", .array [.object [("portfolio_value", .number (some value))]])]

/-- Two runs that end with data of `A` on the page of `B`. In the first the request for `B` fails,
and the holdings of `A` remain. In the second the timeline of `A`, which was selected before,
arrives after that of `B`. -/
theorem shown_fails :
    (let w := World.run Js.exact (start Js.exact "A" (oneHolding "BHP") .null .null)
      [.select "B", .settle 0 none, .resume 0]
    w.Quiet ∧ w.comp.selected = "B" ∧ ¬ w.Shown Js.exact) ∧
    (let w := World.run Js.exact (start Js.exact "C" (oneHolding "ANZ") .null .null)
      [.select "A", .settle 0 (some ⟨true, some (oneHolding "BHP")⟩), .resume 0,
        .resume 0, .settle 2 none, .resume 1,
        .select "B", .settle 3 (some ⟨true, some (oneHolding "CBA")⟩), .resume 1, .resume 1,
        .settle 5 none, .resume 2, .settle 4 (some ⟨true, some (onePoint 2)⟩), .resume 1, .resume 1,
        .settle 1 (some ⟨true, some (onePoint 1)⟩), .resume 0, .resume 0]
    w.Quiet ∧ w.comp.selected = "B" ∧ ¬ w.Shown Js.exact) := by
  refine ⟨⟨⟨rfl, rfl⟩, rfl, not_shown_of_answers .view ?_ ?_⟩, ⟨rfl, rfl⟩, rfl,
    not_shown_of_answers .growth ?_ ?_⟩
  · intro hempty
    exact absurd (congrArg (fun v => v.holdings.length) hempty) (by decide)
  · intro e he
    exact absurd he List.not_mem_nil
  · exact List.cons_ne_nil _ _
  · intro e he data hdata hshows
    -- the one answer for the growth data of `B` has another point
    obtain rfl := List.mem_singleton.1 he
    cases hdata
    have hvalue :=
      congrArg (Option.map (List.map fun v => (v.get "portfolio_value").toNumber)) hshows
    exact absurd hvalue (by decide)

end VirePortal.Pages.Dashboard
