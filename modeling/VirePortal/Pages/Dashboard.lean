import VirePortal.Pages.Script

/-!
# The dashboard component

`portfolioDashboard` of `common.js`, as far as it selects, loads and refreshes portfolios, with the
store (`vireStore`) through which it fetches. Its functions are asynchronous: each runs up to its
`fetch`, goes on when the response has arrived, and again when the body has been read, and between
the two anything else may happen. A function that waits in this way is a `Task`, and `World` holds
the tasks beside the component, the store and the requests that are under way.

A response is an answer of the server, to which the script may return later: the store keeps it for
thirty seconds. The world therefore also records every answer with its URL (`log`). No function of
the script reads that record; it is what "data returned for a portfolio" means.

The script watches `showClosed` from the end of `init` on, here it does from the start. Every run of
the page is then a run of the model.
-/

namespace VirePortal.Pages.Dashboard

open Go

/-- A response of `fetch`: whether its status is one of success, and its body as JSON, `none` where
`json` throws. -/
structure Response (V : Type) where
  ok : Bool
  body : Option V

/-- The functions that wait for a response. -/
inductive Kind where
  /-- `loadPortfolio`. -/
  | load
  /-- `refreshPortfolio`. -/
  | refresh
  /-- `fetchClosedHoldings`. -/
  | closed
  /-- `fetchGrowthData`. -/
  | growth
  /-- `fetchWatchlist`. -/
  | watchlist
  deriving DecidableEq

/-- What a task waits for. -/
inductive Stage (V : Type) where
  /-- The request with this number. -/
  | waiting (id : ℕ)
  /-- Its turn, after the response or the error, which is `none`, has arrived. -/
  | settled (outcome : Option (Response V))
  /-- The body of the response. -/
  | reading (resp : Response V)

/-- A call of an asynchronous function, with the URL that it fetches. -/
structure Task (V : Type) where
  kind : Kind
  url : Str
  stage : Stage V

/-- The fields of the component. -/
structure Component (V : Type) where
  selected : Str
  view : PortfolioView V
  showClosed : Bool := false
  closedHoldings : Option (List V) := none
  growthData : List V := []
  watchlist : V
  refreshing : Bool := false

/-- A request that has not been answered, and whether the store made it. -/
structure Request where
  id : ℕ
  url : Str
  stored : Bool

/-- The page and what goes on around it. -/
structure World (V : Type) where
  comp : Component V
  /-- `vireStore._cache`: the responses with their expiry. -/
  cache : Str → Option (Response V × ℕ) := fun _ => none
  /-- `vireStore._inflight`. -/
  inflight : Str → Option ℕ := fun _ => none
  /-- `Date.now()`. -/
  now : ℕ := 0
  requests : List Request := []
  nextId : ℕ := 0
  tasks : List (Task V) := []
  /-- The answers of the server so far. -/
  log : List (Str × Response V)

variable {V : Type} (js : Js V)

/-! ### The URLs -/

/-- The URL of a portfolio. -/
def portfolioURL (name : Str) : Str := "/api/portfolios/" ++ encodeURIComponent name

/-- The URL of `refreshPortfolio`. -/
def refreshURL (name : Str) : Str := portfolioURL name ++ "?force_refresh=true"

/-- The URL of `fetchClosedHoldings`. -/
def closedURL (name : Str) : Str := portfolioURL name ++ "?include_closed=true"

/-- The URL of `fetchGrowthData`. -/
def growthURL (name : Str) (force : Bool) : Str :=
  portfolioURL name ++ ascii "/timeline" ++ if force then ascii "?force_refresh=true" else []

/-- The URL of `fetchWatchlist`. -/
def watchlistURL (name : Str) : Str := portfolioURL name ++ "/watchlist"

/-! ### The fields -/

namespace Component

/-- The assignments of a function to the data that it has read, `none` where it throws. -/
def assign (c : Component V) (data : V) : Kind → Option (Component V)
  | .load | .refresh => (applyPortfolioData js data).map fun v => { c with view := v }
  | .closed => (closedHoldingsOf js data).map fun l => { c with closedHoldings := some l }
  | .growth => (growthDataOf js data).map fun l => { c with growthData := l }
  | .watchlist => (watchlistOf js data).map fun v => { c with watchlist := v }

/-- The assignments where the response is not ok. -/
def notOk (c : Component V) : Kind → Component V
  | .load => { c with view := .empty js }
  | .refresh => c
  | .closed => { c with closedHoldings := some [] }
  | .growth => { c with growthData := [] }
  | .watchlist => { c with watchlist := js.emptyArray }

/-- The assignments of the `catch` and `finally` blocks after an error. -/
def failed (c : Component V) : Kind → Component V
  | .load => c
  | .refresh => { c with refreshing := false }
  | .closed => { c with closedHoldings := some [] }
  | .growth => { c with growthData := [] }
  | .watchlist => { c with watchlist := js.emptyArray }

end Component

/-! ### The store -/

/-- A task after the answer to a request. -/
def Task.answered (id : ℕ) (outcome : Option (Response V)) (t : Task V) : Task V :=
  match t.stage with
  | .waiting n => if n = id then { t with stage := .settled outcome } else t
  | _ => t

namespace World

/-- `fetch`. -/
def fetch (w : World V) (url : Str) (stored : Bool) : World V × Stage V :=
  ({ w with requests := w.requests ++ [⟨w.nextId, url, stored⟩], nextId := w.nextId + 1 },
    .waiting w.nextId)

/-- `vireStore.fetch` for a URL without a cached response. -/
def storeMiss (w : World V) (url : Str) : World V × Stage V :=
  match w.inflight url with
  | some id => (w, .waiting id)
  | none =>
    let (w', stage) := w.fetch url true
    ({ w' with inflight := Function.update w'.inflight url (some w.nextId) }, stage)

/-- `vireStore.fetch`. -/
def storeFetch (w : World V) (url : Str) : World V × Stage V :=
  match w.cache url with
  | some (resp, expiry) => if w.now < expiry then (w, .settled (some resp)) else w.storeMiss url
  | none => w.storeMiss url

/-- `vireStore.invalidate`. -/
def invalidate (w : World V) (p : Str) : World V :=
  { w with cache := fun url => if hasPrefix url p then none else w.cache url }

/-- The answer to a request, for the tasks that wait for it. -/
def answer (w : World V) (r : Request) (outcome : Option (Response V)) : World V :=
  { w with
    requests := w.requests.filter (·.id ≠ r.id)
    log := w.log ++ outcome.toList.map (r.url, ·)
    tasks := w.tasks.map (Task.answered r.id outcome) }

/-- The callbacks of `vireStore.fetch` for a request that the store made. Only a response that is ok
is kept. -/
def storeSettle (w : World V) (url : Str) (outcome : Option (Response V)) : World V :=
  { w with
    inflight := Function.update w.inflight url none
    cache := match outcome with
      | some resp => if resp.ok then Function.update w.cache url (some (resp, w.now + 30000))
          else w.cache
      | none => w.cache }

/-- A request settles. -/
def settle (w : World V) (r : Request) (outcome : Option (Response V)) : World V :=
  if r.stored then (w.answer r outcome).storeSettle r.url outcome else w.answer r outcome

/-! ### The functions of the component -/

/-- The call of an asynchronous function has come to its `fetch`. -/
def await (kind : Kind) (url : Str) (fetched : World V × Stage V) : World V :=
  { fetched.1 with tasks := fetched.1.tasks ++ [⟨kind, url, fetched.2⟩] }

/-- `fetchGrowthData`, up to its `fetch`. -/
def fetchGrowthData (w : World V) (force : Bool) : World V :=
  await .growth (growthURL w.comp.selected force) (w.storeFetch (growthURL w.comp.selected force))

/-- `fetchWatchlist`, up to its `fetch`. -/
def fetchWatchlist (w : World V) : World V :=
  await .watchlist (watchlistURL w.comp.selected) (w.storeFetch (watchlistURL w.comp.selected))

/-- `fetchClosedHoldings`, up to its `fetch`. -/
def fetchClosedHoldings (w : World V) : World V :=
  if w.comp.selected = [] ∨ w.comp.closedHoldings.isSome then w
  else await .closed (closedURL w.comp.selected) (w.fetch (closedURL w.comp.selected) false)

/-- A click on the box of the closed holdings, with the watcher of `showClosed`. -/
def toggleClosed (w : World V) : World V :=
  let w := { w with comp := { w.comp with showClosed := !w.comp.showClosed } }
  if w.comp.showClosed then w.fetchClosedHoldings else w

/-- `loadPortfolio`, up to its `fetch`. -/
def loadPortfolio (w : World V) : World V :=
  if w.comp.selected = [] then w
  else
    let w := { w with comp := { w.comp with closedHoldings := none } }
    await .load (portfolioURL w.comp.selected) (w.storeFetch (portfolioURL w.comp.selected))

/-- `refreshPortfolio`, up to its `fetch`. -/
def refreshPortfolio (w : World V) : World V :=
  if w.comp.refreshing ∨ w.comp.selected = [] then w
  else
    let w := { w with comp := { w.comp with refreshing := true, closedHoldings := none } }
    let w := w.invalidate "/api/portfolios"
    await .refresh (refreshURL w.comp.selected) (w.fetch (refreshURL w.comp.selected) false)

/-- What a function does after its assignments, where nothing was thrown. -/
def goOn (w : World V) : Kind → World V
  | .load => (w.fetchGrowthData false).fetchWatchlist
  | .refresh =>
    let w := (w.fetchGrowthData true).fetchWatchlist
    { w with comp := { w.comp with refreshing := false } }
  | _ => w

end World

/-- What a task does when it is its turn. -/
inductive Next (V : Type) where
  /-- It still waits for the response. -/
  | wait
  /-- It reads the body of the response. -/
  | read (resp : Response V)
  /-- It assigns the data that it has read. -/
  | assign (c : Component V)
  /-- The response is not ok. -/
  | notOk
  /-- The request has failed, the body is not JSON, or the data are not what the script takes them
  for. -/
  | fail

/-- It throws. -/
def Next.isFail : Next V → Bool
  | .fail => true
  | _ => false

/-- What a task does next, on a component. -/
def Task.next (t : Task V) (c : Component V) : Next V :=
  match t.stage with
  | .waiting _ => .wait
  | .settled none => .fail
  | .settled (some resp) => if resp.ok then .read resp else .notOk
  | .reading resp =>
    match resp.body.bind (c.assign js · t.kind) with
    | some c => .assign c
    | none => .fail

/-- What happens next: the user selects a portfolio, clicks the box of the closed holdings or the
refresh button, a request is answered or fails, a task goes on, or time passes. -/
inductive Label (V : Type) where
  | select (name : Str)
  | toggleClosed
  | refresh
  | settle (id : ℕ) (outcome : Option (Response V))
  | resume (i : ℕ)
  | tick (ms : ℕ)

namespace World

/-- The task with the number `i` goes on. -/
def resume (w : World V) (i : ℕ) (t : Task V) : World V :=
  let rest := w.tasks.eraseIdx i
  match t.next js w.comp with
  | .wait => w
  | .read resp => { w with tasks := w.tasks.set i { t with stage := .reading resp } }
  | .assign c => World.goOn { w with comp := c, tasks := rest } t.kind
  | .notOk => World.goOn { w with comp := w.comp.notOk js t.kind, tasks := rest } t.kind
  | .fail => { w with comp := w.comp.failed js t.kind, tasks := rest }

/-- One step. -/
def step (w : World V) : Label V → World V
  | .select name => World.loadPortfolio { w with comp := { w.comp with selected := name } }
  | .toggleClosed => w.toggleClosed
  | .refresh => w.refreshPortfolio
  | .settle id outcome =>
    match w.requests.find? (·.id = id) with
    | some r => w.settle r outcome
    | none => w
  | .resume i =>
    match w.tasks[i]? with
    | some t => w.resume js i t
    | none => w
  | .tick ms => { w with now := w.now + ms }

/-- A run. -/
def run (w : World V) (ls : List (Label V)) : World V := ls.foldl (step js) w

/-- No request is outstanding, and no task is left that reads a response. -/
def Quiet (w : World V) : Prop := w.requests = [] ∧ w.tasks = []

end World

/-! ### The start -/

/-- The component before `init`, with the portfolio that it selects. -/
def Component.fresh (selected : Str) : Component V where
  selected := selected
  view := .empty js
  watchlist := js.emptyArray

/-- The part of `init` that takes the data that the server has put into the page. It ends where one
of them throws. -/
def Component.hydrate (c : Component V) (data : List (Kind × V)) : Component V :=
  match data with
  | [] => c
  | (kind, v) :: rest =>
    if js.truthy v then
      match c.assign js v kind with
      | some c => c.hydrate rest
      | none => c
    else c.hydrate rest

/-- The page when `init` has taken the portfolio, the timeline and the watchlist that the server has
embedded for the selected portfolio. On a page without them `init` fetches the list of the
portfolios and then selects one, which is the step `select` from here. -/
def start (selected : Str) (portfolio timeline watchlist : V) : World V where
  comp := (Component.fresh js selected).hydrate js
    [(.load, portfolio), (.growth, timeline), (.watchlist, watchlist)]
  log := [(portfolioURL selected, portfolio), (growthURL selected false, timeline),
    (watchlistURL selected, watchlist)].filterMap fun (url, v) =>
      if js.truthy v then some (url, ⟨true, some v⟩) else none

end VirePortal.Pages.Dashboard
