import VirePortal.Pages.Dashboard

/-!
# The pages of the cash transactions

`cashTransactions` of `common.js`, as far as it loads the transactions of a portfolio and shows them
in pages. `loadTransactions` goes back to the first page before it waits for the response, and
replaces the list after it. In between the user may still turn the pages of the old list, and the
responses of several loads may arrive in any order.

The number of the page is in range as long as every list that arrives has a page of that number
(`Fitting`), and only then (`inRange_iff`). It always is if nobody turns to the next page while a
load is under way (`fitting_of_unhurried`).
-/

namespace VirePortal.Pages.Cash

open Go Dashboard

/-! ### The component -/

/-- The fields that a response fills. -/
structure View (V : Type) where
  transactions : List V
  accounts : V
  totalCash : V
  transactionCount : V
  byCategory : V

variable {V : Type} (js : Js V)

/-- The fields where a response is not ok. -/
def View.empty : View V where
  transactions := []
  accounts := js.emptyArray
  totalCash := js.literal 0
  transactionCount := js.literal 0
  byCategory := js.object []

/-- The assignments of `loadTransactions` to the data that it has read, `none` where it throws. The
sort by date throws where an element of the array is no object. -/
def viewOf (sortByDate : List V → Option (List V)) (data : V) : Option (View V) := do
  if js.nullish data then none
  let txns ← if js.truthy (js.get data "transactions") then
      (js.array (js.get data "transactions")).bind sortByDate
    else some []
  let summary := js.or (js.get data "summary") (js.object [])
  return {
    transactions := txns
    accounts := js.or (js.get data "accounts") js.emptyArray
    totalCash := js.or (js.get summary "capital_gross") (js.literal 0)
    transactionCount := js.or (js.get summary "transaction_count") (js.literal 0)
    byCategory := js.or (js.get summary "net_cash_by_category") (js.object []) }

/-- The fields of the component. -/
structure Component (V : Type) where
  selected : Str
  view : View V
  currentPage : ℕ := 1

/-- `pageSize`. -/
def pageSize : ℕ := 100

/-- `totalPages` of a list. -/
def totalPages (transactions : List V) : ℕ :=
  max 1 ((transactions.length + (pageSize - 1)) / pageSize)

/-- `pagedTransactions` of a list and the number of a page. -/
def pagedTransactions (transactions : List V) (currentPage : ℕ) : List V :=
  (transactions.drop ((currentPage - 1) * pageSize)).take pageSize

namespace Component

/-- `prevPage`. -/
def prevPage (c : Component V) : Component V :=
  if 1 < c.currentPage then { c with currentPage := c.currentPage - 1 } else c

/-- `nextPage`. -/
def nextPage (c : Component V) : Component V :=
  if c.currentPage < totalPages c.view.transactions
    then { c with currentPage := c.currentPage + 1 } else c

/-- The view that the outcome of a request assigns, if any: a request that fails, a body that is no
JSON and data of another shape are caught and assign none. -/
def received (sortByDate : List V → Option (List V)) : Option (Response V) → Option (View V)
  | none => none
  | some resp => if resp.ok then resp.body.bind (viewOf js sortByDate) else some (.empty js)

end Component

/-! ### Runs -/

/-- The component and the loads that wait for their responses, each with its URL. -/
structure World (V : Type) where
  comp : Component V
  loads : List Str := []

/-- What happens next: the user selects a portfolio or turns a page, or a load gets the outcome of
its request. -/
inductive Event (V : Type) where
  | change (name : Str)
  | arrive (i : ℕ) (outcome : Option (Response V))
  | prevPage
  | nextPage

namespace World

/-- `loadTransactions`, up to its `fetch`. -/
def loadTransactions (w : World V) : World V :=
  if w.comp.selected = [] then w
  else
    { comp := { w.comp with currentPage := 1 }
      loads := w.loads ++ [portfolioURL w.comp.selected ++ "/cash-transactions"] }

/-- The rest of `loadTransactions`. -/
def finish (w : World V) (v : Option (View V)) : World V :=
  match v with
  | some v => { w with comp := { w.comp with view := v } }
  | none => w

variable (sortByDate : List V → Option (List V))

/-- One step. -/
def step (w : World V) : Event V → World V
  | .change name => World.loadTransactions { w with comp := { w.comp with selected := name } }
  | .arrive i outcome =>
    if i < w.loads.length then
      { w with loads := w.loads.eraseIdx i }.finish (Component.received js sortByDate outcome)
    else w
  | .prevPage => { w with comp := w.comp.prevPage }
  | .nextPage => { w with comp := w.comp.nextPage }

/-- A run. -/
def run (w : World V) (es : List (Event V)) : World V := es.foldl (step js sortByDate) w

/-- The page is one of the list. -/
def InRange (w : World V) : Prop :=
  1 ≤ w.comp.currentPage ∧ w.comp.currentPage ≤ totalPages w.comp.view.transactions

/-- A list that arrives has a page of the current number. -/
def Fits (w : World V) : Event V → Prop
  | .arrive i outcome => i < w.loads.length →
      ∀ v ∈ Component.received js sortByDate outcome, w.comp.currentPage ≤ totalPages v.transactions
  | _ => True

/-- All lists of a run do. -/
def Fitting (w : World V) : List (Event V) → Prop
  | [] => True
  | e :: es => w.Fits js sortByDate e ∧ (w.step js sortByDate e).Fitting es

/-- Nobody turns to the next page while a load is under way. -/
def Unhurried (w : World V) : List (Event V) → Prop
  | [] => True
  | e :: es => (w.loads = [] ∨ e ≠ .nextPage) ∧ (w.step js sortByDate e).Unhurried es

end World

/-! ### The pages of a list -/

/-- The pages of a list are its pieces in order. -/
theorem flatMap_range_take_drop {α : Type*} (l : List α) (k n : ℕ) :
    (List.range n).flatMap (fun i => (l.drop (i * k)).take k) = l.take (n * k) := by
  induction n with
  | zero => simp
  | succ n ih =>
    rw [List.range_succ, List.flatMap_append, ih, List.flatMap_singleton, Nat.succ_mul,
      List.take_add]

/-- Together they are the list. -/
theorem flatMap_pagedTransactions (l : List V) :
    (List.range (totalPages l)).flatMap (fun i => pagedTransactions l (i + 1)) = l := by
  have hall : l.length ≤ totalPages l * pageSize := by
    have hmax : (l.length + 99) / 100 ≤ totalPages l := le_max_right _ _
    simp only [pageSize]
    omega
  calc (List.range (totalPages l)).flatMap (fun i => pagedTransactions l (i + 1))
      = l.take (totalPages l * pageSize) := flatMap_range_take_drop l pageSize (totalPages l)
    _ = l := List.take_of_length_le hall

/-- A page in range is empty only if the list is. -/
theorem pagedTransactions_ne_nil {l : List V} (hl : l ≠ []) {page : ℕ} (hone : 1 ≤ page)
    (hpage : page ≤ totalPages l) :
    pagedTransactions l page ≠ [] := by
  have hlength : 0 < l.length := List.length_pos_iff.2 hl
  have hstart : (page - 1) * pageSize < l.length := by
    simp only [totalPages, pageSize] at hpage ⊢
    omega
  intro hnil
  have hzero := congrArg List.length hnil
  simp only [pagedTransactions, List.length_take, List.length_drop, List.length_nil, pageSize]
    at hzero hstart
  omega

namespace World

variable {js} {sortByDate : List V → Option (List V)} {w : World V}

/-- There is a page even without transactions. -/
theorem one_le_totalPages (l : List V) : 1 ≤ totalPages l := le_max_left _ _

/-! ### One step -/

/-- A list that arrives is the only thing that can move the range away from the page. -/
theorem inRange_step (h : w.InRange) (e : Event V) :
    (w.step js sortByDate e).InRange ↔ w.Fits js sortByDate e := by
  obtain ⟨hone, hle⟩ := h
  cases e with
  | change name =>
    refine iff_of_true ?_ trivial
    by_cases hname : name = []
    · rw [step, loadTransactions, if_pos hname]
      exact ⟨hone, hle⟩
    · rw [step, loadTransactions, if_neg hname]
      exact ⟨le_rfl, one_le_totalPages _⟩
  -- The page stays where it is while the list below it changes.
  | arrive i outcome =>
    by_cases hi : i < w.loads.length
    · simp only [step, Fits, hi, if_true, forall_const]
      cases Component.received js sortByDate outcome with
      | none => exact iff_of_true ⟨hone, hle⟩ fun v hv => absurd hv (by simp)
      | some v =>
        constructor
        · rintro ⟨-, hpage⟩ v' hv'
          exact Option.some.inj hv' ▸ hpage
        · intro hpage
          exact ⟨hone, hpage v rfl⟩
    · rw [step, if_neg hi]
      exact iff_of_true ⟨hone, hle⟩ fun hi' => absurd hi' hi
  | prevPage =>
    refine iff_of_true ?_ trivial
    simp only [step, Component.prevPage, InRange]
    split_ifs with hpage
    · exact ⟨Nat.le_sub_one_of_lt hpage, (Nat.sub_le _ 1).trans hle⟩
    · exact ⟨hone, hle⟩
  | nextPage =>
    refine iff_of_true ?_ trivial
    simp only [step, Component.nextPage, InRange]
    split_ifs with hpage
    · exact ⟨Nat.le_add_left 1 _, hpage⟩
    · exact ⟨hone, hle⟩

/-- While a load is under way, the page is the first. -/
def Patient (w : World V) : Prop := w.loads ≠ [] → w.comp.currentPage = 1

/-- A patient user stays patient. -/
theorem Patient.step (h : w.Patient) {e : Event V} (he : w.loads = [] ∨ e ≠ .nextPage) :
    (w.step js sortByDate e).Patient := by
  cases e with
  | change name =>
    by_cases hname : name = []
    · rw [World.step, loadTransactions, if_pos hname]
      exact h
    · rw [World.step, loadTransactions, if_neg hname]
      exact fun _ => rfl
  | arrive i outcome =>
    by_cases hi : i < w.loads.length
    · have hpage : w.comp.currentPage = 1 := h (List.ne_nil_of_length_pos (by omega))
      rw [World.step, if_pos hi]
      intro _
      cases Component.received js sortByDate outcome <;> exact hpage
    · rw [World.step, if_neg hi]
      exact h
  | prevPage =>
    -- A list is outstanding, so the page is the first one.
    intro hloads
    have hpage : w.comp.currentPage = 1 := h hloads
    rw [World.step, Component.prevPage, if_neg (by omega)]
    exact hpage
  | nextPage =>
    intro hloads
    exact absurd rfl (he.resolve_left hloads)

/-- A patient user turns to pages that exist. -/
theorem Patient.fits (h : w.Patient) (e : Event V) : w.Fits js sortByDate e := by
  cases e with
  | arrive i outcome =>
    intro hi v _
    rw [h (List.ne_nil_of_length_pos (by omega))]
    exact one_le_totalPages _
  | change _ | prevPage | nextPage => trivial

/-! ### Runs -/

/-- The page is in range after every step if and only if every list fits. -/
theorem inRange_iff (h : w.InRange) (es : List (Event V)) :
    (∀ pre, pre <+: es → (w.run js sortByDate pre).InRange) ↔ w.Fitting js sortByDate es := by
  induction es generalizing w with
  | nil =>
    refine iff_of_true (fun pre hpre => ?_) trivial
    rw [List.prefix_nil.1 hpre]
    exact h
  | cons e es ih =>
    constructor
    · intro hall
      have hstep : (w.step js sortByDate e).InRange :=
        hall [e] (List.prefix_cons_inj e |>.2 List.nil_prefix)
      refine ⟨(inRange_step h e).1 hstep, (ih hstep).1 fun pre hpre => ?_⟩
      exact hall (e :: pre) ((List.prefix_cons_inj e).2 hpre)
    · rintro ⟨hfits, hfitting⟩ pre hpre
      cases pre with
      | nil => exact h
      | cons e' pre =>
        obtain ⟨rfl, hrest⟩ := List.cons_prefix_cons.1 hpre
        exact (ih ((inRange_step h e').2 hfits)).2 hfitting pre hrest

/-- Everything fits if nobody is in a hurry. -/
theorem fitting_of_unhurried (h : w.Patient) {es : List (Event V)}
    (hes : w.Unhurried js sortByDate es) :
    w.Fitting js sortByDate es := by
  induction es generalizing w with
  | nil => trivial
  | cons e es ih =>
    obtain ⟨he, hes⟩ := hes
    exact ⟨h.fits e, ih (h.step he) hes⟩

end World

/-- The page before its first load, or with the transactions that the server has put into it. -/
def start (selected : Str) (view : View V) : World V :=
  { comp := { selected := selected, view := view } }

/-- The page starts in range. -/
theorem inRange_start (selected : Str) (view : View V) : (start selected view).InRange :=
  ⟨le_rfl, World.one_le_totalPages _⟩

/-- In a run whose lists fit, and so in one in which nobody is in a hurry, the page is in range
after every step, so a list that is not empty shows some of its elements, and all of them over its
pages. -/
theorem shown_of_fitting (sortByDate : List V → Option (List V)) (selected : Str) (view : View V)
    (es : List (Event V))
    (h : (start selected view).Fitting js sortByDate es ∨
      (start selected view).Unhurried js sortByDate es) :
    ∀ pre, pre <+: es →
      let c := ((start selected view).run js sortByDate pre).comp
      let shown := pagedTransactions c.view.transactions
      (1 ≤ c.currentPage ∧ c.currentPage ≤ totalPages c.view.transactions) ∧
        (c.view.transactions ≠ [] → shown c.currentPage ≠ []) ∧
        (List.range (totalPages c.view.transactions)).flatMap (fun i => shown (i + 1)) =
          c.view.transactions := by
  intro pre hpre c shown
  have hfitting := h.elim id (World.fitting_of_unhurried fun hloads => absurd rfl hloads)
  have hrange := (World.inRange_iff (inRange_start selected view) es).2 hfitting pre hpre
  exact ⟨hrange, fun hne => pagedTransactions_ne_nil hne hrange.1 hrange.2,
    flatMap_pagedTransactions _⟩

/-- A body with as many transactions. -/
def sampleBody (n : ℕ) : Value :=
  .object [("transactions", .array (List.replicate n (.object [("amount", .number (some 1))])))]

/-- A page with 101 transactions. -/
def sampleView : View Value :=
  { View.empty Js.exact with
    transactions := List.replicate 101 (.object [("amount", .number (some 1))]) }

/-- The user selects the portfolio B, and turns to the second page when its one transaction has
arrived. -/
theorem shown_of_fitting_patient :
    let es : List (Event Value) :=
      [.nextPage, .change "B", .arrive 0 (some ⟨true, some (sampleBody 1)⟩), .nextPage]
    (start "A" sampleView).Unhurried Js.exact some es ∧
      let c := ((start "A" sampleView).run Js.exact some es).comp
      1 ≤ c.currentPage ∧ c.currentPage ≤ totalPages c.view.transactions ∧
        pagedTransactions c.view.transactions c.currentPage ≠ [] := by
  intro es
  have hunhurried : (start "A" sampleView).Unhurried Js.exact some es :=
    ⟨.inl rfl, .inr nofun, .inr nofun, .inl rfl, trivial⟩
  obtain ⟨hrange, hshown, -⟩ :=
    shown_of_fitting Js.exact some "A" sampleView es (.inr hunhurried) es (List.prefix_refl es)
  exact ⟨hunhurried, hrange.1, hrange.2, hshown (List.cons_ne_nil _ _)⟩

/-- The user selects B and turns to the second page of A before the one transaction of B arrives:
the page is out of range and shows nothing. -/
theorem shown_fails_hurried :
    let w := (start "A" sampleView).run Js.exact some
      [.change "B", .nextPage, .arrive 0 (some ⟨true, some (sampleBody 1)⟩)]
    w.comp.currentPage = 2 ∧ totalPages w.comp.view.transactions = 1 ∧
      w.comp.view.transactions.length = 1 ∧
      pagedTransactions w.comp.view.transactions w.comp.currentPage = [] :=
  ⟨rfl, rfl, rfl, rfl⟩

end VirePortal.Pages.Cash
