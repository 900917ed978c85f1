import VirePortal.Go.RequestUri

/-!
# The data of the dashboard

What the dashboard's script makes of the JSON that it fetches (`common.js`). The values of the
language and the operations that the script applies to them are a parameter (`Js`), so nothing here
depends on how the language converts or rounds numbers. A function that may throw returns an option.

`_applyPortfolioData` assigns its fields from the data alone, and throws, if at all, before it
assigns the first. So the fields are one record (`PortfolioView`) that is replaced as a whole, and
the branch of `loadPortfolio` that clears them puts back the record of an empty page. A conversion
to a number is taken to succeed, as it does but for an object that has a `toString` of its own.
-/

namespace VirePortal.Pages

open Go

/-- The values of the language and what the script does with them. -/
structure Js (V : Type) where
  undefined : V
  null : V
  /-- `x == null`. -/
  nullish : V → Bool
  truthy : V → Bool
  /-- `x === y`, and the comparison of the keys of a `Set`. -/
  same : V → V → Bool
  /-- `x[key]`, for a value that is not nullish. -/
  get : V → Str → V
  /-- A copy with one property set. -/
  set : V → Str → V → V
  /-- `Object.assign({}, x)`. -/
  copy : V → V
  /-- The elements of an array. -/
  array : V → Option (List V)
  /-- The elements that a loop over `length` visits. -/
  indexed : V → List V
  emptyArray : V
  string : Str → V
  object : List (Str × V) → V
  /-- A numeric literal. -/
  literal : ℚ → V
  /-- `Number(x)`. -/
  number : V → V
  add : V → V → V
  sub : V → V → V
  mul : V → V → V
  div : V → V → V
  abs : V → V
  /-- `x > y`. -/
  gt : V → V → Bool

variable {V : Type} (js : Js V)

namespace Js

/-- `x || y`. -/
def or (x y : V) : V := if js.truthy x then x else y

/-- `x?.key`. -/
def opt (x : V) (key : Str) : V := if js.nullish x then js.undefined else js.get x key

/-- `Number(x) || 0`. -/
def numberOrZero (x : V) : V := js.or (js.number x) (js.literal 0)

end Js

/-- The loop of `vireStore.dedup`, with the keys that it has seen. -/
def dedupFrom (key : Str) : List V → List V → Option (List V)
  | _, [] => some []
  | seen, item :: rest =>
    if js.nullish item then none
    else if seen.any (js.same (js.get item key)) then dedupFrom key seen rest
    else (dedupFrom key (js.get item key :: seen) rest).map (item :: ·)

/-- `vireStore.dedup(data[field] || [], key)`. -/
def dedup (data : V) (field key : Str) : Option (List V) :=
  if js.nullish data then none
  else if js.truthy (js.get data field) then (js.array (js.get data field)).bind
    (dedupFrom js key [])
  else some []

/-! ### Breadth -/

/-- `holdingTodayChange`. -/
def holdingTodayChange (h : V) : V :=
  if js.nullish (js.get h "current_price") || js.nullish (js.get h "yesterday_close_price") ||
      js.nullish (js.get h "units") then js.null
  else js.mul (js.sub (js.get h "current_price") (js.get h "yesterday_close_price"))
    (js.get h "units")

/-- The variables of the loop of `computeBreadth`. -/
structure BreadthSums (V : Type) where
  rising : ℕ := 0
  flat : ℕ := 0
  falling : ℕ := 0
  risingWeight : V
  flatWeight : V
  fallingWeight : V
  totalWeight : V
  weightedScore : V
  todayChange : V
  todayValid : Bool := false

/-- One turn of the loop. -/
def breadthTurn (s : BreadthSums V) (h : V) : BreadthSums V :=
  let w := js.or (js.get h "holding_value_market") (js.literal 0)
  let score := js.or (js.get h "trend_score") (js.literal 0)
  let s := { s with totalWeight := js.add s.totalWeight w
                    weightedScore := js.add s.weightedScore (js.mul score w) }
  let s :=
    if js.gt score (js.literal (1 / 10)) then
      { s with rising := s.rising + 1, risingWeight := js.add s.risingWeight w }
    else if js.gt (js.literal (-1 / 10)) score then
      { s with falling := s.falling + 1, fallingWeight := js.add s.fallingWeight w }
    else { s with flat := s.flat + 1, flatWeight := js.add s.flatWeight w }
  let tc := holdingTodayChange js h
  if js.same tc js.null then s
  else { s with todayChange := js.add s.todayChange tc, todayValid := true }

/-- `trend_label` of an average. -/
def trendLabel (avg : V) : Str :=
  if js.gt avg (js.literal (3 / 10)) then "Uptrend"
  else if js.gt avg (js.literal (1 / 10)) then "Mixed-Up"
  else if js.gt avg (js.literal (-1 / 10)) then "Mixed"
  else if js.gt avg (js.literal (-3 / 10)) then "Mixed-Down"
  else "Downtrend"

/-- `computeBreadth`. -/
def computeBreadth (holdings : List V) : V :=
  let active := holdings.filter fun h => js.gt (js.get h "holding_value_market") (js.literal 0)
  if active.length = 0 then js.null
  else
    let zero := js.literal 0
    let s := active.foldl (breadthTurn js)
      { risingWeight := zero, flatWeight := zero, fallingWeight := zero, totalWeight := zero,
        weightedScore := zero, todayChange := zero }
    let avg := if js.gt s.totalWeight zero then js.div s.weightedScore s.totalWeight else zero
    let pct (weight : V) : V :=
      if js.gt s.totalWeight zero then js.mul (js.div weight s.totalWeight)
        (js.literal 100) else zero
    js.object [("rising_count", js.literal s.rising), ("flat_count", js.literal s.flat),
       ("falling_count", js.literal s.falling), ("rising_weight_pct", pct s.risingWeight),
       ("flat_weight_pct", pct s.flatWeight), ("falling_weight_pct", pct s.fallingWeight),
       ("trend_label", js.string (trendLabel js avg)), ("trend_score", avg),
       ("today_change", if s.todayValid then s.todayChange else js.null)]

/-- The status of a segment. -/
inductive Status where
  | falling
  | flat
  | rising
  deriving DecidableEq

/-- A segment of the bar. -/
structure Segment (V : Type) where
  ticker : V
  status : Status
  weight_pct : V

/-- The segment of a holding. -/
def segmentOf (totalWeight h : V) : Segment V :=
  let score := js.or (js.get h "trend_score") (js.literal 0)
  { ticker := js.get h "ticker"
    status :=
      if js.gt score (js.literal (1 / 10)) then .rising
      else if js.gt (js.literal (-1 / 10)) score then .falling
      else .flat
    weight_pct := js.mul (js.div (js.get h "holding_value_market") totalWeight) (js.literal 100) }

/-- `order`. -/
def Status.order : Status → ℤ
  | .falling => 0
  | .flat => 1
  | .rising => 2

/-- The comparison of two segments, with that of two tickers. -/
def compareSegments (localeCompare : V → V → ℤ) (a b : Segment V) : ℤ :=
  if a.status.order - b.status.order ≠ 0 then a.status.order - b.status.order
  else localeCompare a.ticker b.ticker

/-- `breadthSegments`. The sort is stable. -/
def breadthSegments (localeCompare : V → V → ℤ) (holdings : List V) : List (Segment V) :=
  let active := holdings.filter fun h => js.gt (js.get h "holding_value_market") (js.literal 0)
  if active.length = 0 then []
  else
    let totalWeight := active.foldl
      (fun sum h => js.add sum (js.or (js.get h "holding_value_market") (js.literal 0)))
        (js.literal 0)
    if js.same totalWeight (js.literal 0) then []
    else (active.map (segmentOf js totalWeight)).mergeSort fun a b =>
      compareSegments localeCompare a b ≤ 0

/-! ### The portfolio -/

/-- The changes of one amount: `changeDayPct`, `changeWeekPct`, `changeMonthPct` and `hasChanges`,
and the same for the cash and for the return in dollars and in percent. -/
structure ChangeView (V : Type) where
  day : V
  week : V
  month : V
  has : Bool

/-- No changes. -/
def ChangeView.none : ChangeView V := ⟨js.null, js.null, js.null, false⟩

/-- The change of an amount since a period, `null` without a previous value. -/
def changeSince (changes : V) (period amount field : Str) : V :=
  let value := js.opt (js.get changes period) amount
  if js.truthy (js.opt value "has_previous") then js.get value field else js.null

/-- The three changes of an amount. -/
def changeView (changes : V) (amount field : Str) : ChangeView V :=
  let day := changeSince js changes "yesterday" amount field
  let week := changeSince js changes "week" amount field
  let month := changeSince js changes "month" amount field
  ⟨day, week, month, !js.same day js.null || !js.same week js.null || !js.same month js.null⟩

/-- The fields that `_applyPortfolioData` assigns. -/
structure PortfolioView (V : Type) where
  holdings : List V
  totalDividends : V
  ledgerDividendReturn : V
  lastSynced : V
  changes : ChangeView V
  cashChanges : ChangeView V
  returnDollarChanges : ChangeView V
  returnPctChanges : ChangeView V
  portfolioTotalValue : V
  portfolioGain : V
  portfolioGainPct : V
  portfolioCost : V
  equityValue : V
  grossCashBalance : V
  availableCash : V
  capitalInvested : V
  grossContributions : V
  hasCapitalData : Bool
  breadth : V
  hasBreadth : Bool

/-- The fields of an empty page. `loadPortfolio` assigns the same when the response is not ok. -/
def PortfolioView.empty : PortfolioView V where
  holdings := []
  totalDividends := js.literal 0
  ledgerDividendReturn := js.literal 0
  lastSynced := js.string []
  changes := .none js
  cashChanges := .none js
  returnDollarChanges := .none js
  returnPctChanges := .none js
  portfolioTotalValue := js.literal 0
  portfolioGain := js.literal 0
  portfolioGainPct := js.literal 0
  portfolioCost := js.literal 0
  equityValue := js.literal 0
  grossCashBalance := js.literal 0
  availableCash := js.literal 0
  capitalInvested := js.literal 0
  grossContributions := js.literal 0
  hasCapitalData := false
  breadth := js.null
  hasBreadth := false

/-- `_applyPortfolioData`, `none` where it throws. -/
def applyPortfolioData (data : V) : Option (PortfolioView V) := do
  let holdings ← dedup js data "holdings" "ticker"
  let changes := js.get data "changes"
  let view (amount field : Str) : ChangeView V :=
    if js.truthy changes then changeView js changes amount field else .none js
  let cp := js.get data "capital_performance"
  let hasCapital := js.truthy cp && js.gt (js.get cp "transaction_count") (js.literal 0)
  let breadth := js.or (js.get data "breadth") (computeBreadth js holdings)
  return {
    holdings := holdings
    totalDividends := js.numberOrZero (js.get data "income_dividends_forecast")
    ledgerDividendReturn := js.numberOrZero (js.get data "income_dividends_received")
    lastSynced := js.or (js.get data "last_synced") (js.string [])
    changes := view "portfolio_value" "pct_change"
    cashChanges := view "capital_gross" "pct_change"
    returnDollarChanges := view "equity_holdings_value" "raw_change"
    returnPctChanges := view "equity_holdings_value" "pct_change"
    portfolioTotalValue := js.numberOrZero (js.get data "portfolio_value")
    portfolioGain := js.numberOrZero (js.get data "equity_holdings_return")
    portfolioGainPct := js.numberOrZero (js.get data "equity_holdings_return_pct")
    portfolioCost := js.numberOrZero (js.get data "equity_holdings_cost")
    equityValue := js.numberOrZero (js.get data "equity_holdings_value")
    grossCashBalance := js.numberOrZero (js.get data "capital_gross")
    availableCash := js.numberOrZero (js.get data "capital_available")
    capitalInvested := if hasCapital then js.numberOrZero (js.get cp "capital_contributions_net")
        else js.literal 0
    grossContributions :=
      if hasCapital then js.numberOrZero (js.get cp "capital_contributions_gross")
        else js.literal 0
    hasCapitalData := hasCapital
    breadth := breadth
    hasBreadth := !js.same breadth js.null }

/-! ### The other data -/

/-- The closed holdings of a response, `none` where reading them throws. -/
def closedHoldingsOf (data : V) : Option (List V) := do
  let all ← dedup js data "holdings" "ticker"
  return all.filter fun x => js.same (js.get x "holding_value_market") (js.literal 0)

/-- One turn of the loop of `filterAnomalies`. -/
def anomalyTurn (filtered : List V) (point : V) : List V :=
  let p := js.copy point
  match filtered.getLast? with
  | none => filtered ++ [p]
  | some prev =>
    let value := js.get prev "portfolio_value"
    if js.gt value (js.literal 0) &&
        js.gt (js.div (js.abs (js.sub (js.get p "portfolio_value") value)) value)
          (js.literal (1 / 2)) then
      filtered ++ [js.set p "portfolio_value" value]
    else filtered ++ [p]

/-- `filterAnomalies`. -/
def filterAnomalies (points : V) : List V :=
  if js.truthy points then (js.indexed points).foldl (anomalyTurn js) [] else []

/-- The growth data of a response, `none` where reading them throws. -/
def growthDataOf (data : V) : Option (List V) :=
  if js.nullish data then none
  else some (filterAnomalies js (js.or (js.get data "data_points") js.emptyArray))

/-- The watchlist of a response, `none` where reading it throws. -/
def watchlistOf (data : V) : Option V :=
  if js.nullish data then none else some (js.or (js.get data "items") js.emptyArray)

/-! ### Exact numbers

The language with rational numbers, as much of it as it takes to run the script: only empty texts
are read as numbers, arrays and objects are not, and a division by zero is not a number. -/

/-- A value. A number that is not a number is `none`. -/
inductive Value where
  | undefined
  | null
  | bool (b : Bool)
  | number (q : Option ℚ)
  | string (s : Str)
  | array (l : List Value)
  | object (fields : List (Str × Value))

namespace Value

def toNumber : Value → Option ℚ
  | .null => some 0
  | .bool b => some (if b then 1 else 0)
  | .number q => q
  | .string [] => some 0
  | _ => none

def truthy : Value → Bool
  | .undefined | .null => false
  | .bool b => b
  | .number q => q.any (· ≠ 0)
  | .string s => s ≠ []
  | .array _ | .object _ => true

def same : Value → Value → Bool
  | .undefined, .undefined | .null, .null => true
  | .bool b, .bool b' => b = b'
  | .number (some q), .number (some q') => q = q'
  | .string s, .string s' => s = s'
  | _, _ => false

def get : Value → Str → Value
  | .object fields, key => (fields.lookup key).getD .undefined
  | _, _ => .undefined

/-- An operation on two numbers. -/
def arith (op : ℚ → ℚ → Option ℚ) (x y : Value) : Value :=
  .number (x.toNumber.bind fun a => y.toNumber.bind (op a))

end Value

/-- The language with exact numbers. -/
def Js.exact : Js Value where
  undefined := .undefined
  null := .null
  nullish
    | .undefined | .null => true
    | _ => false
  truthy := Value.truthy
  same := Value.same
  get := Value.get
  set
    | .object fields, key, v => .object ((key, v) :: fields.filter (·.1 ≠ key))
    | x, _, _ => x
  copy
    | .object fields => .object fields
    | _ => .object []
  array
    | .array l => some l
    | _ => none
  indexed
    | .array l => l
    | _ => []
  emptyArray := .array []
  string := .string
  object := .object
  literal q := .number (some q)
  number x := .number x.toNumber
  add := Value.arith fun a b => some (a + b)
  sub := Value.arith fun a b => some (a - b)
  mul := Value.arith fun a b => some (a * b)
  div := Value.arith fun a b => if b = 0 then none else some (a / b)
  abs x := .number (x.toNumber.map fun q => if q < 0 then -q else q)
  gt x y := x.toNumber.any fun a => y.toNumber.any (· < a)

/-! Numbers are computed with as rationals. -/

namespace Js

variable (a b : ℚ)

/-- A literal is its value. -/
@[simp]
theorem exact_literal : exact.literal a = .number (some a) := rfl

/-- The sum of two numbers. -/
@[simp]
theorem exact_add : exact.add (.number (some a)) (.number (some b)) = .number (some (a + b)) := rfl

/-- The difference of two numbers. -/
@[simp]
theorem exact_sub : exact.sub (.number (some a)) (.number (some b)) = .number (some (a - b)) := rfl

/-- The product of two numbers. -/
@[simp]
theorem exact_mul : exact.mul (.number (some a)) (.number (some b)) = .number (some (a * b)) := rfl

variable {b} in
/-- The quotient of two numbers. -/
theorem exact_div (hb : b ≠ 0) :
    exact.div (.number (some a)) (.number (some b)) = .number (some (a / b)) :=
  congrArg Value.number (if_neg hb)

/-- `Math.abs` of a number. -/
@[simp]
theorem exact_abs : exact.abs (.number (some a)) = .number (some |a|) := by
  have habs : |a| = if a < 0 then -a else a := by
    split_ifs with ha
    · exact abs_of_neg ha
    · exact abs_of_nonneg (not_lt.1 ha)
  rw [habs]
  rfl

/-- The comparison of two numbers. -/
@[simp]
theorem exact_gt : exact.gt (.number (some a)) (.number (some b)) = decide (b < a) := rfl

end Js

end VirePortal.Pages
