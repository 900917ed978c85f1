import VirePortal.Pages.Script

/-!
# The breadth of a portfolio

The bar of the dashboard and the numbers next to it are computed apart: `computeBreadth` sums up the
holdings in one loop, `breadthSegments` makes a segment of each and sorts them. Both look at a
holding in three ways, its weight, its score and its status, and the loop adds them up by status
(`Sums`). What the bar shows is then the same list of holdings in another order (`breadth_agrees`).
-/

namespace VirePortal.Pages.Breadth

open Go

/-! ### Holdings -/

/-- A property that is a number, `null` or absent. -/
def IsAmount (v : Value) : Prop := v = .undefined ∨ v = .null ∨ ∃ q, v = .number (some q)

/-- A holding with numbers for its market value and its score, where it has them, and a ticker. -/
structure IsHolding (h : Value) : Prop where
  ticker : ∃ s, h.get "ticker" = .string s
  market : IsAmount (h.get "holding_value_market")
  trend : IsAmount (h.get "trend_score")

/-- The market value of a holding. -/
def weight (h : Value) : ℚ := (h.get "holding_value_market").toNumber.getD 0

/-- The score of a holding, 0 if it has none. -/
def score (h : Value) : ℚ := (h.get "trend_score").toNumber.getD 0

/-- The status of a holding. -/
def statusOf (h : Value) : Status :=
  if 1 / 10 < score h then .rising else if score h < -1 / 10 then .falling else .flat

/-- The holdings with a positive market value. -/
def active (holdings : List Value) : List Value :=
  holdings.filter fun h => Js.exact.gt (h.get "holding_value_market") (.number (some 0))

/-- `v || 0` of an amount. -/
theorem IsAmount.or_zero {v : Value} (h : IsAmount v) :
    Js.exact.or v (.number (some 0)) = .number (some (v.toNumber.getD 0)) := by
  obtain rfl | rfl | ⟨q, rfl⟩ := h
  · rfl
  · rfl
  · by_cases hq : q = 0
    · subst hq
      rfl
    · have htruthy : Js.exact.truthy (.number (some q)) = true := decide_eq_true hq
      rw [Js.or, if_pos htruthy]
      rfl

variable {holdings l : List Value} {h : Value} {s : BreadthSums Value}

/-- An active holding has a positive number as its market value. -/
theorem get_of_mem_active (hholdings : ∀ h ∈ holdings, IsHolding h) (hmem : h ∈ active holdings) :
    h.get "holding_value_market" = .number (some (weight h)) ∧ 0 < weight h := by
  obtain ⟨hmem, hgt⟩ := List.mem_filter.1 hmem
  obtain hnone | hnull | ⟨q, hq⟩ := (hholdings h hmem).market
  · rw [hnone] at hgt
    exact absurd hgt Bool.false_ne_true
  · rw [hnull] at hgt
    have hlt : (0 : ℚ) < 0 := of_decide_eq_true (p := (0 : ℚ) < 0) hgt
    exact absurd hlt (lt_irrefl 0)
  · rw [hq, Js.exact_gt] at hgt
    rw [weight, hq]
    exact ⟨rfl, of_decide_eq_true hgt⟩

/-- What both functions read of an active holding. -/
structure Read (h : Value) : Prop where
  market_eq : h.get "holding_value_market" = .number (some (weight h))
  weight_eq : Js.exact.or (h.get "holding_value_market") (.number (some 0)) =
    .number (some (weight h))
  score_eq : Js.exact.or (h.get "trend_score") (.number (some 0)) = .number (some (score h))
  pos : 0 < weight h

/-- The script reads the active holdings as they are. -/
theorem read_of_mem_active (hholdings : ∀ h ∈ holdings, IsHolding h) (hmem : h ∈ active holdings) :
    Read h := by
  have hholding := hholdings h (List.mem_of_mem_filter hmem)
  obtain ⟨hmarket, hpos⟩ := get_of_mem_active hholdings hmem
  exact ⟨hmarket, hholding.market.or_zero, hholding.trend.or_zero, hpos⟩

/-- The status that either function finds. -/
theorem Read.status_eq (hread : Read h) :
    (let score := Js.exact.or (h.get "trend_score") (Js.exact.literal 0)
      if Js.exact.gt score (Js.exact.literal (1 / 10)) then Status.rising
      else if Js.exact.gt (Js.exact.literal (-1 / 10)) score then .falling
      else .flat) = statusOf h := by
  simp only [Js.exact_literal, hread.score_eq, Js.exact_gt, decide_eq_true_eq]
  rfl

/-! ### The loop -/

/-- The number of holdings of a status. -/
def count {V : Type} (s : BreadthSums V) : Status → ℕ
  | .falling => s.falling
  | .flat => s.flat
  | .rising => s.rising

/-- The weight of the holdings of a status. -/
def weightOf {V : Type} (s : BreadthSums V) : Status → V
  | .falling => s.fallingWeight
  | .flat => s.flatWeight
  | .rising => s.risingWeight

/-- The sum of the market values. -/
def total (l : List Value) : ℚ := (l.map weight).sum

/-- The sum of the market values of one status. -/
def totalOf (l : List Value) (status : Status) : ℚ :=
  ((l.filter (statusOf · = status)).map weight).sum

/-- The variables of the loop after the holdings `l`. -/
structure Sums (l : List Value) (s : BreadthSums Value) : Prop where
  count_eq (status : Status) : count s status = l.countP (statusOf · = status)
  weight_eq (status : Status) :
    weightOf s status = .number (some (totalOf l status))
  total_eq : s.totalWeight = .number (some (total l))
  score_eq : s.weightedScore = .number (some (l.map fun h => score h * weight h).sum)

/-- The sums with one more holding. -/
def addHolding (s : BreadthSums Value) (h : Value) : BreadthSums Value :=
  let w : Value := .number (some (weight h))
  let s := { s with totalWeight := Js.exact.add s.totalWeight w
                    weightedScore :=
                      Js.exact.add s.weightedScore (.number (some (score h * weight h))) }
  match statusOf h with
  | .falling => { s with falling := s.falling + 1, fallingWeight := Js.exact.add s.fallingWeight w }
  | .flat => { s with flat := s.flat + 1, flatWeight := Js.exact.add s.flatWeight w }
  | .rising => { s with rising := s.rising + 1, risingWeight := Js.exact.add s.risingWeight w }

section

variable (s : BreadthSums Value) (h : Value) (status : Status)

/-- A holding is counted under its status. -/
theorem count_addHolding :
    count (addHolding s h) status = count s status + if statusOf h = status then 1 else 0 := by
  unfold addHolding
  cases statusOf h <;> cases status <;> rfl

/-- The weight of a holding is added to that of its status. -/
theorem weightOf_addHolding :
    weightOf (addHolding s h) status =
      if statusOf h = status then Js.exact.add (weightOf s status) (.number (some (weight h)))
      else weightOf s status := by
  unfold addHolding
  cases statusOf h <;> cases status <;> rfl

/-- The weight of a holding is added to the total. -/
theorem totalWeight_addHolding :
    (addHolding s h).totalWeight = Js.exact.add s.totalWeight (.number (some (weight h))) := by
  unfold addHolding
  cases statusOf h <;> rfl

/-- The weighted score of a holding is added. -/
theorem weightedScore_addHolding :
    (addHolding s h).weightedScore = Js.exact.add s.weightedScore
      (.number (some (score h * weight h))) := by
  unfold addHolding
  cases statusOf h <;> rfl

end

/-- One turn of the loop, which goes on to the change of today. -/
theorem breadthTurn_eq (s : BreadthSums Value) (hread : Read h) :
    ∃ change valid, breadthTurn Js.exact s h =
      { addHolding s h with todayChange := change, todayValid := valid } := by
  have hw : Js.exact.or (Js.exact.get h "holding_value_market") (.number (some 0)) =
    .number (some (weight h)) := hread.weight_eq
  have hs : Js.exact.or (Js.exact.get h "trend_score") (.number (some 0)) =
    .number (some (score h)) := hread.score_eq
  simp only [breadthTurn, hw, hs, Js.exact_literal, Js.exact_mul, Js.exact_gt, decide_eq_true_eq]
  generalize hadded : (if 1 / 10 < score h then _ else _) = added
  have heq : added = addHolding s h := by
    rw [← hadded, addHolding, statusOf]
    split_ifs <;> rfl
  rw [heq]
  split_ifs
  · exact ⟨_, _, rfl⟩
  · exact ⟨_, _, rfl⟩

/-- The change of today is not among the sums. -/
theorem Sums.today (hsums : Sums l s) (change : Value) (valid : Bool) :
    Sums l { s with todayChange := change, todayValid := valid } where
  count_eq status := by
    rw [← hsums.count_eq]
    cases status <;> rfl
  weight_eq status := by
    rw [← hsums.weight_eq]
    cases status <;> rfl
  total_eq := hsums.total_eq
  score_eq := hsums.score_eq

/-- The turn of the loop for a holding keeps the sums. -/
theorem Sums.add (hsums : Sums l s) (h : Value) :
    Sums (l ++ [h]) (addHolding s h) where
  count_eq status := by
    rw [count_addHolding, hsums.count_eq, List.countP_append, List.countP_singleton]
    simp only [decide_eq_true_eq]
  weight_eq status := by
    rw [weightOf_addHolding, hsums.weight_eq, totalOf, totalOf, List.filter_append, List.map_append,
      List.sum_append]
    by_cases hstatus : statusOf h = status
    · have hone : [h].filter (statusOf · = status) = [h] :=
        List.filter_eq_self.2 (by simpa using hstatus)
      rw [if_pos hstatus, hone, Js.exact_add, List.map_singleton, List.sum_singleton]
    · have hnone : [h].filter (statusOf · = status) = [] :=
        List.filter_eq_nil_iff.2 (by simpa using hstatus)
      rw [if_neg hstatus, hnone, List.map_nil, List.sum_nil, add_zero]
  total_eq := by
    rw [totalWeight_addHolding, hsums.total_eq, Js.exact_add, total, total, List.map_append,
      List.sum_append, List.map_singleton, List.sum_singleton]
  score_eq := by
    rw [weightedScore_addHolding, hsums.score_eq, Js.exact_add, List.map_append, List.sum_append,
      List.map_singleton, List.sum_singleton]

/-- What the loop has in the end. -/
theorem sums_foldl (hl : ∀ h ∈ l, Read h) (hs : Sums [] s) :
    Sums l (l.foldl (breadthTurn Js.exact) s) := by
  induction l using List.reverseRecOn with
  | nil => exact hs
  | append_singleton l h ih =>
    obtain ⟨hl, hh⟩ := List.forall_mem_append.1 hl
    obtain ⟨change, valid, heq⟩ :=
      breadthTurn_eq (l.foldl (breadthTurn Js.exact) s) (hh h (.head _))
    rw [List.foldl_append, List.foldl_cons, List.foldl_nil, heq]
    exact ((ih hl).add h).today change valid

/-- The loop over the active holdings. -/
def loop (holdings : List Value) : BreadthSums Value :=
  let zero := Js.exact.literal 0
  (active holdings).foldl (breadthTurn Js.exact)
    { risingWeight := zero, flatWeight := zero, fallingWeight := zero, totalWeight := zero,
      weightedScore := zero, todayChange := zero }

/-- The loop computes the sums. -/
theorem sums_loop (hholdings : ∀ h ∈ holdings, IsHolding h) :
    Sums (active holdings) (loop holdings) := by
  apply sums_foldl
  · exact fun h hmem => read_of_mem_active hholdings hmem
  · exact ⟨fun status => by cases status <;> rfl, fun status => by cases status <;> rfl, rfl, rfl⟩

/-! ### The numbers -/

/-- The property that holds a count. -/
def countField : Status → Str
  | .falling => "falling_count"
  | .flat => "flat_count"
  | .rising => "rising_count"

/-- The property that holds a percentage. -/
def weightField : Status → Str
  | .falling => "falling_weight_pct"
  | .flat => "flat_weight_pct"
  | .rising => "rising_weight_pct"

/-- The total of positive weights is positive. -/
theorem sum_weight_pos (hne : l ≠ []) (hpos : ∀ h ∈ l, 0 < weight h) : 0 < total l := by
  apply List.sum_pos
  · simpa using hpos
  · simpa using hne

/-- Without active holdings there is no summary. -/
theorem computeBreadth_eq_null (hnil : active holdings = []) :
    computeBreadth Js.exact holdings = .null := by
  have hlength : (active holdings).length = 0 := by rw [hnil, List.length_nil]
  exact if_pos hlength

section

variable {holdings : List Value} (hholdings : ∀ h ∈ holdings, IsHolding h)
  (hne : active holdings ≠ [])

include hne

/-- The result of the loop as an object. -/
theorem exists_computeBreadth_eq : ∃ label change, computeBreadth Js.exact holdings =
    let pct (weight : Value) : Value :=
      if Js.exact.gt (loop holdings).totalWeight (.number (some 0)) then
        Js.exact.mul (Js.exact.div weight (loop holdings).totalWeight) (.number (some 100))
      else .number (some 0)
    .object [("rising_count", .number (some ((loop holdings).rising : ℕ))),
       ("flat_count", .number (some ((loop holdings).flat : ℕ))),
       ("falling_count", .number (some ((loop holdings).falling : ℕ))),
       ("rising_weight_pct", pct (loop holdings).risingWeight),
       ("flat_weight_pct", pct (loop holdings).flatWeight),
       ("falling_weight_pct", pct (loop holdings).fallingWeight),
       ("trend_label", label),
       ("trend_score", if Js.exact.gt (loop holdings).totalWeight (.number (some 0)) then
           Js.exact.div (loop holdings).weightedScore (loop holdings).totalWeight
         else .number (some 0)),
       ("today_change", change)] :=
  ⟨_, _, if_neg fun h => hne (List.length_eq_zero_iff.1 h)⟩

/-- With active holdings there is a summary. -/
theorem computeBreadth_ne_null : computeBreadth Js.exact holdings ≠ .null := by
  obtain ⟨label, change, heq⟩ := exists_computeBreadth_eq hne
  rw [heq]
  exact fun h => Value.noConfusion h

/-- The counts of the summary. -/
theorem get_count (status : Status) :
    (computeBreadth Js.exact holdings).get (countField status) =
      .number (some (count (loop holdings) status : ℕ)) := by
  obtain ⟨label, change, heq⟩ := exists_computeBreadth_eq hne
  rw [heq]
  cases status <;> rfl

include hholdings

/-- The active holdings have a positive total. -/
theorem total_pos : 0 < total (active holdings) :=
  sum_weight_pos hne fun _ hmem => (read_of_mem_active hholdings hmem).pos

/-- So the script divides by it. -/
theorem gt_totalWeight : Js.exact.gt (loop holdings).totalWeight (.number (some 0)) = true := by
  rw [(sums_loop hholdings).total_eq, Js.exact_gt]
  exact decide_eq_true (total_pos hholdings hne)

/-- The weights of the summary, in percent. -/
theorem get_weight (status : Status) :
    (computeBreadth Js.exact holdings).get (weightField status) =
      .number (some (totalOf (active holdings) status / total (active holdings) * 100)) := by
  obtain ⟨label, change, heq⟩ := exists_computeBreadth_eq hne
  have hget : (computeBreadth Js.exact holdings).get (weightField status) =
      Js.exact.mul (Js.exact.div (weightOf (loop holdings) status) (loop holdings).totalWeight)
        (.number (some 100)) := by
    rw [heq]
    simp only [if_pos (gt_totalWeight hholdings hne)]
    cases status <;> rfl
  have hsums := sums_loop hholdings
  rw [hget, hsums.weight_eq, hsums.total_eq, Js.exact_div _ (total_pos hholdings hne).ne',
    Js.exact_mul]

/-- The trend score is the weighted mean. -/
theorem get_trend_score :
    (computeBreadth Js.exact holdings).get "trend_score" =
      .number (some (((active holdings).map fun h => score h * weight h).sum / total
        (active holdings))) := by
  obtain ⟨label, change, heq⟩ := exists_computeBreadth_eq hne
  have hget : (computeBreadth Js.exact holdings).get "trend_score" =
      Js.exact.div (loop holdings).weightedScore (loop holdings).totalWeight := by
    rw [heq]
    simp only [if_pos (gt_totalWeight hholdings hne)]
    rfl
  have hsums := sums_loop hholdings
  rw [hget, hsums.score_eq, hsums.total_eq, Js.exact_div _ (total_pos hholdings hne).ne']

end

/-! ### The bar -/

/-- An order of the texts, such as that of the locale. -/
structure Collation where
  compare : Str → Str → ℤ
  trans {a b c : Str} (hab : compare a b ≤ 0) (hbc : compare b c ≤ 0) : compare a c ≤ 0
  total (a b : Str) : compare a b ≤ 0 ∨ compare b a ≤ 0

/-- The order of the bytes. -/
def byteCollation : Collation where
  compare s t := if s ≤ t then 0 else 1
  trans {a b c} hab hbc := by
    have hle {s t : Str} (h : (if s ≤ t then 0 else 1 : ℤ) ≤ 0) : s ≤ t := by
      by_contra hlt
      rw [if_neg hlt] at h
      exact absurd h (by decide)
    exact (if_pos (List.le_trans (hle hab) (hle hbc))).le
  total a b := by
    obtain h | h := List.le_total a b
    · exact .inl (if_pos h).le
    · exact .inr (if_pos h).le

/-- The characters of a text. -/
def text : Value → Str
  | .string s => s
  | _ => []

namespace Collation

variable (c : Collation)

/-- `localeCompare` of two tickers, which are texts. -/
def localeCompare (x y : Value) : ℤ := c.compare (text x) (text y)

/-- A segment may stand before another: falling before flat before rising, and by ticker within a
status. -/
def Before (a b : Segment Value) : Prop :=
  a.status.order < b.status.order ∨ a.status = b.status ∧ c.localeCompare a.ticker b.ticker ≤ 0

/-- The comparison is that of the order of segments. -/
theorem compareSegments_le_zero (a b : Segment Value) :
    compareSegments c.localeCompare a b ≤ 0 ↔ c.Before a b := by
  unfold compareSegments Before
  cases a.status <;> cases b.status <;> simp [Status.order]

/-- The order of segments is transitive. -/
theorem Before.trans {a b d : Segment Value} (hab : c.Before a b) (hbd : c.Before b d) :
    c.Before a d := by
  obtain hab | ⟨hab, hle⟩ := hab
  · obtain hbd | ⟨hbd, -⟩ := hbd
    · exact .inl (hab.trans hbd)
    · exact .inl (hbd ▸ hab)
  · obtain hbd | ⟨hbd, hle'⟩ := hbd
    · exact .inl (hab ▸ hbd)
    · exact .inr ⟨hab.trans hbd, c.trans hle hle'⟩

/-- The order of segments is total. -/
theorem before_total (a b : Segment Value) : c.Before a b ∨ c.Before b a := by
  by_cases hstatus : a.status = b.status
  · obtain hle | hle := c.total (text a.ticker) (text b.ticker)
    · exact .inl (.inr ⟨hstatus, hle⟩)
    · exact .inr (.inr ⟨hstatus.symm, hle⟩)
  · have horder : a.status.order ≠ b.status.order := by
      revert hstatus
      cases a.status <;> cases b.status <;> decide
    obtain hlt | hlt := lt_or_gt_of_ne horder
    · exact .inl (.inl hlt)
    · exact .inr (.inl hlt)

/-- The comparison sorts. -/
theorem pairwise_before (l : List (Segment Value)) :
    (l.mergeSort fun a b => compareSegments c.localeCompare a b ≤ 0).Pairwise c.Before := by
  have hsorted : (l.mergeSort fun a b => compareSegments c.localeCompare a b ≤ 0).Pairwise
      fun a b => decide (compareSegments c.localeCompare a b ≤ 0) = true := by
    apply List.pairwise_mergeSort
    · intro a b d hab hbd
      rw [decide_eq_true_eq, compareSegments_le_zero] at *
      exact hab.trans c hbd
    · intro a b
      rw [Bool.or_eq_true, decide_eq_true_eq, decide_eq_true_eq, compareSegments_le_zero,
        compareSegments_le_zero]
      exact c.before_total a b
  exact hsorted.imp fun h => (c.compareSegments_le_zero _ _).1 (of_decide_eq_true h)

end Collation

/-- The segment of an active holding. -/
def segment (l : List Value) (h : Value) : Segment Value where
  ticker := h.get "ticker"
  status := statusOf h
  weight_pct := .number (some (weight h / total l * 100))

/-- Without active holdings there are no segments. -/
theorem breadthSegments_eq_nil {localeCompare : Value → Value → ℤ} (hnil : active holdings = []) :
    breadthSegments Js.exact localeCompare holdings = [] := by
  have hlength : (active holdings).length = 0 := by rw [hnil, List.length_nil]
  exact if_pos hlength

/-- The sum that the bar divides by. -/
theorem foldl_weight (hl : ∀ h ∈ l, Read h) :
    l.foldl (fun sum h => Js.exact.add sum (Js.exact.or (Js.exact.get h "holding_value_market")
      (Js.exact.literal 0))) (Js.exact.literal 0) = .number (some (total l)) := by
  induction l using List.reverseRecOn with
  | nil => rfl
  | append_singleton l h ih =>
    obtain ⟨hl, hh⟩ := List.forall_mem_append.1 hl
    have hw : Js.exact.or (Js.exact.get h "holding_value_market") (Js.exact.literal 0) =
      .number (some (weight h)) := (hh h (.head _)).weight_eq
    rw [List.foldl_append, ih hl, List.foldl_cons, List.foldl_nil, hw, Js.exact_add, total, total,
      List.map_append, List.sum_append, List.map_singleton, List.sum_singleton]

section

variable {holdings : List Value} (hholdings : ∀ h ∈ holdings, IsHolding h)
  (hne : active holdings ≠ [])

include hholdings hne

/-- The segment of a holding. -/
theorem segmentOf_eq {h : Value} (hmem : h ∈ active holdings) :
    segmentOf Js.exact (.number (some (total (active holdings)))) h =
      segment (active holdings) h := by
  have hread := read_of_mem_active hholdings hmem
  have hmarket : Js.exact.get h "holding_value_market" = .number (some (weight h)) :=
    hread.market_eq
  simp only [segmentOf, segment, Segment.mk.injEq]
  refine ⟨rfl, hread.status_eq, ?_⟩
  rw [hmarket, Js.exact_div _ (total_pos hholdings hne).ne', Js.exact_literal, Js.exact_mul]

/-- The segments are those of the active holdings, sorted. -/
theorem breadthSegments_eq (localeCompare : Value → Value → ℤ) :
    breadthSegments Js.exact localeCompare holdings =
      ((active holdings).map (segment (active holdings))).mergeSort
        fun a b => compareSegments localeCompare a b ≤ 0 := by
  have hlength : ¬ (active holdings).length = 0 := fun h => hne (List.length_eq_zero_iff.1 h)
  have hfoldl := foldl_weight fun h hmem => read_of_mem_active hholdings hmem
  have hsame : ¬ Js.exact.same (.number (some (total (active holdings))))
      (Js.exact.literal 0) = true :=
    fun h => (total_pos hholdings hne).ne' (of_decide_eq_true h)
  have hmap := List.map_congr_left fun h hmem => segmentOf_eq hholdings hne (h := h) hmem
  have hrest {t : Value} (ht : t = .number (some (total (active holdings)))) :
      (if Js.exact.same t (Js.exact.literal 0) = true then []
        else ((active holdings).map (segmentOf Js.exact t)).mergeSort
          fun a b => compareSegments localeCompare a b ≤ 0) =
      ((active holdings).map (segment (active holdings))).mergeSort
        fun a b => compareSegments localeCompare a b ≤ 0 := by
    rw [ht, if_neg hsame, hmap]
  exact (if_neg hlength).trans (hrest hfoldl)

end

/-! ### Agreement -/

/-- The percentage of a segment. -/
def pct (s : Segment Value) : ℚ := s.weight_pct.toNumber.getD 0

/-- The numbers and the bar of the active holdings `l`. -/
structure Agree (c : Collation) (l : List Value) (breadth : Value)
    (segments : List (Segment Value)) : Prop where
  /-- A count is the number of segments of its status. -/
  count_eq (status : Status) :
    breadth.get (countField status) = .number (some (segments.countP (·.status = status) : ℕ))
  /-- A percentage is the sum of those of the segments of its status. -/
  weight_eq (status : Status) :
    breadth.get (weightField status) =
      .number (some ((segments.filter (·.status = status)).map pct).sum)
  /-- The percentages add up. -/
  hundred : ∃ falling flat rising : ℚ,
    breadth.get (weightField .falling) = .number (some falling) ∧
    breadth.get (weightField .flat) = .number (some flat) ∧
    breadth.get (weightField .rising) = .number (some rising) ∧ falling + flat + rising = 100
  /-- There is a segment for each holding. -/
  perm : segments.Perm (l.map (segment l))
  sorted : segments.Pairwise c.Before
  /-- The score is not below all scores and not above all scores. -/
  score_between : ∃ avg, breadth.get "trend_score" = .number (some avg) ∧
    (∃ h ∈ l, score h ≤ avg) ∧ ∃ h ∈ l, avg ≤ score h

/-- The percentages of the segments of a status. -/
theorem sum_pct (l active : List Value) (status : Status) :
    (((l.map (segment active)).filter (·.status = status)).map pct).sum = totalOf l status / total
      active * 100 := by
  rw [List.filter_map, List.map_map, totalOf]
  calc ((l.filter (statusOf · = status)).map fun h => weight h / total active * 100).sum
      = ((l.filter (statusOf · = status)).map fun h => weight h / total active).sum * 100 :=
        List.sum_map_mul_right _ _ _
    _ = ((l.filter (statusOf · = status)).map weight).sum / total active * 100 := by
      simp only [div_eq_mul_inv, List.sum_map_mul_right]

/-- The total of a status, holding by holding. -/
theorem totalOf_cons (h : Value) (l : List Value) (status : Status) :
    totalOf (h :: l) status = (if statusOf h = status then weight h else 0) + totalOf l status := by
  rw [totalOf, List.filter_cons]
  split_ifs <;> simp_all [totalOf]

/-- Every holding has one of the three statuses. -/
theorem sum_totalOf (l : List Value) :
    totalOf l .falling + totalOf l .flat + totalOf l .rising = total l := by
  induction l with
  | nil => simp [totalOf, total]
  | cons h l ih =>
    rw [totalOf_cons, totalOf_cons, totalOf_cons, total, List.map_cons, List.sum_cons, ← total,
      ← ih]
    cases statusOf h <;> simp <;> ring

/-- A mean with positive weights lies between two of its values. -/
theorem exists_le_mean (hne : l ≠ []) (hpos : ∀ h ∈ l, 0 < weight h) :
    (∃ h ∈ l, score h ≤ (l.map fun h => score h * weight h).sum / total l) ∧
      ∃ h ∈ l, (l.map fun h => score h * weight h).sum / total l ≤ score h := by
  have htotal := sum_weight_pos hne hpos
  generalize havg : (l.map fun h => score h * weight h).sum / total l = avg
  have hsum : (l.map fun h => score h * weight h).sum = (l.map fun h => avg * weight h).sum := by
    rw [List.sum_map_mul_left]
    exact (div_eq_iff htotal.ne').1 havg
  constructor
  · obtain ⟨h, hmem, hle⟩ := List.exists_le_of_sum_le hne _ _ hsum.le
    exact ⟨h, hmem, le_of_mul_le_mul_right hle (hpos h hmem)⟩
  · obtain ⟨h, hmem, hle⟩ := List.exists_le_of_sum_le hne _ _ hsum.ge
    exact ⟨h, hmem, le_of_mul_le_mul_right hle (hpos h hmem)⟩

/-- The loop and the sorted list tell the same of the active holdings. -/
theorem agree (hholdings : ∀ h ∈ holdings, IsHolding h) (hne : active holdings ≠ [])
    (c : Collation) :
    Agree c (active holdings) (computeBreadth Js.exact holdings)
      (breadthSegments Js.exact c.localeCompare holdings) := by
  have hperm := List.mergeSort_perm ((active holdings).map (segment (active holdings)))
    fun a b => decide (compareSegments c.localeCompare a b ≤ 0)
  have hsums := sums_loop hholdings
  rw [breadthSegments_eq hholdings hne]
  exact {
    count_eq := by
      intro status
      rw [get_count hne, hsums.count_eq, hperm.countP_eq, List.countP_map]
      rfl
    weight_eq := by
      intro status
      rw [get_weight hholdings hne, ((hperm.filter _).map pct).sum_eq, sum_pct]
    hundred := by
      refine ⟨_, _, _, get_weight hholdings hne _, get_weight hholdings hne _,
        get_weight hholdings hne _, ?_⟩
      rw [← add_mul, ← add_mul, ← add_div, ← add_div, sum_totalOf,
        div_self (total_pos hholdings hne).ne', one_mul]
    perm := hperm
    sorted := c.pairwise_before _
    score_between := by
      have hpos := fun h hmem => (read_of_mem_active hholdings (h := h) hmem).pos
      exact ⟨_, get_trend_score hholdings hne, exists_le_mean hne hpos⟩ }

/-- There are numbers if and only if there are segments, and then they agree. -/
theorem breadth_agrees (hholdings : ∀ h ∈ holdings, IsHolding h) (c : Collation) :
    (computeBreadth Js.exact holdings = .null ↔ breadthSegments Js.exact c.localeCompare
      holdings = []) ∧
      (computeBreadth Js.exact holdings ≠ .null →
        Agree c (active holdings) (computeBreadth Js.exact holdings)
          (breadthSegments Js.exact c.localeCompare holdings)) := by
  by_cases hnil : active holdings = []
  · have hnull := computeBreadth_eq_null hnil
    exact ⟨iff_of_true hnull (breadthSegments_eq_nil hnil), fun h => absurd hnull h⟩
  · have hagree := agree hholdings hnil c
    have hnull := computeBreadth_ne_null hnil
    have hsegments : breadthSegments Js.exact c.localeCompare holdings ≠ [] := by
      intro h
      rw [h] at hagree
      exact hnil (List.map_eq_nil_iff.1 hagree.perm.nil_eq.symm)
    exact ⟨iff_of_false hnull hsegments, fun _ => hagree⟩

/-- Two rising holdings, one that falls and one without a market value. -/
theorem breadth_agrees_four :
    let holding (ticker : String) (market score : Value) : Value :=
      .object [("ticker", .string (ascii ticker)), ("holding_value_market", market),
        ("trend_score", score)]
    let holdings := [holding "CBA" (.number (some 300)) (.number (some (1 / 2))),
      holding "BHP" (.number (some 100)) (.number (some (1 / 5))),
      holding "RIO" (.number (some 100)) (.number (some (-1 / 2))), holding "XRO" .null .null]
    (∀ h ∈ holdings, IsHolding h) ∧ computeBreadth Js.exact holdings ≠ .null ∧
      Agree byteCollation (active holdings) (computeBreadth Js.exact holdings)
        (breadthSegments Js.exact byteCollation.localeCompare holdings) := by
  intro holding holdings
  have hholding (ticker : String) {market score : Value} (hmarket : IsAmount market)
      (hscore : IsAmount score) :
      IsHolding (holding ticker market score) := ⟨⟨_, rfl⟩, hmarket, hscore⟩
  have hnumber (q : ℚ) : IsAmount (.number (some q)) := .inr (.inr ⟨q, rfl⟩)
  have hnull : IsAmount .null := .inr (.inl rfl)
  have hholdings : ∀ h ∈ holdings, IsHolding h := by
    simp only [holdings, List.forall_mem_cons]
    exact ⟨hholding _ (hnumber _) (hnumber _), hholding _ (hnumber _) (hnumber _),
      hholding _ (hnumber _) (hnumber _), hholding _ hnull hnull, by simp⟩
  have hagrees := breadth_agrees hholdings byteCollation
  have hne : computeBreadth Js.exact holdings ≠ .null :=
    computeBreadth_ne_null (List.ne_nil_of_mem (List.mem_filter.2 ⟨.head _, rfl⟩))
  exact ⟨hholdings, hne, hagrees.2 hne⟩

end VirePortal.Pages.Breadth
