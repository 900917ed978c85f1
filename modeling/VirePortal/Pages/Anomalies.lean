import VirePortal.Collections.Repair
import VirePortal.Pages.Script

/-!
# The growth data

`filterAnomalies` goes through the points of a timeline and gives a point whose value jumps by more
than half of the value before it that value instead. The value before is that of the result, so the
function is a pass that repairs the list from the front (`filterAnomalies_eq`), and its properties
are those of one repair (`settled`).
-/

namespace VirePortal.Pages

open Go Collections

/-- What one turn of the loop makes of a point after `prev`. -/
def settled {V : Type} (js : Js V) (prev p : V) : V :=
  let value := js.get prev "portfolio_value"
  if js.gt value (js.literal 0) &&
      js.gt (js.div (js.abs (js.sub (js.get p "portfolio_value") value)) value)
        (js.literal (1 / 2)) then
    js.set p "portfolio_value" value
  else p

/-- The loop is a pass over the list. -/
theorem filterAnomalies_eq {V : Type} (js : Js V) {points : V} (h : js.truthy points = true) :
    filterAnomalies js points = repair (settled js) ((js.indexed points).map js.copy) := by
  have hturn : anomalyTurn js = fun out point =>
      out ++ [out.getLast?.elim (js.copy point) (settled js · (js.copy point))] := by
    funext out point
    unfold anomalyTurn
    cases out.getLast? with
    | none => rfl
    | some prev =>
      simp only [settled, Option.elim_some]
      split_ifs
      · rfl
      · rfl
  rw [filterAnomalies, if_pos h, hturn, ← foldl_eq_repair, List.foldl_map]

/-! ### Numeric points -/

/-- A point with a numeric `portfolio_value`. -/
def NumericPoint (point : Value) : Prop :=
  ∃ fields q, point = .object fields ∧ point.get "portfolio_value" = .number (some q)

/-- The value of a point. -/
def pointValue (point : Value) : ℚ := (point.get "portfolio_value").toNumber.getD 0

/-- A value is more than half of the one before away from it. -/
def Jumps (prev q : ℚ) : Prop := 0 < prev ∧ 1 / 2 < |q - prev| / prev

instance (prev q : ℚ) : Decidable (Jumps prev q) := inferInstanceAs (Decidable (_ ∧ _))

/-- The other fields stay. -/
theorem lookup_filter_ne {β : Type*} {fields : List (Str × β)} {key other : Str} (h : key ≠ other) :
    (fields.filter (·.1 ≠ other)).lookup key = fields.lookup key := by
  induction fields with
  | nil => rfl
  | cons entry fields ih =>
    by_cases hentry : entry.1 = other
    · have hkey : (key == entry.1) = false := beq_false_of_ne (hentry ▸ h)
      rw [List.filter_cons_of_neg (by simpa using hentry), ih, List.lookup_cons, hkey]
    · rw [List.filter_cons_of_pos (by simpa using hentry), List.lookup_cons, List.lookup_cons, ih]

namespace NumericPoint

variable {prev point : Value}

variable (h : NumericPoint point)
include h

/-- A numeric point has its value in the field. -/
theorem get_eq :
    point.get "portfolio_value" = .number (some (pointValue point)) := by
  obtain ⟨fields, q, -, hget⟩ := h
  rw [pointValue, hget]
  rfl

/-- `Object.assign` copies a point. -/
theorem copy_eq : Js.exact.copy point = point := by
  obtain ⟨fields, q, rfl, -⟩ := h
  rfl

/-- Setting the value of a point. -/
theorem get_set (v : Value) (key : Str) :
    (Js.exact.set point "portfolio_value" v).get key =
      if key = "portfolio_value" then v else point.get key := by
  obtain ⟨fields, q, rfl, -⟩ := h
  have hset : Js.exact.set (.object fields) "portfolio_value" v =
      .object (("portfolio_value", v) :: fields.filter (·.1 ≠ "portfolio_value")) := rfl
  rw [hset, Value.get, Value.get, List.lookup_cons]
  by_cases hkey : key = "portfolio_value"
  · rw [if_pos hkey, beq_iff_eq.2 hkey]
    rfl
  · rw [if_neg hkey, beq_false_of_ne hkey, lookup_filter_ne hkey]

/-- A point stays numeric when its value is set. -/
theorem set (q : ℚ) :
    NumericPoint (Js.exact.set point "portfolio_value" (.number (some q))) := by
  have hget := h.get_set (.number (some q)) "portfolio_value"
  obtain ⟨fields, -, rfl, -⟩ := h
  exact ⟨_, q, rfl, hget.trans (if_pos rfl)⟩

/-- The value that is set is the value. -/
theorem pointValue_set (q : ℚ) :
    pointValue (Js.exact.set point "portfolio_value" (.number (some q))) = q := by
  rw [pointValue, h.get_set, if_pos rfl]
  rfl

end NumericPoint

section Settled

variable {prev point : Value} (hprev : NumericPoint prev) (hpoint : NumericPoint point)

include hprev hpoint

/-- One repair of numeric points. -/
theorem settled_eq :
    settled Js.exact prev point =
      if Jumps (pointValue prev) (pointValue point) then
        Js.exact.set point "portfolio_value" (.number (some (pointValue prev)))
      else point := by
  have hp : Js.exact.get prev "portfolio_value" = .number (some (pointValue prev)) := hprev.get_eq
  have hq : Js.exact.get point "portfolio_value" = .number (some (pointValue point)) :=
    hpoint.get_eq
  simp only [settled, hp, hq, Js.exact_sub, Js.exact_abs, Js.exact_literal, Js.exact_gt]
  have hcond : (decide (0 < pointValue prev) && Js.exact.gt
      (Js.exact.div (.number (some |pointValue point - pointValue prev|))
        (.number (some (pointValue prev))))
      (.number (some (1 / 2)))) = decide (Jumps (pointValue prev) (pointValue point)) := by
    by_cases hpos : 0 < pointValue prev
    · rw [Js.exact_div _ hpos.ne', Js.exact_gt]
      exact (Bool.decide_and _ _).symm
    · rw [decide_eq_false hpos, Bool.false_and]
      exact (decide_eq_false fun hjump => hpos hjump.1).symm
  rw [hcond]
  exact if_congr decide_eq_true_iff rfl rfl

/-- The filter keeps points numeric. -/
theorem settled_numeric :
    NumericPoint (settled Js.exact prev point) := by
  rw [settled_eq hprev hpoint]
  split_ifs
  · exact hpoint.set _
  · exact hpoint

/-- The value is that of the point or that of its predecessor. -/
theorem pointValue_settled :
    pointValue (settled Js.exact prev point) =
      if Jumps (pointValue prev) (pointValue point) then pointValue prev else pointValue point := by
  rw [settled_eq hprev hpoint, apply_ite pointValue, hpoint.pointValue_set]

/-- No other field is touched. -/
theorem get_settled {key : Str} (hkey : key ≠ "portfolio_value") :
    (settled Js.exact prev point).get key = point.get key := by
  rw [settled_eq hprev hpoint]
  split_ifs
  · rw [hpoint.get_set, if_neg hkey]
  · rfl

/-- A repaired point does not jump. -/
theorem settled_not_jumps :
    ¬ Jumps (pointValue prev) (pointValue (settled Js.exact prev point)) := by
  rw [pointValue_settled hprev hpoint]
  split_ifs with hjump
  · rintro ⟨-, h⟩
    norm_num at h
  · exact hjump

/-- A second look at a point changes nothing. -/
theorem settled_settled :
    settled Js.exact prev (settled Js.exact prev point) = settled Js.exact prev point := by
  rw [settled_eq hprev (settled_numeric hprev hpoint), if_neg (settled_not_jumps hprev hpoint)]

end Settled

/-- A value that does not jump stays within half of the one before. -/
theorem abs_sub_le_of_not_jumps {prev q : ℚ} (h : ¬ Jumps prev q) (hprev : 0 < prev) :
    |q - prev| ≤ prev / 2 := by
  have hle : |q - prev| / prev ≤ 1 / 2 := not_lt.1 fun hlt => h ⟨hprev, hlt⟩
  calc |q - prev| ≤ 1 / 2 * prev := (div_le_iff₀ hprev).1 hle
    _ = prev / 2 := by ring

/-- After a positive value comes a positive one, unless it jumps. -/
theorem pos_of_not_jumps {prev q : ℚ} (h : ¬ Jumps prev q) (hprev : 0 < prev) : 0 < q := by
  have hlow := (abs_le.1 (abs_sub_le_of_not_jumps h hprev)).1
  linarith

/-! ### The pass -/

section Pass

variable {points : List Value} (hpoints : ∀ p ∈ points, NumericPoint p)

include hpoints

/-- The filter of numeric points. -/
theorem filterAnomalies_exact :
    filterAnomalies Js.exact (.array points) = repair (settled Js.exact) points := by
  have hcopy : points.map Js.exact.copy = points := by
    calc points.map Js.exact.copy = points.map id :=
        List.map_congr_left fun p hp => (hpoints p hp).copy_eq
      _ = points := List.map_id points
  calc filterAnomalies Js.exact (.array points)
      = repair (settled Js.exact) (points.map Js.exact.copy) :=
        filterAnomalies_eq Js.exact rfl
    _ = repair (settled Js.exact) points := by rw [hcopy]

/-- The filtered points are numeric. -/
theorem numeric_repair : ∀ p ∈ repair (settled Js.exact) points, NumericPoint p :=
  forall_mem_repair (fun _ _ => settled_numeric) hpoints

/-- A point of the result after the first is a repaired point of the data. -/
theorem exists_of_repair_succ {i : ℕ} {o : Value}
    (ho : (repair (settled Js.exact) points)[i + 1]? = some o) :
    ∃ prev p, (repair (settled Js.exact) points)[i]? = some prev ∧ points[i + 1]? = some p ∧
      NumericPoint prev ∧ NumericPoint p ∧ settled Js.exact prev p = o := by
  obtain ⟨prev, p, hprev, hp, heq⟩ := exists_of_getElem?_repair_succ ho
  exact ⟨prev, p, hprev, hp, numeric_repair hpoints prev (List.mem_of_getElem? hprev),
    hpoints p (List.mem_of_getElem? hp), heq⟩

/-- The filter changes the values only. -/
theorem get_repair {i : ℕ} {p o : Value} (hp : points[i]? = some p)
    (ho : (repair (settled Js.exact) points)[i]? = some o) {key : Str}
    (hkey : key ≠ "portfolio_value") :
    o.get key = p.get key := by
  cases i with
  | zero =>
    have hhead : some o = some p := by
      rw [← ho, ← hp, ← List.head?_eq_getElem?, ← List.head?_eq_getElem?, head?_repair]
    rw [Option.some.inj hhead]
  | succ i =>
    obtain ⟨prev, p', -, hp', hprev, hpoint, rfl⟩ := exists_of_repair_succ hpoints ho
    cases Option.some.inj (hp.symm.trans hp')
    exact get_settled hprev hpoint hkey

/-- The value of a repaired point. -/
theorem pointValue_repair {i : ℕ} {prev o p : Value}
    (hprev : (repair (settled Js.exact) points)[i]? = some prev)
    (ho : (repair (settled Js.exact) points)[i + 1]? = some o) (hp : points[i + 1]? = some p) :
    pointValue o = if Jumps (pointValue prev) (pointValue p) then pointValue prev
      else pointValue p := by
  obtain ⟨prev', p', hprev', hp', hnum, hpoint, rfl⟩ := exists_of_repair_succ hpoints ho
  cases Option.some.inj (hprev.symm.trans hprev')
  cases Option.some.inj (hp.symm.trans hp')
  exact pointValue_settled hnum hpoint

/-- No filtered value jumps. -/
theorem not_jumps_repair {i : ℕ} {prev o : Value}
    (hprev : (repair (settled Js.exact) points)[i]? = some prev)
    (ho : (repair (settled Js.exact) points)[i + 1]? = some o) :
    ¬ Jumps (pointValue prev) (pointValue o) := by
  obtain ⟨prev', p, hprev', -, hnum, hpoint, rfl⟩ := exists_of_repair_succ hpoints ho
  cases Option.some.inj (hprev.symm.trans hprev')
  exact settled_not_jumps hnum hpoint

/-- A repaired point does not jump, so a positive predecessor makes it positive. -/
theorem pos_repair {i j : ℕ} {early late : Value}
    (hearly : (repair (settled Js.exact) points)[i]? = some early)
    (hlate : (repair (settled Js.exact) points)[j]? = some late) (hij : i ≤ j)
    (hpos : 0 < pointValue early) :
    0 < pointValue late := by
  have hpass (prev p : Value) (hprev : NumericPoint prev) (hp : NumericPoint p)
      (hpos : 0 < pointValue prev) :
      0 < pointValue (settled Js.exact prev p) := pos_of_not_jumps (settled_not_jumps hprev hp) hpos
  exact repair_of_le (Q := fun p => 0 < pointValue p) (fun _ _ => settled_numeric) hpoints hpass hij
    hearly hlate hpos

end Pass

/-- What `out` is to the points that it was made of. -/
structure Filtered (points out : List Value) : Prop where
  length_eq : out.length = points.length
  numeric : ∀ p ∈ out, NumericPoint p
  /-- Only the values change. -/
  get_eq {i : ℕ} {p o : Value} (hp : points[i]? = some p) (ho : out[i]? = some o) {key : Str}
    (hkey : key ≠ "portfolio_value") : o.get key = p.get key
  head?_eq : out.head? = points.head?
  /-- A value is that of the same point, or that of the point before in the result if it jumps. -/
  value_eq {i : ℕ} {prev o p : Value} (hprev : out[i]? = some prev) (ho : out[i + 1]? = some o)
    (hp : points[i + 1]? = some p) :
    pointValue o = if Jumps (pointValue prev) (pointValue p) then pointValue prev else pointValue p
  /-- A positive value is followed by one that is at most half of it away. -/
  abs_sub_le {i : ℕ} {prev o : Value} (hprev : out[i]? = some prev) (ho : out[i + 1]? = some o)
    (hpos : 0 < pointValue prev) : |pointValue o - pointValue prev| ≤ pointValue prev / 2
  /-- From a positive value on, all are positive. -/
  pos {i j : ℕ} {early late : Value} (hearly : out[i]? = some early) (hlate : out[j]? = some late)
    (hij : i ≤ j)
    (hpos : 0 < pointValue early) : 0 < pointValue late
  /-- A second filter changes nothing. -/
  stable : filterAnomalies Js.exact (.array out) = out

/-- The filter replaces a value that jumps by the value before it in the result. So no value of the
result jumps, and a second filter changes nothing. -/
theorem filterAnomalies_filtered {points : List Value} (hpoints : ∀ p ∈ points, NumericPoint p) :
    Filtered points (filterAnomalies Js.exact (.array points)) := by
  have hnumeric := numeric_repair hpoints
  rw [filterAnomalies_exact hpoints]
  exact {
    length_eq := length_repair points
    numeric := hnumeric
    get_eq := get_repair hpoints
    head?_eq := head?_repair points
    value_eq := pointValue_repair hpoints
    abs_sub_le := fun hprev ho hpos => abs_sub_le_of_not_jumps
      (not_jumps_repair hpoints hprev ho) hpos
    pos := pos_repair hpoints
    stable := by
      rw [filterAnomalies_exact hnumeric]
      exact repair_repair (fun _ _ => settled_numeric) hpoints fun _ _ => settled_settled }

/-- The value doubles, which is taken back, and is then a fifth less than at the start. -/
theorem filterAnomalies_filtered_doubled :
    let point (date : String) (value : ℚ) : Value :=
      .object [("date", .string (ascii date)), ("portfolio_value", .number (some value))]
    let points := [point "2026-01-01" 100, point "2026-01-02" 200, point "2026-01-03" 80]
    (∀ p ∈ points, NumericPoint p) ∧ Filtered points (filterAnomalies Js.exact (.array points)) ∧
      (filterAnomalies Js.exact (.array points)).map pointValue = [100, 100, 80] := by
  intro point points
  have hpoint (date : String) (value : ℚ) : NumericPoint (point date value) := ⟨_, value, rfl, rfl⟩
  have hpoints : ∀ p ∈ points, NumericPoint p := by
    simp only [points, List.forall_mem_cons, hpoint, List.not_mem_nil, false_implies, implies_true,
      and_self]
  have hvalue (date : String) (value : ℚ) : pointValue (point date value) = value := rfl
  refine ⟨hpoints, filterAnomalies_filtered hpoints, ?_⟩
  have hsecond := settled_numeric (hpoint "2026-01-01" 100) (hpoint "2026-01-02" 200)
  rw [filterAnomalies_exact hpoints]
  show [pointValue _, pointValue (settled Js.exact _ _),
    pointValue (settled Js.exact (settled Js.exact _ _) _)] = _
  rw [pointValue_settled hsecond (hpoint _ _), pointValue_settled (hpoint _ _) (hpoint _ _)]
  norm_num [hvalue, Jumps, abs_of_pos, abs_of_neg]

end VirePortal.Pages
