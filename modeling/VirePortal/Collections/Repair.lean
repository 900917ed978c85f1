import Mathlib.Tactic

/-!
# Lists that are repaired from the front

A pass over a list keeps the first element and replaces each other one by a function of itself and
of its predecessor in the result. What the pass does at one place is
`exists_of_getElem?_repair_succ`. A property that the function passes on holds from its first place
to the end (`repair_of_le`), and a function that is content with what it returns leaves the result
of the pass as it is (`repair_repair`).
-/

namespace VirePortal.Collections

variable {α : Type*} (f : α → α → α)

/-- The pass after an element of the result. -/
def repairFrom : α → List α → List α
  | _, [] => []
  | prev, x :: l => f prev x :: repairFrom (f prev x) l

/-- The pass. -/
def repair : List α → List α
  | [] => []
  | x :: l => x :: repairFrom f x l

variable {f}

/-- The length stays. -/
@[simp]
theorem length_repairFrom (prev : α) (l : List α) : (repairFrom f prev l).length = l.length := by
  induction l generalizing prev with
  | nil => rfl
  | cons x l ih => rw [repairFrom, List.length_cons, List.length_cons, ih]

/-- The length stays. -/
@[simp]
theorem length_repair (l : List α) : (repair f l).length = l.length := by
  cases l with
  | nil => rfl
  | cons x l => rw [repair, List.length_cons, List.length_cons, length_repairFrom]

/-- The first element stays. -/
theorem head?_repair (l : List α) : (repair f l).head? = l.head? := by
  cases l <;> rfl

/-- The element at a place of the pass, from the one before. -/
theorem getElem?_repairFrom (prev : α) (l : List α) (i : ℕ) :
    (repairFrom f prev l)[i]? =
      ((prev :: repairFrom f prev l)[i]?).bind fun p => (l[i]?).map (f p) := by
  induction l generalizing prev i with
  | nil => simp [repairFrom]
  | cons x l ih =>
    cases i with
    | zero => rfl
    | succ i =>
      rw [repairFrom, List.getElem?_cons_succ, List.getElem?_cons_succ, List.getElem?_cons_succ]
      exact ih (f prev x) i

/-- Each element is repaired by the one before it. -/
theorem getElem?_repair_succ (l : List α) (i : ℕ) :
    (repair f l)[i + 1]? = ((repair f l)[i]?).bind fun p => (l[i + 1]?).map (f p) := by
  cases l with
  | nil => rfl
  | cons x l =>
    rw [repair, List.getElem?_cons_succ, List.getElem?_cons_succ]
    exact getElem?_repairFrom x l i

/-- Each element after the first is made of its predecessor in the result and the element at its
place. -/
theorem exists_of_getElem?_repair_succ {l : List α} {i : ℕ} {y : α}
    (h : (repair f l)[i + 1]? = some y) :
    ∃ p x, (repair f l)[i]? = some p ∧ l[i + 1]? = some x ∧ f p x = y := by
  rw [getElem?_repair_succ, Option.bind_eq_some_iff] at h
  obtain ⟨p, hp, h⟩ := h
  obtain ⟨x, hx, hy⟩ := Option.map_eq_some_iff.1 h
  exact ⟨p, x, hp, hx, hy⟩

/-! ### Elements with a property

The function is asked for something only where both its arguments have the property, which the pass
keeps. -/

section Property

variable {P : α → Prop} (hkeep : ∀ p x, P p → P x → P (f p x)) {l : List α} (hl : ∀ x ∈ l, P x)

include hkeep

/-- What the repair keeps holds of all elements. -/
theorem forall_mem_repairFrom {prev : α} (hprev : P prev) (hl : ∀ x ∈ l, P x) :
    ∀ y ∈ repairFrom f prev l, P y := by
  induction l generalizing prev with
  | nil => simp [repairFrom]
  | cons x l ih =>
    obtain ⟨hx, hl⟩ := List.forall_mem_cons.1 hl
    have hy := hkeep prev x hprev hx
    exact List.forall_mem_cons.2 ⟨hy, ih hy hl⟩

include hl

/-- What the repair keeps holds of all elements. -/
theorem forall_mem_repair : ∀ y ∈ repair f l, P y := by
  cases l with
  | nil => simp [repair]
  | cons x l =>
    obtain ⟨hx, hl⟩ := List.forall_mem_cons.1 hl
    exact List.forall_mem_cons.2 ⟨hx, forall_mem_repairFrom hkeep hx hl⟩

/-- A property that the function passes on, from one place of the result to a later one. -/
theorem repair_of_le {Q : α → Prop} (hpass : ∀ p x, P p → P x → Q p → Q (f p x)) {i j : ℕ} {y z : α}
    (hij : i ≤ j) (hy : (repair f l)[i]? = some y) (hz : (repair f l)[j]? = some z)
    (hQ : Q y) : Q z := by
  induction j, hij using Nat.le_induction generalizing z with
  | base => exact Option.some.inj (hy.symm.trans hz) ▸ hQ
  | succ j hij ih =>
    obtain ⟨p, x, hp, hx, rfl⟩ := exists_of_getElem?_repair_succ hz
    have hPp := forall_mem_repair hkeep hl p (List.mem_of_getElem? hp)
    exact hpass p x hPp (hl x (List.mem_of_getElem? hx)) (ih hp)

/-- A second pass changes nothing if the function is content with what it returns. -/
theorem repair_repair (hidem : ∀ p x, P p → P x → f p (f p x) = f p x) :
    repair f (repair f l) = repair f l := by
  have hfrom {prev : α} (hprev : P prev) {l : List α} (hl : ∀ x ∈ l, P x) :
      repairFrom f prev (repairFrom f prev l) = repairFrom f prev l := by
    induction l generalizing prev with
    | nil => rfl
    | cons x l ih =>
      obtain ⟨hx, hl⟩ := List.forall_mem_cons.1 hl
      rw [repairFrom, repairFrom, hidem prev x hprev hx, ih (hkeep prev x hprev hx) hl]
  cases l with
  | nil => rfl
  | cons x l =>
    obtain ⟨hx, hl⟩ := List.forall_mem_cons.1 hl
    rw [repair, repair, hfrom hx hl]

end Property

/-- The pass as a loop that appends to the result and looks at its last element. -/
theorem foldl_eq_repair (l : List α) :
    l.foldl (fun out x => out ++ [out.getLast?.elim x (f · x)]) [] = repair f l := by
  have hfrom (out : List α) (prev : α) (l : List α) :
      l.foldl (fun out x => out ++ [out.getLast?.elim x (f · x)]) (out ++ [prev]) =
        out ++ prev :: repairFrom f prev l := by
    induction l generalizing out prev with
    | nil => rfl
    | cons x l ih =>
      rw [List.foldl_cons, List.getLast?_concat, Option.elim_some, ih, repairFrom,
        List.append_assoc]
      rfl
  cases l with
  | nil => rfl
  | cons x l => exact hfrom [] x l

end VirePortal.Collections
