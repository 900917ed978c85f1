import Mathlib.Tactic

/-!
# Filtering a list to the first element of each key

`firstWins` goes through a list once, with the keys that it has seen, and keeps an element that
satisfies `p` and whose key is new. What it keeps of a list depends on what came before only through
the set of keys (`firstWins_congr`), so the filter of a concatenation is the filter of its first
part and that of the rest with more keys seen (`firstWins_append`). The other laws follow from this
one.
-/

namespace VirePortal.Collections

variable {α κ : Type} [DecidableEq κ] (p : α → Bool) (key : α → κ)

/-- The elements with `p` whose key is not one of `seen` and not the key of an earlier such
element. -/
def firstWins : List κ → List α → List α
  | _, [] => []
  | seen, x :: xs =>
    if p x = true ∧ key x ∉ seen then x :: firstWins (key x :: seen) xs else firstWins seen xs

variable {p key} {seen seen' : List κ} {x : α} {xs ys : List α} {k : κ}

/-- A first element of its key wins. -/
theorem firstWins_cons_of_new (hx : p x = true) (hnew : key x ∉ seen) :
    firstWins p key seen (x :: xs) = x :: firstWins p key (key x :: seen) xs := by
  rw [firstWins, if_pos ⟨hx, hnew⟩]

/-- Any other element is left out. -/
theorem firstWins_cons_of_not (h : ¬ (p x = true ∧ key x ∉ seen)) :
    firstWins p key seen (x :: xs) = firstWins p key seen xs := by
  rw [firstWins, if_neg h]

/-- Of the keys that were seen only the set matters. -/
theorem firstWins_congr (h : ∀ k, k ∈ seen ↔ k ∈ seen') :
    firstWins p key seen xs = firstWins p key seen' xs := by
  induction xs generalizing seen seen' with
  | nil => rfl
  | cons x xs ih =>
    have hcons : ∀ k, k ∈ key x :: seen ↔ k ∈ key x :: seen' := fun k => by
      rw [List.mem_cons, List.mem_cons, h k]
    simp only [firstWins, h (key x), ih h, ih hcons]

/-- Every element that is kept satisfies `p`. -/
theorem of_mem_firstWins (h : x ∈ firstWins p key seen xs) : p x = true := by
  induction xs generalizing seen with
  | nil => cases h
  | cons y xs ih =>
    by_cases hy : p y = true ∧ key y ∉ seen
    · rw [firstWins_cons_of_new hy.1 hy.2] at h
      rcases List.mem_cons.1 h with rfl | h
      · exact hy.1
      · exact ih h
    · rw [firstWins_cons_of_not hy] at h
      exact ih h

/-- The keys of what is kept: those of the elements with `p`, without the ones seen before. -/
theorem mem_map_firstWins :
    k ∈ (firstWins p key seen xs).map key ↔ k ∉ seen ∧ ∃ x ∈ xs, p x = true ∧ key x = k := by
  induction xs generalizing seen with
  | nil => simp [firstWins]
  | cons x xs ih =>
    rw [List.exists_mem_cons_iff]
    by_cases hx : p x = true ∧ key x ∉ seen
    · rw [firstWins_cons_of_new hx.1 hx.2, List.map_cons, List.mem_cons, ih, List.mem_cons]
      by_cases hk : k = key x
      · simp [hk, hx.1, hx.2]
      · simp [hk, Ne.symm hk]
    · rw [firstWins_cons_of_not hx, ih]
      -- A key that `x` could add was seen before.
      have hold : k ∉ seen → ¬ (p x = true ∧ key x = k) := by
        rintro hk ⟨hp, rfl⟩
        exact hx ⟨hp, hk⟩
      constructor
      · exact fun ⟨hk, hmem⟩ => ⟨hk, .inr hmem⟩
      · exact fun ⟨hk, hmem⟩ => ⟨hk, hmem.resolve_left (hold hk)⟩

/-- The winners have distinct keys. -/
theorem nodup_map_firstWins : ((firstWins p key seen xs).map key).Nodup := by
  induction xs generalizing seen with
  | nil => exact List.nodup_nil
  | cons x xs ih =>
    by_cases hx : p x = true ∧ key x ∉ seen
    · rw [firstWins_cons_of_new hx.1 hx.2, List.map_cons, List.nodup_cons]
      exact ⟨fun h => (mem_map_firstWins.1 h).1 (.head _), ih⟩
    · rw [firstWins_cons_of_not hx]
      exact ih

/-- The rest of a list is filtered with the keys that its start left. -/
theorem firstWins_append : firstWins p key seen (xs ++ ys) =
    firstWins p key seen xs ++ firstWins p key ((firstWins p key seen xs).map key ++ seen) ys := by
  induction xs generalizing seen with
  | nil => rfl
  | cons x xs ih =>
    rw [List.cons_append]
    by_cases hx : p x = true ∧ key x ∉ seen
    · rw [firstWins_cons_of_new hx.1 hx.2, firstWins_cons_of_new hx.1 hx.2, ih, List.cons_append]
      congr 2
      refine firstWins_congr fun k => ?_
      simp only [List.mem_append, List.map_cons, List.mem_cons]
      tauto
    · rw [firstWins_cons_of_not hx, firstWins_cons_of_not hx, ih]

/-- An element without `p` leaves no trace. -/
theorem firstWins_append_cons_of_not (hx : ¬ p x = true) :
    firstWins p key seen (xs ++ x :: ys) = firstWins p key seen (xs ++ ys) := by
  rw [firstWins_append, firstWins_append, firstWins_cons_of_not fun h => hx h.1]

/-- A list of elements with `p` and with keys that are new and distinct is kept as it is. -/
theorem firstWins_eq_self (hp : ∀ x ∈ xs, p x = true) (hnew : ∀ x ∈ xs, key x ∉ seen)
    (hnodup : (xs.map key).Nodup) : firstWins p key seen xs = xs := by
  induction xs generalizing seen with
  | nil => rfl
  | cons x xs ih =>
    rw [List.map_cons, List.nodup_cons] at hnodup
    rw [firstWins_cons_of_new (hp x (.head _)) (hnew x (.head _)),
      ih (fun y hy => hp y (.tail _ hy)) (fun y hy => ?_) hnodup.2]
    rw [List.mem_cons, not_or]
    refine ⟨fun heq => hnodup.1 ?_, hnew y (.tail _ hy)⟩
    rw [← heq]
    exact List.mem_map_of_mem hy

/-- The winners win again. -/
theorem firstWins_idem :
    firstWins p key [] (firstWins p key [] xs) = firstWins p key [] xs :=
  firstWins_eq_self (fun _ hx => of_mem_firstWins hx) (by simp) nodup_map_firstWins

/-- The start of a list may be filtered before the whole is. -/
theorem firstWins_append_left :
    firstWins p key [] (firstWins p key [] xs ++ ys) = firstWins p key [] (xs ++ ys) := by
  rw [firstWins_append, firstWins_append, firstWins_idem]

/-- The element `x` of the list, with its position, satisfies `p`, and no earlier element has `p`
and its key. -/
def First (p : α → Bool) (key : α → κ) (xs : List α) (x : α × ℕ) : Prop :=
  p x.1 = true ∧ ∀ y ∈ xs.take x.2, p y = true → key y ≠ key x.1

instance (xs : List α) (x : α × ℕ) : Decidable (First p key xs x) :=
  inferInstanceAs (Decidable (_ ∧ _))

/-- What is kept are the first elements, in their order. -/
theorem firstWins_eq_filter :
    firstWins p key [] xs = (xs.zipIdx.filter fun x => First p key xs x).map Prod.fst := by
  -- By induction on the end of the list, which decides only about itself.
  induction xs using List.reverseRecOn with
  | nil => rfl
  | append_singleton xs x ih =>
    have hbefore : (xs.zipIdx.filter fun y => First p key (xs ++ [x]) y) =
        xs.zipIdx.filter fun y => First p key xs y := by
      refine List.filter_congr fun y hy => ?_
      have hle : y.2 ≤ xs.length := by
        have := List.snd_lt_add_of_mem_zipIdx hy
        omega
      rw [decide_eq_decide, First, First, List.take_append_of_le_length hle]
    have hlast : First p key (xs ++ [x]) (x, xs.length) ↔
        p x = true ∧ key x ∉ (firstWins p key [] xs).map key := by
      rw [First, List.take_left', mem_map_firstWins]
      · simp
      · rfl
    rw [firstWins_append, List.zipIdx_append, List.filter_append, List.map_append, hbefore, ← ih,
      List.append_nil]
    congr 1
    rw [List.zipIdx_singleton, List.filter_singleton, Nat.zero_add]
    by_cases hx : p x = true ∧ key x ∉ (firstWins p key [] xs).map key
    · rw [firstWins_cons_of_new hx.1 hx.2, decide_eq_true (hlast.2 hx)]
      rfl
    · rw [firstWins_cons_of_not hx, decide_eq_false fun h => hx (hlast.1 h)]
      rfl

end VirePortal.Collections
