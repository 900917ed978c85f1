import Mathlib.Tactic

/-!
# Infinite runs

A system whose steps are a function of its state and a label runs for ever along a sequence of
labels, and `trace` is the sequence of its states. Every finite run is the start of an infinite one,
so what holds in every state of every infinite run holds in every reachable state.

What a fair run comes to is stated with `LeadsTo`. The rules are those of the usual temporal logics:
a step that is taken at some time brings about what it does (`leadsTo_of_label`), a rank that goes
down has an end (`leadsTo_of_rank`), and finitely many things that each come and stay hold together
(`eventually_forall_lt`).
-/

namespace VirePortal.Concurrent

variable {σ Λ : Type}

/-- The states of the run with the labels `ls`. -/
def trace (step : σ → Λ → σ) (s0 : σ) (ls : ℕ → Λ) : ℕ → σ
  | 0 => s0
  | n + 1 => step (trace step s0 ls n) (ls n)

/-- From every state with `P` the run comes to a state with `Q`. -/
def LeadsTo (t : ℕ → σ) (P Q : σ → Prop) : Prop :=
  ∀ n, P (t n) → ∃ m, n ≤ m ∧ Q (t m)

variable {step : σ → Λ → σ} {s0 : σ} {ls : ℕ → Λ} {t : ℕ → σ} {P Q : σ → Prop} {n m : ℕ}

/-- What holds at the start and is kept by every step holds always. -/
theorem trace_invariant (hinit : P s0) (hstep : ∀ s l, P s → P (step s l)) (n : ℕ) :
    P (trace step s0 ls n) := by
  induction n with
  | zero => exact hinit
  | succ n ih => exact hstep _ _ ih

/-- What every step does to a state, a run does to it. -/
theorem trace_rel {r : σ → σ → Prop} (hrefl : ∀ s, r s s)
    (htrans : ∀ {s s' s''}, r s s' → r s' s'' → r s s'') (hstep : ∀ s l, r s (step s l))
    (h : n ≤ m) : r (trace step s0 ls n) (trace step s0 ls m) := by
  induction m, h using Nat.le_induction with
  | base => exact hrefl _
  | succ m _ ih => exact htrans ih (hstep _ _)

/-- What every step keeps stays. -/
theorem trace_stable (hstep : ∀ s l, P s → P (step s l)) (h : n ≤ m) (hn : P (trace step s0 ls n)) :
    P (trace step s0 ls m) :=
  trace_rel (r := fun s s' => P s → P s') (fun _ hs => hs)
    (fun hss' hs's'' hs => hs's'' (hss' hs)) hstep h hn

/-- A step of a kind that is taken at some time brings about `Q`, when `P` stays until `Q` comes. -/
theorem leadsTo_of_label (act : Λ → Prop)
    (hkeep : ∀ s l, ¬ act l → P s → P (step s l) ∨ Q (step s l))
    (hact : ∀ s l, act l → P s → Q (step s l))
    (hfair : ∀ n, P (trace step s0 ls n) → ∃ m, n ≤ m ∧ act (ls m)) :
    LeadsTo (trace step s0 ls) P Q := by
  intro n hn
  obtain ⟨m, hm, hl⟩ := hfair n hn
  -- By induction on how far away the step is.
  obtain ⟨d, rfl⟩ := Nat.exists_eq_add_of_le hm
  induction d generalizing n with
  | zero => exact ⟨n + 1, by omega, hact _ _ hl hn⟩
  | succ d ih =>
    by_cases hnow : act (ls n)
    · exact ⟨n + 1, by omega, hact _ _ hnow hn⟩
    rcases hkeep _ (ls n) hnow hn with hP | hQ
    · have hl' : act (ls (n + 1 + d)) := by
        rw [show n + 1 + d = n + (d + 1) by omega]
        exact hl
      obtain ⟨k, hk, hQ⟩ := ih (n + 1) hP (by omega) hl'
      exact ⟨k, by omega, hQ⟩
    · exact ⟨n + 1, by omega, hQ⟩

/-- A rank that goes down until `Q` comes. -/
theorem leadsTo_of_rank (rank : σ → ℕ)
    (h : ∀ r, LeadsTo t (fun s => P s ∧ rank s = r) (fun s => Q s ∨ P s ∧ rank s < r)) :
    LeadsTo t P Q := by
  intro n hn
  induction hr : rank (t n) using Nat.strong_induction_on generalizing n with
  | _ r ih =>
    obtain ⟨m, hm, hQ | ⟨hP, hlt⟩⟩ := h r n ⟨hn, hr⟩
    · exact ⟨m, hm, hQ⟩
    · obtain ⟨k, hk, hQ⟩ := ih _ hlt m hP rfl
      exact ⟨k, hm.trans hk, hQ⟩

/-- Finitely many things that each come and stay hold together. -/
theorem eventually_forall_lt {Q : ℕ → σ → Prop} (hstep : ∀ k s l, Q k s → Q k (step s l)) {K : ℕ}
    (h : ∀ k < K, ∃ m, n ≤ m ∧ Q k (trace step s0 ls m)) :
    ∃ m, n ≤ m ∧ ∀ k < K, Q k (trace step s0 ls m) := by
  induction K with
  | zero => exact ⟨n, le_rfl, by simp⟩
  | succ K ih =>
    obtain ⟨m, hm, hall⟩ := ih fun k hk => h k (by omega)
    obtain ⟨m', hm', hlast⟩ := h K (by omega)
    refine ⟨max m m', by omega, fun k hk => ?_⟩
    rcases Nat.lt_succ_iff_lt_or_eq.1 hk with hk | rfl
    · exact trace_stable (hstep k) (le_max_left m m') (hall k hk)
    · exact trace_stable (hstep k) (le_max_right m m') hlast

end VirePortal.Concurrent
