import Mathlib.Logic.Function.Basic
import VirePortal.Concurrent.Dialogue

/-!
# Programs that are started together and awaited

A family of programs runs at once, one operation of one of them at a time and in any order, until
all of them have returned (`Awaited`). The log has every operation with its reply and with the
program that performed it. Whatever the order was, the operations of one program in the log are a
dialogue of that program (`Awaited.does`).
-/

namespace VirePortal.Concurrent

variable {Op : Type} {Reply : Op → Type} {ι : Type} [DecidableEq ι]

/-- The programs `ps` run to their ends, and `log` is what they do. -/
inductive Awaited : (ι → Prog Op Reply Unit) → List (ι × ((o : Op) × Reply o)) → Prop
  | done {ps : ι → Prog Op Reply Unit} (hdone : ∀ i, ps i = .ret ()) : Awaited ps []
  | step {ps : ι → Prog Op Reply Unit} {log : List (ι × ((o : Op) × Reply o))} (i : ι) {o : Op}
      {k : Reply o → Prog Op Reply Unit} (r : Reply o) (hi : ps i = .op o k)
      (hrest : Awaited (Function.update ps i (k r)) log) : Awaited ps ((i, ⟨o, r⟩) :: log)

/-- The operations of one of the programs. -/
def logOf (i : ι) (log : List (ι × ((o : Op) × Reply o))) : List ((o : Op) × Reply o) :=
  (log.filter fun x => x.1 = i).map Prod.snd

/-- Its own operation comes first. -/
theorem logOf_cons_self (i : ι) (x : (o : Op) × Reply o) (log : List (ι × ((o : Op) × Reply o))) :
    logOf i ((i, x) :: log) = x :: logOf i log := by
  simp [logOf]

/-- Another program's operation is left out. -/
theorem logOf_cons_of_ne {i j : ι} (h : j ≠ i) (x : (o : Op) × Reply o)
    (log : List (ι × ((o : Op) × Reply o))) : logOf i ((j, x) :: log) = logOf i log := by
  simp [logOf, h]

/-- The log of two parts. -/
theorem logOf_append (i : ι) (log log' : List (ι × ((o : Op) × Reply o))) :
    logOf i (log ++ log') = logOf i log ++ logOf i log' := by
  rw [logOf, List.filter_append, List.map_append]
  rfl

/-- The log of a program that is alone. -/
theorem logOf_map_mk (i j : ι) (ops : List ((o : Op) × Reply o)) :
    logOf i (ops.map (Prod.mk j)) = if j = i then ops else [] := by
  induction ops with
  | nil => split_ifs <;> rfl
  | cons x ops ih =>
    rw [List.map_cons]
    split_ifs at ih ⊢ with hji
    · subst hji
      rw [logOf_cons_self, ih]
    · rw [logOf_cons_of_ne hji, ih]

/-- The operations of a program. -/
theorem mem_logOf {i : ι} {x : (o : Op) × Reply o} {log : List (ι × ((o : Op) × Reply o))} :
    x ∈ logOf i log ↔ (i, x) ∈ log := by
  simp [logOf]

/-- Each program does its own part of the log. -/
theorem Awaited.does {ps : ι → Prog Op Reply Unit} {log : List (ι × ((o : Op) × Reply o))}
    (h : Awaited ps log) (i : ι) : (ps i).Does (logOf i log) () := by
  induction h with
  | done hdone =>
    rw [hdone i]
    exact ⟨rfl, rfl⟩
  | @step ps log j o k r hj hrest ih =>
    by_cases hji : j = i
    · subst hji
      rw [Function.update_self] at ih
      rw [hj, logOf_cons_self]
      exact ⟨r, _, rfl, ih⟩
    · rw [Function.update_of_ne (Ne.symm hji)] at ih
      rw [logOf_cons_of_ne hji]
      exact ih

end VirePortal.Concurrent
