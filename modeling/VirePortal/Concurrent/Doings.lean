import VirePortal.Concurrent.History

/-!
# What one program of a pool has done

`opsOf` lists the operations of one program in the log. It only changes when that program makes a
step, so a program that waits knows it (`opsOf_others`).

In a pool that does not crash every program that has an event in the log is still running or has
returned (`Reachable.running_or_done`). So when nothing runs any more, everything has returned.
-/

namespace VirePortal.Concurrent

variable {Op : Type} {Reply : Op → Type} {σ E X C R : Type}
variable {L L' : Log Op Reply σ X C R} {e : Entry Op Reply σ X C R} {tid : ℕ} {w : Caller C}

/-- The operation of an event of program `tid`. -/
def Event.opOf (tid : ℕ) : Event Op Reply X C R → Option Op
  | .op w o _ => if w.tid = tid then some o else none
  | _ => none

/-- The operations of program `tid`, the last one first. -/
def opsOf (tid : ℕ) (L : Log Op Reply σ X C R) : List Op := L.filterMap fun e => e.event.opOf tid

/-- Nothing was done. -/
@[simp]
theorem opsOf_nil : opsOf tid ([] : Log Op Reply σ X C R) = [] := rfl

/-- An operation is done. -/
theorem opsOf_cons_op (w : Caller C) (o : Op) (r : Reply o) (s : σ) (L : Log Op Reply σ X C R) :
    opsOf w.tid (⟨s, .op w o r⟩ :: L) = o :: opsOf w.tid L := by
  simp [opsOf, Event.opOf]

/-- The operation of an event. -/
theorem Event.opOf_eq_some {ev : Event Op Reply X C R} {o : Op} :
    ev.opOf tid = some o ↔ ∃ w r, w.tid = tid ∧ ev = .op w o r := by
  constructor
  · intro h
    cases ev with
    | op w o' r =>
      simp only [Event.opOf, Option.ite_none_right_eq_some, Option.some.injEq] at h
      obtain ⟨htid, rfl⟩ := h
      exact ⟨w, r, htid, rfl⟩
    | call w => cases h
    | done w a => cases h
    | env x => cases h
    | crash => cases h
  · rintro ⟨w, r, htid, rfl⟩
    exact if_pos htid

/-- An operation of the log. -/
theorem mem_opsOf_cons {o : Op} :
    o ∈ opsOf tid (e :: L) ↔ e.event.opOf tid = some o ∨ o ∈ opsOf tid L := by
  simp [opsOf]

/-- An event that is no operation of the program. -/
theorem opsOf_cons_of_none (h : e.event.opOf tid = none) : opsOf tid (e :: L) = opsOf tid L :=
  List.filterMap_cons_none h

/-- Another thread did something. -/
theorem opsOf_cons_op_of_ne (h : tid ≠ w.tid) {o : Op} {r : Reply o} {s : σ} :
    opsOf tid (⟨s, .op w o r⟩ :: L) = opsOf tid L :=
  opsOf_cons_of_none (if_neg h.symm)

/-- An event of another thread. -/
theorem Event.opOf_of_thread {ev : Event Op Reply X C R} (h : ev.thread ≠ some tid) :
    ev.opOf tid = none := by
  cases ev with
  | op w o r =>
    have hne : w.tid ≠ tid := fun heq => h (congrArg some heq)
    exact if_neg hne
  | call w => rfl
  | done w a => rfl
  | env x => rfl
  | crash => rfl

/-- The operations of two parts. -/
theorem opsOf_append (new L : Log Op Reply σ X C R) :
    opsOf tid (new ++ L) = opsOf tid new ++ opsOf tid L :=
  List.filterMap_append

/-- A new thread has done nothing. -/
theorem opsOf_fresh (h : Fresh tid L) : opsOf tid L = [] :=
  List.filterMap_eq_nil_iff.2 fun e he => Event.opOf_of_thread (h e he)

/-- The other programs do not change what a program has done. -/
theorem opsOf_others (h : Others tid L L') : opsOf tid L' = opsOf tid L := by
  obtain ⟨new, rfl, hnew⟩ := h
  have hnone : opsOf tid new = [] := opsOf_fresh fun e he => (hnew e he).2
  rw [opsOf_append, hnone, List.nil_append]

/-- The program has returned `a`. -/
def Returned (w : Caller C) (a : R) (L : Log Op Reply σ X C R) : Prop :=
  Has (fun e => e.event = .done w a) L

/-- A program of which nothing is in the log has not returned, and nor has one that only waited
since. -/
theorem Fresh.not_returned (h : Fresh w.tid L) (a : R) : ¬ Returned w a L := by
  rintro ⟨e, he, hdone⟩
  refine h e he ?_
  rw [hdone]
  rfl

/-- Nothing is returned while the caller waits. -/
theorem Others.returned_iff (h : Others w.tid L L') {a : R} : Returned w a L' ↔ Returned w a L := by
  refine h.has_iff fun e he => ?_
  rw [he]
  rfl

variable {second first : Entry Op Reply σ X C R → Prop} {A : Assumption Op Reply σ E X C R}
variable {S : System Op Reply σ E X C R}

/-- The order of two entries, from the last one on. -/
theorem after_cons :
    After first second (e :: L) ↔ (second e ∧ Has first L) ∨ After first second L := by
  constructor
  · rintro ⟨later, e', earlier, hlog, he', hfirst⟩
    cases later with
    | nil =>
      obtain ⟨rfl, rfl⟩ := List.cons.inj hlog
      exact .inl ⟨he', hfirst⟩
    | cons x later => exact .inr ⟨later, e', earlier, (List.cons.inj hlog).2, he', hfirst⟩
  · rintro (⟨he, hfirst⟩ | h)
    · exact ⟨[], e, L, rfl, he, hfirst⟩
    · exact h.append [e]

/-- What came before an entry of a program is settled while the program waits. -/
theorem Others.after_iff (h : Others tid L L')
    (hsecond : ∀ e, second e → e.event.thread = some tid) :
    After first second L' ↔ After first second L := by
  obtain ⟨new, rfl, hnew⟩ := h
  induction new with
  | nil => exact Iff.rfl
  | cons e new ih =>
    have hne : ¬ second e := fun he => (hnew e (by simp)).2 (hsecond e he)
    rw [List.cons_append, after_cons, ih fun e' he' => hnew e' (by simp [he'])]
    simp [hne]

/-- The latest of a program's entries stays so while the program waits. -/
theorem Others.latest (h : Others tid L L') {a b : Entry Op Reply σ X C R → Prop}
    (hb : ∀ e, b e → e.event.thread = some tid) (hL : Latest a b L) : Latest a b L' := by
  obtain ⟨new, rfl, hnew⟩ := h
  exact hL.append fun e he hbe => (hnew e he).2 (hb e hbe)

/-- What all operations of a call's program satisfy is satisfied by those that are still to come. -/
theorem Reachable.threads_all {s0 : σ} {P : C → Op → Prop} (hall : ∀ q, (S.handle q).All (P q))
    {c : Config Op Reply σ X C R} (hc : Reachable S A s0 c) {q : C} {p : Prog Op Reply R}
    (hp : c.threads tid = some (q, p)) :
    p.All (P q) := by
  induction hc generalizing tid q p with
  | init => cases hp
  | @step c l _ _ ih =>
    -- A step changes the place of one program.
    have hplace : ∀ {tid' : ℕ} {x : Option (C × Prog Op Reply R)},
        (∀ q p, x = some (q, p) → p.All (P q)) → Function.update c.threads tid' x tid =
          some (q, p) →
        p.All (P q) :=
      fun hx hp => forall_update (P := fun _ q p => p.All (P q)) hx
        (fun _ _ _ _ hp => ih hp) _ _ _ hp
    cases l with
    | call q' =>
      refine hplace (fun q p hq => ?_) hp
      obtain ⟨rfl, rfl⟩ := Prod.mk.inj (Option.some.inj hq)
      exact hall q'
    | step tid' x =>
      rcases ht : c.threads tid' with _ | ⟨q', a | ⟨o, k⟩⟩
      · simp only [System.step, System.stepThread, ht] at hp
        exact ih hp
      · simp only [System.step, System.stepThread, ht] at hp
        exact hplace (fun q p hq => by cases hq) hp
      · simp only [System.step, System.stepThread, ht] at hp
        refine hplace (fun q p hq => ?_) hp
        obtain ⟨rfl, rfl⟩ := Prod.mk.inj (Option.some.inj hq)
        exact (ih ht).2 _
    | env x => exact ih hp
    | crash => cases hp

/-- Without a crash, a program with an event in the log is running or has returned. -/
theorem Reachable.running_or_done {s0 : σ} (hcrash : ∀ s L, ¬ A.crash s L)
    {c : Config Op Reply σ X C R} (hc : Reachable S A s0 c) (he : e ∈ c.log)
    (hw : e.event.thread = some tid) :
    c.threads tid ≠ none ∨ ∃ w a, w.tid = tid ∧ Returned w a c.log := by
  induction hc generalizing e with
  | init => cases he
  | @step c l _ hl ih =>
    -- What was known of the other events stays, when the step only changes the place of `tid'`.
    have hkeep : ∀ {tid' : ℕ} {x : Option (C × Prog Op Reply R)} {e' : Entry Op Reply σ X C R},
        tid ≠ tid' → c.threads tid ≠ none ∨ (∃ w a, w.tid = tid ∧ Returned w a c.log) →
        Function.update c.threads tid' x tid ≠ none ∨ ∃ w a, w.tid = tid ∧
          Returned w a (e' :: c.log) := by
      rintro tid' x e' hne (hrun | ⟨w, a, htid, hdone⟩)
      · rw [Function.update_of_ne hne]
        exact .inl hrun
      · exact .inr ⟨w, a, htid, has_cons.2 (.inr hdone)⟩
    cases l with
    | call q =>
      change e ∈ ⟨c.state, .call ⟨c.next, q⟩⟩ :: c.log at he
      change Function.update c.threads c.next _ tid ≠ none ∨ ∃ w a, w.tid = tid ∧
        Returned w a (_ :: c.log)
      by_cases htid : tid = c.next
      · rw [htid, Function.update_self]
        exact .inl (by simp)
      · rcases List.mem_cons.1 he with rfl | he
        · exact absurd (Option.some.inj hw).symm htid
        · exact hkeep htid (ih he hw)
    | step tid' x =>
      rcases ht : c.threads tid' with _ | ⟨q, a | ⟨o, k⟩⟩
      · simp only [System.step, System.stepThread, ht] at he ⊢
        exact ih he hw
      · simp only [System.step, System.stepThread, ht] at he ⊢
        by_cases htid : tid = tid'
        · exact .inr ⟨⟨tid', q⟩, a, htid.symm, has_cons.2 (.inl rfl)⟩
        · rcases List.mem_cons.1 he with rfl | he
          · exact absurd (Option.some.inj hw).symm htid
          · exact hkeep htid (ih he hw)
      · simp only [System.step, System.stepThread, ht] at he ⊢
        by_cases htid : tid = tid'
        · rw [htid, Function.update_self]
          exact .inl (by simp)
        · rcases List.mem_cons.1 he with rfl | he
          · exact absurd (Option.some.inj hw).symm htid
          · exact hkeep htid (ih he hw)
    | env x =>
      change e ∈ ⟨c.state, .env x⟩ :: c.log at he
      change c.threads tid ≠ none ∨ ∃ w a, w.tid = tid ∧ Returned w a (_ :: c.log)
      rcases List.mem_cons.1 he with rfl | he
      · cases hw
      · rcases ih he hw with hrun | ⟨w, a, htid, hdone⟩
        · exact .inl hrun
        · exact .inr ⟨w, a, htid, has_cons.2 (.inr hdone)⟩
    | crash => exact absurd hl (hcrash _ _)

end VirePortal.Concurrent
