import VirePortal.Concurrent.History

/-!
# The results of the programs of a pool

An outline gives a program of a pool a postcondition. `Reachable.result` carries it to the entry
with which the program returns: whenever the log holds a result, the postcondition of its program
holds of it. The postcondition may mention the log that the call found (`Q w before`), so that it
can speak of what had happened when the request came. The invariant is proved once and used for any
number of postconditions.
-/

namespace VirePortal.Concurrent

variable {Op : Type} {Reply : Op → Type} {σ E X C R α : Type}
variable {S : System Op Reply σ E X C R} {A : Assumption Op Reply σ E X C R}
variable {I : σ → Log Op Reply σ X C R → Prop} {Q : Caller C → Log Op Reply σ X C R → R →
  Log Op Reply σ X C R → Prop}
variable {w : Caller C} {L L' before : Log Op Reply σ X C R} {s : σ}

/-- The log goes on from the call of program `w`, which found `before`. -/
def Since (w : Caller C) (before L : Log Op Reply σ X C R) : Prop :=
  ∃ new s, L = new ++ ⟨s, .call w⟩ :: before ∧ ∀ e ∈ new, e.event ≠ .call w

/-- The call itself. -/
theorem Since.start (w : Caller C) (s : σ) (before : Log Op Reply σ X C R) :
    Since w before (⟨s, .call w⟩ :: before) :=
  ⟨[], s, rfl, by simp⟩

/-- An entry after the call. -/
theorem Since.cons (h : Since w before L) {e : Entry Op Reply σ X C R} (he : e.event ≠ .call w) :
    Since w before (e :: L) := by
  obtain ⟨new, s, rfl, hnew⟩ := h
  refine ⟨e :: new, s, rfl, fun e' he' => ?_⟩
  rcases List.mem_cons.1 he' with rfl | he'
  · exact he
  · exact hnew e' he'

/-- The entries of others after the call. -/
theorem Since.others (h : Since w before L) (hL : Others w.tid L L') : Since w before L' := by
  obtain ⟨new, s, rfl, hnew⟩ := h
  obtain ⟨new', rfl, hnew'⟩ := hL
  refine ⟨new' ++ new, s, by simp, fun e he => ?_⟩
  rcases List.mem_append.1 he with he | he
  · intro hcall
    refine (hnew' e he).2 ?_
    rw [hcall]
    rfl
  · exact hnew e he

/-- A program is called once, so the log that its call found is determined. -/
theorem Since.unique (h : Since w before L) (hfresh : Fresh w.tid before)
    {mid before' : Log Op Reply σ X C R} (hL : L = mid ++ ⟨s, .call w⟩ :: before') :
    before' = before := by
  obtain ⟨new, s', hnew, hother⟩ := h
  have hsplit := hnew.symm.trans hL
  -- The two calls are at the same place: neither is behind the other.
  rcases List.append_eq_append_iff.1 hsplit with ⟨as, rfl, has⟩ | ⟨as, rfl, has⟩
  · cases as with
    | nil => exact (List.cons.inj has).2.symm
    | cons e as =>
      obtain ⟨-, htail⟩ := List.cons.inj has
      refine absurd rfl (hfresh ⟨s, .call w⟩ ?_)
      rw [htail]
      simp
  · cases as with
    | nil => exact (List.cons.inj has).2
    | cons e as =>
      obtain ⟨rfl, -⟩ := List.cons.inj has
      exact absurd rfl (hother ⟨s, .call w⟩ (by simp))

/-- What is known of the result of a program that returned: the invariant holds, and the
postcondition held when the program had come to its end. -/
def Concluded (I : σ → Log Op Reply σ X C R → Prop)
    (Q : Caller C → Log Op Reply σ X C R → R → Log Op Reply σ X C R → Prop)
    (e : Entry Op Reply σ X C R) (L : Log Op Reply σ X C R) : Prop :=
  ∀ w a, e.event = .done w a → I e.pre L ∧
    ∀ mid s before, L = mid ++ ⟨s, .call w⟩ :: before → ∃ L', Others w.tid L' L ∧ Q w before a L'

/-- An entry that is no result says nothing about results. -/
theorem each_concluded_cons {e : Entry Op Reply σ X C R} (h : Each (Concluded I Q) L)
    (he : ∀ w a, e.event ≠ .done w a) : Each (Concluded I Q) (e :: L) :=
  ⟨fun w a hev => absurd hev (he w a), h⟩

/-- The outline of a program, with what is known of the results of all programs. -/
theorem Outline.concludes {p : Prog Op Reply R} (h : Outline S A I w (Q w before) p L)
    (hfresh : Fresh w.tid before) (hsince : Since w before L)
    (hdone : ∀ a s L, I s L → A.done w a s L → I s (⟨s, .done w a⟩ :: L)) :
    Outline S A (fun s L => I s L ∧ Each (Concluded I Q) L) w
      (Delivers A (fun s L => I s L ∧ Each (Concluded I Q) L) w) p L := by
  induction p generalizing L with
  | ret a =>
    rintro s L' hL ⟨hI, heach⟩ hA
    refine ⟨hdone a s L' hI hA, fun w' a' hev => ?_, heach⟩
    obtain ⟨rfl, rfl⟩ := Event.done.inj hev
    refine ⟨hI, fun mid s' before' hlog => ?_⟩
    obtain rfl := (hsince.others hL).unique hfresh hlog
    exact ⟨L, hL, h⟩
  | op o k ih =>
    rintro s L' e hL ⟨hI, heach⟩ hA
    obtain ⟨hI', hk⟩ := h s L' e hL hI hA
    exact ⟨⟨hI', each_concluded_cons heach (by simp)⟩, ih _ hk ((hsince.others hL).cons (by simp))⟩

/-- What the rule for results needs: an invariant that every event keeps, and an outline of the
program of every call against it. -/
structure Answers (S : System Op Reply σ E X C R) (A : Assumption Op Reply σ E X C R)
    (I : σ → Log Op Reply σ X C R → Prop)
    (Q : Caller C → Log Op Reply σ X C R → R → Log Op Reply σ X C R → Prop) (s0 : σ) : Prop where
  init : I s0 []
  call : ∀ s L (w : Caller C), I s L → Fresh w.tid L → A.call w.call s L →
    I s (⟨s, .call w⟩ :: L) ∧ Outline S A I w (Q w L) (S.handle w.call) (⟨s, .call w⟩ :: L)
  done : ∀ w a s L, I s L → A.done w a s L → I s (⟨s, .done w a⟩ :: L)
  env : ∀ s L x, I s L → A.env x s L → I (S.env x s) (⟨s, .env x⟩ :: L)
  crash : ∀ s L, I s L → A.crash s L → I (S.crash s) (⟨s, .crash⟩ :: L)

/-- The answers are concluded in every run. -/
theorem Answers.verified {s0 : σ} (h : Answers S A I Q s0) :
    Verified S A (fun s L => I s L ∧ Each (Concluded I Q) L) s0 where
  init := ⟨h.init, trivial⟩
  call s L w := by
    rintro ⟨hI, heach⟩ hfresh hA
    obtain ⟨hI', hout⟩ := h.call s L w hI hfresh hA
    exact ⟨⟨hI', each_concluded_cons heach (by simp)⟩,
      hout.concludes hfresh (.start w s L) fun a s L => h.done w a s L⟩
  env s L x := by
    rintro ⟨hI, heach⟩ hA
    exact ⟨h.env s L x hI hA, each_concluded_cons heach (by simp)⟩
  crash s L := by
    rintro ⟨hI, heach⟩ hA
    exact ⟨h.crash s L hI hA, each_concluded_cons heach (by simp)⟩

/-- What every operation satisfies is satisfied by those of a program. -/
theorem Prog.all_of_forall {P : Op → Prop} (h : ∀ o, P o) (p : Prog Op Reply α) : p.All P := by
  induction p with
  | ret a => trivial
  | op o k ih => exact ⟨h o, ih⟩

/-- The results of a sequence are those of its last part. -/
theorem Prog.results_bind {β : Type} {P : β → Prop} {f : α → Prog Op Reply β}
    (h : ∀ a, (f a).Results P) (p : Prog Op Reply α) : (p >>= f).Results P := by
  induction p with
  | ret a => exact h a
  | op o k ih => exact fun r => ih r

/-- What all operations of the programs satisfy is satisfied by those in the log. -/
theorem Reachable.ops_all {P : C → Op → Prop} (hall : ∀ q, (S.handle q).All (P q)) {s0 : σ}
    {c : Config Op Reply σ X C R} (hc : Reachable S A s0 c) :
    ∀ e ∈ c.log, ∀ w o r, e.event = .op w o r → P w.call o := by
  have hcons : ∀ {L : Log Op Reply σ X C R} {e : Entry Op Reply σ X C R},
      (∀ e ∈ L, ∀ w o r, e.event = .op w o r → P w.call o) →
      (∀ w o r, e.event = .op w o r → P w.call o) →
      ∀ e' ∈ e :: L, ∀ w o r, e'.event = .op w o r → P w.call o := by
    intro L e hL he e' he'
    rcases List.mem_cons.1 he' with rfl | he'
    · exact he
    · exact hL e' he'
  have hv : Verified S A (fun _ L => ∀ e ∈ L, ∀ w o r, e.event = .op w o r → P w.call o) s0 := by
    refine ⟨by simp, fun s L w hL _ _ => ⟨hcons hL (by simp), ?_⟩, fun s L x hL _ => hcons hL
      (by simp), fun s L hL _ => hcons hL (by simp)⟩
    refine (Outline.of_all (Prog.All.imp (fun o ho s L e hL _ => hcons hL ?_) (hall w.call)) _).imp
      fun _ _ _ _ s L _ hL _ => hcons hL (by simp)
    intro w' o' r hev
    obtain ⟨rfl, rfl, -⟩ := Event.op.inj hev
    exact ho
  exact hc.invariant hv

/-- A call is the first entry of its program. -/
theorem Reachable.fresh_call {s0 : σ} {c : Config Op Reply σ X C R} (hc : Reachable S A s0 c)
    {later before : Log Op Reply σ X C R} {s : σ} (hlog : c.log = later ++ ⟨s, .call w⟩ :: before) :
    Fresh w.tid before := by
  have hcons : ∀ {L : Log Op Reply σ X C R} {e : Entry Op Reply σ X C R},
      Each (fun e L => ∀ w, e.event = .call w → Fresh w.tid L) L → (∀ w, e.event ≠ .call w) →
      Each (fun e L => ∀ w, e.event = .call w → Fresh w.tid L) (e :: L) :=
    fun hL he => ⟨fun w hev => absurd hev (he w), hL⟩
  have hv : Verified S A (fun _ L => Each (fun e L => ∀ w, e.event = .call w →
      Fresh w.tid L) L) s0 := by
    refine ⟨trivial, fun s L w hL hfresh _ => ⟨⟨fun w' hev => ?_, hL⟩, ?_⟩, fun s L x hL _ =>
      hcons hL (by simp), fun s L hL _ => hcons hL (by simp)⟩
    · cases hev
      exact hfresh
    · exact (Outline.of_all (Prog.all_of_forall (fun o s L e hL _ => hcons hL (by simp)) _) _).imp
        fun _ _ _ _ s L _ hL _ => hcons hL (by simp)
  have heach := hc.invariant hv
  rw [hlog] at heach
  exact heach.append.1 w rfl

/-- The rule for results: a program that returned had come to its postcondition, which speaks of the
log that its call found, and the invariant held when it returned. -/
theorem Reachable.result {s0 : σ} (h : Answers S A I Q s0) {c : Config Op Reply σ X C R}
    (hc : Reachable S A s0 c) {later mid before : Log Op Reply σ X C R} {s s' : σ} {a : R}
    (hlog : c.log = later ++ ⟨s, .done w a⟩ :: (mid ++ ⟨s', .call w⟩ :: before)) :
    I s (mid ++ ⟨s', .call w⟩ :: before) ∧
      ∃ L, Others w.tid L (mid ++ ⟨s', .call w⟩ :: before) ∧ Q w before a L := by
  have heach := (hc.invariant h.verified).2
  rw [hlog] at heach
  obtain ⟨hI, hQ⟩ := heach.append.1 w a rfl
  exact ⟨hI, hQ mid s' before rfl⟩

end VirePortal.Concurrent
