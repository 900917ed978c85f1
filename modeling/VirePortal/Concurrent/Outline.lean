import VirePortal.Concurrent.Pool

/-!
# Proof outlines of the programs of a pool

An invariant `I` of a pool relates the shared state to the log. `Outline` is the proof outline of
one program against it: every operation that the program comes to keeps `I`, whatever the other
programs did in between, and the result satisfies the program's postcondition. What a program knows
at a point of its code is a fact about the log at that point, and the log only grows while the
process lives, so the other programs cannot take it away.

`Reachable.invariant` is the rule that the developments over the pool use: when the start satisfies
`I`, the environment's events and a crash keep it, and the program of every call has an outline,
then every reachable configuration satisfies `I`. Outlines compose along `>>=` (`outline_bind`), so
the outline of a function is proved once and used at its calls.
-/

namespace VirePortal.Concurrent

variable {Op : Type} {Reply : Op → Type} {σ E X C R : Type} {α β : Type}
variable (S : System Op Reply σ E X C R) (A : Assumption Op Reply σ E X C R)
variable (I : σ → Log Op Reply σ X C R → Prop)

/-- The log entry of operation `o` of program `w` at the state `s`. -/
abbrev System.entry (w : Caller C) (o : Op) (e : E) (s : σ) : Entry Op Reply σ X C R :=
  ⟨s, .op w o (S.exec o e s).1⟩

/-- Operation `o` of program `w` keeps `I` with no knowledge of the program. -/
def Keeps (w : Caller C) (o : Op) : Prop :=
  ∀ s L e, I s L → A.op w o e s L → I (S.exec o e s).2 (S.entry w o e s :: L)

/-- The outline of program `w` from the log `L`, with postcondition `Q`. -/
def Outline (w : Caller C) (Q : α → Log Op Reply σ X C R → Prop) :
    Prog Op Reply α → Log Op Reply σ X C R → Prop
  | .ret a, L => Q a L
  | .op o k, L => ∀ s L' e, Others w.tid L L' → I s L' → A.op w o e s L' →
      I (S.exec o e s).2 (S.entry w o e s :: L') ∧
        Outline w Q (k (S.exec o e s).1) (S.entry w o e s :: L')

/-- The postcondition of a whole program: whenever it returns `a`, the entry of its return keeps
`I`. -/
def Delivers (w : Caller C) (a : R) (L : Log Op Reply σ X C R) : Prop :=
  ∀ s L', Others w.tid L L' → I s L' → A.done w a s L' → I s (⟨s, .done w a⟩ :: L')

variable {S A I} {w : Caller C}

variable {L L' : Log Op Reply σ X C R} {Q : α → Log Op Reply σ X C R → Prop} {p : Prog Op Reply α}
variable {c : Config Op Reply σ X C R}

/-- A return has the postcondition. -/
@[simp]
theorem outline_pure {a : α} :
    Outline S A I w Q (pure a) L ↔ Q a L := Iff.rfl

/-- The outline of a sequence is the outline of its first part, with the outline of the rest as its
postcondition. -/
theorem outline_bind {Q : β → Log Op Reply σ X C R → Prop} {f : α → Prog Op Reply β} :
    Outline S A I w Q (p >>= f) L ↔
      Outline S A I w (fun a L' => Outline S A I w Q (f a) L') p L := by
  induction p generalizing L with
  | ret a => exact Iff.rfl
  | op o k ih =>
    refine forall₃_congr fun s L' e => forall₃_congr fun _ _ _ => and_congr_right fun _ => ?_
    exact ih _

/-- The outline of one operation. -/
theorem outline_call {o : Op} {Q : Reply o → Log Op Reply σ X C R → Prop} :
    Outline S A I w Q (.call o) L ↔ ∀ s L' e, Others w.tid L L' → I s L' → A.op w o e s L' →
      I (S.exec o e s).2 (S.entry w o e s :: L') ∧
        Q (S.exec o e s).1 (S.entry w o e s :: L') := Iff.rfl

/-- The outline of a program that starts with an operation. -/
theorem outline_step {o : Op} {Q : β → Log Op Reply σ X C R → Prop}
    {f : Reply o → Prog Op Reply β} :
    Outline S A I w Q (.call o >>= f) L ↔ ∀ s L' e, Others w.tid L L' → I s L' → A.op w o e s L' →
      I (S.exec o e s).2 (S.entry w o e s :: L') ∧
        Outline S A I w Q (f (S.exec o e s).1) (S.entry w o e s :: L') := Iff.rfl

/-- What a program knows before its operation it knows after it. -/
theorem System.entry_extends (S : System Op Reply σ E X C R) {w : Caller C} (h : Others w.tid L L')
    (o : Op) (e : E) (s : σ) :
    Extends L (S.entry w o e s :: L') :=
  h.extends.cons _ (by simp)

/-- The outline of an operation that keeps `I` by itself needs only its postcondition. -/
theorem Keeps.outline {o : Op} (ho : Keeps S A I w o) {Q : Reply o → Log Op Reply σ X C R → Prop}
    (h : ∀ s L' e, Others w.tid L L' → I s L' → A.op w o e s L' →
      Q (S.exec o e s).1 (S.entry w o e s :: L')) :
    Outline S A I w Q (.call o) L :=
  outline_call.2 fun s L' e hL hI hA => ⟨ho s L' e hI hA, h s L' e hL hI hA⟩

/-- The outline of a program that starts with such an operation. -/
theorem Keeps.bind {o : Op} (ho : Keeps S A I w o) {Q : β → Log Op Reply σ X C R → Prop}
    {f : Reply o → Prog Op Reply β}
    (h : ∀ s L' e, Others w.tid L L' → I s L' → A.op w o e s L' →
      Outline S A I w Q (f (S.exec o e s).1) (S.entry w o e s :: L')) :
    Outline S A I w Q (.call o >>= f) L :=
  outline_bind.2 (ho.outline h)

/-- A weaker postcondition, at the logs that the program can end with. -/
theorem Outline.imp {Q' : α → Log Op Reply σ X C R → Prop} (h : Outline S A I w Q p L)
    (hQ : ∀ a L', Extends L L' → Q a L' → Q' a L') : Outline S A I w Q' p L := by
  induction p generalizing L with
  | ret a => exact hQ a L (Extends.refl L) h
  | op o k ih =>
    intro s L' e hL hI hA
    obtain ⟨hI', hk⟩ := h s L' e hL hI hA
    have hext := S.entry_extends hL o e s
    exact ⟨hI', ih _ hk fun a L'' hL'' => hQ a L'' (hext.trans hL'')⟩

/-- The outline of a sequence, from the outlines of its parts. -/
theorem Outline.bind {Q' : β → Log Op Reply σ X C R → Prop} {f : α → Prog Op Reply β}
    (h : Outline S A I w Q p L) (hf : ∀ a L', Extends L L' → Q a L' → Outline S A I w Q' (f a) L') :
    Outline S A I w Q' (p >>= f) L :=
  outline_bind.2 (h.imp hf)

/-- What holds of every result holds of the result of an outline. -/
theorem Outline.and_results {P : α → Prop} (h : Outline S A I w Q p L) (hp : p.Results P) :
    Outline S A I w (fun a L' => Q a L' ∧ P a) p L := by
  induction p generalizing L with
  | ret a => exact ⟨h, hp⟩
  | op o k ih =>
    intro s L' e hL hI hA
    obtain ⟨hI', hk⟩ := h s L' e hL hI hA
    exact ⟨hI', ih _ hk (hp _)⟩

/-- An outline survives the events of others when its postcondition does. -/
theorem Outline.mono (hQ : ∀ a, ∀ {L L'}, Others w.tid L L' → Q a L → Q a L')
    (hL : Others w.tid L L') (h : Outline S A I w Q p L) : Outline S A I w Q p L' := by
  cases p with
  | ret a => exact hQ a hL h
  | op o k => exact fun s L'' e hL' hI hA => h s L'' e (hL.trans hL') hI hA

/-- A program that knows `K`, whose operations all keep `I` with that knowledge: the knowledge is
about the log, so it stays. -/
theorem Outline.of_all_knowing {K : Log Op Reply σ X C R → Prop}
    (hK : ∀ {L L'}, Extends L L' → K L → K L')
    (h : p.All fun o => ∀ s L e, K L → I s L → A.op w o e s L →
      I (S.exec o e s).2 (S.entry w o e s :: L))
    (hL : K L) : Outline S A I w (fun _ => K) p L := by
  induction p generalizing L with
  | ret a => exact hL
  | op o k ih =>
    intro s L' e hL' hI hA
    have hknown : K L' := hK hL'.extends hL
    exact ⟨h.1 s L' e hknown hI hA, ih _ (h.2 _) (hK (S.entry_extends hL' o e s) hL)⟩

/-- A program whose operations all keep `I` by themselves has an outline with no postcondition. -/
theorem Outline.of_all (h : p.All (Keeps S A I w)) (L : Log Op Reply σ X C R) :
    Outline S A I w (fun _ _ => True) p L :=
  Outline.of_all_knowing (fun _ _ => trivial) (h.imp fun _ ho s L e _ => ho s L e) trivial

/-- The answer can be delivered later. -/
theorem Delivers.mono {a : R} (hL : Others w.tid L L') (h : Delivers A I w a L) :
    Delivers A I w a L' :=
  fun s L'' hL' hI hA => h s L'' (hL.trans hL') hI hA

variable (S A I)

/-- What makes `I` an invariant of the runs from `s0`. -/
structure Verified (s0 : σ) : Prop where
  /-- The start satisfies `I`. -/
  init : I s0 []
  /-- A call keeps `I`, and its program has an outline from there. -/
  call : ∀ s L (w : Caller C), I s L → Fresh w.tid L → A.call w.call s L →
    I s (⟨s, .call w⟩ :: L) ∧
      Outline S A I w (Delivers A I w) (S.handle w.call) (⟨s, .call w⟩ :: L)
  /-- An event of the environment keeps `I`. -/
  env : ∀ s L x, I s L → A.env x s L → I (S.env x s) (⟨s, .env x⟩ :: L)
  /-- A crash keeps `I`. -/
  crash : ∀ s L, I s L → A.crash s L → I (S.crash s) (⟨s, .crash⟩ :: L)

variable {S A I}

/-- What a run carries: the invariant, an outline of every running program, and numbers of programs
below `next`. -/
structure Verified.Carries (S : System Op Reply σ E X C R) (A : Assumption Op Reply σ E X C R)
    (I : σ → Log Op Reply σ X C R → Prop) (c : Config Op Reply σ X C R) : Prop where
  /-- The invariant. -/
  inv : I c.state c.log
  /-- Every running program has an outline from the present log. -/
  threads : ∀ tid q p, c.threads tid = some (q, p) →
    Outline S A I ⟨tid, q⟩ (Delivers A I ⟨tid, q⟩) p c.log
  /-- The events so far belong to programs below `next`. -/
  below : ∀ e ∈ c.log, ∀ tid, e.event.thread = some tid → tid < c.next
  /-- The running programs are below `next`. -/
  running : ∀ tid, c.threads tid ≠ none → tid < c.next

/-- The other programs' outlines survive one more event of the same process. -/
theorem Verified.Carries.others (h : Verified.Carries S A I c) (e : Entry Op Reply σ X C R)
    (he : e.event ≠ .crash) {tid : ℕ} (ht : e.event.thread ≠ some tid) {q : C} {p : Prog Op Reply R}
    (hp : c.threads tid = some (q, p)) :
    Outline S A I ⟨tid, q⟩ (Delivers A I ⟨tid, q⟩) p (e :: c.log) :=
  (h.threads tid q p hp).mono (fun _ _ _ => Delivers.mono) ⟨[e], rfl, by simp [he, ht]⟩

/-- One event of program `tid` that leaves it with `p'` (or ends it) carries, when the new state
satisfies the invariant and `p'` has an outline. -/
theorem Verified.Carries.advance (h : Verified.Carries S A I c) {tid next : ℕ} (hn : c.next ≤ next)
    (htid : tid < next) {s : σ} {p' : Option (C × Prog Op Reply R)} {e : Entry Op Reply σ X C R}
    (he : e.event.thread = some tid) (hI : I s (e :: c.log))
    (hp' : ∀ q p, p' = some (q, p) → Outline S A I ⟨tid, q⟩ (Delivers A I ⟨tid, q⟩) p
      (e :: c.log)) :
    Verified.Carries S A I ⟨s, Function.update c.threads tid p', next, e :: c.log⟩ := by
  have hcrash : e.event ≠ .crash := by rintro hc; simp [hc, Event.thread, Event.caller] at he
  refine ⟨hI, forall_update hp' fun tid' q p heq hp => ?_, fun e' he' tid' ht => ?_,
    fun tid' ht => ?_⟩
  · exact h.others e hcrash (by simpa [he] using Ne.symm heq) hp
  · dsimp only
    rcases List.mem_cons.1 he' with rfl | he'
    · rw [he, Option.some.injEq] at ht
      exact ht ▸ htid
    · exact (h.below e' he' tid' ht).trans_le hn
  · dsimp only at ht ⊢
    by_cases heq : tid' = tid
    · exact heq ▸ htid
    · rw [Function.update_of_ne heq] at ht
      exact (h.running tid' ht).trans_le hn

/-- A step of a running program carries. -/
theorem Verified.carries_stepThread (h : Verified.Carries S A I c) (tid : ℕ) (e : E)
    (hA : A.Allows c (.step tid e)) :
    Verified.Carries S A I (S.stepThread c tid e) := by
  unfold System.stepThread
  split
  · exact h
  · rename_i q a ha
    simp only [Assumption.Allows, ha] at hA
    have hI := h.threads tid q _ ha c.state c.log (Others.refl _ _) h.inv hA
    exact h.advance le_rfl (h.running tid (by simp [ha])) rfl hI (by simp)
  · rename_i q o k hk
    simp only [Assumption.Allows, hk] at hA
    obtain ⟨hI, hnext⟩ := h.threads tid q _ hk c.state c.log e (Others.refl _ _) h.inv hA
    refine h.advance le_rfl (h.running tid (by simp [hk])) rfl hI fun q' p hp => ?_
    obtain ⟨rfl, rfl⟩ : q = q' ∧ _ = p := by simpa using hp
    exact hnext

/-- A call carries: its program starts with the outline that `Verified` gives. -/
theorem Verified.carries_call {s0 : σ} (hv : Verified S A I s0) (h : Verified.Carries S A I c)
    (a : C) (hA : A.call a c.state c.log) :
    Verified.Carries S A I (S.step c (.call a)) := by
  have hfresh : Fresh c.next c.log := fun e he ht => (h.below e he _ ht).false
  obtain ⟨hI, hp⟩ := hv.call c.state c.log ⟨c.next, a⟩ h.inv hfresh hA
  refine h.advance (Nat.le_succ _) (Nat.lt_succ_self _) rfl hI fun q p hp' => ?_
  obtain ⟨rfl, rfl⟩ : a = q ∧ S.handle a = p := by simpa using hp'
  exact hp

/-- Every configuration that a run reaches carries the invariant and the outlines. -/
theorem Reachable.carries {s0 : σ} (hv : Verified S A I s0) (hc : Reachable S A s0 c) :
    Verified.Carries S A I c := by
  induction hc with
  | init => exact ⟨hv.init, by simp [Config.init], by simp [Config.init], by simp [Config.init]⟩
  | @step c l _ hl ih =>
    cases l with
    | call a => exact hv.carries_call ih a hl
    | step tid e => exact Verified.carries_stepThread ih tid e hl
    | env x =>
      refine ⟨hv.env _ _ x ih.inv hl, fun tid q p hp => ?_, ?_, ih.running⟩
      · exact ih.others _ (by simp) (by simp [Event.thread, Event.caller]) hp
      intro e he tid ht
      rcases List.mem_cons.1 he with rfl | he
      · simp [Event.thread, Event.caller] at ht
      · exact ih.below e he tid ht
    | crash =>
      refine ⟨hv.crash _ _ ih.inv hl, by simp [System.step], ?_, by simp [System.step]⟩
      intro e he tid ht
      rcases List.mem_cons.1 he with rfl | he
      · simp [Event.thread, Event.caller] at ht
      · exact ih.below e he tid ht

/-- The invariant rule: `I` holds in every configuration that the runs reach. -/
theorem Reachable.invariant {s0 : σ} (hv : Verified S A I s0) (hc : Reachable S A s0 c) :
    I c.state c.log :=
  (hc.carries hv).inv

/-- Every event of a run found the invariant, at its state and the log behind it. -/
theorem Reachable.invariant_before {s0 : σ} (hv : Verified S A I s0) (hc : Reachable S A s0 c)
    {later earlier : Log Op Reply σ X C R} {e : Entry Op Reply σ X C R}
    (hlog : c.log = later ++ e :: earlier) : I e.pre earlier := by
  induction hc generalizing later with
  | init => simp [Config.init] at hlog
  | @step c l hc _ ih =>
    rcases S.step_log c l with hsame | ⟨ev, hcons⟩
    · exact ih (hsame ▸ hlog)
    · rw [hcons] at hlog
      cases later with
      | nil =>
        obtain ⟨rfl, rfl⟩ := List.cons.inj hlog
        exact hc.invariant hv
      | cons _ later => exact ih (List.cons.inj hlog).2

end VirePortal.Concurrent
