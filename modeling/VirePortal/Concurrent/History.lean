import VirePortal.Concurrent.Turns

/-!
# Order in a log

A log holds its events with the last one first, so what happened before an entry is the rest of the
log behind it. `After` says that one kind of entry came after another, `Latest` that the last entry
of two kinds is of the first kind, and `NoneSince` that nothing bad came after the last start. The
three are connected by `latest_of_has` (an entry with no later reset is the latest) and
`Latest.of_append` (what came later can be dropped when it set nothing). `Each` says of every entry
that the log behind it justifies it.
-/

namespace VirePortal.Concurrent

variable {Op : Type} {Reply : Op → Type} {σ X C R : Type}
variable {a b start bad first second : Entry Op Reply σ X C R → Prop}
variable {L new : Log Op Reply σ X C R} {e e' : Entry Op Reply σ X C R}

/-- An entry with `second` came after an entry with `first`. -/
def After (first second : Entry Op Reply σ X C R → Prop) (L : Log Op Reply σ X C R) : Prop :=
  ∃ later e earlier, L = later ++ e :: earlier ∧ second e ∧ Has first earlier

/-- Of the entries with `a` or `b` the last one is with `a`. -/
def Latest (a b : Entry Op Reply σ X C R → Prop) : Log Op Reply σ X C R → Prop
  | [] => False
  | e :: L => a e ∨ (¬ b e ∧ Latest a b L)

/-- No entry with `bad` came after the last entry with `start`. -/
def NoneSince (start bad : Entry Op Reply σ X C R → Prop) : Log Op Reply σ X C R → Prop
  | [] => True
  | e :: L => start e ∨ (¬ bad e ∧ NoneSince start bad L)

/-- Every entry has `P` with the log behind it. -/
def Each (P : Entry Op Reply σ X C R → Log Op Reply σ X C R → Prop) : Log Op Reply σ X C R → Prop
  | [] => True
  | e :: L => P e L ∧ Each P L

/-- It holds of the earlier entries. -/
theorem Each.append {P : Entry Op Reply σ X C R → Log Op Reply σ X C R → Prop}
    (h : Each P (new ++ L)) :
    Each P L := by
  induction new with
  | nil => exact h
  | cons e new ih => exact ih h.2

/-- What justifies an entry of the log. -/
theorem Each.of_mem {P : Entry Op Reply σ X C R → Log Op Reply σ X C R → Prop} (h : Each P L)
    (he : e ∈ L) : ∃ later earlier, L = later ++ e :: earlier ∧ P e earlier := by
  obtain ⟨later, earlier, rfl⟩ := List.append_of_mem he
  exact ⟨later, earlier, rfl, h.append.1⟩

/-- What is assumed of every operation holds of every operation in the log. -/
theorem Reachable.each_op {E : Type} {S : System Op Reply σ E X C R}
    {A : Assumption Op Reply σ E X C R} {s0 : σ} {c : Config Op Reply σ X C R}
    (hc : Reachable S A s0 c) :
    Each (fun e L => ∀ w o r, e.event = .op w o r → ∃ x, A.op w o x e.pre L ∧
      r = (S.exec o x e.pre).1)
      c.log := by
  induction hc with
  | init => trivial
  | @step c l _ hl ih =>
    cases l with
    | call q => exact ⟨by simp, ih⟩
    | step tid x =>
      rcases ht : c.threads tid with _ | ⟨q, a | ⟨o, k⟩⟩
      · simp only [System.step, System.stepThread, ht]
        exact ih
      · simp only [System.step, System.stepThread, ht]
        exact ⟨by simp, ih⟩
      · simp only [Assumption.Allows, ht] at hl
        simp only [System.step, System.stepThread, ht]
        refine ⟨fun w o' r hev => ?_, ih⟩
        obtain ⟨rfl, rfl, hr⟩ := Event.op.inj hev
        exact ⟨x, hl, (eq_of_heq hr).symm⟩
    | env x => exact ⟨by simp, ih⟩
    | crash => exact ⟨by simp, ih⟩

/-- The order stays in a longer log. -/
theorem After.append (h : After first second L) (new : Log Op Reply σ X C R) :
    After first second (new ++ L) := by
  obtain ⟨later, e, earlier, rfl, he, hf⟩ := h
  exact ⟨new ++ later, e, earlier, by simp, he, hf⟩

/-- The first of the two happened. -/
theorem After.has_first (h : After first second L) : Has first L := by
  obtain ⟨later, e, earlier, rfl, -, ⟨e', he', hf⟩⟩ := h
  exact ⟨e', by simp [he'], hf⟩

/-- Nothing of the second kind is among the last `n` entries, and nothing of the first kind before
them. -/
theorem not_after_of_split (n : ℕ) (hlast : ∀ e ∈ L.take n, ¬ second e)
    (hrest : ∀ e ∈ L.drop n, ¬ first e) : ¬ After first second L := by
  rintro ⟨later, e, earlier, rfl, he, e', he', hf⟩
  by_cases hn : n ≤ later.length
  · refine hrest e' ?_ hf
    rw [List.drop_append_of_le_length hn]
    simp [he']
  · refine hlast e ?_ he
    rw [List.take_append, List.take_cons (by omega)]
    simp

/-- An entry with `a` that no entry with `b` follows is the latest. -/
theorem latest_of_has (h : Has a L) (hb : ¬ After a b L) : Latest a b L := by
  induction L with
  | nil => exact absurd h (has_nil a)
  | cons e L ih =>
    by_cases ha : a e
    · exact .inl ha
    · have hL : Has a L := (has_cons.1 h).resolve_left ha
      refine .inr ⟨fun hbe => hb ⟨[], e, L, rfl, hbe, hL⟩, ih hL fun haft => hb ?_⟩
      exact haft.append [e]

/-- An entry with `a` that came after a first one is the latest, when no entry with `b` did. -/
theorem latest_of_after (h : After first a L) (hb : ¬ After first b L) : Latest a b L := by
  obtain ⟨later, e, earlier, rfl, ha, hf⟩ := h
  induction later with
  | nil => exact .inl ha
  | cons x later ih =>
    have hfirst : Has first (later ++ e :: earlier) :=
      After.has_first ⟨later, e, earlier, rfl, ha, hf⟩
    refine .inr ⟨fun hbx => hb ⟨[], x, _, rfl, hbx, hfirst⟩, ih fun haft => hb ?_⟩
    exact haft.append [x]

/-- The latest of a wider class. -/
theorem Latest.mono {a' : Entry Op Reply σ X C R → Prop} (hsub : ∀ e, a e → a' e)
    (h : Latest a b L) : Latest a' b L := by
  induction L with
  | nil => exact h
  | cons e L ih =>
    rcases h with ha | ⟨hb, h⟩
    · exact .inl (hsub e ha)
    · exact .inr ⟨hb, ih h⟩

/-- The latest entry with `b` decides which of several kinds it is of. -/
theorem Latest.unique {ι : Type} {P : ι → Entry Op Reply σ X C R → Prop} {x y : ι}
    (hP : ∀ i e, P i e → b e) (hxy : ∀ e, P x e → P y e → x = y) (hx : Latest (P x) b L)
    (hy : Latest (P y) b L) : x = y := by
  induction L with
  | nil => exact hx.elim
  | cons e L ih =>
    rcases hx with hx | ⟨hb, hx⟩
    · rcases hy with hy | ⟨hb, -⟩
      · exact hxy e hx hy
      · exact absurd (hP x e hx) hb
    · rcases hy with hy | ⟨-, hy⟩
      · exact absurd (hP y e hy) hb
      · exact ih hx hy

/-- What is the latest stays so while nothing with `b` comes. -/
theorem Latest.append (hnew : ∀ e ∈ new, ¬ b e) (h : Latest a b L) : Latest a b (new ++ L) := by
  induction new with
  | nil => exact h
  | cons e new ih =>
    exact .inr ⟨hnew e (by simp), ih fun e' he' => hnew e' (by simp [he'])⟩

/-- What came later can be dropped when none of it is with `a`. -/
theorem Latest.of_append (hnew : ∀ e ∈ new, ¬ a e) (h : Latest a b (new ++ L)) : Latest a b L := by
  induction new with
  | nil => exact h
  | cons e new ih =>
    rcases h with ha | ⟨-, h⟩
    · exact absurd ha (hnew e (by simp))
    · exact ih (fun e' he' => hnew e' (by simp [he'])) h

/-- Since the last start nothing bad came, so what came after a log with no further start is not
bad. -/
theorem NoneSince.append (h : NoneSince start bad (new ++ L)) (hnew : ∀ e ∈ new, ¬ start e) :
    ∀ e ∈ new, ¬ bad e := by
  induction new with
  | nil => simp
  | cons x new ih =>
    rcases h with hs | ⟨hx, h⟩
    · exact absurd hs (hnew x (by simp))
    · intro e he
      rcases List.mem_cons.1 he with rfl | he
      · exact hx
      · exact ih h (fun e' he' => hnew e' (by simp [he'])) e he

/-- What an entry that occurs once came after is determined. -/
theorem AtMostOne.earlier_eq {P : Entry Op Reply σ X C R → Prop}
    {later later' earlier earlier' : Log Op Reply σ X C R}
    (h : AtMostOne P (later ++ e :: earlier))
    (heq : later ++ e :: earlier = later' ++ e' :: earlier') (he : P e) (he' : P e') :
    earlier = earlier' := by
  induction later generalizing later' with
  | nil =>
    cases later' with
    | nil => exact (List.cons.inj heq).2
    | cons x later' =>
      obtain ⟨-, rfl⟩ := List.cons.inj heq
      exact absurd ⟨e', by simp, he'⟩ ((atMostOne_cons.1 h).1 he)
  | cons y later ih =>
    cases later' with
    | nil =>
      obtain ⟨rfl, -⟩ := List.cons.inj heq
      exact absurd ⟨e, by simp, he⟩ ((atMostOne_cons.1 h).1 he')
    | cons x later' =>
      obtain ⟨-, heq⟩ := List.cons.inj heq
      exact ih (atMostOne_cons.1 h).2 heq

/-- An entry with `P` since the last crash. -/
def ThisLife (P : Entry Op Reply σ X C R → Prop) (L : Log Op Reply σ X C R) : Prop :=
  Latest (fun e => e.event ≠ .crash ∧ P e) (fun e => e.event = .crash) L

variable {P : Entry Op Reply σ X C R → Prop} {L' : Log Op Reply σ X C R}

/-- An entry since the last crash. -/
theorem thisLife_cons (he : e.event ≠ .crash) : ThisLife P (e :: L) ↔ P e ∨ ThisLife P L := by
  constructor
  · rintro (h | h)
    · exact .inl h.2
    · exact .inr h.2
  · rintro (h | h)
    · exact .inl ⟨he, h⟩
    · exact .inr ⟨he, h⟩

/-- After a crash nothing happened yet. -/
theorem not_thisLife_crash {s : σ} : ¬ ThisLife P (⟨s, .crash⟩ :: L) := by
  rintro (h | h)
  · exact h.1 rfl
  · exact h.1 rfl

/-- What holds of every entry holds of the one of this life. -/
theorem ThisLife.and_each {Q : Entry Op Reply σ X C R → Prop} (h : ThisLife P L)
    (hQ : Each (fun e _ => Q e) L) : ThisLife (fun e => P e ∧ Q e) L := by
  induction L with
  | nil => exact h
  | cons e L ih =>
    rcases h with ⟨he, hP⟩ | ⟨he, h⟩
    · exact .inl ⟨he, hP, hQ.1⟩
    · exact .inr ⟨he, ih h hQ.2⟩

/-- The entry of this life decides which of several kinds it is of. -/
theorem ThisLife.exists {ι : Type} {Q : ι → Entry Op Reply σ X C R → Prop} (h : ThisLife P L)
    (hQ : ∀ e, P e → ∃ i, Q i e) : ∃ i, ThisLife (Q i) L := by
  induction L with
  | nil => exact h.elim
  | cons e L ih =>
    rcases h with ⟨he, hP⟩ | ⟨he, h⟩
    · obtain ⟨i, hi⟩ := hQ e hP
      exact ⟨i, .inl ⟨he, hi⟩⟩
    · obtain ⟨i, hi⟩ := ih h
      exact ⟨i, .inr ⟨he, hi⟩⟩

/-- What happened in this life stays in it. -/
theorem ThisLife.extends (h : ThisLife P L) (hL : Extends L L') : ThisLife P L' := by
  obtain ⟨new, rfl, hnew⟩ := hL
  exact Latest.append hnew h

end VirePortal.Concurrent
