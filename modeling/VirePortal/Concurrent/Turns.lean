import VirePortal.Concurrent.Outline

/-!
# Taking turns at a key

Many programs find a record, act on it and remove it, each in several operations. When the programs
of one key take turns, that is when none of them looks the record up while another one is between
its lookup and its end, at most one of them acts on it. `Turn` names the operations of such a
program, and `Turn.Ordered` is what the log then satisfies. It is kept by every entry that respects
the turns (`Turn.Ordered.step`), and a program that has found the record and is not at its end knows
that nobody removed it (`Turn.Ordered.not_removed`).

What a program knows about itself along the way is one of `Turn.Idle`, `Turn.Ready`, `Turn.Acted`
and `Turn.Finished`. These are facts about its own entries, so they survive what others do.
-/

namespace VirePortal.Concurrent

variable {Op : Type} {Reply : Op → Type} {σ X C R K : Type}

/-- No two entries of the log satisfy `P`. -/
def AtMostOne (P : Entry Op Reply σ X C R → Prop) (L : Log Op Reply σ X C R) : Prop :=
  L.Pairwise fun e e' => ¬ (P e ∧ P e')

/-- Nothing happened twice. -/
theorem atMostOne_nil (P : Entry Op Reply σ X C R → Prop) : AtMostOne P [] := List.Pairwise.nil

variable {P : Entry Op Reply σ X C R → Prop} {L : Log Op Reply σ X C R}

/-- The last entry is the first of its kind. -/
theorem atMostOne_cons {e : Entry Op Reply σ X C R} :
    AtMostOne P (e :: L) ↔ (P e → ¬ Has P L) ∧ AtMostOne P L := by
  unfold AtMostOne Has
  rw [List.pairwise_cons]
  refine and_congr_left fun _ => ?_
  constructor
  · rintro h hP ⟨e', he', hP'⟩
    exact h e' he' ⟨hP, hP'⟩
  · intro h e' he' hP
    exact h hP.1 ⟨e', he', hP.2⟩

/-- Two entries with `P` are one. -/
theorem AtMostOne.eq (h : AtMostOne P L) {e e' : Entry Op Reply σ X C R} (he : e ∈ L) (he' : e' ∈ L)
    (hP : P e) (hP' : P e') : e = e' := by
  induction L with
  | nil => simp at he
  | cons x L ih =>
    rw [atMostOne_cons] at h
    rcases List.mem_cons.1 he with hx | hin
    · rcases List.mem_cons.1 he' with hx' | hin'
      · exact hx.trans hx'.symm
      · exact absurd ⟨e', hin', hP'⟩ (h.1 (hx ▸ hP))
    · rcases List.mem_cons.1 he' with hx' | hin'
      · exact absurd ⟨e, hin, hP⟩ (h.1 (hx' ▸ hP'))
      · exact ih h.2 hin hin'

/-- The entries of a program that finds, acts on and removes the record of a key. -/
structure Turn (Op : Type) (Reply : Op → Type) (σ X C R K : Type) where
  /-- The key of a program. -/
  key : Caller C → K
  /-- It looks its key up. -/
  enter : Caller C → Entry Op Reply σ X C R → Prop
  /-- It finds the record. -/
  find : Caller C → Entry Op Reply σ X C R → Prop
  /-- It acts on the record. -/
  act : Caller C → Entry Op Reply σ X C R → Prop
  /-- It removes the record. -/
  remove : Caller C → Entry Op Reply σ X C R → Prop
  /-- It returns. -/
  ret : Caller C → Entry Op Reply σ X C R → Prop
  /-- It returns a success. -/
  win : Caller C → Entry Op Reply σ X C R → Prop
  enter_caller : ∀ w e, enter w e → e.event.caller = some w
  find_caller : ∀ w e, find w e → e.event.caller = some w
  act_caller : ∀ w e, act w e → e.event.caller = some w
  remove_caller : ∀ w e, remove w e → e.event.caller = some w
  ret_caller : ∀ w e, ret w e → e.event.caller = some w
  win_ret : ∀ w e, win w e → ret w e
  act_ret : ∀ w e, act w e → ¬ ret w e

namespace Turn

variable (T : Turn Op Reply σ X C R K)

/-- The program is at its end: it removed the record or returned. -/
def leave (w : Caller C) (e : Entry Op Reply σ X C R) : Prop := T.remove w e ∨ T.ret w e

/-- The program has looked its key up and is not at its end. -/
def Busy (w : Caller C) (L : Log Op Reply σ X C R) : Prop := Has (T.enter w) L ∧ ¬ Has (T.leave w) L

/-- The entry is an act on the record of the key. -/
def actsAt (k : K) (e : Entry Op Reply σ X C R) : Prop := ∃ w, T.key w = k ∧ T.act w e

/-- The entry is a success for the key. -/
def winsAt (k : K) (e : Entry Op Reply σ X C R) : Prop := ∃ w, T.key w = k ∧ T.win w e

/-- The programs of each key took turns. -/
structure Ordered (L : Log Op Reply σ X C R) : Prop where
  /-- At most one program of a key is busy. -/
  exclusive : ∀ w w', T.key w = T.key w' → T.Busy w L → T.Busy w' L → w = w'
  /-- A program that found the record looked it up. -/
  entered : ∀ w, Has (T.find w) L → Has (T.enter w) L
  /-- When the record is removed, the programs that found it are at their end. -/
  gone : ∀ w w', T.key w = T.key w' → Has (T.remove w) L → Has (T.find w') L → Has (T.leave w') L
  /-- A program that acted removed the record, or is about to. -/
  acted : ∀ w, Has (T.act w) L → Has (T.remove w) L ∨ T.Busy w L
  /-- A program that succeeded acted. -/
  won : ∀ w, Has (T.win w) L → Has (T.act w) L
  oneAct : ∀ k, AtMostOne (T.actsAt k) L
  oneWin : ∀ k, AtMostOne (T.winsAt k) L

/-- The program has neither acted nor ended. -/
structure Idle (w : Caller C) (L : Log Op Reply σ X C R) : Prop where
  noAct : ¬ Has (T.act w) L
  inside : ¬ Has (T.leave w) L

/-- The program found its record, and has neither acted nor ended. -/
structure Ready (w : Caller C) (L : Log Op Reply σ X C R) : Prop extends T.Idle w L where
  found : Has (T.find w) L

/-- The program acted and has not removed the record yet. -/
structure Acted (w : Caller C) (L : Log Op Reply σ X C R) : Prop where
  found : Has (T.find w) L
  act : Has (T.act w) L
  inside : ¬ Has (T.leave w) L

/-- What a program knows when it returns: if it acted then it removed the record, and a success
comes with an act. -/
structure Finished (w : Caller C) (won : Prop) (L : Log Op Reply σ X C R) : Prop where
  removed : Has (T.act w) L → Has (T.remove w) L
  act : won → Has (T.act w) L
  running : ¬ Has (T.ret w) L

variable {T} {L L' : Log Op Reply σ X C R} {w w' : Caller C}

/-- The empty log is ordered. -/
theorem ordered_nil : T.Ordered ([] : Log Op Reply σ X C R) := by
  refine ⟨by simp [Busy], by simp, by simp, by simp, by simp, fun k => ?_, fun k => ?_⟩
  · exact atMostOne_nil _
  · exact atMostOne_nil _

variable {e : Entry Op Reply σ X C R} {won : Prop}

/-- A program leaves by itself. -/
theorem leave_caller (h : T.leave w e) : e.event.caller = some w :=
  h.elim (T.remove_caller w e) (T.ret_caller w e)

/-- The thread of a caller. -/
theorem thread_of_caller (h : e.event.caller = some w) :
    e.event.thread = some w.tid := by
  rw [Event.thread, h]
  rfl

/-- Two programs that an entry belongs to are one. -/
theorem caller_unique (h : e.event.caller = some w) (h' : e.event.caller = some w') : w = w' :=
  Option.some.inj (h.symm.trans h')

/-- A program that found the record and is not at its end knows that nobody removed it. -/
theorem Ordered.not_removed (h : T.Ordered L) (hf : Has (T.find w) L) (hl : ¬ Has (T.leave w) L)
    (hk : T.key w' = T.key w) : ¬ Has (T.remove w') L :=
  fun hr => hl (h.gone w' w hk hr hf)

/-- Two programs that acted on the record of one key are one. -/
theorem Ordered.same_actor (h : T.Ordered L) (hk : T.key w = T.key w') (hw : Has (T.act w) L)
    (hw' : Has (T.act w') L) : w = w' := by
  obtain ⟨e, he, hact⟩ := hw
  obtain ⟨e', he', hact'⟩ := hw'
  have heq := (h.oneAct (T.key w')).eq he he' ⟨w, hk, hact⟩ ⟨w', rfl, hact'⟩
  exact caller_unique (T.act_caller w e hact) (heq ▸ T.act_caller w' e' hact')

section Step

variable {e : Entry Op Reply σ X C R}

/-- A program that is busy has entered. -/
theorem Busy.of_cons (h : T.Busy w (e :: L)) : T.enter w e ∨ T.Busy w L := by
  obtain ⟨hin, hout⟩ := h
  rw [has_cons, not_or] at hout
  rcases has_cons.1 hin with hin | hin
  · exact .inl hin
  · exact .inr ⟨hin, hout.2⟩

/-- A busy program stays busy when it neither removes the record nor returns. -/
theorem Busy.cons (h : T.Busy w L) (hremove : ¬ T.remove w e) (hret : ¬ T.ret w e) :
    T.Busy w (e :: L) := by
  refine ⟨has_cons.2 (.inr h.1), ?_⟩
  rw [has_cons, not_or]
  exact ⟨fun hl => hl.elim hremove hret, h.2⟩

/-- A program that is ready is busy. -/
theorem Ordered.ready_busy (h : T.Ordered L) (hw : T.Ready w L) : T.Busy w L :=
  ⟨h.entered w hw.found, hw.inside⟩

/-- A program enters when no other is busy. -/
theorem Ordered.exclusive_cons (h : T.Ordered L)
    (henter : ∀ w, T.enter w e → ∀ w', T.key w' = T.key w → Has (T.enter w') L → Has (T.leave w') L)
    (hk : T.key w = T.key w') (hw : T.Busy w (e :: L)) (hw' : T.Busy w' (e :: L)) : w = w' := by
  -- A busy program of the key of one that enters would have to be at its end.
  have hlone : ∀ w w', T.key w = T.key w' → T.enter w e → ¬ T.Busy w' L := by
    intro w w' hk hw hw'
    exact hw'.2 (henter w hw w' hk.symm hw'.1)
  rcases hw.of_cons with hin | hin
  · rcases hw'.of_cons with hin' | hin'
    · exact caller_unique (T.enter_caller w e hin) (T.enter_caller w' e hin')
    · exact absurd hin' (hlone w w' hk hin)
  · rcases hw'.of_cons with hin' | hin'
    · exact absurd hin (hlone w' w hk.symm hin')
    · exact h.exclusive w w' hk hin hin'

/-- What was removed is not found. -/
theorem Ordered.gone_cons (h : T.Ordered L)
    (hfind : ∀ w, T.find w e → ∀ w', T.key w' = T.key w → ¬ Has (T.remove w') L)
    (hremove : ∀ w, T.remove w e → T.Busy w L) (hk : T.key w = T.key w')
    (hw : Has (T.remove w) (e :: L)) (hw' : Has (T.find w') (e :: L)) :
    Has (T.leave w') (e :: L) := by
  rw [has_cons] at hw hw' ⊢
  rcases hw with hw | hw
  · rcases hw' with hw' | hw'
    · -- One entry finds and removes: its program is at its end.
      rw [caller_unique (T.find_caller w' e hw') (T.remove_caller w e hw)]
      exact .inl (.inl hw)
    · by_cases hl : Has (T.leave w') L
      · exact .inr hl
      · have hww' := h.exclusive w w' hk (hremove w hw) ⟨h.entered w' hw', hl⟩
        exact .inl (.inl (hww' ▸ hw))
  · rcases hw' with hw' | hw'
    · exact absurd hw (hfind w' hw' w hk)
    · exact .inr (h.gone w w' hk hw hw')

/-- A program that acted removes or is busy. -/
theorem Ordered.acted_cons (h : T.Ordered L) (hact : ∀ w, T.act w e → T.Ready w L)
    (hret : ∀ w, T.ret w e → T.Finished w (T.win w e) L) (hw : Has (T.act w) (e :: L)) :
    Has (T.remove w) (e :: L) ∨ T.Busy w (e :: L) := by
  rw [has_cons]
  by_cases hrem : T.remove w e
  · exact .inl (.inl hrem)
  · rcases has_cons.1 hw with hw | hw
    · -- The program acts now, in its turn, and does not return at once.
      exact .inr ((h.ready_busy (hact w hw)).cons hrem (T.act_ret w e hw))
    · rcases h.acted w hw with hd | hb
      · exact .inl (.inr hd)
      · by_cases hr : T.ret w e
        · exact .inl (.inr ((hret w hr).removed hw))
        · exact .inr (hb.cons hrem hr)

/-- The second act does not come. -/
theorem Ordered.oneAct_cons (h : T.Ordered L) (hact : ∀ w, T.act w e → T.Ready w L) (k : K) :
    AtMostOne (T.actsAt k) (e :: L) := by
  refine atMostOne_cons.2 ⟨?_, h.oneAct k⟩
  rintro ⟨w, hk, hw⟩ ⟨e', he', w', hk', hw'⟩
  have hready := hact w hw
  have hkey : T.key w' = T.key w := hk'.trans hk.symm
  rcases h.acted w' ⟨e', he', hw'⟩ with hd | hb
  · exact h.not_removed hready.found hready.inside hkey hd
  · have heq := h.exclusive w' w hkey hb (h.ready_busy hready)
    exact hready.noAct (heq ▸ ⟨e', he', hw'⟩)

/-- The second success does not come. -/
theorem Ordered.oneWin_cons (h : T.Ordered L) (hret : ∀ w, T.ret w e → T.Finished w (T.win w e) L)
    (k : K) : AtMostOne (T.winsAt k) (e :: L) := by
  refine atMostOne_cons.2 ⟨?_, h.oneWin k⟩
  rintro ⟨w, hk, hw⟩ ⟨e', he', w', hk', hw'⟩
  -- Both programs acted on the record of the key, so they are one, which returns only once.
  have hfin := hret w (T.win_ret w e hw)
  have heq := h.same_actor (hk'.trans hk.symm) (h.won w' ⟨e', he', hw'⟩) (hfin.act hw)
  exact hfin.running ⟨e', he', heq ▸ T.win_ret w' e' hw'⟩

end Step

/-- An entry keeps the turns when it looks a key up only after the others of the key ended, finds a
record only when nobody removed it, acts and removes only in its turn, and returns as a finished
program does. -/
theorem Ordered.step (h : T.Ordered L) (e : Entry Op Reply σ X C R)
    (henter : ∀ w, T.enter w e → ∀ w', T.key w' = T.key w → Has (T.enter w') L →
      Has (T.leave w') L)
    (hfind : ∀ w, T.find w e → (T.enter w e ∨ Has (T.enter w) L) ∧
      ∀ w', T.key w' = T.key w → ¬ Has (T.remove w') L)
    (hact : ∀ w, T.act w e → T.Ready w L) (hremove : ∀ w, T.remove w e → T.Busy w L)
    (hret : ∀ w, T.ret w e → T.Finished w (T.win w e) L) : T.Ordered (e :: L) where
  exclusive _ _ := h.exclusive_cons henter
  entered w hw := by
    rw [has_cons] at hw ⊢
    rcases hw with hw | hw
    · exact (hfind w hw).1
    · exact .inr (h.entered w hw)
  gone _ _ := h.gone_cons (fun w hw => (hfind w hw).2) hremove
  acted _ := h.acted_cons hact hret
  won w hw := by
    rw [has_cons]
    rcases has_cons.1 hw with hw | hw
    · exact .inr ((hret w (T.win_ret w e hw)).act hw)
    · exact .inr (h.won w hw)
  oneAct := h.oneAct_cons hact
  oneWin := h.oneWin_cons hret

/-- The same for an entry of the program `w`, which is nobody else's. -/
theorem Ordered.own (h : T.Ordered L) (hw : e.event.caller = some w)
    (henter : T.enter w e → ∀ w', T.key w' = T.key w → Has (T.enter w') L → Has (T.leave w') L)
    (hfind : T.find w e → (T.enter w e ∨ Has (T.enter w) L) ∧ ∀ w', T.key w' = T.key w →
      ¬ Has (T.remove w') L)
    (hact : T.act w e → T.Ready w L) (hremove : T.remove w e → T.Busy w L)
    (hret : T.ret w e → T.Finished w (T.win w e) L) : T.Ordered (e :: L) := by
  refine h.step e (fun w' hw' => ?_) (fun w' hw' => ?_) (fun w' hw' => ?_) (fun w' hw' => ?_)
    fun w' hw' => ?_
  · obtain rfl := caller_unique hw (T.enter_caller w' e hw')
    exact henter hw'
  · obtain rfl := caller_unique hw (T.find_caller w' e hw')
    exact hfind hw'
  · obtain rfl := caller_unique hw (T.act_caller w' e hw')
    exact hact hw'
  · obtain rfl := caller_unique hw (T.remove_caller w' e hw')
    exact hremove hw'
  · obtain rfl := caller_unique hw (T.ret_caller w' e hw')
    exact hret hw'

variable (T) in
/-- The entry is no operation of a turn. -/
def Silent (e : Entry Op Reply σ X C R) : Prop :=
  ∀ w, ¬ T.enter w e ∧ ¬ T.find w e ∧ ¬ T.act w e ∧ ¬ T.remove w e ∧ ¬ T.ret w e

section Silent

variable {e : Entry Op Reply σ X C R}

/-- An entry of nobody is silent. -/
theorem silent_of_caller (h : e.event.caller = none) : T.Silent e := by
  intro w
  have hnot : ¬ e.event.caller = some w := by simp [h]
  exact ⟨fun hw => hnot (T.enter_caller w e hw), fun hw => hnot (T.find_caller w e hw),
    fun hw => hnot (T.act_caller w e hw), fun hw => hnot (T.remove_caller w e hw),
    fun hw => hnot (T.ret_caller w e hw)⟩

/-- A silent entry acts on nothing. -/
theorem Silent.not_act (he : T.Silent e) (w : Caller C) : ¬ T.act w e := (he w).2.2.1

/-- A silent entry removes nothing. -/
theorem Silent.not_remove (he : T.Silent e) (w : Caller C) : ¬ T.remove w e := (he w).2.2.2.1

/-- A silent entry is no return. -/
theorem Silent.not_ret (he : T.Silent e) (w : Caller C) : ¬ T.ret w e := (he w).2.2.2.2

/-- After a silent entry nobody is at its end who was not before. -/
theorem Silent.not_leave (he : T.Silent e) (w : Caller C) : ¬ T.leave w e :=
  fun hw => hw.elim (he.not_remove w) (he.not_ret w)

/-- A silent entry keeps the turns. -/
theorem Silent.ordered (he : T.Silent e) (h : T.Ordered L) : T.Ordered (e :: L) :=
  h.step e (fun w hw => absurd hw (he w).1) (fun w hw => absurd hw (he w).2.1)
    (fun w hw => absurd hw (he.not_act w)) (fun w hw => absurd hw (he.not_remove w))
    fun w hw => absurd hw (he.not_ret w)

/-- An operation whose entries are silent and that leaves the state as it is keeps an invariant that
such entries keep. -/
theorem keeps_of_silent {E : Type} {S : System Op Reply σ E X C R}
    {A : Assumption Op Reply σ E X C R} {I : σ → Log Op Reply σ X C R → Prop} {o : Op}
    (hI : ∀ e s L, T.Silent e → e.pre = s → I s L → I s (e :: L))
    (ho : ∀ e s, T.Silent (S.entry w o e s)) (hs : ∀ e s, (S.exec o e s).2 = s) :
    Keeps S A I w o := by
  intro s L e h _
  rw [hs]
  exact hI _ s L (ho e s) rfl h

end Silent

/-! ## What a program knows about itself -/

/-- A new program is idle. -/
theorem idle_of_fresh (h : Fresh w.tid L) : T.Idle w L :=
  ⟨h.not_has fun _ he => thread_of_caller (T.act_caller w _ he),
    h.not_has fun _ he => thread_of_caller (leave_caller he)⟩

/-- A program is idle while it waits. -/
theorem Idle.others (h : T.Idle w L) (hL : Others w.tid L L') : T.Idle w L' := by
  constructor
  · rw [hL.has_iff fun e he => thread_of_caller (T.act_caller w e he)]
    exact h.noAct
  · rw [hL.has_iff fun e he => thread_of_caller (leave_caller he)]
    exact h.inside

/-- It is idle until it acts or leaves. -/
theorem Idle.cons (h : T.Idle w L) (e : Entry Op Reply σ X C R) (hact : ¬ T.act w e)
    (hleave : ¬ T.leave w e) : T.Idle w (e :: L) := by
  constructor
  · rw [has_cons, not_or]
    exact ⟨hact, h.noAct⟩
  · rw [has_cons, not_or]
    exact ⟨hleave, h.inside⟩

/-- A silent entry leaves a program idle. -/
theorem Idle.silent (h : T.Idle w L) (he : T.Silent e) :
    T.Idle w (e :: L) :=
  h.cons e (he.not_act w) (he.not_leave w)

/-- A program is ready while it waits. -/
theorem Ready.others (h : T.Ready w L) (hL : Others w.tid L L') : T.Ready w L' :=
  ⟨h.toIdle.others hL, h.found.extends hL.extends⟩

/-- A silent entry leaves a program ready. -/
theorem Ready.silent (h : T.Ready w L) (he : T.Silent e) :
    T.Ready w (e :: L) :=
  ⟨h.toIdle.silent he, has_cons.2 (.inr h.found)⟩

/-- A program that is ready acts. -/
theorem Ready.acts (h : T.Ready w L) (e : Entry Op Reply σ X C R) (hact : T.act w e)
    (hleave : ¬ T.leave w e) : T.Acted w (e :: L) := by
  refine ⟨has_cons.2 (.inr h.found), has_cons.2 (.inl hact), ?_⟩
  rw [has_cons, not_or]
  exact ⟨hleave, h.inside⟩

/-- A program has acted while it waits. -/
theorem Acted.others (h : T.Acted w L) (hL : Others w.tid L L') : T.Acted w L' := by
  refine ⟨h.found.extends hL.extends, h.act.extends hL.extends, ?_⟩
  rw [hL.has_iff fun e he => thread_of_caller (leave_caller he)]
  exact h.inside

/-- What has not left has not returned. -/
theorem not_returned (h : ¬ Has (T.leave w) L) : ¬ Has (T.ret w) L := by
  rintro ⟨e, he, hret⟩
  exact h ⟨e, he, .inr hret⟩

/-- A program that acted removes, and is finished. -/
theorem Acted.removes (h : T.Acted w L) (won : Prop) (e : Entry Op Reply σ X C R)
    (hremove : T.remove w e) (hret : ¬ T.ret w e) : T.Finished w won (e :: L) := by
  refine ⟨fun _ => has_cons.2 (.inl hremove), fun _ => has_cons.2 (.inr h.act), ?_⟩
  rw [has_cons, not_or]
  exact ⟨hret, not_returned h.inside⟩

/-- An idle program may fail. -/
theorem Idle.finished (h : T.Idle w L) (hwon : ¬ won) : T.Finished w won L :=
  ⟨fun ha => absurd ha h.noAct, fun hw => absurd hw hwon, not_returned h.inside⟩

/-- A program is finished while it waits. -/
theorem Finished.others (h : T.Finished w won L) (hL : Others w.tid L L') :
    T.Finished w won L' := by
  refine ⟨fun ha => ?_, fun hw => (h.act hw).extends hL.extends, ?_⟩
  · rw [hL.has_iff fun e he => thread_of_caller (T.act_caller w e he)] at ha
    exact (h.removed ha).extends hL.extends
  · rw [hL.has_iff fun e he => thread_of_caller (T.ret_caller w e he)]
    exact h.running

/-- It is finished until it returns. -/
theorem Finished.cons (h : T.Finished w won L) (e : Entry Op Reply σ X C R) (hact : ¬ T.act w e)
    (hret : ¬ T.ret w e) : T.Finished w won (e :: L) := by
  refine ⟨fun ha => ?_, fun hw => has_cons.2 (.inr (h.act hw)), ?_⟩
  · exact has_cons.2 (.inr (h.removed ((has_cons.1 ha).resolve_left hact)))
  · rw [has_cons, not_or]
    exact ⟨hret, h.running⟩

/-- A silent entry leaves a program finished. -/
theorem Finished.silent (h : T.Finished w won L) (he : T.Silent e) : T.Finished w won (e :: L) :=
  h.cons e (he.not_act w) (he.not_ret w)

/-- A program that acts by removing the record is finished. -/
theorem Ready.removes (h : T.Ready w L) (won : Prop) (e : Entry Op Reply σ X C R)
    (hact : T.act w e) (hremove : T.remove w e) : T.Finished w won (e :: L) := by
  refine ⟨fun _ => has_cons.2 (.inl hremove), fun _ => has_cons.2 (.inl hact), ?_⟩
  rw [has_cons, not_or]
  exact ⟨T.act_ret w e hact, not_returned h.inside⟩

end Turn

/-- An operation with `p` is performed by a caller with `q`. -/
def performedBy (p : Op → Bool) (q : Caller C → Bool) (e : Entry Op Reply σ X C R) : Bool :=
  match e.event with
  | .op w o _ => !p o || q w
  | _ => true

/-- Whoever performed an operation with `p` has `q`, when the whole log says so. -/
theorem caller_of_performedBy {p : Op → Bool} {q : Caller C → Bool}
    (h : L.all (performedBy p q) = true) {w : Caller C} {o : Op}
    (hw : Has (fun e => ∃ r, e.event = .op w o r) L) (ho : p o = true) : q w = true := by
  obtain ⟨e, he, r, hr⟩ := hw
  have hq := List.all_eq_true.1 h e he
  rw [performedBy, hr] at hq
  simpa [ho] using hq

end VirePortal.Concurrent
