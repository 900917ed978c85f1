import VirePortal.Auth.Stores

/-!
# An authorization code is consumed once

`ConsumeCode` releases its lock while it reads the backend, so several calls for one code can be
between their two critical sections at the same time, and the backend may answer each of them with a
record that is not marked used. The pool here runs any number of `ConsumeCode` calls with `Put`,
`MarkUsed` and `Cleanup`, one critical section at a time, against a backend that answers as it likes
except that it reports the `ExpiresAt` that was saved (`expiry`).

The invariant (`Inv`) is about the record cached under the requested key: once a section has taken a
code, that record is marked used, until `Cleanup` drops it, which happens only after it expired. A
section that takes a code finds its record unused and unexpired, so there is no second one
(`consumeCode_once`).
-/

namespace VirePortal.Auth.ConsumeOnce

open Go Concurrent

/-- The calls of the pool. -/
inductive Call where
  | consume (code : Str)
  | put (code : AuthCode)
  | markUsed (code : Str)
  | cleanup
  deriving DecidableEq

/-- The program of a call. Only `ConsumeCode` returns a code. -/
def handle (backend : Bool) : Call → M (Option AuthCode)
  | .consume code => CodeStore.consumeCode backend code
  | .put code => do CodeStore.put code; return none
  | .markUsed code => do CodeStore.markUsed code; return none
  | .cleanup => do CodeStore.cleanup; return none

/-- An entry of the pool's log. -/
abbrev CodeEntry := Entry Op Reply State ℕ Call (Option AuthCode)

/-- The code has not been presented or stored. -/
def NeverSeen (code : Str) (L : List CodeEntry) : Prop :=
  ∀ e ∈ L, ∀ w : Caller Call,
    (e.event = .call w → w.call ≠ .consume code ∧ w.call ≠ .markUsed code) ∧
      ∀ c, e.event = .op w (.codesPut c) () → c.code ≠ code

/-- What the runs assume: the backend reports the saved `ExpiresAt`, a code that is `Put` is new and
expires when `expiry` says, and there is one process. -/
def assumption (expiry : Str → Time) :
    Assumption Op Reply State Env ℕ Call (Option AuthCode) where
  op _ o e _ L := match o with
    | .getCode code => ∀ c, e.code = .found c → c.expiresAt = expiry code
    | .codesPut c => c.expiresAt = expiry c.code ∧ NeverSeen c.code L
    | _ => True
  crash _ _ := False

/-- Some critical section took `code`. -/
def Consumed (code : Str) (L : List CodeEntry) : Prop := ∃ w, ∃ e ∈ L, Consumes w code e

/-- The call `w` of `ConsumeCode(code)` returned true. -/
def ReturnedTrue (w : Caller Call) (code : Str) (L : List CodeEntry) : Prop :=
  w.call = .consume code ∧ ∃ e ∈ L, ∃ c, e.event = .done w (some c)

/-- A code that was taken can no longer be: it expired, or its record is marked used. -/
def Spent (expiry : Str → Time) (s : State) (code : Str) : Prop :=
  expiry code < s.now ∨ ∃ c, s.mem.codes.lookup code = some c ∧ c.used = true

/-- The invariant of the pool. -/
structure Inv (expiry : Str → Time) (s : State) (L : List CodeEntry) : Prop where
  /-- A cached record has the saved `ExpiresAt`. -/
  cached : ∀ code c, s.mem.codes.lookup code = some c → c.expiresAt = expiry code
  /-- The clock has not gone back. -/
  past : ∀ e ∈ L, e.pre.now ≤ s.now
  /-- A code that was taken is spent. -/
  spent : ∀ code, Consumed code L → Spent expiry s code
  /-- One call took it. -/
  once : ∀ code w w', (∃ e ∈ L, Consumes w code e) → (∃ e ∈ L, Consumes w' code e) → w = w'
  /-- The call asked for that code, had started, and took it before it expired. -/
  timely : ∀ e ∈ L, ∀ w code, Consumes w code e → w.call = .consume code ∧
    (∃ e' ∈ L, e'.event = .call w) ∧ e.pre.now ≤ expiry code ∧
      ∀ e' ∈ L, e'.event = .call w → e'.pre.now ≤ e.pre.now
  /-- A call that returned a code took it. -/
  returned : ∀ code w, ReturnedTrue w code L → ∃ e ∈ L, Consumes w code e

variable {expiry : Str → Time} {s s' : State} {L : List CodeEntry}

/-- The clock has not gone back. -/
theorem Inv.past_cons (h : Inv expiry s L) {e : CodeEntry} (hpre : e.pre.now ≤ s'.now)
    (hnow : s.now ≤ s'.now) : ∀ e' ∈ e :: L, e'.pre.now ≤ s'.now := by
  intro e' he'
  rcases List.mem_cons.1 he' with rfl | he'
  · exact hpre
  · exact (h.past e' he').trans hnow

variable {w : Caller Call} {code : Str} {L : List CodeEntry}

/-- A section of the log stays timely, when the new entry does not start its call again. -/
theorem Inv.timely_cons (h : Inv expiry s L) {e e' : CodeEntry} (he' : e' ∈ L)
    (hc : Consumes w code e') (hev : e.event ≠ .call w) :
    w.call = .consume code ∧ (∃ e0 ∈ e :: L, e0.event = .call w) ∧ e'.pre.now ≤ expiry code ∧
      ∀ e0 ∈ e :: L, e0.event = .call w → e0.pre.now ≤ e'.pre.now := by
  obtain ⟨hq, ⟨e0, he0, hcall⟩, hexp, hbefore⟩ := h.timely e' he' w code hc
  refine ⟨hq, ⟨e0, .tail _ he0, hcall⟩, hexp, fun e1 he1 hev1 => ?_⟩
  rcases List.mem_cons.1 he1 with rfl | he1
  · exact absurd hev1 hev
  · exact hbefore e1 he1 hev1

/-- An entry that takes no code keeps the invariant, when the new state keeps what the invariant
says of it, a call that it starts is new, and a code that it returns was taken by the call. -/
theorem Inv.extend (h : Inv expiry s L) (e : CodeEntry) (hpre : e.pre.now ≤ s'.now)
    (hnow : s.now ≤ s'.now) (hcons : ∀ w code, ¬ Consumes w code e)
    (hcall : ∀ w, e.event = .call w → Fresh w.tid L)
    (hdone : ∀ w c code, e.event = .done w (some c) → w.call = .consume code →
      ∃ e' ∈ L, Consumes w code e')
    (hcached : ∀ code c, s'.mem.codes.lookup code = some c → c.expiresAt = expiry code)
    (hspent : ∀ code, Consumed code L → Spent expiry s' code) : Inv expiry s' (e :: L) := by
  have hold : ∀ w code, (∃ e' ∈ e :: L, Consumes w code e') → ∃ e' ∈ L, Consumes w code e' := by
    rintro w code ⟨e', he', hc⟩
    rcases List.mem_cons.1 he' with rfl | he'
    · exact absurd hc (hcons w code)
    · exact ⟨e', he', hc⟩
  refine ⟨hcached, h.past_cons hpre hnow, ?_, ?_, ?_, ?_⟩
  · rintro code ⟨w, hw⟩
    exact hspent code ⟨w, hold w code hw⟩
  · intro code w w' hw hw'
    exact h.once code w w' (hold w code hw) (hold w' code hw')
  · intro e' he' w code hc
    rcases List.mem_cons.1 he' with rfl | hold'
    · exact absurd hc (hcons w code)
    · refine h.timely_cons hold' hc fun hev => ?_
      -- A call that starts now has no section in the log.
      exact absurd (by rw [Event.thread, hc.caller]; rfl) (hcall w hev e' hold')
  · rintro code w ⟨hq, e', he', c, hd⟩
    obtain ⟨e'', he'', hc⟩ : ∃ e'' ∈ L, Consumes w code e'' := by
      rcases List.mem_cons.1 he' with rfl | he'
      · exact hdone w c code hd hq
      · exact h.returned code w ⟨hq, e', he', c, hd⟩
    exact ⟨e'', .tail _ he'', hc⟩

/-- The case of an entry that starts no call and returns no code. -/
theorem Inv.quiet (h : Inv expiry s L) (e : CodeEntry) (hpre : e.pre.now ≤ s'.now)
    (hnow : s.now ≤ s'.now) (hcons : ∀ w code, ¬ Consumes w code e) (hcall : ∀ w, e.event ≠ .call w)
    (hdone : ∀ w c, e.event ≠ .done w (some c))
    (hcached : ∀ code c, s'.mem.codes.lookup code = some c → c.expiresAt = expiry code)
    (hspent : ∀ code, Consumed code L → Spent expiry s' code) : Inv expiry s' (e :: L) :=
  h.extend e hpre hnow hcons (fun w hw => absurd hw (hcall w))
    (fun w c _ hd => absurd hd (hdone w c)) hcached hspent

/-- A code whose record is unused, or not cached, and that has not expired was never taken. -/
theorem Inv.not_consumed (h : Inv expiry s L) (hexp : s.now ≤ expiry code)
    (hunused : ∀ c, s.mem.codes.lookup code = some c → c.used = false) : ¬ Consumed code L := by
  intro hc
  rcases h.spent code hc with hlt | ⟨c, hlook, hused⟩
  · exact absurd hexp (not_le.2 hlt)
  · rw [hunused c hlook] at hused
    exact Bool.noConfusion hused

/-- A section that takes a code keeps the invariant. -/
theorem Inv.take (h : Inv expiry s L) {c : AuthCode} {e : CodeEntry} (hw : w.call = .consume code)
    (hcall : ∃ e' ∈ L, e'.event = .call w) (hpre : e.pre = s)
    (he : ∀ w' code', Consumes w' code' e → w' = w ∧ code' = code)
    (hop : ∃ o r, e.event = .op w o r) (hc : c.expiresAt = expiry code) (hexp : s.now ≤ c.expiresAt)
    (hunused : ∀ c', s.mem.codes.lookup code = some c' → c'.used = false) (t : Table AuthCode)
    (ht : ∀ k, t.lookup k = if k = code then some { c with used := true }
      else s.mem.codes.lookup k) :
    Inv expiry (s.updateMem fun m => { m with codes := t }) (e :: L) := by
  obtain ⟨o, r, hop⟩ := hop
  have hnot := h.not_consumed (hc ▸ hexp) hunused
  -- Before this entry nothing took the code, so every other section of the log took another one.
  have hother : ∀ w' code', (∃ e' ∈ L, Consumes w' code' e') → code' ≠ code :=
    fun w' code' hw' heq => hnot (heq ▸ ⟨w', hw'⟩)
  have hcases : ∀ w' code', (∃ e' ∈ e :: L, Consumes w' code' e') →
      (w' = w ∧ code' = code) ∨ (∃ e' ∈ L, Consumes w' code' e') := by
    rintro w' code' ⟨e', he', hc'⟩
    rcases List.mem_cons.1 he' with rfl | he'
    · exact .inl (he w' code' hc')
    · exact .inr ⟨e', he', hc'⟩
  refine ⟨?_, h.past_cons (hpre ▸ le_rfl) le_rfl, ?_, ?_, ?_, ?_⟩
  · intro k c' hk
    rw [show (s.updateMem fun m => { m with codes := t }).mem.codes = t from rfl, ht k] at hk
    split_ifs at hk with hkc
    · cases hk
      exact hkc ▸ hc
    · exact h.cached k c' hk
  · rintro k ⟨w', hw'⟩
    by_cases hk : k = code
    · exact .inr ⟨{ c with used := true }, by simp [State.updateMem, ht, hk], rfl⟩
    · rcases hcases w' k hw' with ⟨-, rfl⟩ | hw'
      · exact absurd rfl hk
      · rcases h.spent k ⟨w', hw'⟩ with hlt | ⟨c', hlook, hused⟩
        · exact .inl hlt
        · exact .inr ⟨c', by simp [State.updateMem, ht, hk, hlook], hused⟩
  · intro k w1 w2 h1 h2
    rcases hcases w1 k h1 with ⟨rfl, rfl⟩ | h1
    · rcases hcases w2 k h2 with ⟨rfl, -⟩ | h2
      · rfl
      · exact absurd rfl (hother w2 k h2)
    · rcases hcases w2 k h2 with ⟨-, rfl⟩ | h2
      · exact absurd rfl (hother w1 k h1)
      · exact h.once k w1 w2 h1 h2
  · intro e' he' w' k hc'
    rcases List.mem_cons.1 he' with rfl | he'
    · obtain ⟨rfl, rfl⟩ := he w' k hc'
      obtain ⟨e0, he0, hev0⟩ := hcall
      refine ⟨hw, ⟨e0, .tail _ he0, hev0⟩, by rw [hpre, ← hc]; exact hexp, ?_⟩
      intro e'' he'' hev
      rcases List.mem_cons.1 he'' with rfl | he''
      · exact le_rfl
      · exact hpre ▸ h.past e'' he''
    · exact h.timely_cons he' hc' (by simp [hop])
  · rintro k w' ⟨hq, e', he', c', hd⟩
    rcases List.mem_cons.1 he' with rfl | he'
    · rw [hop] at hd; exact absurd hd (by simp)
    · obtain ⟨e'', he'', hc''⟩ := h.returned k w' ⟨hq, e', he', c', hd⟩
      exact ⟨e'', .tail _ he'', hc''⟩

/-- A step that leaves the cached codes as they are. -/
theorem Inv.same (h : Inv expiry s L) (e : CodeEntry) (hpre : e.pre = s) (hnow : s'.now = s.now)
    (hcodes : s'.mem.codes = s.mem.codes) (hcons : ∀ w code, ¬ Consumes w code e)
    (hcall : ∀ w, e.event ≠ .call w) (hdone : ∀ w c, e.event ≠ .done w (some c)) :
    Inv expiry s' (e :: L) := by
  refine h.quiet e (by rw [hpre, hnow]) hnow.ge hcons hcall hdone ?_ ?_
  · rw [hcodes]; exact h.cached
  · intro code hc
    unfold Spent
    rw [hnow, hcodes]
    exact h.spent code hc

variable (backend : Bool)

/-- The pool. -/
abbrev pool : System Op Reply State Env ℕ Call (Option AuthCode) := server backend (handle backend)

/-- The first section of `ConsumeCode` keeps the invariant. -/
theorem Inv.codesConsume (h : Inv expiry s L) (hw : w.call = .consume code)
    (hcall : ∃ e' ∈ L, e'.event = .call w) (e : Env) :
    Inv expiry (exec backend (.codesConsume code) e s).2
        (⟨s, .op w (.codesConsume code) (exec backend (.codesConsume code) e s).1⟩ :: L) := by
  rcases exec_codesConsume backend code e s with ⟨r, hex, hno⟩ | ⟨c, hlook, hexp, hused, hex⟩
  · rw [hex]
    exact h.same _ rfl rfl rfl (by simpa [Consumes] using hno) (by simp)
      (by simp)
  · rw [hex]
    refine h.take hw hcall rfl ?_ ⟨_, _, rfl⟩ (h.cached code c hlook) hexp ?_ _
      fun k => Table.lookup_insert _ _ _ _
    · rintro w' code' (⟨c', hc'⟩ | ⟨f, c', hc'⟩)
      · simp only [Event.op.injEq, Op.codesConsume.injEq] at hc'
        exact ⟨hc'.1.symm, hc'.2.1.symm⟩
      · simp at hc'
    · intro c' hc'
      rw [hlook] at hc'
      exact Option.some.inj hc' ▸ hused

/-- The second section of `ConsumeCode` keeps the invariant: another call may have cached the record
meanwhile, and then that record decides. -/
theorem Inv.codesConsumeFetched (h : Inv expiry s L) {f : AuthCode} (hw : w.call = .consume code)
    (hcall : ∃ e' ∈ L, e'.event = .call w) (hf : f.expiresAt = expiry code) (e : Env) :
    Inv expiry (exec backend (.codesConsumeFetched code f) e s).2
        (⟨s, .op w (.codesConsumeFetched code f)
          (exec backend (.codesConsumeFetched code f) e s).1⟩ :: L) := by
  obtain ⟨c, c', r, t, hc, hex, ht, hr⟩ := exec_codesConsumeFetched backend code f e s
  have hexpiry : c.expiresAt = expiry code := by
    rcases hc with hlook | ⟨-, rfl⟩
    · exact h.cached code c hlook
    · exact hf
  rw [hex]
  rcases hr with ⟨rfl, rfl⟩ | ⟨rfl, rfl, hexp, hused⟩
  · -- The record is refused. It may be new in the map, but then nothing took the code.
    refine h.quiet _ le_rfl le_rfl (by simp [Consumes]) (by simp) (by simp) ?_ ?_
    · intro k c'' hk
      rw [State.updateMem_mem, ht] at hk
      split_ifs at hk with hkc
      · exact hkc ▸ Option.some.inj hk ▸ hexpiry
      · exact h.cached k c'' hk
    · intro k hk
      rcases h.spent k hk with hlt | ⟨c'', hlook, hused⟩
      · exact .inl hlt
      · refine .inr ⟨c'', ?_, hused⟩
        rw [State.updateMem_mem, ht]
        split_ifs with hkc
        · rcases hc with hlook' | ⟨hnone, -⟩
          · rw [← hlook', ← hlook, hkc]
          · rw [hkc, hnone] at hlook
            exact absurd hlook (by simp)
        · exact hlook
  · refine h.take hw hcall rfl ?_ ⟨_, _, rfl⟩ hexpiry hexp ?_ t ht
    · rintro w' code' (⟨c'', hc''⟩ | ⟨f', c'', hc''⟩)
      · simp at hc''
      · simp only [Event.op.injEq, Op.codesConsumeFetched.injEq] at hc''
        exact ⟨hc''.1.symm, hc''.2.1.1.symm⟩
    · intro c'' hc''
      rcases hc with hlook | ⟨hnone, -⟩
      · rw [hlook] at hc''
        exact Option.some.inj hc'' ▸ hused
      · rw [hnone] at hc''
        exact absurd hc'' (by simp)

/-- A reading of the backend and the final write to it keep the invariant. -/
theorem keeps_getCode (w : Caller Call) (code : Str) :
    Keeps (pool backend) (assumption expiry) (Inv expiry) w (.getCode code) :=
  fun _ _ _ h _ => h.same _ rfl rfl rfl (by simp [Consumes]) (by simp) (by simp)

/-- The mark in the backend keeps the invariant. -/
theorem keeps_markCodeUsed (w : Caller Call) (code : Str) :
    Keeps (pool backend) (assumption expiry) (Inv expiry) w (.markCodeUsed code) := by
  intro s L e h _
  exact h.same _ rfl (by simp [server, exec]) (by simp [server, exec]) (by simp [Consumes])
    (by simp) (by simp)

/-- `Put` of a new code keeps the invariant: nothing has taken it. -/
theorem keeps_codesPut (w : Caller Call) (c : AuthCode) :
    Keeps (pool backend) (assumption expiry) (Inv expiry) w (.codesPut c) := by
  intro s L e h hA
  obtain ⟨hc, hnew⟩ : c.expiresAt = expiry c.code ∧ NeverSeen c.code L := hA
  have hnow : ((pool backend).exec (.codesPut c) e s).2.now = s.now := by simp [server, exec]
  have hcodes : ((pool backend).exec (.codesPut c) e s).2.mem.codes =
      s.mem.codes.insert c.code c := by simp [server, exec]
  refine h.quiet _ hnow.ge hnow.ge (by simp [Consumes]) (by simp) (by simp) ?_ ?_
  · intro k c' hk
    rw [hcodes] at hk
    by_cases hkc : k = c.code
    · rw [hkc, AList.lookup_insert] at hk
      exact hkc ▸ Option.some.inj hk ▸ hc
    · rw [AList.lookup_insert_ne hkc] at hk
      exact h.cached k c' hk
  · rintro k ⟨w', e', he', hcons⟩
    obtain ⟨hq, ⟨e0, he0, hev0⟩, -⟩ := h.timely e' he' w' k hcons
    have hkc : k ≠ c.code := by
      rintro rfl
      exact ((hnew e0 he0 w').1 hev0).1 hq
    unfold Spent
    rw [hnow, hcodes, AList.lookup_insert_ne hkc]
    exact h.spent k ⟨w', e', he', hcons⟩

/-- `MarkUsed` keeps the invariant: it only sets a flag. -/
theorem keeps_codesMarkUsed (w : Caller Call) (code : Str) :
    Keeps (pool backend) (assumption expiry) (Inv expiry) w (.codesMarkUsed code) := by
  intro s L e h _
  have hnow : ((pool backend).exec (.codesMarkUsed code) e s).2.now = s.now := by
    simp [server, exec]
  have hcodes : ((pool backend).exec (.codesMarkUsed code) e s).2.mem.codes =
      setUsed code s.mem.codes := by simp [server, exec]
  refine h.quiet _ hnow.ge hnow.ge (by simp [Consumes]) (by simp) (by simp) ?_ ?_
  · intro k c' hk
    rw [hcodes, lookup_setUsed, Option.map_eq_some_iff] at hk
    obtain ⟨c0, hc0, rfl⟩ := hk
    split_ifs <;> exact h.cached k c0 hc0
  · intro k hk
    unfold Spent
    rw [hnow, hcodes, lookup_setUsed]
    rcases h.spent k hk with hlt | ⟨c, hlook, hused⟩
    · exact .inl hlt
    · refine .inr ⟨_, by rw [hlook]; rfl, ?_⟩
      split_ifs
      · rfl
      · exact hused

/-- `Cleanup` keeps the invariant: what it drops has expired. -/
theorem keeps_codesCleanup (w : Caller Call) :
    Keeps (pool backend) (assumption expiry) (Inv expiry) w .codesCleanup := by
  intro s L e h _
  have hlookup : ∀ k, ((pool backend).exec .codesCleanup e s).2.mem.codes.lookup k =
      (s.mem.codes.lookup k).filter fun c => !after s.now c.expiresAt :=
    fun k => Table.lookup_filter _ _ k
  refine h.quiet _ le_rfl le_rfl (by simp [Consumes]) (by simp) (by simp) ?_ ?_
  · intro k c' hk
    rw [hlookup, Option.filter_eq_some_iff] at hk
    exact h.cached k c' hk.1
  · intro k hk
    rcases h.spent k hk with hlt | ⟨c, hlook, hused⟩
    · exact .inl hlt
    · by_cases hexp : expiry k < s.now
      · exact .inl hexp
      · refine .inr ⟨c, ?_, hused⟩
        rw [hlookup, hlook, Option.filter_eq_some_iff]
        exact ⟨rfl, by simpa [after, h.cached k c hlook] using hexp⟩

/-- The end of `ConsumeCode`: a code that it returns is the one that its section took. -/
theorem outline_confirm {r : Option AuthCode} (hr : ∀ c, r = some c → ∃ e ∈ L, Consumes w code e) :
    Outline (pool backend) (assumption expiry) (Inv expiry) w
      (fun r' L' => ∀ c, r' = some c → ∃ e ∈ L', Consumes w code e)
      (CodeStore.confirm backend code r) L := by
  cases r with
  | none => simp [CodeStore.confirm]
  | some c =>
    unfold CodeStore.confirm
    cases backend with
    | false => exact hr
    | true =>
      show Outline _ _ _ _ _ (perform (.markCodeUsed code) >>= fun _ => pure (some c)) L
      refine (keeps_markCodeUsed true w code).bind fun s L' e hL _ _ => ?_
      intro c' _
      obtain ⟨e', he', hc'⟩ := hr c rfl
      exact ⟨e', .tail _ (hL.mem he'), hc'⟩

/-- The outline of `ConsumeCode`: each section keeps the invariant, and a code that it returns was
taken by the call itself. -/
theorem outline_consumeCode (hw : w.call = .consume code) (hcall : ∃ e ∈ L, e.event = .call w) :
    Outline (pool backend) (assumption expiry) (Inv expiry) w
      (fun r L' => ∀ c, r = some c → ∃ e ∈ L', Consumes w code e)
      (CodeStore.consumeCode backend code) L := by
  have hcall' : ∀ {L'}, Extends L L' → ∃ e ∈ L', e.event = .call w := by
    intro L' hL
    obtain ⟨e, he, hev⟩ := hcall
    exact ⟨e, hL.mem he, hev⟩
  unfold CodeStore.consumeCode
  rw [outline_bind, outline_call]
  intro s L' e hL hI _
  refine ⟨hI.codesConsume backend hw (hcall' hL.extends) e, ?_⟩
  have hstart := (pool backend).entry_extends hL (.codesConsume code) e s
  generalize hr : ((pool backend).exec (.codesConsume code) e s).1 = r at hstart ⊢
  match r with
  | some r =>
    refine outline_confirm backend fun c hc => ?_
    exact ⟨_, .head _, .inl ⟨c, by rw [System.entry, hr, hc]⟩⟩
  | none =>
    cases backend with
    | false => simp
    | true =>
      rw [if_pos rfl, outline_bind]
      refine (keeps_getCode true w code).outline fun s1 L1 e1 hL1 hI1 hA1 => ?_
      have hread := hstart.trans ((pool true).entry_extends hL1 (.getCode code) e1 s1)
      generalize hr1 : ((pool true).exec (.getCode code) e1 s1).1 = r1 at hread ⊢
      match r1 with
      | .failed => simp
      | .notFound => simp
      | .found f =>
        -- The backend answered with `f`, which has the saved `ExpiresAt`.
        have hf : f.expiresAt = expiry code := hA1 f hr1
        rw [outline_bind, outline_call]
        intro s2 L2 e2 hL2 hI2 _
        refine ⟨hI2.codesConsumeFetched true hw (hcall' (hread.trans hL2.extends)) hf e2, ?_⟩
        refine outline_confirm true fun c hc => ?_
        exact ⟨_, .head _, .inr ⟨f, c, by rw [← hc]⟩⟩

/-- Returning keeps the invariant, when a code that `ConsumeCode` returns was taken by the call. -/
theorem delivers_of_consumes {r : Option AuthCode}
    (hr : ∀ code c, w.call = .consume code → r = some c → ∃ e ∈ L, Consumes w code e) :
    Delivers (assumption expiry) (Inv expiry) w r L := by
  intro s L' hL hI _
  refine hI.extend _ le_rfl le_rfl (by simp [Consumes]) (by simp) ?_ hI.cached hI.spent
  intro w' c code hd hq
  obtain ⟨rfl, rfl⟩ : w = w' ∧ r = some c := by simpa using hd
  obtain ⟨e, he, hc⟩ := hr code c hq rfl
  exact ⟨e, hL.mem he, hc⟩

/-- A call that starts keeps the invariant: no section belongs to it yet. -/
theorem Inv.call (h : Inv expiry s L) (hw : Fresh w.tid L) :
    Inv expiry s (⟨s, .call w⟩ :: L) := by
  refine h.extend _ le_rfl le_rfl (by simp [Consumes]) ?_ (by simp) h.cached h.spent
  intro w' hw'
  obtain rfl : w = w' := by simpa using hw'
  exact hw

/-- The pool is verified from a process that has just started. -/
theorem verified {s0 : State} (hs0 : s0.mem.codes = ∅) :
    Verified (pool backend) (assumption expiry) (Inv expiry) s0 where
  init := ⟨by simp [hs0], by simp, by simp [Consumed], by simp, by simp, by simp [ReturnedTrue]⟩
  call s L w h hw _ := by
    refine ⟨h.call hw, ?_⟩
    have hself : ∃ e ∈ (⟨s, .call w⟩ :: L : List CodeEntry), e.event = .call w :=
      ⟨_, .head _, rfl⟩
    obtain ⟨tid, q⟩ := w
    cases q with
    | consume code =>
      refine (outline_consumeCode backend rfl hself).imp fun r L' _ hr => ?_
      refine delivers_of_consumes fun code' c hq hc => ?_
      obtain rfl : code = code' := by simpa using hq
      exact hr c hc
    | put c =>
      show Outline _ _ _ _ _ (CodeStore.put c >>= fun _ => pure none) _
      exact (keeps_codesPut backend _ c).bind fun _ _ _ _ _ _ =>
        delivers_of_consumes (by simp)
    | markUsed code =>
      show Outline _ _ _ _ _ (CodeStore.markUsed code >>= fun _ => pure none) _
      exact (keeps_codesMarkUsed backend _ code).bind fun _ _ _ _ _ _ =>
        delivers_of_consumes (by simp)
    | cleanup =>
      show Outline _ _ _ _ _ (CodeStore.cleanup >>= fun _ => pure none) _
      exact (keeps_codesCleanup backend _).bind fun _ _ _ _ _ _ =>
        delivers_of_consumes (by simp)
  env s L d h _ := by
    have hnow : s.now ≤ (tick d s).now := by simp [tick]
    refine h.quiet _ hnow hnow (by simp [Consumes]) (by simp) (by simp) h.cached fun k hk => ?_
    -- What has expired stays expired as the clock goes on.
    rcases h.spent k hk with hlt | hused
    · exact .inl (hlt.trans_le hnow)
    · exact .inr hused
  crash _ _ _ h := absurd h (by simp [assumption])

/-- However many `ConsumeCode` calls run at once, in whatever order their critical sections
interleave with each other and with `Put`, `MarkUsed` and `Cleanup`, and whatever the backend
answers: for each code at most one call returns true; such a call took the code at or before its
`ExpiresAt`; and a call that starts later than that returns false. -/
theorem consumeCode_once {s0 : State} (hs0 : s0.mem.codes = ∅)
    {c : Config Op Reply State ℕ Call (Option AuthCode)}
    (hc : Reachable (pool backend) (assumption expiry) s0 c) :
    (∀ code w w', ReturnedTrue w code c.log → ReturnedTrue w' code c.log → w = w') ∧
      (∀ code w, ReturnedTrue w code c.log →
        ∃ e ∈ c.log, Consumes w code e ∧ e.pre.now ≤ expiry code) ∧
      ∀ code w, ∀ e ∈ c.log, e.event = .call w → expiry code < e.pre.now →
        ¬ ReturnedTrue w code c.log := by
  have hI := hc.invariant (verified backend hs0)
  refine ⟨fun code w w' hw hw' => ?_, fun code w hw => ?_, fun code w e he hev hlate hw => ?_⟩
  · exact hI.once code w w' (hI.returned code w hw) (hI.returned code w' hw')
  · obtain ⟨e, he, hcons⟩ := hI.returned code w hw
    exact ⟨e, he, hcons, (hI.timely e he w code hcons).2.2.1⟩
  · obtain ⟨e', he', hcons⟩ := hI.returned code w hw
    obtain ⟨-, -, hin, hbefore⟩ := hI.timely e' he' w code hcons
    exact absurd (hlate.trans_le (hbefore e he hev)) (not_lt.2 hin)

/-- A call of `Put` stores a code that expires after 300 s. -/
def stored : List (Label Env ℕ Call) :=
  [.call (.put ⟨"c", "m", "u", "r", [], [], seconds 300, false⟩), .step 0 {}, .step 0 {}]

/-- The code is new when `stored` puts it. -/
theorem reachable_stored : Reachable (pool true) (assumption fun _ => seconds 300) {}
    ((pool true).run (.init {}) stored) := by
  refine Reachable.init.run stored ⟨trivial, ⟨rfl, ?_⟩, trivial, trivial⟩
  intro e he w
  obtain rfl := List.mem_singleton.1 he
  refine ⟨fun hw => ?_, by simp⟩
  cases hw
  simp

/-- Two calls for the stored code run at once, and the second one performs its section while the
first one is still writing to the backend. -/
def twoCalls : List (Label Env ℕ Call) :=
  [.call (.consume "c"), .call (.consume "c"), .step 1 {}, .step 2 {}, .step 1 {},
    .step 2 {}, .step 1 {}]

/-- Of the two calls the first one returns true and the second one does not. -/
theorem consumeCode_once_twoCalls :
    ReturnedTrue ⟨1, .consume "c"⟩ "c" ((pool true).run (.init {}) (stored ++ twoCalls)).log ∧
      ¬ ReturnedTrue ⟨2, .consume "c"⟩ "c"
        ((pool true).run (.init {}) (stored ++ twoCalls)).log := by
  have hrun : Reachable (pool true) (assumption fun _ => seconds 300) {}
      ((pool true).run (.init {}) (stored ++ twoCalls)) :=
    reachable_stored.run twoCalls (by repeat' constructor)
  have htrue : ReturnedTrue ⟨1, .consume "c"⟩ "c"
      ((pool true).run (.init {}) (stored ++ twoCalls)).log := ⟨rfl, _, .head _, _, rfl⟩
  refine ⟨htrue, fun h => ?_⟩
  have := (consumeCode_once true rfl hrun).1 "c" _ _ htrue h
  simp at this

/-- A call takes the stored code a second before it expires, and waits two seconds for
`MarkCodeUsed`, which has a timeout of five. -/
def lateReturn : List (Label Env ℕ Call) :=
  [.env (299 * 10 ^ 9), .call (.consume "c"), .step 1 {}, .env (2 * 10 ^ 9), .step 1 {}, .step 1 {}]

/-- A call can return true after `ExpiresAt`: the entry of its return is later than the saved
time. -/
theorem returns_late : Reachable (pool true) (assumption fun _ => seconds 300) {}
      ((pool true).run (.init {}) (stored ++ lateReturn)) ∧
    ∃ e ∈ ((pool true).run (.init {}) (stored ++ lateReturn)).log,
      (∃ c, e.event = .done ⟨1, .consume "c"⟩ (some c)) ∧ seconds 300 < e.pre.now :=
  ⟨reachable_stored.run lateReturn (by repeat' constructor), _, .head _, ⟨_, rfl⟩, by decide⟩

end VirePortal.Auth.ConsumeOnce
