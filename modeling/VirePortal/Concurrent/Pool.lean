import Mathlib.Logic.Function.Basic
import Mathlib.Tactic

/-!
# Pools of programs over atomic operations

A program is a tree of atomic operations: each node performs one operation on the shared state and
continues with its reply. A pool runs any number of such programs at once, one operation at a time
and in any order, so that every interleaving of their operations is a run of the pool. Between two
operations the environment may change the state (`env`, such as a clock's tick) and the process may
crash (`crash`): then the state is what survives the crash and no program of before it goes on.

What the environment decides about one operation (a reply of a remote service, a random value) is an
argument of the operation's semantics, so `System.step` is a function and a run is a list of labels.
The pool keeps a log of everything that happened, with the state each event found. Statements about
runs are statements about the log and the state of a reachable configuration.
-/

namespace VirePortal.Concurrent

/-- A program over the operations `Op`: a result, or an operation and what follows each reply. -/
inductive Prog (Op : Type) (Reply : Op → Type) (α : Type) where
  | ret (a : α)
  | op (o : Op) (k : Reply o → Prog Op Reply α)

namespace Prog

variable {Op : Type} {Reply : Op → Type} {α β : Type}

/-- The program that performs one operation and returns its reply. -/
def call (o : Op) : Prog Op Reply (Reply o) := .op o .ret

/-- Sequencing: the results of `p` continue with `f`. -/
def bind : Prog Op Reply α → (α → Prog Op Reply β) → Prog Op Reply β
  | .ret a, f => f a
  | .op o k, f => .op o fun r => (k r).bind f

instance : Monad (Prog Op Reply) where
  pure := .ret
  bind := bind

/-- Every operation that `p` can come to perform satisfies `P`, whatever the replies are. -/
def All (P : Op → Prop) : Prog Op Reply α → Prop
  | .ret _ => True
  | .op o k => P o ∧ ∀ r, (k r).All P

/-- Every result that `p` can come to satisfies `P`, whatever the replies are. -/
def Results (P : α → Prop) : Prog Op Reply α → Prop
  | .ret a => P a
  | .op _ k => ∀ r, (k r).Results P

/-- The result of `p` when each operation gets the reply that `f` gives. -/
def answer (f : (o : Op) → Reply o) : Prog Op Reply α → α
  | .ret a => a
  | .op o k => (k (f o)).answer f

/-- A return does nothing. -/
@[simp]
theorem all_pure (P : Op → Prop) (a : α) : (pure a : Prog Op Reply α).All P := trivial

/-- A call does one operation. -/
@[simp]
theorem all_call (P : Op → Prop) (o : Op) : (call o : Prog Op Reply _).All P ↔ P o := by
  simp [call, All]

/-- The operations of a sequence are those of its first part and of each continuation. -/
theorem all_bind {P : Op → Prop} {p : Prog Op Reply α} {f : α → Prog Op Reply β} (hp : p.All P)
    (hf : ∀ a, (f a).All P) : (p >>= f).All P := by
  induction p with
  | ret a => exact hf a
  | op o k ih => exact ⟨hp.1, fun r => ih r (hp.2 r)⟩

/-- A weaker property of the operations. -/
theorem All.imp {P P' : Op → Prop} (h : ∀ o, P o → P' o) {p : Prog Op Reply α} (hp : p.All P) :
    p.All P' := by
  induction p with
  | ret a => trivial
  | op o k ih => exact ⟨h o hp.1, fun r => ih r (hp.2 r)⟩

end Prog

/-- A program of the pool by its number, and the call that started it. -/
structure Caller (C : Type) where
  /-- The number, which no other program has. -/
  tid : ℕ
  /-- The call. -/
  call : C
  deriving DecidableEq

/-- What the log records: a call that starts a program, an operation of it with its reply, its
result, an event of the environment, and a crash. -/
inductive Event (Op : Type) (Reply : Op → Type) (X C R : Type) where
  | call (w : Caller C)
  | op (w : Caller C) (o : Op) (r : Reply o)
  | done (w : Caller C) (a : R)
  | env (x : X)
  | crash

/-- The program that an event belongs to. -/
def Event.caller {Op : Type} {Reply : Op → Type} {X C R : Type} :
    Event Op Reply X C R → Option (Caller C)
  | .call w => some w
  | .op w _ _ => some w
  | .done w _ => some w
  | .env _ => none
  | .crash => none

/-- The number of that program. -/
def Event.thread {Op : Type} {Reply : Op → Type} {X C R : Type}
    (e : Event Op Reply X C R) : Option ℕ :=
  e.caller.map Caller.tid

/-- An event and the state that it found. -/
structure Entry (Op : Type) (Reply : Op → Type) (σ X C R : Type) where
  /-- The state before the event. -/
  pre : σ
  /-- The event. -/
  event : Event Op Reply X C R

/-- The events so far, the last one first. -/
abbrev Log (Op : Type) (Reply : Op → Type) (σ X C R : Type) := List (Entry Op Reply σ X C R)

/-- A system: what an operation does to the state (`exec`, with what the environment decides about
it), the program of each call, the events of the environment, and what survives a crash. -/
structure System (Op : Type) (Reply : Op → Type) (σ E X C R : Type) where
  /-- The reply and the new state of an operation. -/
  exec : (o : Op) → E → σ → Reply o × σ
  /-- The program of a call. -/
  handle : C → Prog Op Reply R
  /-- An event of the environment. -/
  env : X → σ → σ
  /-- The state after a crash. -/
  crash : σ → σ

/-- A configuration: the shared state, the programs that have started and not returned, the number
of the next one, and the log. -/
structure Config (Op : Type) (Reply : Op → Type) (σ X C R : Type) where
  /-- The shared state. -/
  state : σ
  /-- The running programs by their number, each with its call. -/
  threads : ℕ → Option (C × Prog Op Reply R)
  /-- The number of the next program. -/
  next : ℕ
  /-- What happened so far. -/
  log : Log Op Reply σ X C R

/-- One step of a run: a call arrives, program `tid` performs its next operation (or returns), the
environment changes the state, or the process crashes. -/
inductive Label (E X C : Type) where
  | call (c : C)
  | step (tid : ℕ) (e : E)
  | env (x : X)
  | crash

variable {Op : Type} {Reply : Op → Type} {σ E X C R : Type}

/-- The start of a run at the state `s`: nothing has happened. -/
def Config.init (s : σ) : Config Op Reply σ X C R := ⟨s, fun _ => none, 0, []⟩

namespace System

variable (S : System Op Reply σ E X C R)

/-- The step of program `tid` when its next operation gets `e` from the environment. A program that
has reached its result returns it, and a number with no program does nothing. -/
def stepThread (c : Config Op Reply σ X C R) (tid : ℕ) (e : E) : Config Op Reply σ X C R :=
  match c.threads tid with
  | none => c
  | some (q, .ret a) =>
    { c with threads := Function.update c.threads tid none
             log := ⟨c.state, .done ⟨tid, q⟩ a⟩ :: c.log }
  | some (q, .op o k) =>
    { c with state := (S.exec o e c.state).2
             threads := Function.update c.threads tid (some (q, k (S.exec o e c.state).1))
             log := ⟨c.state, .op ⟨tid, q⟩ o (S.exec o e c.state).1⟩ :: c.log }

/-- One step of the pool. -/
def step (c : Config Op Reply σ X C R) : Label E X C → Config Op Reply σ X C R
  | .call q =>
    { c with threads := Function.update c.threads c.next (some (q, S.handle q))
             next := c.next + 1
             log := ⟨c.state, .call ⟨c.next, q⟩⟩ :: c.log }
  | .step tid e => S.stepThread c tid e
  | .env x => { c with state := S.env x c.state, log := ⟨c.state, .env x⟩ :: c.log }
  | .crash =>
    { c with state := S.crash c.state
             threads := fun _ => none
             log := ⟨c.state, .crash⟩ :: c.log }

/-- A step adds at most one entry to the log, with the state that it found. -/
theorem step_log (c : Config Op Reply σ X C R) (l : Label E X C) :
    (S.step c l).log = c.log ∨ ∃ ev, (S.step c l).log = ⟨c.state, ev⟩ :: c.log := by
  cases l with
  | call q => exact .inr ⟨_, rfl⟩
  | step tid e =>
    show (S.stepThread c tid e).log = _ ∨ ∃ ev, (S.stepThread c tid e).log = _
    unfold stepThread
    split
    · exact .inl rfl
    · exact .inr ⟨_, rfl⟩
    · exact .inr ⟨_, rfl⟩
  | env x => exact .inr ⟨_, rfl⟩
  | crash => exact .inr ⟨_, rfl⟩

/-- The run of a list of labels. -/
def run (c : Config Op Reply σ X C R) (ls : List (Label E X C)) : Config Op Reply σ X C R :=
  ls.foldl S.step c

end System

/-- What a class of runs assumes of each step, in terms of the state and the log that the step
finds. -/
structure Assumption (Op : Type) (Reply : Op → Type) (σ E X C R : Type) where
  /-- An operation of a program, with what the environment decides about it. -/
  op : Caller C → Op → E → σ → Log Op Reply σ X C R → Prop := fun _ _ _ _ _ => True
  /-- A call that arrives. -/
  call : C → σ → Log Op Reply σ X C R → Prop := fun _ _ _ => True
  /-- A program that returns. -/
  done : Caller C → R → σ → Log Op Reply σ X C R → Prop := fun _ _ _ _ => True
  /-- An event of the environment. -/
  env : X → σ → Log Op Reply σ X C R → Prop := fun _ _ _ => True
  /-- A crash. -/
  crash : σ → Log Op Reply σ X C R → Prop := fun _ _ => True

/-- The assumption at the step that a label makes from a configuration. -/
def Assumption.Allows (A : Assumption Op Reply σ E X C R) (c : Config Op Reply σ X C R) :
    Label E X C → Prop
  | .call q => A.call q c.state c.log
  | .step tid e => match c.threads tid with
    | some (q, .op o _) => A.op ⟨tid, q⟩ o e c.state c.log
    | some (q, .ret a) => A.done ⟨tid, q⟩ a c.state c.log
    | none => True
  | .env x => A.env x c.state c.log
  | .crash => A.crash c.state c.log

/-- The assumption at every step of a run. -/
def Assumption.AllowsRun (A : Assumption Op Reply σ E X C R) (S : System Op Reply σ E X C R) :
    Config Op Reply σ X C R → List (Label E X C) → Prop
  | _, [] => True
  | c, l :: ls => A.Allows c l ∧ A.AllowsRun S (S.step c l) ls

variable {A : Assumption Op Reply σ E X C R} {S : System Op Reply σ E X C R} {s0 : σ}
variable {c : Config Op Reply σ X C R} {tid : ℕ} {threads : ℕ → Option (C × Prog Op Reply R)}
variable {e : Entry Op Reply σ X C R} {L L' : Log Op Reply σ X C R}
variable {P : Entry Op Reply σ X C R → Prop}

/-- A run whose labels meet the assumption in every configuration. -/
theorem Assumption.allowsRun_of_forall (S : System Op Reply σ E X C R) {ls : List (Label E X C)}
    (h : ∀ l ∈ ls, ∀ c, A.Allows c l) (c : Config Op Reply σ X C R) : A.AllowsRun S c ls := by
  induction ls generalizing c with
  | nil => trivial
  | cons l ls ih => exact ⟨h l (by simp) c, ih (fun l' hl' => h l' (by simp [hl'])) _⟩

/-- The configurations that the runs from `s0` reach when each of their steps meets `A`. -/
inductive Reachable (S : System Op Reply σ E X C R) (A : Assumption Op Reply σ E X C R) (s0 : σ) :
    Config Op Reply σ X C R → Prop
  | init : Reachable S A s0 (Config.init s0)
  | step {c : Config Op Reply σ X C R} (l : Label E X C) (hc : Reachable S A s0 c)
      (hl : A.Allows c l) : Reachable S A s0 (S.step c l)

/-- A run from a reachable configuration whose steps meet the assumption ends in a reachable one. -/
theorem Reachable.run :
    ∀ {c : Config Op Reply σ X C R} (ls : List (Label E X C)), Reachable S A s0 c →
      A.AllowsRun S c ls → Reachable S A s0 (S.run c ls)
  | _, [], hc, _ => hc
  | _, l :: ls, hc, h => Reachable.run ls (hc.step l h.1) h.2

/-- Every run is one without assumptions. -/
theorem Reachable.of_run (S : System Op Reply σ E X C R) (s0 : σ) (ls : List (Label E X C)) :
    Reachable S {} s0 (S.run (.init s0) ls) := by
  refine Reachable.init.run ls (Assumption.allowsRun_of_forall S (fun l _ c => ?_) _)
  cases l with
  | call q => trivial
  | step tid e =>
    rcases ht : c.threads tid with _ | ⟨q, a | ⟨o, k⟩⟩ <;> simp [Assumption.Allows, ht]
  | env x => trivial
  | crash => trivial

/-- The assumption together with what is already known of every configuration. -/
def Assumption.knowing (A : Assumption Op Reply σ E X C R) (K : σ → Log Op Reply σ X C R → Prop) :
    Assumption Op Reply σ E X C R where
  op w o e s L := A.op w o e s L ∧ K s L
  call q s L := A.call q s L ∧ K s L
  done w a s L := A.done w a s L ∧ K s L
  env x s L := A.env x s L ∧ K s L
  crash s L := A.crash s L ∧ K s L

/-- The steps that meet `A` meet `A'`. -/
structure Assumption.Implies (A A' : Assumption Op Reply σ E X C R) : Prop where
  op : ∀ {w o e s L}, A.op w o e s L → A'.op w o e s L
  call : ∀ {q s L}, A.call q s L → A'.call q s L
  done : ∀ {w a s L}, A.done w a s L → A'.done w a s L
  env : ∀ {x s L}, A.env x s L → A'.env x s L
  crash : ∀ {s L}, A.crash s L → A'.crash s L

/-- A run under a stronger assumption is one under a weaker. -/
theorem Reachable.imp {A' : Assumption Op Reply σ E X C R} (hA : A.Implies A')
    (hc : Reachable S A s0 c) :
    Reachable S A' s0 c := by
  induction hc with
  | init => exact .init
  | @step c l _ hl ih =>
    refine ih.step l ?_
    cases l with
    | call q => exact hA.call hl
    | step tid e =>
      rcases ht : c.threads tid with _ | ⟨q, a | ⟨o, k⟩⟩
      · simp [Assumption.Allows, ht]
      · simp only [Assumption.Allows, ht] at hl ⊢
        exact hA.done hl
      · simp only [Assumption.Allows, ht] at hl ⊢
        exact hA.op hl
    | env x => exact hA.env hl
    | crash => exact hA.crash hl

/-- Invariants are proved in layers: what holds in every reachable configuration may be assumed of
every step. -/
theorem Reachable.knowing {K : σ → Log Op Reply σ X C R → Prop}
    (hK : ∀ c : Config Op Reply σ X C R, Reachable S A s0 c → K c.state c.log)
    (hc : Reachable S A s0 c) :
    Reachable S (A.knowing K) s0 c := by
  induction hc with
  | init => exact .init
  | @step c l hc hl ih =>
    refine ih.step l ?_
    have hk := hK c hc
    cases l with
    | call q => exact ⟨hl, hk⟩
    | step tid e =>
      rcases ht : c.threads tid with _ | ⟨q, a | ⟨o, k⟩⟩
      · simp [Assumption.Allows, ht]
      · simp only [Assumption.Allows, ht] at hl ⊢
        exact ⟨hl, hk⟩
      · simp only [Assumption.Allows, ht] at hl ⊢
        exact ⟨hl, hk⟩
    | env x => exact ⟨hl, hk⟩
    | crash => exact ⟨hl, hk⟩

/-- What holds of the running programs holds of them after a step of program `tid`, when it holds of
what the step leaves in its place. -/
theorem forall_update {x : Option (C × Prog Op Reply R)} {P : ℕ → C → Prog Op Reply R → Prop}
    (hx : ∀ q p, x = some (q, p) → P tid q p)
    (h : ∀ tid' q p, tid' ≠ tid → threads tid' = some (q, p) → P tid' q p) :
    ∀ tid' q p, Function.update threads tid x tid' = some (q, p) → P tid' q p := by
  intro tid' q p hp
  by_cases htid : tid' = tid
  · subst htid
    rw [Function.update_self] at hp
    exact hx q p hp
  · rw [Function.update_of_ne htid] at hp
    exact h tid' q p htid hp

/-- What is assumed of every call holds of the call of every program that the log and the pool
know. -/
theorem Reachable.callers {Q : C → Prop} (hA : ∀ q s L, A.call q s L → Q q)
    (hc : Reachable S A s0 c) :
    (∀ e ∈ c.log, ∀ w, e.event.caller = some w → Q w.call) ∧
      ∀ tid q p, c.threads tid = some (q, p) → Q q := by
  induction hc with
  | init => exact ⟨by simp [Config.init], by simp [Config.init]⟩
  | @step c l _ hl ih =>
    obtain ⟨hlog, hthreads⟩ := ih
    -- One more entry of a program whose call satisfies `Q`.
    have hcons : ∀ (e : Entry Op Reply σ X C R), (∀ w, e.event.caller = some w → Q w.call) →
        ∀ e' ∈ e :: c.log, ∀ w, e'.event.caller = some w → Q w.call := by
      intro e he e' he'
      rcases List.mem_cons.1 he' with rfl | he'
      · exact he
      · exact hlog e' he'
    have hplace : ∀ {tid : ℕ} {x : Option (C × Prog Op Reply R)}, (∀ q p, x = some (q, p) → Q q) →
        ∀ tid' q p, Function.update c.threads tid x tid' = some (q, p) → Q q :=
      fun hx => forall_update (P := fun _ q _ => Q q) hx fun tid' q p _ => hthreads tid' q p
    cases l with
    | call q =>
      have hq := hA q c.state c.log hl
      refine ⟨hcons _ fun w hw => ?_, hplace fun q' p hp => ?_⟩
      · rw [← Option.some.inj hw]
        exact hq
      · rw [← (Prod.mk.inj (Option.some.inj hp)).1]
        exact hq
    | step tid e =>
      rcases ht : c.threads tid with _ | ⟨q, a | ⟨o, k⟩⟩
      · simp only [System.step, System.stepThread, ht]
        exact ⟨hlog, hthreads⟩
      · simp only [System.step, System.stepThread, ht]
        refine ⟨hcons _ fun w hw => ?_, hplace nofun⟩
        rw [← Option.some.inj hw]
        exact hthreads tid q _ ht
      · simp only [System.step, System.stepThread, ht]
        refine ⟨hcons _ fun w hw => ?_, hplace fun q' p hp => ?_⟩
        · rw [← Option.some.inj hw]
          exact hthreads tid q _ ht
        · rw [← (Prod.mk.inj (Option.some.inj hp)).1]
          exact hthreads tid q _ ht
    | env x => exact ⟨hcons _ (by simp [Event.caller]), hthreads⟩
    | crash => exact ⟨hcons _ (by simp [Event.caller]), by simp [System.step]⟩

/-- What a configuration knows of the numbers of its programs: those that run are below `next`, and
one that returned neither runs nor has a later event. -/
def Config.Numbered (c : Config Op Reply σ X C R) : Prop :=
  (∀ tid, c.threads tid ≠ none → tid < c.next) ∧
    ∀ later earlier s w a, c.log = later ++ ⟨s, .done w a⟩ :: earlier →
      c.threads w.tid = none ∧ w.tid < c.next ∧ ∀ e ∈ later, e.event.thread ≠ some w.tid

/-- One more entry, of a program that is running or new, or of no program. -/
theorem Config.Numbered.advance (h : c.Numbered) {s : σ} {next : ℕ} (hnext : c.next ≤ next)
    (hrunning : ∀ tid, threads tid ≠ none → tid < next)
    (hstays : ∀ tid, c.threads tid = none → tid < c.next → threads tid = none)
    (hthread : ∀ tid, e.event.thread = some tid → c.threads tid = none → c.next ≤ tid)
    (hdone : ∀ w a, e.event = .done w a → threads w.tid = none ∧ w.tid < next) :
    (⟨s, threads, next, e :: c.log⟩ : Config Op Reply σ X C R).Numbered := by
  refine ⟨hrunning, fun later earlier s' w a hlog => ?_⟩
  cases later with
  | nil =>
    obtain ⟨rfl, -⟩ := List.cons.inj hlog
    obtain ⟨hnone, hlt⟩ := hdone w a rfl
    exact ⟨hnone, hlt, by simp⟩
  | cons e' later =>
    obtain ⟨rfl, hrest⟩ := List.cons.inj hlog
    obtain ⟨hnone, hlt, hlater⟩ := h.2 later earlier s' w a hrest
    refine ⟨hstays w.tid hnone hlt, hlt.trans_le hnext, fun e' he' => ?_⟩
    rcases List.mem_cons.1 he' with rfl | he'
    · intro hthr
      exact absurd (hthread w.tid hthr hnone) (Nat.not_le.2 hlt)
    · exact hlater e' he'

/-- A program that returned has no later event. -/
theorem Reachable.numbered (hc : Reachable S A s0 c) : c.Numbered := by
  induction hc with
  | init => exact ⟨by simp [Config.init], by simp [Config.init]⟩
  | @step c l _ _ ih =>
    -- A step of a running program changes only its own place.
    have hupdate : ∀ {tid : ℕ} {x : Option (C × Prog Op Reply R)}, c.threads tid ≠ none →
        (∀ tid', Function.update c.threads tid x tid' ≠ none → tid' < c.next) ∧
        ∀ tid', c.threads tid' = none → tid' < c.next →
          Function.update c.threads tid x tid' = none := by
      intro tid x hrun
      refine ⟨fun tid' hne => ?_, fun tid' hnone _ => ?_⟩
      · by_cases htid : tid' = tid
        · exact htid ▸ ih.1 tid hrun
        · rw [Function.update_of_ne htid] at hne
          exact ih.1 tid' hne
      · have htid : tid' ≠ tid := by
          rintro rfl
          exact hrun hnone
        rw [Function.update_of_ne htid]
        exact hnone
    cases l with
    -- A new program gets the next number, which no event has.
    | call q =>
      refine ih.advance (Nat.le_succ _) (fun tid hne => ?_) (fun tid hnone hlt => ?_) ?_ (by simp)
      · by_cases htid : tid = c.next
        · exact htid ▸ Nat.lt_succ_self _
        · rw [Function.update_of_ne htid] at hne
          exact Nat.lt_succ_of_lt (ih.1 tid hne)
      · rw [Function.update_of_ne hlt.ne]
        exact hnone
      · intro tid htid _
        exact (Option.some.inj htid).le
    | step tid e =>
      rcases ht : c.threads tid with _ | ⟨q, a | ⟨o, k⟩⟩
      · simp only [System.step, System.stepThread, ht]
        exact ih
      · have hrun : c.threads tid ≠ none := by simp [ht]
        simp only [System.step, System.stepThread, ht]
        refine ih.advance le_rfl (hupdate hrun).1 (hupdate hrun).2 ?_ ?_
        · intro tid' htid' hnone
          rw [← Option.some.inj htid'] at hnone
          exact absurd hnone hrun
        · rintro w a' hev
          obtain ⟨rfl, -⟩ := Event.done.inj hev
          exact ⟨Function.update_self .., ih.1 tid hrun⟩
      · have hrun : c.threads tid ≠ none := by simp [ht]
        simp only [System.step, System.stepThread, ht]
        refine ih.advance le_rfl (hupdate hrun).1 (hupdate hrun).2 ?_ (by simp)
        intro tid' htid' hnone
        rw [← Option.some.inj htid'] at hnone
        exact absurd hnone hrun
    | env x =>
      exact ih.advance le_rfl ih.1 (fun _ hnone _ => hnone)
        (by simp [Event.thread, Event.caller]) (by simp)
    | crash =>
      exact ih.advance le_rfl (by simp) (fun _ _ _ => rfl)
        (by simp [Event.thread, Event.caller]) (by simp)

/-- `L'` continues `L` within the life of one process: no crash is among the new events. -/
def Extends (L L' : Log Op Reply σ X C R) : Prop :=
  ∃ new, L' = new ++ L ∧ ∀ e ∈ new, e.event ≠ .crash

/-- `L'` continues `L` while program `tid` waits: the new events are those of other programs of the
process and of the environment. -/
def Others (tid : ℕ) (L L' : Log Op Reply σ X C R) : Prop :=
  ∃ new, L' = new ++ L ∧ ∀ e ∈ new, e.event ≠ .crash ∧ e.event.thread ≠ some tid

/-- A log extends itself. -/
theorem Extends.refl (L : Log Op Reply σ X C R) : Extends L L := ⟨[], rfl, by simp⟩

/-- Extension is transitive. -/
theorem Extends.trans {L1 L2 L3 : Log Op Reply σ X C R} (h1 : Extends L1 L2)
    (h2 : Extends L2 L3) : Extends L1 L3 := by
  obtain ⟨n1, rfl, hn1⟩ := h1
  obtain ⟨n2, rfl, hn2⟩ := h2
  refine ⟨n2 ++ n1, by simp, fun e he => ?_⟩
  rcases List.mem_append.1 he with h | h
  · exact hn2 e h
  · exact hn1 e h

/-- An entry other than a crash extends the log. -/
theorem Extends.cons (h : Extends L L') (e : Entry Op Reply σ X C R) (he : e.event ≠ .crash) :
    Extends L (e :: L') :=
  h.trans ⟨[e], rfl, by simpa using he⟩

/-- What an earlier log holds, a later one holds. -/
theorem Extends.mem (h : Extends L L') (he : e ∈ L) : e ∈ L' := by
  obtain ⟨new, rfl, -⟩ := h
  exact List.mem_append_right _ he

/-- Nothing happened meanwhile. -/
theorem Others.refl (tid : ℕ) (L : Log Op Reply σ X C R) : Others tid L L := ⟨[], rfl, by simp⟩

/-- Two waits in a row. -/
theorem Others.trans {L1 L2 L3 : Log Op Reply σ X C R} (h1 : Others tid L1 L2)
    (h2 : Others tid L2 L3) : Others tid L1 L3 := by
  obtain ⟨n1, rfl, hn1⟩ := h1
  obtain ⟨n2, rfl, hn2⟩ := h2
  refine ⟨n2 ++ n1, by simp, fun e he => ?_⟩
  rcases List.mem_append.1 he with h | h
  · exact hn2 e h
  · exact hn1 e h

/-- The others extend the log. -/
theorem Others.extends (h : Others tid L L') :
    Extends L L' := by
  obtain ⟨new, rfl, hnew⟩ := h
  exact ⟨new, rfl, fun e he => (hnew e he).1⟩

/-- An entry stays. -/
theorem Others.mem (h : Others tid L L') (he : e ∈ L) : e ∈ L' :=
  h.extends.mem he

/-- The events of a program that waits were there before. -/
theorem Others.mem_of_thread (h : Others tid L L') (he : e ∈ L')
    (ht : e.event.thread = some tid) : e ∈ L := by
  obtain ⟨new, rfl, hnew⟩ := h
  rcases List.mem_append.1 he with h | h
  · exact absurd ht (hnew e h).2
  · exact h

/-- The log holds an entry with `P`. -/
def Has (P : Entry Op Reply σ X C R → Prop) (L : Log Op Reply σ X C R) : Prop := ∃ e ∈ L, P e

/-- Nothing happened yet. -/
@[simp]
theorem has_nil (P : Entry Op Reply σ X C R → Prop) : ¬ Has P [] := by simp [Has]

/-- The last entry, or an earlier one. -/
@[simp]
theorem has_cons : Has P (e :: L) ↔ P e ∨ Has P L := by
  simp [Has]

/-- What happened is in a longer log. -/
theorem Has.mono (h : Has P L) (hL : L ⊆ L') : Has P L' := by
  obtain ⟨e, he, hP⟩ := h
  exact ⟨e, hL he, hP⟩

/-- What happened is in every later log. -/
theorem Has.extends (h : Has P L) (hL : Extends L L') : Has P L' :=
  h.mono fun _ he => hL.mem he

/-- What a program has done does not change while it waits. -/
theorem Others.has_iff (h : Others tid L L') (hP : ∀ e, P e → e.event.thread = some tid) :
    Has P L' ↔ Has P L := by
  constructor
  · rintro ⟨e, he, hPe⟩
    exact ⟨e, h.mem_of_thread he (hP e hPe), hPe⟩
  · intro hL
    exact hL.extends h.extends

/-- No event of program `tid` is in the log. -/
def Fresh (tid : ℕ) (L : Log Op Reply σ X C R) : Prop :=
  ∀ e ∈ L, e.event.thread ≠ some tid

/-- A new thread has no entry. -/
theorem Fresh.not_has (h : Fresh tid L) (hP : ∀ e, P e → e.event.thread = some tid) :
    ¬ Has P L := by
  rintro ⟨e, he, hPe⟩
  exact h e he (hP e hPe)

end VirePortal.Concurrent
