import VirePortal.Concurrent.Pool

/-!
# Programs that run alone

The programs of a pool may also run one at a time. `Setting.Runs` is the run of one program from its
start to its result, with the operations that it performs. Between two operations something outside
may change the state, such as a clock or a service that moves on (`between`), and what the
environment decides about an operation may be restricted (`allows`).

The run of a program is defined along the program, so a run of an operation is taken apart by its
definition, and that of a sequence by `Runs.bind`. `Setting.Serial` is a run of programs that are
called one after the other, and `Serial.keeps` is its invariant rule. `Setting.run` computes a run.
-/

namespace VirePortal.Concurrent

variable {Op : Type} {Reply : Op → Type} {σ E α β : Type}

/-- Where a program runs. -/
structure Setting (Op : Type) (Reply : Op → Type) (σ E : Type) where
  /-- The reply and the new state of an operation. -/
  exec : (o : Op) → E → σ → Reply o × σ
  /-- What may happen to the state between two operations. -/
  between : σ → σ → Prop
  /-- Nothing may happen. -/
  refl : ∀ s, between s s
  /-- What the environment may decide about an operation. -/
  allows : Op → E → σ → Prop := fun _ _ _ => True

namespace Setting

/-- The program runs from the state `s` to the result `a` and the state `s'`, with the operations
`ops` and their replies. -/
def Runs (S : Setting Op Reply σ E) :
    Prog Op Reply α → σ → List ((o : Op) × Reply o) → α → σ → Prop
  | .ret b, s, ops, a, s' => ops = [] ∧ a = b ∧ S.between s s'
  | .op o k, s, ops, a, s' => ∃ s1 e rest, S.between s s1 ∧ S.allows o e s1 ∧
      ops = ⟨o, (S.exec o e s1).1⟩ :: rest ∧ S.Runs (k (S.exec o e s1).1)
        (S.exec o e s1).2 rest a s'

variable {S : Setting Op Reply σ E} {p : Prog Op Reply α} {f : α → Prog Op Reply β} {s s' : σ}
variable {ops : List ((o : Op) × Reply o)} {a : α} {b : β}

/-- The run of a sequence is a run of its first part and one of what follows. -/
theorem Runs.bind (h : S.Runs (p >>= f) s ops b s') : ∃ a s1 ops1 ops2, ops = ops1 ++ ops2 ∧
    S.Runs p s ops1 a s1 ∧ S.Runs (f a) s1 ops2 b s' := by
  induction p generalizing s ops with
  | ret a => exact ⟨a, s, [], ops, rfl, ⟨rfl, rfl, S.refl s⟩, h⟩
  | op o k ih =>
    obtain ⟨s1, e, rest, hbetween, hallows, rfl, hrest⟩ := h
    obtain ⟨a, s2, ops1, ops2, rfl, hp, hf⟩ := ih _ hrest
    exact ⟨a, s2, _ :: ops1, ops2, rfl, ⟨s1, e, ops1, hbetween, hallows, rfl, hp⟩, hf⟩

/-- The run of an operation and of what follows its reply. -/
theorem Runs.call {o : Op} {f : Reply o → Prog Op Reply β}
    (h : S.Runs (Prog.call o >>= f) s ops b s') :
    ∃ s1 e rest, S.between s s1 ∧ S.Runs (f (S.exec o e s1).1) (S.exec o e s1).2 rest b s' := by
  obtain ⟨s1, e, rest, hbetween, -, -, hrest⟩ := h
  exact ⟨s1, e, rest, hbetween, hrest⟩

/-- The run of a program in which nothing happens in between and the environment decides as listed,
`none` when the list is not as long as the run. -/
def run (S : Setting Op Reply σ E) :
    Prog Op Reply α → List E → σ → Option (List ((o : Op) × Reply o) × α × σ)
  | .ret a, [], s => some ([], a, s)
  | .op o k, e :: es, s =>
    (S.run (k (S.exec o e s).1) es (S.exec o e s).2).map fun (ops, a, s') =>
      (⟨o, (S.exec o e s).1⟩ :: ops, a, s')
  | _, _, _ => none

/-- A run that can be computed. -/
theorem Runs.of_run (hallows : ∀ o e s, S.allows o e s) {es : List E}
    (h : S.run p es s = some (ops, a, s')) : S.Runs p s ops a s' := by
  induction p generalizing es s ops with
  | ret b =>
    cases es with
    | nil =>
      cases h
      exact ⟨rfl, rfl, S.refl _⟩
    | cons e es => cases h
  | op o k ih =>
    cases es with
    | nil => cases h
    | cons e es =>
      obtain ⟨⟨rest, b, t⟩, hrest, heq⟩ := Option.map_eq_some_iff.1 h
      cases heq
      exact ⟨s, e, rest, S.refl s, hallows o e s, rfl, ih _ hrest⟩

variable {Q : Type} {program : Q → Prog Op Reply α} {C : Q → Prop}

/-- The programs of calls that all meet the condition `C` run one after the other. -/
inductive Serial (S : Setting Op Reply σ E) (program : Q → Prog Op Reply α) (C : Q → Prop)
    (s : σ) : σ → Prop
  | none : Serial S program C s s
  | next {s1 s2 : σ} {q : Q} {ops : List ((o : Op) × Reply o)} {a : α}
      (hbefore : Serial S program C s s1) (hq : C q) (hrun : S.Runs (program q) s1 ops a s2) :
      Serial S program C s s2

/-- What every call keeps is kept by calls one after the other. -/
theorem Serial.keeps {I : σ → Prop}
    (hkeeps : ∀ s1 s2 q ops a, I s1 → C q → S.Runs (program q) s1 ops a s2 → I s2) (hs : I s)
    (h : S.Serial program C s s') : I s' := by
  induction h with
  | none => exact hs
  | next _ hq hrun ih => exact hkeeps _ _ _ _ _ ih hq hrun

end Setting

end VirePortal.Concurrent
