import VirePortal.Concurrent.Pool

/-!
# What a program does, whatever the replies

`Prog.Does` relates a program to its operations with their replies and to its result. It says
nothing about where the replies come from, so a statement about every dialogue of a program is one
about the program in any surroundings. A dialogue is defined along the program, and that of a
sequence is taken apart by `does_bind`. `Prog.Leads` is the same for a program that has not come to
its end, with what is left of it.
-/

namespace VirePortal.Concurrent

variable {Op : Type} {Reply : Op → Type} {α β : Type}

namespace Prog

/-- The program performs `ops`, gets these replies, and returns `a`. -/
def Does : Prog Op Reply α → List ((o : Op) × Reply o) → α → Prop
  | .ret b, ops, a => ops = [] ∧ a = b
  | .op o k, ops, a => ∃ r rest, ops = ⟨o, r⟩ :: rest ∧ (k r).Does rest a

/-- The program performs `ops`, gets these replies, and goes on as `q`. -/
def Leads : Prog Op Reply α → List ((o : Op) × Reply o) → Prog Op Reply α → Prop
  | p, [], q => p = q
  | p, ⟨o, r⟩ :: rest, q => ∃ k, p = .op o k ∧ (k r).Leads rest q

/-- The operations of the program when each one gets the reply that `f` gives. -/
def asked (f : (o : Op) → Reply o) : Prog Op Reply α → List ((o : Op) × Reply o)
  | .ret _ => []
  | .op o k => ⟨o, f o⟩ :: (k (f o)).asked f

variable {p : Prog Op Reply α} {f : α → Prog Op Reply β}
  {ops : List ((o : Op) × Reply o)} {a : α} {b : β}

/-- A return does nothing. -/
@[simp]
theorem does_pure {a' : α} : (pure a' : Prog Op Reply α).Does ops a ↔ ops = [] ∧ a = a' := Iff.rfl

/-- A call does one operation. -/
theorem does_call {o : Op} {r : Reply o} :
    (call o : Prog Op Reply _).Does ops r ↔ ops = [⟨o, r⟩] := by
  constructor
  · rintro ⟨r', rest, rfl, rfl, rfl⟩
    rfl
  · rintro rfl
    exact ⟨r, [], rfl, rfl, rfl⟩

/-- What a sequence does is what its first part does, and then what follows. -/
theorem does_bind : (p >>= f).Does ops b ↔
    ∃ ops1 a ops2, ops = ops1 ++ ops2 ∧ p.Does ops1 a ∧ (f a).Does ops2 b := by
  induction p generalizing ops with
  | ret a =>
    constructor
    · exact fun h => ⟨[], a, ops, rfl, ⟨rfl, rfl⟩, h⟩
    · rintro ⟨ops1, a', ops2, rfl, ⟨rfl, rfl⟩, h⟩
      exact h
  | op o k ih =>
    constructor
    · rintro ⟨r, rest, rfl, hrest⟩
      obtain ⟨ops1, a, ops2, rfl, hk, hf⟩ := (ih r).1 hrest
      exact ⟨⟨o, r⟩ :: ops1, a, ops2, rfl, ⟨r, ops1, rfl, hk⟩, hf⟩
    · rintro ⟨ops1, a, ops2, rfl, ⟨r, rest, rfl, hk⟩, hf⟩
      exact ⟨r, rest ++ ops2, rfl, (ih r).2 ⟨rest, a, ops2, rfl, hk, hf⟩⟩

/-- The dialogue in which each operation gets the reply that `f` gives. -/
theorem does_answer (f : (o : Op) → Reply o) (p : Prog Op Reply α) :
    p.Does (p.asked f) (p.answer f) := by
  induction p with
  | ret a => exact ⟨rfl, rfl⟩
  | op o k ih => exact ⟨f o, (k (f o)).asked f, rfl, ih (f o)⟩

/-- What all operations of a program satisfy is satisfied by those that it performs. -/
theorem Does.all {P : Op → Prop} (h : p.Does ops a) (hp : p.All P) : ∀ x ∈ ops, P x.1 := by
  induction p generalizing ops with
  | ret b =>
    obtain ⟨rfl, -⟩ := h
    exact nofun
  | op o k ih =>
    obtain ⟨r, rest, rfl, hrest⟩ := h
    intro x hx
    rcases List.mem_cons.1 hx with rfl | hx
    · exact hp.1
    · exact ih r hrest (hp.2 r) x hx

/-- No operation leads nowhere. -/
theorem leads_nil {q : Prog Op Reply α} : p.Leads [] q ↔ p = q := by
  rw [Leads]

/-- The first operation and the rest. -/
theorem leads_cons {q : Prog Op Reply α} {o : Op} {r : Reply o} :
    p.Leads (⟨o, r⟩ :: ops) q ↔ ∃ k, p = .op o k ∧ (k r).Leads ops q := by
  rw [Leads]

/-- A program that comes to its result has done its dialogue. -/
theorem leads_ret : p.Leads ops (.ret a) ↔ p.Does ops a := by
  -- The dialogue and the program are taken apart together.
  induction p generalizing ops with
  | ret b =>
    cases ops with
    | nil =>
      rw [leads_nil]
      constructor
      · intro h
        exact ⟨rfl, (ret.inj h).symm⟩
      · rintro ⟨-, rfl⟩
        rfl
    | cons x ops =>
      rw [leads_cons]
      constructor
      · rintro ⟨k, hk, -⟩
        cases hk
      · rintro ⟨hnil, -⟩
        cases hnil
  | op o k ih =>
    cases ops with
    | nil =>
      rw [leads_nil]
      constructor
      · exact nofun
      · rintro ⟨r, rest, hnil, -⟩
        cases hnil
    | cons x ops =>
      obtain ⟨o', r⟩ := x
      rw [leads_cons]
      constructor
      · rintro ⟨k', hk', hrest⟩
        obtain ⟨rfl, hk⟩ := op.inj hk'
        obtain rfl := eq_of_heq hk
        exact ⟨r, ops, rfl, (ih r).1 hrest⟩
      · rintro ⟨r', rest, heq, hrest⟩
        obtain ⟨hx, rfl⟩ := List.cons.inj heq
        cases hx
        exact ⟨k, rfl, (ih _).2 hrest⟩

/-- Two dialogues in a row. -/
theorem Leads.trans {q q' : Prog Op Reply α} {ops' : List ((o : Op) × Reply o)} (h : p.Leads ops q)
    (h' : q.Leads ops' q') : p.Leads (ops ++ ops') q' := by
  induction ops generalizing p with
  | nil =>
    obtain rfl := leads_nil.1 h
    exact h'
  | cons x ops ih =>
    obtain ⟨k, hk, hrest⟩ := h
    exact ⟨k, hk, ih hrest⟩

/-- A sequence that is under way is in its first part or in what follows. -/
theorem leads_bind {q : Prog Op Reply β} (h : (p >>= f).Leads ops q) :
    (∃ o k, p.Leads ops (.op o k) ∧ q = .op o k >>= f) ∨
      ∃ ops1 a ops2, ops = ops1 ++ ops2 ∧ p.Does ops1 a ∧ (f a).Leads ops2 q := by
  induction p generalizing ops with
  | ret a => exact .inr ⟨[], a, ops, rfl, ⟨rfl, rfl⟩, h⟩
  | op o k ih =>
    cases ops with
    | nil => exact .inl ⟨o, k, leads_nil.2 rfl, (leads_nil.1 h).symm⟩
    | cons x ops =>
      obtain ⟨o', r⟩ := x
      obtain ⟨k', hk', hrest⟩ := leads_cons.1 h
      obtain ⟨rfl, hk⟩ := op.inj hk'
      obtain rfl := eq_of_heq hk
      rcases ih r hrest with ⟨o', k', hleads, rfl⟩ | ⟨ops1, a, ops2, rfl, hdoes, hleads⟩
      · exact .inl ⟨o', k', ⟨k, rfl, hleads⟩, rfl⟩
      · exact .inr ⟨⟨o, r⟩ :: ops1, a, ops2, rfl, ⟨r, ops1, rfl, hdoes⟩, hleads⟩

/-- What is left of a program performs what the program may perform. -/
theorem Leads.all {P : Op → Prop} {q : Prog Op Reply α} (h : p.Leads ops q) (hp : p.All P) :
    q.All P := by
  induction ops generalizing p with
  | nil =>
    obtain rfl := leads_nil.1 h
    exact hp
  | cons x ops ih =>
    obtain ⟨k, rfl, hrest⟩ := h
    exact ih hrest (hp.2 x.2)

end Prog

end VirePortal.Concurrent
