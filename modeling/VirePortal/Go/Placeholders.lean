import VirePortal.Go.Strings

/-!
# Placeholders

`strings.ReplaceAll`, and what it does to a text that consists of plain text and of placeholders in
braces. When neither the plain text nor a name holds an opening brace, the placeholders of a name
are replaced and the rest stays as it is (`replaceAll_render`), so a sequence of replacements acts
on the pieces one by one, and comes to one substitution (`Piece.subst`).
-/

namespace VirePortal.Go

/-- `strings.ReplaceAll` with the number of bytes that belong to the last occurrence. -/
def replaceFrom (old new : Str) : ℕ → Str → Str
  | _, [] => []
  | k + 1, _ :: s => replaceFrom old new k s
  | 0, b :: s =>
    if hasPrefix (b :: s) old then new ++ replaceFrom old new (old.length - 1) s
    else b :: replaceFrom old new 0 s

/-- `strings.ReplaceAll`, for a text `old` that is not empty. -/
def replaceAll (s old new : Str) : Str := replaceFrom old new 0 s

/-- A piece of a template: plain text, or a placeholder. -/
inductive Piece where
  | text (s : Str)
  | slot (name : Str)
  deriving DecidableEq

/-- A placeholder as it is written. -/
def placeholder (name : Str) : Str := 123 :: (name ++ [125])

namespace Piece

/-- A piece as it is written. -/
def render : Piece → Str
  | .text s => s
  | .slot name => placeholder name

/-- The placeholders of a name made text. -/
def fill (name new : Str) : Piece → Piece
  | .text s => .text s
  | .slot n => if n = name then .text new else .slot n

/-- Plain text opens no brace, and a name has none. -/
def Braced : Piece → Prop
  | .text s => 123 ∉ s
  | .slot name => 123 ∉ name ∧ 125 ∉ name

instance : DecidablePred Braced
  | .text s => inferInstanceAs (Decidable (123 ∉ s))
  | .slot name => inferInstanceAs (Decidable (123 ∉ name ∧ 125 ∉ name))

/-- The placeholders of all names that have a text made text. -/
def subst (texts : Str → Option Str) : Piece → Piece
  | .text s => .text s
  | .slot name =>
    match texts name with
    | some new => .text new
    | none => .slot name

end Piece

/-- The template as it is written. -/
def render (pieces : List Piece) : Str := pieces.flatMap Piece.render

variable {old new s t name n : Str}

/-- The bytes of an occurrence are passed over. -/
theorem replaceFrom_append (s : Str) :
    replaceFrom old new t.length (t ++ s) = replaceFrom old new 0 s := by
  induction t with
  | nil => rfl
  | cons b t ih => exact ih

/-- Text in which no occurrence can start stays. -/
theorem replaceAll_text {b : UInt8} {rest : Str} (ht : b ∉ t) :
    replaceAll (t ++ s) (b :: rest) new = t ++ replaceAll s (b :: rest) new := by
  induction t with
  | nil => rfl
  | cons c t ih =>
    simp only [List.mem_cons, not_or] at ht
    have hno : hasPrefix (c :: (t ++ s)) (b :: rest) = false := by
      simp [hasPrefix, List.isPrefixOf, ht.1]
    calc replaceAll (c :: t ++ s) (b :: rest) new
        = c :: replaceAll (t ++ s) (b :: rest) new := by
          rw [replaceAll, List.cons_append, replaceFrom, if_neg (by simp [hno])]
          rfl
      _ = c :: t ++ replaceAll s (b :: rest) new := by rw [ih ht.2, List.cons_append]

/-- A name without a closing brace ends where its placeholder does. -/
theorem placeholder_prefix_iff (hname : 125 ∉ name) (hn : 125 ∉ n) :
    hasPrefix (placeholder n ++ s) (placeholder name) = true ↔ n = name := by
  have hcut : ∀ {x : Str}, 125 ∉ x → ∀ s, (cut 125 (x ++ 125 :: s)).1 = x := by
    intro x hx s
    rw [cut_append hx, cut, if_pos rfl]
    exact List.append_nil x
  constructor
  · intro h
    obtain ⟨rest, hrest⟩ := List.isPrefixOf_iff_prefix.1 h
    simp only [placeholder, List.cons_append, List.append_assoc, List.nil_append, List.cons.injEq,
      true_and] at hrest
    rw [← hcut hn s, ← hcut hname rest, hrest]
  · rintro rfl
    exact List.isPrefixOf_iff_prefix.2 (List.prefix_append ..)

/-- A placeholder of the name is replaced. -/
theorem replaceAll_slot : replaceAll (placeholder name ++ s) (placeholder name) new =
    new ++ replaceAll s (placeholder name) new := by
  have hprefix : hasPrefix (placeholder name ++ s) (placeholder name) = true :=
    List.isPrefixOf_iff_prefix.2 (List.prefix_append ..)
  have hlength : (placeholder name).length - 1 = (name ++ [125]).length := rfl
  calc replaceAll (placeholder name ++ s) (placeholder name) new
      = new ++ replaceFrom (placeholder name) new (name ++ [125]).length (name ++ [125] ++ s) := by
        rw [replaceAll, ← hlength]
        exact if_pos hprefix
    _ = new ++ replaceAll s (placeholder name) new := by rw [replaceFrom_append]; rfl

/-- A placeholder of another name stays. -/
theorem replaceAll_slot_of_ne (hname : 125 ∉ name) (hn : 123 ∉ n ∧ 125 ∉ n) (hne : n ≠ name) :
    replaceAll (placeholder n ++ s) (placeholder name) new =
      placeholder n ++ replaceAll s (placeholder name) new := by
  have hno : ¬ hasPrefix (placeholder n ++ s) (placeholder name) = true :=
    fun h => hne ((placeholder_prefix_iff hname hn.2).1 h)
  have hrest : (123 : UInt8) ∉ n ++ [125] := by
    simp [hn.1]
  calc replaceAll (placeholder n ++ s) (placeholder name) new
      = 123 :: replaceAll (n ++ [125] ++ s) (placeholder name) new := by
        rw [replaceAll]
        exact if_neg hno
    _ = 123 :: (n ++ [125] ++ replaceAll s (placeholder name) new) :=
        congrArg (123 :: ·) (replaceAll_text hrest)
    _ = placeholder n ++ replaceAll s (placeholder name) new := rfl

/-- The placeholders of a name are replaced, and the rest stays as it is. -/
theorem replaceAll_render {pieces : List Piece} (hpieces : ∀ x ∈ pieces, x.Braced)
    (hname : 125 ∉ name) :
    replaceAll (render pieces) (placeholder name) new =
      render (pieces.map (Piece.fill name new)) := by
  induction pieces with
  | nil => rfl
  | cons x pieces ih =>
    have hrest := ih fun y hy => hpieces y (.tail _ hy)
    have hx := hpieces x (.head _)
    show replaceAll (x.render ++ render pieces) (placeholder name) new =
      (x.fill name new).render ++ render (pieces.map (Piece.fill name new))
    rw [← hrest]
    cases x with
    | text t => exact replaceAll_text hx
    | slot n =>
      by_cases hn : n = name
      · rw [hn, Piece.fill, if_pos rfl]
        exact replaceAll_slot
      · rw [Piece.fill, if_neg hn]
        exact replaceAll_slot_of_ne hname hx hn

/-- The filled piece is made of text without an opening brace again. -/
theorem Piece.Braced.fill {x : Piece} (hx : x.Braced) (hnew : 123 ∉ new) :
    (x.fill name new).Braced := by
  cases x with
  | text t => exact hx
  | slot n =>
    rw [Piece.fill]
    split_ifs
    · exact hnew
    · exact hx

/-- One replacement more is one name more that has a text. -/
theorem Piece.subst_fill (texts : Str → Option Str) (x : Piece) :
    (x.fill name new).subst texts = x.subst (Function.update texts name (some new)) := by
  cases x with
  | text t => rfl
  | slot n =>
    by_cases hn : n = name
    · rw [hn, Piece.fill, if_pos rfl, Piece.subst, Piece.subst, Function.update_self]
    · rw [Piece.fill, if_neg hn, Piece.subst, Piece.subst, Function.update_of_ne hn]

/-- Without a text for any name nothing is replaced. -/
theorem Piece.subst_none (x : Piece) : x.subst (fun _ => none) = x := by
  cases x <;> rfl

end VirePortal.Go
