import Mathlib.Tactic

/-!
# Go strings

A Go string is a sequence of bytes, with no promise that it is UTF-8. The functions here are those
of package `strings` at the separators that the callers use, which are single bytes.
-/

namespace VirePortal.Go

/-- A Go string. -/
abbrev Str := List UInt8

/-- Strings that compare as equal are equal. -/
instance : LawfulBEq Str := inferInstance

/-- The bytes of an ASCII literal. -/
def ascii (s : String) : Str := s.toList.map fun c => UInt8.ofNat c.toNat

/-- A literal where a Go string is expected stands for its bytes. -/
instance : Coe String Str := ⟨ascii⟩

/-- `strings.Cut` at one byte: what precedes its first occurrence, and what follows it if there is
one. -/
def cut (sep : UInt8) : Str → Str × Option Str
  | [] => ([], none)
  | b :: s => if b = sep then ([], some s) else (b :: (cut sep s).1, (cut sep s).2)

/-- `strings.SplitN` at one byte: at most `n` pieces, the last of which is not split. -/
def splitN (sep : UInt8) : ℕ → Str → List Str
  | 0, _ => []
  | 1, s => [s]
  | n + 2, s => match cut sep s with
    | (before, some after) => before :: splitN sep (n + 1) after
    | (before, none) => [before]

/-- `strings.Split` at one byte. -/
def split (sep : UInt8) : Str → List Str
  | [] => [[]]
  | b :: s =>
    if b = sep then [] :: split sep s
    else match split sep s with
      | piece :: pieces => (b :: piece) :: pieces
      | [] => [[b]]

/-- `strings.LastIndex` at one byte, as the pair of what precedes and what follows its last
occurrence. -/
def cutLast (sep : UInt8) (s : Str) : Option (Str × Str) :=
  match cut sep s.reverse with
  | (_, none) => none
  | (after, some before) => some (before.reverse, after.reverse)

/-- `strings.HasPrefix`. -/
def hasPrefix (s p : Str) : Bool := p.isPrefixOf s

/-- `strings.TrimPrefix`. -/
def trimPrefix (s p : Str) : Str := if hasPrefix s p then s.drop p.length else s

/-- A string in front of another one is taken off. -/
theorem trimPrefix_append (p s : Str) : trimPrefix (p ++ s) p = s := by
  have hprefix : hasPrefix (p ++ s) p = true :=
    List.isPrefixOf_iff_prefix.2 (List.prefix_append p s)
  rw [trimPrefix, if_pos hprefix, List.drop_left]

/-- `strings.Contains`. -/
def contains (s sub : Str) : Bool := s.tails.any fun t => hasPrefix t sub

/-- `strings.ToLower` on the ASCII bytes. -/
def toLower (b : UInt8) : UInt8 := if 65 ≤ b ∧ b ≤ 90 then b + 32 else b

/-- The upper case of an ASCII letter. -/
def toUpper (b : UInt8) : UInt8 := if 97 ≤ b ∧ b ≤ 122 then b - 32 else b

/-- `strings.ToUpper`, as far as its result is ASCII: the letters, and the two other code points
whose upper case is one (U+0131 to `I`, U+017F to `S`). -/
def upperASCII : Str → Str
  | 0xC4 :: 0xB1 :: s => 73 :: upperASCII s
  | 0xC5 :: 0xBF :: s => 83 :: upperASCII s
  | b :: s => toUpper b :: upperASCII s
  | [] => []

def isLetter (b : UInt8) : Bool := (65 ≤ b && b ≤ 90) || (97 ≤ b && b ≤ 122)

def isDigit (b : UInt8) : Bool := 48 ≤ b && b ≤ 57

/-- The UTF-8 encodings of the code points that `unicode.IsSpace` accepts. -/
def spaces : List Str :=
  [[9], [10], [11], [12], [13], [32], [0xC2, 0x85], [0xC2, 0xA0], [0xE1, 0x9A, 0x80],
   [0xE2, 0x80, 0x80], [0xE2, 0x80, 0x81], [0xE2, 0x80, 0x82], [0xE2, 0x80, 0x83],
   [0xE2, 0x80, 0x84], [0xE2, 0x80, 0x85], [0xE2, 0x80, 0x86], [0xE2, 0x80, 0x87],
   [0xE2, 0x80, 0x88], [0xE2, 0x80, 0x89], [0xE2, 0x80, 0x8A], [0xE2, 0x80, 0xA8],
   [0xE2, 0x80, 0xA9], [0xE2, 0x80, 0xAF], [0xE2, 0x81, 0x9F], [0xE3, 0x80, 0x80]]

/-- Removes the members of `cs` that `s` starts with, at most `n` of them. -/
def trimPrefixes (cs : List Str) : ℕ → Str → Str
  | 0, s => s
  | n + 1, s => match cs.find? (hasPrefix s) with
    | some c => trimPrefixes cs n (s.drop c.length)
    | none => s

/-- `strings.TrimSpace`. -/
def trimSpace (s : Str) : Str :=
  let left := trimPrefixes spaces s.length s
  (trimPrefixes (spaces.map List.reverse) left.length left.reverse).reverse

/-- A check of every byte. -/
theorem forall_mem_of_all {p : UInt8 → Prop} [DecidablePred p] {s : Str}
    (h : s.all (fun b => decide (p b)) = true) :
    ∀ b ∈ s, p b :=
  fun b hb => of_decide_eq_true (List.all_eq_true.1 h b hb)

/-- Lower case stays. -/
theorem toLower_toLower (b : UInt8) : toLower (toLower b) = toLower b := by
  unfold toLower
  grind

/-- The case is lost. -/
theorem toUpper_toLower (b : UInt8) : toUpper (toLower b) = toUpper b := by
  unfold toUpper toLower
  grind

/-- The case is lost. -/
theorem toLower_toUpper (b : UInt8) : toLower (toUpper b) = toLower b := by
  unfold toLower toUpper
  grind

/-- A byte that does not occur is not cut at. -/
theorem cut_of_not_mem {sep : UInt8} : ∀ {s : Str}, sep ∉ s → cut sep s = (s, none)
  | [], _ => rfl
  | b :: s, h => by
    simp only [List.mem_cons, not_or] at h
    rw [cut, if_neg (Ne.symm h.1), cut_of_not_mem h.2]

/-- A prefix without the separator stays in front of the cut. -/
theorem cut_append {sep : UInt8} {p : Str} (hp : sep ∉ p) (s : Str) :
    cut sep (p ++ s) = (p ++ (cut sep s).1, (cut sep s).2) := by
  induction p with
  | nil => rfl
  | cons b p ih =>
    simp only [List.mem_cons, not_or] at hp
    rw [List.cons_append, cut, if_neg (Ne.symm hp.1), ih hp.2]
    rfl

/-- A prefix with the separator is cut by itself. -/
theorem cut_append_of_mem {sep : UInt8} {p : Str} (hp : sep ∈ p) (s : Str) :
    cut sep (p ++ s) = ((cut sep p).1, (cut sep p).2.map (· ++ s)) := by
  induction p with
  | nil => cases hp
  | cons b p ih =>
    rw [List.cons_append, cut, cut]
    split_ifs with hb
    · rfl
    · rcases List.mem_cons.1 hp with rfl | hp
      · exact absurd rfl hb
      · rw [ih hp]

/-- The part before a separator is shorter. -/
theorem cut_fst_length {sep : UInt8} {s : Str} (hs : sep ∈ s) :
    (cut sep s).1.length < s.length := by
  induction s with
  | nil => cases hs
  | cons b s ih =>
    rw [cut]
    split_ifs with hb
    · simp
    · rcases List.mem_cons.1 hs with rfl | hs
      · exact absurd rfl hb
      · exact Nat.succ_lt_succ (ih hs)

/-- The part behind it is no longer. -/
theorem cut_snd_length (sep : UInt8) (s : Str) : ((cut sep s).2.getD []).length ≤ s.length := by
  induction s with
  | nil => rfl
  | cons b s ih =>
    rw [cut]
    split_ifs
    · exact Nat.le_succ _
    · exact Nat.le_succ_of_le ih

/-- What precedes the cut has no separator, and is a prefix of the string. -/
theorem cut_fst_spec (sep : UInt8) (s : Str) :
    sep ∉ (cut sep s).1 ∧ (cut sep s).1 <+: s := by
  induction s with
  | nil => simp [cut]
  | cons b s ih =>
    rw [cut]
    split_ifs with hb
    · simp
    · refine ⟨?_, ?_⟩
      · simp only [List.mem_cons, not_or]
        exact ⟨Ne.symm hb, ih.1⟩
      · exact (List.cons_prefix_cons).2 ⟨rfl, ih.2⟩

/-- A separator whose last byte does not occur before its end does not overlap with itself. So a
string without it in front determines where it stands. -/
theorem append_separator_injective {q u u' x x' : Str} {c : UInt8} (hc : c ∉ q)
    (hu : ¬ q ++ [c] <:+: u) (hu' : ¬ q ++ [c] <:+: u')
    (h : u ++ (q ++ [c] ++ x) = u' ++ (q ++ [c] ++ x')) : u = u' ∧ x = x' := by
  -- One of the two strings starts with the other, and the situation is symmetric.
  have hshift : ∀ (v d y y' : Str), ¬ q ++ [c] <:+: v ++ d →
      q ++ [c] ++ y = d ++ (q ++ [c] ++ y') → d = [] := by
    intro v d y y' hinfix heq
    by_contra hd
    have hprefix : q ++ [c] <+: d ++ (q ++ [c] ++ y') := ⟨y, heq⟩
    rcases List.prefix_or_prefix_of_prefix hprefix (List.prefix_append d _) with hlong | hshort
    · exact hinfix (hlong.isInfix.trans (List.suffix_append v d).isInfix)
    · -- The rest of the separator would be its start, and end before its last byte.
      obtain ⟨rest, hrest⟩ := hshort
      have hrest' : rest ++ y = q ++ [c] ++ y' := by
        refine List.append_cancel_left (show d ++ (rest ++ y) = d ++ (q ++ [c] ++ y') from ?_)
        rw [← List.append_assoc, hrest]
        exact heq
      have hlength := congrArg List.length hrest
      have hpos : 0 < d.length := List.length_pos_iff.2 hd
      simp only [List.length_append, List.length_singleton] at hlength
      have hrestq : rest <+: q := by
        have hstart : rest <+: q ++ ([c] ++ y') := ⟨y, by rw [hrest', List.append_assoc]⟩
        exact List.prefix_of_prefix_length_le hstart (List.prefix_append q _) (by omega)
      rcases List.eq_nil_or_concat rest with rfl | ⟨front, b, rfl⟩
      · rw [List.append_nil] at hrest
        refine hinfix ?_
        rw [← hrest]
        exact (List.suffix_append v d).isInfix
      · rw [List.concat_eq_append] at hrestq hrest
        rw [← List.append_assoc] at hrest
        obtain ⟨-, hlast⟩ := List.append_inj' hrest rfl
        obtain rfl : b = c := by simpa using hlast
        exact hc (hrestq.subset (by simp))
  rcases List.append_eq_append_iff.1 h with ⟨d, rfl, heq⟩ | ⟨d, rfl, heq⟩
  · obtain rfl := hshift u d x x' hu' heq
    exact ⟨by simp, by simpa using heq⟩
  · obtain rfl := hshift u' d x' x hu heq
    exact ⟨by simp, by simpa using heq.symm⟩

/-- `strings.Contains` finds a string exactly where it is. -/
theorem contains_iff {s sub : Str} : contains s sub = true ↔ sub <:+: s := by
  unfold contains hasPrefix
  simp only [List.any_eq_true, List.mem_tails, List.isPrefixOf_iff_prefix]
  constructor
  · rintro ⟨t, ht, hsub⟩
    exact hsub.isInfix.trans ht.isInfix
  · rintro ⟨before, after, rfl⟩
    exact ⟨sub ++ after, ⟨before, by simp⟩, List.prefix_append sub after⟩

end VirePortal.Go
