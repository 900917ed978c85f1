import Mathlib.Data.Nat.Digits.Lemmas
import VirePortal.Go.Encoding

/-!
# Round trips of base64 and of decimal numbers

`base64.RawURLEncoding` decodes what it encodes (`base64Decode_base64Encode`), and its alphabet has
no dot, so that encoded parts joined by dots are split where they were joined (`splitN_dots`). A
decimal literal of an `int64` is read back as the number (`parseInt64_formatInt`).
-/

namespace VirePortal.Go

/-! ### base64 -/

/-- The six-bit values of an encoding. -/
def sextets : Str → List ℕ
  | [] => []
  | [a] => [a.toNat / 4, a.toNat % 4 * 16]
  | [a, b] => [a.toNat / 4, a.toNat % 4 * 16 + b.toNat / 16, b.toNat % 16 * 4]
  | a :: b :: c :: rest =>
    a.toNat / 4 :: (a.toNat % 4 * 16 + b.toNat / 16) :: (b.toNat % 16 * 4 + c.toNat / 64) ::
      (c.toNat % 64) :: sextets rest

/-- Base64 by sextets. -/
theorem base64Encode_eq_map (s : Str) : base64Encode s = (sextets s).map base64Char := by
  fun_induction sextets s with
  | case1 => rfl
  | case2 a => rfl
  | case3 a b => rfl
  | case4 a b c rest ih => rw [base64Encode, ih]; rfl

/-- A sextet has six bits. -/
theorem sextets_lt (s : Str) : ∀ v ∈ sextets s, v < 64 := by
  fun_induction sextets s with
  | case1 => simp
  | case2 a =>
    have ha : a.toNat < 256 := a.toNat_lt_size
    simp only [List.mem_cons, List.not_mem_nil, or_false]
    omega
  | case3 a b =>
    have ha : a.toNat < 256 := a.toNat_lt_size
    have hb : b.toNat < 256 := b.toNat_lt_size
    simp only [List.mem_cons, List.not_mem_nil, or_false]
    omega
  | case4 a b c rest ih =>
    have ha : a.toNat < 256 := a.toNat_lt_size
    have hb : b.toNat < 256 := b.toNat_lt_size
    have hc : c.toNat < 256 := c.toNat_lt_size
    intro v hv
    simp only [List.mem_cons] at hv
    rcases hv with hv | hv | hv | hv | hv
    · omega
    · omega
    · omega
    · omega
    · exact ih v hv

/-- Equal numbers make equal bytes. -/
theorem ofNat_eq {n : ℕ} {a : UInt8} (h : n = a.toNat) : UInt8.ofNat n = a := by
  rw [h, UInt8.ofNat_toNat]

/-- The groups of the six-bit values of a string are its bytes. -/
theorem base64Groups_sextets (s : Str) : base64Groups (sextets s) = some s := by
  fun_induction sextets s with
  | case1 => rfl
  | case2 a =>
    have ha : a.toNat < 256 := a.toNat_lt_size
    rw [base64Groups, ofNat_eq (a := a) (by omega)]
  | case3 a b =>
    have ha : a.toNat < 256 := a.toNat_lt_size
    have hb : b.toNat < 256 := b.toNat_lt_size
    rw [base64Groups, ofNat_eq (a := a) (by omega), ofNat_eq (a := b) (by omega)]
  | case4 a b c rest ih =>
    have ha : a.toNat < 256 := a.toNat_lt_size
    have hb : b.toNat < 256 := b.toNat_lt_size
    have hc : c.toNat < 256 := c.toNat_lt_size
    rw [base64Groups, ih, ofNat_eq (a := a) (by omega), ofNat_eq (a := b) (by omega),
      ofNat_eq (a := c) (by omega)]
    rfl

/-- A character is read back. -/
theorem base64Value_base64Char {v : ℕ} (hv : v < 64) : base64Value (base64Char v) = some v := by
  have hall : ∀ v ∈ List.range 64, base64Value (base64Char v) = some v := by decide
  exact hall v (List.mem_range.2 hv)

/-- The bytes of the alphabet. -/
def base64Byte (c : UInt8) : Bool := isLetter c || isDigit c || c = 45 || c = 95

/-- The alphabet. -/
theorem base64Byte_base64Char {v : ℕ} (hv : v < 64) : base64Byte (base64Char v) = true := by
  have hall : ∀ v ∈ List.range 64, base64Byte (base64Char v) = true := by decide
  exact hall v (List.mem_range.2 hv)

/-- An encoding has bytes of the alphabet. -/
theorem base64Byte_of_mem {s : Str} {c : UInt8} (hc : c ∈ base64Encode s) :
    base64Byte c = true := by
  rw [base64Encode_eq_map, List.mem_map] at hc
  obtain ⟨v, hv, rfl⟩ := hc
  exact base64Byte_base64Char (sextets_lt s v hv)

/-- A byte outside of the alphabet is in no encoding. -/
theorem not_mem_base64Encode {c : UInt8} (hc : base64Byte c = false) (s : Str) :
    c ∉ base64Encode s := by
  intro hmem
  rw [base64Byte_of_mem hmem] at hc
  cases hc

/-- Something is encoded as something. -/
theorem base64Encode_ne_nil {s : Str} (hs : s ≠ []) : base64Encode s ≠ [] := by
  rcases s with _ | ⟨a, _ | ⟨b, _ | ⟨c, rest⟩⟩⟩
  · exact absurd rfl hs
  · exact List.cons_ne_nil _ _
  · exact List.cons_ne_nil _ _
  · exact List.cons_ne_nil _ _

/-- An encoding has no dot. -/
theorem dot_not_mem_base64Encode (s : Str) : 46 ∉ base64Encode s :=
  not_mem_base64Encode (by decide) s

/-- The decoder undoes the encoder. -/
theorem base64Decode_base64Encode (s : Str) : base64Decode (base64Encode s) = some s := by
  have hfilter : (base64Encode s).filter (fun c => c ≠ 10 && c ≠ 13) = base64Encode s := by
    rw [List.filter_eq_self]
    intro c hc
    have h10 : c ≠ 10 := fun h => not_mem_base64Encode (by decide) s (h ▸ hc)
    have h13 : c ≠ 13 := fun h => not_mem_base64Encode (by decide) s (h ▸ hc)
    simp [h10, h13]
  have hvalues : ∀ l : List ℕ, (∀ v ∈ l, v < 64) → (l.map base64Char).mapM base64Value =
      some l := by
    intro l
    induction l with
    | nil => exact fun _ => rfl
    | cons v l ih =>
      intro hl
      rw [List.map_cons, List.mapM_cons, base64Value_base64Char (hl v (.head _)),
        ih fun v hv => hl v (.tail _ hv)]
      rfl
  rw [base64Decode, hfilter, base64Encode_eq_map, hvalues _ (sextets_lt s)]
  exact base64Groups_sextets s

/-- Three parts without dots, joined by dots, are split where they were joined. -/
theorem splitN_dots {a b c : Str} (ha : 46 ∉ a) (hb : 46 ∉ b) (hc : 46 ∉ c) :
    splitN 46 4 (a ++ 46 :: b ++ 46 :: c) = [a, b, c] := by
  have hcut : ∀ {p : Str} (s : Str), 46 ∉ p → cut 46 (p ++ 46 :: s) = (p, some s) := by
    intro p s hp
    rw [cut_append hp, cut, if_pos rfl, List.append_nil]
  rw [List.append_assoc, List.cons_append, splitN, hcut _ ha]
  dsimp only
  rw [splitN, hcut _ hb]
  dsimp only
  rw [splitN, cut_of_not_mem hc]

/-! ### Decimal numbers -/

/-- The decimal digits of a natural number. -/
def formatNat (n : ℕ) : Str :=
  if n = 0 then [48] else (Nat.digits 10 n).reverse.map fun d => UInt8.ofNat (48 + d)

/-- `strconv.FormatInt` in base 10. -/
def formatInt (z : ℤ) : Str := if z < 0 then 45 :: formatNat z.natAbs else formatNat z.natAbs

/-- The digits of two parts. -/
theorem parseDigits_append (acc : ℕ) (s t : Str) :
    parseDigits acc (s ++ t) = (parseDigits acc s).bind fun n => parseDigits n t := by
  induction s generalizing acc with
  | nil => rfl
  | cons b s ih =>
    rw [List.cons_append, parseDigits, parseDigits]
    split_ifs
    · exact ih _
    · rfl

/-- One digit. -/
theorem parseDigits_digit (acc : ℕ) {d : ℕ} (hd : d < 10) :
    parseDigits acc [UInt8.ofNat (48 + d)] = some (acc * 10 + d) := by
  have hall : ∀ d ∈ List.range 10, isDigit (UInt8.ofNat (48 + d)) = true ∧
      (UInt8.ofNat (48 + d)).toNat - 48 = d := by decide
  obtain ⟨hdigit, hvalue⟩ := hall d (List.mem_range.2 hd)
  rw [parseDigits, if_pos hdigit, hvalue]
  rfl

/-- The digits of a number, the last one first, are read back. -/
theorem parseDigits_digits {l : List ℕ} (hl : ∀ d ∈ l, d < 10) :
    parseDigits 0 (l.reverse.map fun d => UInt8.ofNat (48 + d)) = some (Nat.ofDigits 10 l) := by
  induction l with
  | nil => rfl
  | cons d l ih =>
    have hrest := ih fun d hd => hl d (.tail _ hd)
    rw [List.reverse_cons, List.map_append, parseDigits_append, hrest, Option.bind_some,
      List.map_singleton, parseDigits_digit _ (hl d (.head _)), Nat.ofDigits_cons]
    congr 1
    ring

/-- A number is read back. -/
theorem parseDigits_formatNat (n : ℕ) : parseDigits 0 (formatNat n) = some n := by
  unfold formatNat
  split_ifs with hn
  · rw [hn]
    rfl
  · rw [parseDigits_digits fun d hd => Nat.digits_lt_base (by norm_num) hd, Nat.ofDigits_digits]

/-- A decimal number starts with a digit. -/
theorem formatNat_head (n : ℕ) : ∃ d s, formatNat n = d :: s ∧ d ≠ 45 := by
  have hdigit : ∀ d ∈ List.range 10, UInt8.ofNat (48 + d) ≠ 45 := by decide
  unfold formatNat
  split_ifs with hn
  · exact ⟨48, [], rfl, by decide⟩
  · obtain ⟨d, s, hs⟩ : ∃ d s, (Nat.digits 10 n).reverse = d :: s := by
      refine List.exists_cons_of_ne_nil fun hnil => hn ?_
      exact Nat.digits_eq_nil_iff_eq_zero.1 (List.reverse_eq_nil_iff.1 hnil)
    have hmem : d ∈ Nat.digits 10 n := by
      rw [← List.mem_reverse, hs]
      exact List.mem_cons_self ..
    rw [hs, List.map_cons]
    exact ⟨_, _, rfl, hdigit d (List.mem_range.2 (Nat.digits_lt_base (by norm_num) hmem))⟩

/-- The literal of an `int64` is read back. -/
theorem parseInt64_formatInt {z : ℤ} (hlow : -2 ^ 63 ≤ z) (hhigh : z < 2 ^ 63) :
    parseInt64 (formatInt z) = some z := by
  obtain ⟨d, s, hs, hd⟩ := formatNat_head z.natAbs
  have hparse := parseDigits_formatNat z.natAbs
  unfold formatInt
  split_ifs with hz
  · have hle : z.natAbs ≤ 2 ^ 63 := by omega
    rw [parseInt64, if_neg (by rw [hs]; simp), hparse]
    simp only [Option.bind_eq_bind, Option.bind_some, if_pos hle]
    rw [Option.some.injEq]
    omega
  · have hlt : z.natAbs < 2 ^ 63 := by omega
    rw [hs] at hparse ⊢
    rw [parseInt64]
    · rw [hparse]
      simp only [Option.bind_eq_bind, Option.bind_some, if_pos hlt]
      rw [Option.some.injEq]
      omega
    · simp
    · exact fun digits h => hd (List.cons.inj h).1

/-! ### UTF-8 -/

/-- What the rest of a character may be: the number of bytes, and the bounds of the next one. -/
structure Utf8State where
  need : ℕ := 0
  low : UInt8 := 0x80
  high : UInt8 := 0xBF
  deriving DecidableEq

/-- One byte of `utf8.ValidString`. -/
def utf8Step (s : Utf8State) (b : UInt8) : Option Utf8State :=
  if s.need ≠ 0 then
    if s.low ≤ b ∧ b ≤ s.high then some { need := s.need - 1 } else none
  else if b < 0x80 then some {}
  else if 0xC2 ≤ b ∧ b ≤ 0xDF then some { need := 1 }
  else if b = 0xE0 then some { need := 2, low := 0xA0 }
  else if b = 0xED then some { need := 2, high := 0x9F }
  else if 0xE1 ≤ b ∧ b ≤ 0xEF then some { need := 2 }
  else if b = 0xF0 then some { need := 3, low := 0x90 }
  else if b = 0xF4 then some { need := 3, high := 0x8F }
  else if 0xF1 ≤ b ∧ b ≤ 0xF3 then some { need := 3 }
  else none

/-- `utf8.ValidString`. -/
def validUTF8 (s : Str) : Bool := s.foldlM utf8Step {} = some {}

end VirePortal.Go
