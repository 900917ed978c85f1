import VirePortal.Go.Url

/-!
# The path of a URL as a server routes it

A server splits the escaped path of a URL at the slashes, removes empty and dot segments as
`path.Clean` does, and decodes what is left (`URL.resource`).

The decoder works segment by segment, undoes the encoder (`unescape_escape`), and makes a string
shorter unless there is nothing to decode. `weight` counts the bytes that are no slashes, so that a
path and its segments can be compared: `resource_plain` gives the resource of a path without a
percent sign, and `resource_weight` bounds the resource of any path, which tells that a string did
not reach the server as one segment.
-/

namespace VirePortal.Go

/-- One step of `path.Clean` on the segments, with the last one first. -/
def cleanStep (acc : List Str) (segment : Str) : List Str :=
  if segment = [] ∨ segment = [46] then acc
  else if segment = [46, 46] then acc.tail
  else segment :: acc

/-- The segments that `path.Clean` leaves. -/
def cleanSegments (segments : List Str) : List Str := (segments.foldl cleanStep []).reverse

/-- The segments of the resource that a URL names, decoded. -/
def URL.resource (u : URL) : Option (List Str) :=
  (cleanSegments (split 47 u.escapedPath)).mapM (unescape .pathSegment)

/-- The number of bytes that are no slashes. -/
def weight (s : Str) : ℕ := (s.filter (· ≠ 47)).length

/-- The number of bytes of some segments. -/
def total (segments : List Str) : ℕ := (segments.map List.length).sum

/-- A segment that is there after cleaning: not empty and not of dots. -/
def Proper (segment : Str) : Prop := segment ≠ [] ∧ segment ≠ [46] ∧ segment ≠ [46, 46]

/-! ### Splitting -/

/-- A split has a part. -/
theorem split_ne_nil (sep : UInt8) (s : Str) : split sep s ≠ [] := by
  induction s with
  | nil => simp [split]
  | cons b s ih =>
    rw [split]
    split_ifs
    · simp
    · split <;> simp

variable {s p : Str} {sep c : UInt8} {segments : List Str} {mode : Encoding} {f : UInt8 → Str}
variable {v u : URL}

/-- A string without the separator is one piece. -/
theorem split_of_not_mem (h : sep ∉ s) : split sep s = [s] := by
  induction s with
  | nil => rfl
  | cons b s ih =>
    simp only [List.mem_cons, not_or] at h
    rw [split, if_neg (Ne.symm h.1), ih h.2]

/-- A prefix without the separator belongs to the first piece. -/
theorem split_append {first : Str} {rest : List Str} (hp : sep ∉ p)
    (hs : split sep s = first :: rest) : split sep (p ++ s) = (p ++ first) :: rest := by
  induction p with
  | nil => exact hs
  | cons b p ih =>
    simp only [List.mem_cons, not_or] at hp
    rw [List.cons_append, split, if_neg (Ne.symm hp.1), ih hp.2]
    rfl

/-- A separator in front gives an empty part. -/
theorem split_cons_self (sep : UInt8) (s : Str) : split sep (sep :: s) = [] :: split sep s := by
  rw [split, if_pos rfl]

/-- A piece without the separator, and what follows it. -/
theorem split_append_cons (hp : sep ∉ p) (s : Str) :
    split sep (p ++ sep :: s) = p :: split sep s := by
  rw [split_append hp (split_cons_self sep s), List.append_nil]

/-- The pieces have the bytes of the string without the separators. -/
theorem total_split (s : Str) : total (split 47 s) = weight s := by
  induction s with
  | nil => rfl
  | cons b s ih =>
    obtain ⟨first, rest, hs⟩ := List.exists_cons_of_ne_nil (split_ne_nil 47 s)
    by_cases hb : b = 47
    · subst hb
      have hweight : weight (47 :: s) = weight s := by simp [weight]
      rw [split_cons_self, hweight, ← ih, total, List.map_cons, List.sum_cons]
      exact Nat.zero_add _
    · have hweight : weight (b :: s) = weight s + 1 := by simp [weight, hb]
      rw [hweight, ← ih, split, if_neg hb, hs]
      simp only [total, List.map_cons, List.sum_cons, List.length_cons]
      omega

/-- A byte of a piece is a byte of the string. -/
theorem mem_of_mem_split {piece : Str} (hpiece : piece ∈ split sep s) (hc : c ∈ piece) : c ∈ s := by
  induction s generalizing piece with
  | nil =>
    rw [split, List.mem_singleton] at hpiece
    rw [hpiece] at hc
    exact hc
  | cons b s ih =>
    obtain ⟨first, rest, hs⟩ := List.exists_cons_of_ne_nil (split_ne_nil sep s)
    rw [split] at hpiece
    split_ifs at hpiece with hb
    · rcases List.mem_cons.1 hpiece with rfl | hpiece
      · cases hc
      · exact List.mem_cons_of_mem b (ih hpiece hc)
    · rw [hs] at hpiece ih
      rcases List.mem_cons.1 hpiece with rfl | hpiece
      · rcases List.mem_cons.1 hc with rfl | hc
        · exact List.mem_cons_self ..
        · exact List.mem_cons_of_mem b (ih (.head _) hc)
      · exact List.mem_cons_of_mem b (ih (.tail _ hpiece) hc)

/-- A byte of the string other than the separator is in one of the pieces. -/
theorem exists_mem_split (hc : c ∈ s) (hne : c ≠ sep) :
    ∃ piece ∈ split sep s, c ∈ piece := by
  induction s with
  | nil => cases hc
  | cons b s ih =>
    obtain ⟨first, rest, hs⟩ := List.exists_cons_of_ne_nil (split_ne_nil sep s)
    rw [split]
    split_ifs with hb
    · have hmem : c ∈ s := by
        rcases List.mem_cons.1 hc with rfl | hc
        · exact absurd hb hne
        · exact hc
      obtain ⟨piece, hpiece, hc⟩ := ih hmem
      exact ⟨piece, .tail _ hpiece, hc⟩
    · rw [hs] at ih ⊢
      rcases List.mem_cons.1 hc with rfl | hc
      · exact ⟨_, .head _, .head _⟩
      · obtain ⟨piece, hpiece, hc⟩ := ih hc
        rcases List.mem_cons.1 hpiece with rfl | hpiece
        · exact ⟨_, .head _, .tail _ hc⟩
        · exact ⟨piece, .tail _ hpiece, hc⟩

/-! ### Cleaning -/

/-- Cleaning keeps some of the segments, in their order. -/
theorem foldl_cleanStep_sublist (acc segments : List Str) :
    (segments.foldl cleanStep acc).reverse.Sublist (acc.reverse ++ segments) := by
  induction segments generalizing acc with
  | nil => simp
  | cons segment segments ih =>
    rw [List.foldl_cons]
    refine (ih (cleanStep acc segment)).trans ?_
    unfold cleanStep
    split_ifs
    · exact (List.sublist_cons_self segment segments).append_left acc.reverse
    · have htail : acc.tail.reverse.Sublist acc.reverse := (List.tail_sublist acc).reverse
      exact htail.append (List.sublist_cons_self segment segments)
    · simp

/-- Cleaning adds no segment. -/
theorem cleanSegments_sublist (segments : List Str) : (cleanSegments segments).Sublist segments :=
  foldl_cleanStep_sublist [] segments

/-- Proper segments stay. -/
theorem foldl_cleanStep_proper (h : ∀ x ∈ segments, Proper x) (acc : List Str) :
    segments.foldl cleanStep acc = segments.reverse ++ acc := by
  induction segments generalizing acc with
  | nil => rfl
  | cons segment segments ih =>
    obtain ⟨hne, hdot, hdots⟩ := h segment (.head _)
    have hstep : cleanStep acc segment = segment :: acc := by
      rw [cleanStep, if_neg (by simp [hne, hdot]), if_neg hdots]
    rw [List.foldl_cons, hstep, ih fun x hx => h x (.tail _ hx)]
    simp

/-- A sublist is no longer in total. -/
theorem total_sublist {l l' : List Str} (h : l.Sublist l') : total l ≤ total l' :=
  (h.map List.length).sum_le_sum fun _ _ => Nat.zero_le _

/-- A segment with bytes that is missing from a part of the segments makes its total smaller. -/
theorem mem_of_total_eq {l l' : List Str} (h : l.Sublist l') (htotal : total l = total l') {x : Str}
    (hx : x ∈ l') (hne : x ≠ []) : x ∈ l := by
  induction h with
  | slnil => exact hx
  | @cons l l' a hsub ih =>
    have hle := total_sublist hsub
    have hcons : total (a :: l') = a.length + total l' := rfl
    rw [hcons] at htotal
    have ha : a = [] := List.eq_nil_of_length_eq_zero (by omega)
    rcases List.mem_cons.1 hx with rfl | hx
    · exact absurd ha hne
    · exact ih (by omega) hx
  | @cons_cons l l' a hsub ih =>
    have hcons : ∀ l, total (a :: l) = a.length + total l := fun _ => rfl
    rw [hcons, hcons] at htotal
    rcases List.mem_cons.1 hx with rfl | hx
    · exact List.mem_cons_self ..
    · exact List.mem_cons_of_mem a (ih (by omega) hx)

/-! ### Decoding -/

/-- A byte that is no percent sign is decoded by itself. -/
theorem unescape_cons (hc : c ≠ 37) (s : Str) :
    unescape mode (c :: s) =
      (unescapeByte mode c).bind fun b => (unescape mode s).map (b :: ·) := by
  rw [unescape]
  · simp [hc, Option.bind_eq_bind, Option.map_eq_bind]
  · intro h l s' h37
    exact absurd h37 hc

/-- An escape is decoded to one byte. -/
theorem unescape_percent {t : Str} (h : unescape mode (37 :: s) = some t) :
    ∃ h' l' hi lo s' t', s = h' :: l' :: s' ∧ unhex h' = some hi ∧ unhex l' = some lo ∧
      unescape mode s' = some t' ∧ t = UInt8.ofNat (hi * 16 + lo) :: t' := by
  rcases s with _ | ⟨h', _ | ⟨l', s'⟩⟩
  · simp [unescape] at h
  · simp [unescape] at h
  · rw [unescape] at h
    simp only [Option.bind_eq_bind, Option.bind_eq_some_iff] at h
    obtain ⟨hi, hhi, lo, hlo, h⟩ := h
    split_ifs at h
    simp only [Option.bind_eq_some_iff, Option.pure_def, Option.some.injEq] at h
    obtain ⟨t', ht', rfl⟩ := h
    exact ⟨h', l', hi, lo, s', t', rfl, hhi, hlo, ht', rfl⟩

/-- Induction on what is decoded: nothing, an escape, or another byte comes first. -/
theorem unescape_induct {motive : Str → Str → Prop} (nil : motive [] [])
    (percent : ∀ h l hi lo s t, unhex h = some hi → unhex l = some lo → unescape mode s = some t →
      motive s t → motive (37 :: h :: l :: s) (UInt8.ofNat (hi * 16 + lo) :: t))
    (byte : ∀ c b s t, c ≠ 37 → unescapeByte mode c = some b → unescape mode s = some t →
      motive s t → motive (c :: s) (b :: t)) :
    ∀ {s t : Str}, unescape mode s = some t → motive s t := by
  -- The recursion skips two bytes at an escape, so the induction is on the length.
  suffices h : ∀ n (s t : Str), s.length ≤ n → unescape mode s = some t → motive s t from
    fun {s t} => h s.length s t le_rfl
  intro n
  induction n with
  | zero =>
    intro s t hn ht
    obtain rfl := List.eq_nil_of_length_eq_zero (Nat.le_zero.1 hn)
    rw [unescape, Option.some.injEq] at ht
    exact ht ▸ nil
  | succ n ih =>
    intro s t hn ht
    cases s with
    | nil =>
      rw [unescape, Option.some.injEq] at ht
      exact ht ▸ nil
    | cons c s =>
      simp only [List.length_cons] at hn
      by_cases hc : c = 37
      · subst hc
        obtain ⟨h, l, hi, lo, s', t', rfl, hhi, hlo, ht', rfl⟩ := unescape_percent ht
        simp only [List.length_cons] at hn
        exact percent h l hi lo s' t' hhi hlo ht' (ih s' t' (by omega) ht')
      · rw [unescape_cons hc, Option.bind_eq_some_iff] at ht
        obtain ⟨b, hb, ht⟩ := ht
        rw [Option.map_eq_some_iff] at ht
        obtain ⟨t', ht', rfl⟩ := ht
        exact byte c b s t' hc hb ht' (ih s t' (by omega) ht')

/-- The decoder makes nothing longer, and keeps the length only when there is no escape. -/
theorem unescape_length {t : Str} (h : unescape mode s = some t) :
    t.length ≤ s.length ∧ (t.length = s.length → 37 ∉ s) := by
  refine unescape_induct (motive := fun s t => t.length ≤ s.length ∧ (t.length = s.length → 37 ∉ s))
    ⟨le_rfl, fun _ => by simp⟩ ?_ ?_ h
  · intro h l hi lo s t _ _ _ ih
    simp only [List.length_cons]
    exact ⟨by omega, by omega⟩
  · intro c b s t hc _ _ ih
    simp only [List.length_cons, List.mem_cons, not_or]
    exact ⟨by omega, fun heq => ⟨Ne.symm hc, ih.2 (by omega)⟩⟩

/-- A hexadecimal digit is no slash. -/
theorem unhex_slash {h : UInt8} {hi : ℕ} (hhi : unhex h = some hi) : h ≠ 47 := by
  rintro rfl
  rw [show unhex 47 = none by decide] at hhi
  cases hhi

/-- A byte of a path stands for itself. -/
theorem unescapeByte_path (c : UInt8) : unescapeByte .path c = some c := by
  simp [unescapeByte]

/-- The same for the bytes that are no slashes, in a path. -/
theorem unescape_weight {t : Str} (h : unescape .path s = some t) :
    weight t ≤ weight s ∧ (weight t = weight s → 37 ∉ s) := by
  have hcons : ∀ (c : UInt8) (s : Str), weight (c :: s) = weight s + if c = 47 then 0 else 1 := by
    intro c s
    by_cases hc : c = 47 <;> simp [weight, hc]
  refine unescape_induct (motive := fun s t => weight t ≤ weight s ∧ (weight t = weight s → 37 ∉ s))
    ⟨le_rfl, fun _ => by simp⟩ ?_ ?_ h
  · intro h l hi lo s t hhi hlo _ ih
    have hweight : weight (37 :: h :: l :: s) = weight s + 3 := by
      rw [hcons, hcons, hcons, if_neg (unhex_slash hhi), if_neg (unhex_slash hlo)]
      rfl
    have hle : weight (UInt8.ofNat (hi * 16 + lo) :: t) ≤ weight t + 1 := by
      rw [hcons]
      split_ifs <;> omega
    exact ⟨by omega, by omega⟩
  · intro c b s t hc hb _ ih
    obtain rfl : c = b := Option.some.inj ((unescapeByte_path c).symm.trans hb)
    rw [hcons, hcons, List.mem_cons, not_or]
    exact ⟨by omega, fun heq => ⟨Ne.symm hc, ih.2 (by omega)⟩⟩

/-- A path without a percent sign is what it decodes to. -/
theorem unescape_path_of_not_mem (h : 37 ∉ s) : unescape .path s = some s := by
  induction s with
  | nil => rfl
  | cons c s ih =>
    simp only [List.mem_cons, not_or] at h
    rw [unescape_cons (Ne.symm h.1), unescapeByte_path, ih h.2]
    rfl

/-- A segment is decoded as a path is. -/
theorem unescape_pathSegment (s : Str) : unescape .pathSegment s = unescape .path s := by
  -- An escape takes three bytes, so the induction is on the length.
  suffices h : ∀ n (s : Str), s.length ≤ n → unescape .pathSegment s = unescape .path s from
    h s.length s le_rfl
  intro n
  induction n with
  | zero =>
    intro s hn
    obtain rfl := List.eq_nil_of_length_eq_zero (Nat.le_zero.1 hn)
    rfl
  | succ n ih =>
    intro s hn
    cases s with
    | nil => rfl
    | cons c s =>
      simp only [List.length_cons] at hn
      by_cases hc : c = 37
      · subst hc
        rcases s with _ | ⟨h, _ | ⟨l, s⟩⟩
        · rfl
        · rfl
        · simp only [List.length_cons] at hn
          rw [unescape, unescape, ih s (by omega)]
          rfl
      · rw [unescape_cons hc, unescape_cons hc, ih s (by omega)]
        simp [unescapeByte]

/-- A digit is read back. -/
theorem unhex_hexDigit {v : ℕ} (hv : v < 16) : unhex (hexDigit v) = some v := by
  have hall : ∀ v ∈ List.range 16, unhex (hexDigit v) = some v := by decide
  exact hall v (List.mem_range.2 hv)

/-- A digit is no slash. -/
theorem hexDigit_ne_slash {v : ℕ} (hv : v < 16) : hexDigit v ≠ 47 := by
  have hall : ∀ v ∈ List.range 16, hexDigit v ≠ 47 := by decide
  exact hall v (List.mem_range.2 hv)

/-- The first byte is escaped by itself. -/
theorem escape_cons (mode : Encoding) (c : UInt8) (s : Str) :
    escape mode (c :: s) = escapeByte mode c ++ escape mode s := rfl

/-- A digit is a letter or a digit. -/
theorem hexDigit_letter_or_digit {v : ℕ} (hv : v < 16) :
    isLetter (hexDigit v) = true ∨ isDigit (hexDigit v) = true := by
  have hall : ∀ v ∈ List.range 16, isLetter (hexDigit v) = true ∨ isDigit (hexDigit v) = true :=
    by decide
  exact hall v (List.mem_range.2 hv)

/-- A byte of an escaped text: the sign for a space or of an escape, or a byte that needs no
escape. -/
theorem mem_escape (hc : c ∈ escape mode s) :
    (c = 43 ∧ mode = .queryComponent) ∨ c = 37 ∨ shouldEscape c mode = false := by
  have hdigit : ∀ {v : ℕ}, v < 16 → shouldEscape (hexDigit v) mode = false := by
    intro v hv
    rw [shouldEscape, if_pos]
    simpa using hexDigit_letter_or_digit hv
  obtain ⟨b, -, hb⟩ := List.mem_flatMap.1 hc
  have hlt : b.toNat < 256 := b.toNat_lt_size
  rw [escapeByte] at hb
  split_ifs at hb with hspace hescape
  · exact .inl ⟨List.mem_singleton.1 hb, hspace.2⟩
  · simp only [List.mem_cons, List.not_mem_nil, or_false] at hb
    rcases hb with rfl | rfl | rfl
    · exact .inr (.inl rfl)
    · exact .inr (.inr (hdigit (by omega)))
    · exact .inr (.inr (hdigit (by omega)))
  · rw [List.mem_singleton.1 hb]
    exact .inr (.inr (by simpa using hescape))

/-- A byte that a component escapes is not in its escaped texts. -/
theorem not_mem_escape (hc : shouldEscape c mode = true) (hplus : c ≠ 43) (hpercent : c ≠ 37)
    (s : Str) : c ∉ escape mode s := by
  intro hmem
  rcases mem_escape hmem with ⟨h, -⟩ | h | h
  · exact hplus h
  · exact hpercent h
  · rw [hc] at h
    cases h

/-- The two forms of a byte in a path. -/
theorem escapeByte_path (c : UInt8) :
    (escapeByte .path c = [c] ∧ c ≠ 37) ∨
      (escapeByte .path c = [37, hexDigit (c.toNat / 16), hexDigit (c.toNat % 16)] ∧ c ≠ 47) := by
  have hspace : ¬ (c = 32 ∧ Encoding.path = .queryComponent) := by simp
  rw [escapeByte, if_neg hspace]
  split_ifs with hescape
  · refine .inr ⟨rfl, ?_⟩
    rintro rfl
    exact absurd hescape (by decide)
  · refine .inl ⟨rfl, ?_⟩
    rintro rfl
    exact absurd (show shouldEscape 37 .path = true by decide) hescape

/-- The decoder of a component undoes an encoder that writes for each byte one that stands for it or
its escape. -/
theorem unescape_flatMap_of_forms (hallowed : ∀ hi lo, escapeAllowed mode hi lo = true)
    (hf : ∀ c, (∃ b, f c = [b] ∧ b ≠ 37 ∧ unescapeByte mode b = some c) ∨
      f c = [37, hexDigit (c.toNat / 16), hexDigit (c.toNat % 16)])
    (s : Str) : unescape mode (s.flatMap f) = some s := by
  induction s with
  | nil => rfl
  | cons c s ih =>
    rw [List.flatMap_cons]
    rcases hf c with ⟨b, hbyte, hb, hc⟩ | hbyte
    · rw [hbyte, List.singleton_append, unescape_cons hb, hc, ih]
      rfl
    · have hlt : c.toNat < 256 := c.toNat_lt_size
      rw [hbyte, List.cons_append, List.cons_append, List.cons_append, List.nil_append, unescape,
        unhex_hexDigit (by omega), unhex_hexDigit (by omega), ih]
      have hbyte' : UInt8.ofNat (c.toNat / 16 * 16 + c.toNat % 16) = c := by
        rw [show c.toNat / 16 * 16 + c.toNat % 16 = c.toNat by omega, UInt8.ofNat_toNat]
      simp only [Option.bind_eq_bind, Option.bind_some, hallowed, if_true, hbyte', Option.pure_def]

/-- The decoder undoes an encoder that keeps a byte or writes its escape. -/
theorem unescape_flatMap
    (hf : ∀ c, (f c = [c] ∧ c ≠ 37) ∨ f c = [37, hexDigit (c.toNat / 16), hexDigit (c.toNat % 16)])
    (s : Str) : unescape .path (s.flatMap f) = some s := by
  refine unescape_flatMap_of_forms (fun _ _ => rfl) (fun c => (hf c).imp_left fun h => ?_) s
  exact ⟨c, h.1, h.2, unescapeByte_path c⟩

/-- An escaped path is read back. -/
theorem unescape_escape (s : Str) : unescape .path (escape .path s) = some s :=
  unescape_flatMap (fun c => (escapeByte_path c).imp_right And.left) s

/-- Paths are told apart when they are escaped. -/
theorem escape_injective : Function.Injective (escape .path) := by
  intro s t h
  have hs := unescape_escape s
  rw [h, unescape_escape] at hs
  exact (Option.some.inj hs).symm

/-- An encoder that keeps a byte, and writes it for no other, encodes the pieces between. -/
theorem split_flatMap (hsep : f sep = [sep]) (hnot : ∀ c, c ≠ sep → sep ∉ f c) (s : Str) :
    split sep (s.flatMap f) = (split sep s).map (List.flatMap f) := by
  induction s with
  | nil => rfl
  | cons c s ih =>
    obtain ⟨first, rest, hs⟩ := List.exists_cons_of_ne_nil (split_ne_nil sep s)
    rw [List.flatMap_cons, split]
    split_ifs with hc
    · rw [hc, hsep, List.singleton_append, split_cons_self, ih]
      rfl
    · rw [hs, List.map_cons] at ih
      rw [split_append (hnot c hc) ih, hs]
      rfl

/-- The encoder keeps the slashes of a path. -/
theorem split_escape (s : Str) : split 47 (escape .path s) = (split 47 s).map (escape .path) := by
  apply split_flatMap (by decide)
  intro c hc
  have hlt : c.toNat < 256 := c.toNat_lt_size
  rcases escapeByte_path c with ⟨hbyte, -⟩ | ⟨hbyte, -⟩
  · rw [hbyte, List.mem_singleton]
    exact Ne.symm hc
  · rw [hbyte]
    simp [Ne.symm (hexDigit_ne_slash (show c.toNat / 16 < 16 by omega)),
      Ne.symm (hexDigit_ne_slash (show c.toNat % 16 < 16 by omega))]

/-- Cleaning does not care whether the segments are encoded. -/
theorem cleanSegments_map_escape (segments : List Str) :
    cleanSegments (segments.map (escape .path)) = (cleanSegments segments).map (escape .path) := by
  have hstep : ∀ acc segment, cleanStep (acc.map (escape .path)) (escape .path segment) =
      (cleanStep acc segment).map (escape .path) := by
    intro acc segment
    have hiff : ∀ t, escape .path t = t → (escape .path segment = t ↔ segment = t) := by
      intro t ht
      constructor
      · exact fun h => escape_injective (h.trans ht.symm)
      · exact fun h => h ▸ ht
    unfold cleanStep
    simp only [hiff [] rfl, hiff [46] (by decide), hiff [46, 46] (by decide)]
    split_ifs
    · rfl
    · exact (List.map_tail).symm
    · rfl
  have hfold : ∀ acc, (segments.map (escape .path)).foldl cleanStep (acc.map (escape .path)) =
      (segments.foldl cleanStep acc).map (escape .path) := by
    induction segments with
    | nil => exact fun _ => rfl
    | cons segment segments ih =>
      intro acc
      rw [List.map_cons, List.foldl_cons, List.foldl_cons, hstep, ih]
  rw [cleanSegments, cleanSegments, List.map_reverse, ← hfold []]
  rfl

/-- Decoding some segments makes none longer, and keeps the total only when there is no escape. -/
theorem total_mapM {decoded : List Str} (h : segments.mapM (unescape .pathSegment) = some decoded) :
    total decoded ≤ total segments ∧ (total decoded = total segments → ∀ x ∈ segments, 37 ∉ x) := by
  induction segments generalizing decoded with
  | nil =>
    obtain rfl : [] = decoded := Option.some.inj h
    exact ⟨le_rfl, nofun⟩
  | cons x segments ih =>
    rw [List.mapM_cons] at h
    simp only [Option.bind_eq_bind, Option.bind_eq_some_iff, Option.pure_def,
      Option.some.injEq] at h
    obtain ⟨y, hy, rest, hrest, rfl⟩ := h
    obtain ⟨hle, heq⟩ := unescape_length hy
    obtain ⟨hle', heq'⟩ := ih hrest
    have hcons : ∀ (x : Str) l, total (x :: l) = x.length + total l := fun _ _ => rfl
    rw [hcons, hcons]
    refine ⟨by omega, fun htotal z hz => ?_⟩
    rcases List.mem_cons.1 hz with rfl | hz
    · exact heq (by omega)
    · exact heq' (by omega) z hz

/-- Escaped segments are read back. -/
theorem mapM_unescape_escape (segments : List Str) :
    (segments.map (escape .path)).mapM (unescape .pathSegment) = some segments := by
  induction segments with
  | nil => rfl
  | cons x segments ih =>
    rw [List.map_cons, List.mapM_cons, unescape_pathSegment, unescape_escape, ih]
    rfl

/-- Segments without a `%` are read as they are. -/
theorem mapM_unescape_of_not_mem (h : ∀ x ∈ segments, 37 ∉ x) :
    segments.mapM (unescape .pathSegment) = some segments := by
  induction segments with
  | nil => rfl
  | cons x segments ih =>
    rw [List.mapM_cons, unescape_pathSegment,
      unescape_path_of_not_mem (h x (.head _)),
      ih fun y hy => h y (.tail _ hy)]
    rfl

/-! ### The resource of a path -/

section

variable (h : u.setPath p = some v)
include h

/-- What `setPath` sets. -/
theorem URL.setPath_eq_some :
    ∃ t, unescape .path p = some t ∧
      v = { u with path := t, rawPath := if p = escape .path t then [] else p } := by
  obtain ⟨t, ht, hv⟩ := Option.bind_eq_some_iff.1 h
  exact ⟨t, ht, (Option.some.inj hv).symm⟩

/-- The escaped path of a URL is the path that it was set to when that may stand as it is, and the
encoding of what that decodes to when not. -/
theorem URL.escapedPath_eq (hp : p.head? = some 47) :
    unescape .path p = some v.path ∧
      v.escapedPath = if validEncoded p .path then p else escape .path v.path := by
  obtain ⟨t, ht, rfl⟩ := URL.setPath_eq_some h
  refine ⟨ht, ?_⟩
  obtain ⟨rest, rfl⟩ := List.head?_eq_some_iff.1 hp
  have hstar : t ≠ [42] := by
    rintro rfl
    rw [unescape_cons (by decide), unescapeByte_path] at ht
    cases hrest : unescape .path rest with
    | none => simp [hrest] at ht
    | some t' => simp [hrest] at ht
  unfold URL.escapedPath
  dsimp only
  by_cases hsame : 47 :: rest = escape .path t
  · rw [if_pos hsame, if_neg (by simp), if_neg hstar, ← hsame, ite_self]
  · rw [if_neg hsame, if_neg hstar]
    simp [ht]

/-- The path is kept as it was written, or escaped anew. -/
theorem URL.escapedPath_setPath (hp : p.head? = some 47) :
    ∃ t, unescape .path p = some t ∧ (v.escapedPath = p ∨ v.escapedPath = escape .path t) := by
  obtain ⟨ht, hescaped⟩ := URL.escapedPath_eq h hp
  refine ⟨v.path, ht, ?_⟩
  rw [hescaped]
  split_ifs
  · exact .inl rfl
  · exact .inr rfl

/-- The resource of a path without a percent sign is what cleaning leaves of its segments. -/
theorem URL.resource_plain (hp : p.head? = some 47) (hplain : 37 ∉ p) :
    v.resource = some (cleanSegments (split 47 p)) := by
  obtain ⟨t, ht, hescaped⟩ := URL.escapedPath_setPath h hp
  obtain rfl : p = t := Option.some.inj ((unescape_path_of_not_mem hplain).symm.trans ht)
  unfold URL.resource
  rcases hescaped with hescaped | hescaped
  · rw [hescaped]
    refine mapM_unescape_of_not_mem fun x hx => ?_
    exact fun h37 => hplain (mem_of_mem_split ((cleanSegments_sublist _).subset hx) h37)
  · rw [hescaped, split_escape, cleanSegments_map_escape, mapM_unescape_escape]

/-- The resource of a path has no more bytes than the path has besides its slashes, and as many only
when the path has no percent sign. -/
theorem URL.resource_weight {decoded : List Str}  (hp : p.head? = some 47)
    (hresource : v.resource = some decoded) :
    total decoded ≤ weight p ∧ (total decoded = weight p → 37 ∉ p) := by
  obtain ⟨t, ht, hescaped⟩ := URL.escapedPath_setPath h hp
  unfold URL.resource at hresource
  rcases hescaped with hescaped | hescaped
  · rw [hescaped] at hresource
    have hsub := cleanSegments_sublist (split 47 p)
    obtain ⟨hle, heq⟩ := total_mapM hresource
    have hle' := total_sublist hsub
    rw [total_split] at hle'
    refine ⟨by omega, fun htotal h37 => ?_⟩
    -- Then cleaning removed no bytes, so the segment with the percent sign is still there.
    have hsplit : ∃ piece ∈ split 47 p, 37 ∈ piece := exists_mem_split h37 (by decide)
    obtain ⟨piece, hpiece, hmem⟩ := hsplit
    have hkept := mem_of_total_eq hsub (by rw [total_split]; omega) hpiece (List.ne_nil_of_mem hmem)
    exact heq (by omega) piece hkept hmem
  · rw [hescaped, split_escape, cleanSegments_map_escape, mapM_unescape_escape] at hresource
    cases hresource
    have hle := total_sublist (cleanSegments_sublist (split 47 t))
    rw [total_split] at hle
    obtain ⟨hle', heq'⟩ := unescape_weight ht
    exact ⟨by omega, fun htotal => heq' (by omega)⟩

end

/-! ### URLs of an origin -/

/-- A byte of a scheme. -/
def schemeByte (c : UInt8) : Bool := isLetter c || isDigit c || c = 43 || c = 45 || c = 46

/-- `scheme://authority`, with what the authority parses to. -/
structure Origin where
  scheme : Str
  authority : Str
  user : Option Userinfo
  host : Str
  scheme_head : ∃ c s, scheme = c :: s ∧ isLetter c = true
  scheme_bytes : ∀ c ∈ scheme, schemeByte c = true
  authority_plain : 35 ∉ authority ∧ 47 ∉ authority ∧ 63 ∉ authority ∧ containsCTL authority = false
  authority_parses : parseAuthority authority = some (user, host)

/-- The scheme `http` starts with a letter. -/
theorem http_head : ∃ c s, ascii "http" = c :: s ∧ isLetter c = true := ⟨_, _, rfl, by decide⟩

/-- The bytes of the scheme `http`. -/
theorem http_bytes : ∀ c ∈ ascii "http", schemeByte c = true := forall_mem_of_all (by decide)

namespace Origin

/-- A prefix without a question mark stays in front of the query. -/
theorem splitQuery_append {p : Str} (hp : 63 ∉ p) (s : Str) :
    splitQuery (p ++ s) = (p ++ (splitQuery s).1, (splitQuery s).2) := by
  unfold splitQuery
  rw [cut_append hp]
  rcases hcut : cut 63 s with ⟨before, _ | _ | ⟨c, query⟩⟩ <;> rfl

/-- The part in front of the query starts as the string does. -/
theorem splitQuery_fst_head {s : Str} (hs : s.head? = some 47) :
    (splitQuery s).1.head? = some 47 := by
  cases s with
  | nil => cases hs
  | cons c s =>
    cases hs
    unfold splitQuery
    rw [cut, if_neg (by decide)]
    rcases hcut : cut 63 s with ⟨before, _ | _ | ⟨c, query⟩⟩ <;> rfl

/-- The control bytes of two parts. -/
theorem containsCTL_append (s t : Str) :
    containsCTL (s ++ t) = (containsCTL s || containsCTL t) := List.any_append

/-- The origin as the start of a URL. -/
def string (o : Origin) : Str := o.scheme ++ 58 :: 47 :: 47 :: o.authority

/-- A URL of the origin with the given query and no path. -/
def start (o : Origin) (query : Str × Bool) : URL :=
  { scheme := o.scheme.map toLower, user := o.user, host := o.host,
    rawQuery := query.1, forceQuery := query.2 }

/-- The URL of the origin that goes on with `rest`: its path, its query and its fragment. -/
def url (o : Origin) (rest : Str) : Option URL :=
  if containsCTL (cut 35 rest).1 then none
  else
    ((o.start (splitQuery (cut 35 rest).1).2).setPath (splitQuery (cut 35 rest).1).1).bind fun u =>
      u.setFragment ((cut 35 rest).2.getD [])

/-- A scheme is not empty. -/
theorem scheme_ne (o : Origin) : o.scheme ≠ [] := by
  obtain ⟨c, s, hscheme, -⟩ := o.scheme_head
  rw [hscheme]
  exact List.cons_ne_nil c s

/-- The loop of `getScheme` behind the first byte of a scheme. -/
theorem getSchemeFrom_bytes {bytes : Str} (h : ∀ c ∈ bytes, schemeByte c = true) {seen : Str}
    (hne : seen ≠ []) (s : Str) :
    getSchemeFrom seen (bytes ++ 58 :: s) = some (some (seen ++ bytes), s) := by
  induction bytes generalizing seen with
  | nil =>
    rw [List.append_nil, List.nil_append, getSchemeFrom, if_neg (by decide), if_neg (by decide),
      if_pos rfl, if_neg hne]
  | cons c bytes ih =>
    have hc := h c (.head _)
    have hrest : getSchemeFrom (seen ++ [c]) (bytes ++ 58 :: s) =
        some (some (seen ++ [c] ++ bytes), s) :=
      ih (fun c hc => h c (.tail _ hc)) (by simp)
    rw [List.append_assoc, List.singleton_append] at hrest
    rw [List.cons_append, getSchemeFrom, if_neg hne]
    by_cases hletter : isLetter c = true
    · rw [if_pos hletter, hrest]
    · rw [if_neg hletter, if_pos, hrest]
      simpa [schemeByte, hletter, or_assoc] using hc

/-- The scheme of an origin is found. -/
theorem getSchemeFrom_scheme (o : Origin) (s : Str) :
    getSchemeFrom [] (o.scheme ++ 58 :: s) = some (some o.scheme, s) := by
  obtain ⟨c, bytes, hscheme, hletter⟩ := o.scheme_head
  have hbytes : ∀ b ∈ bytes, schemeByte b = true := fun b hb =>
    o.scheme_bytes b (hscheme ▸ List.mem_cons_of_mem c hb)
  rw [hscheme, List.cons_append, getSchemeFrom, if_pos hletter]
  exact getSchemeFrom_bytes hbytes (List.cons_ne_nil c []) s

/-- A scheme has no control byte. -/
theorem containsCTL_scheme (o : Origin) : containsCTL o.scheme = false := by
  unfold containsCTL
  rw [List.any_eq_false]
  intro c hc hctl
  have hbyte := o.scheme_bytes c hc
  simp only [schemeByte, isLetter, isDigit, Bool.or_eq_true, Bool.and_eq_true, decide_eq_true_eq]
    at hbyte hctl
  grind

/-- No byte of a scheme is one of the separators of a URL. -/
theorem not_mem_scheme (o : Origin) {c : UInt8} (hc : schemeByte c = false) : c ∉ o.scheme := by
  intro hmem
  rw [o.scheme_bytes c hmem] at hc
  cases hc

/-- The part of `parse` after the scheme and the query, for an origin. -/
theorem parseRest_authority (o : Origin) {u : URL} {path : Str} (hu : u.scheme ≠ [])
    (hpath : path.head? = some 47) :
    parseRest u (47 :: 47 :: o.authority ++ path) =
      URL.setPath { u with user := o.user, host := o.host } path := by
  obtain ⟨rest, rfl⟩ := List.head?_eq_some_iff.1 hpath
  have hsplit : splitAuthority (o.authority ++ 47 :: rest) = (o.authority, 47 :: rest) := by
    unfold splitAuthority
    rw [cut_append o.authority_plain.2.1, cut, if_pos rfl]
    simp
  have hprefix : hasPrefix (47 :: 47 :: o.authority ++ 47 :: rest) "//" = true := rfl
  unfold parseRest
  rw [if_neg (by simp), if_neg (by simp), if_pos ⟨.inl hu, hprefix⟩]
  show (parseAuthority (splitAuthority (o.authority ++ 47 :: rest)).1).bind (fun x =>
    URL.setPath { u with user := x.1, host := x.2 }
      (splitAuthority (o.authority ++ 47 :: rest)).2) = _
  rw [hsplit, o.authority_parses]
  rfl

/-- The part of `Parse` before the fragment, for an origin. -/
theorem parseNoFragment_append (o : Origin) {front : Str} (hfront : front.head? = some 47) :
    parseNoFragment (o.string ++ front) = if containsCTL front then none
      else (o.start (splitQuery front).2).setPath (splitQuery front).1 := by
  obtain ⟨-, -, hmark, hctl⟩ := o.authority_plain
  have hctl' : containsCTL (o.string ++ front) = containsCTL front := by
    rw [containsCTL_append, string, containsCTL_append, o.containsCTL_scheme]
    have hrest : containsCTL (58 :: 47 :: 47 :: o.authority) = containsCTL o.authority := rfl
    rw [hrest, hctl]
    rfl
  have hstar : o.string ++ front ≠ [42] := by
    intro h
    have hlength := congrArg List.length h
    simp [string] at hlength
    omega
  have hscheme : getScheme (o.string ++ front) =
      some (o.scheme, 47 :: 47 :: o.authority ++ front) := by
    have hfrom := o.getSchemeFrom_scheme (47 :: 47 :: o.authority ++ front)
    have hstring : o.string ++ front = o.scheme ++ 58 :: (47 :: 47 :: o.authority ++ front) := by
      simp [string]
    rw [getScheme, hstring, hfrom]
  have hquery : splitQuery (47 :: 47 :: o.authority ++ front) =
      (47 :: 47 :: o.authority ++ (splitQuery front).1, (splitQuery front).2) :=
    splitQuery_append (by simp [hmark]) front
  -- The scheme ends at the first colon, and the query begins in `front`.
  unfold parseNoFragment
  rw [hctl', if_neg hstar]
  split_ifs
  · rfl
  · rw [hscheme]
    show parseRest
      { scheme := o.scheme.map toLower
        rawQuery := (splitQuery (47 :: 47 :: o.authority ++ front)).2.1
        forceQuery := (splitQuery (47 :: 47 :: o.authority ++ front)).2.2 }
      (splitQuery (47 :: 47 :: o.authority ++ front)).1 = _
    rw [hquery]
    refine o.parseRest_authority ?_ (splitQuery_fst_head hfront)
    simpa using o.scheme_ne

/-- How `Parse` reads a URL of the origin. -/
theorem parse_append (o : Origin) {rest : Str} (hrest : rest.head? = some 47) :
    URL.parse (o.string ++ rest) = o.url rest := by
  have hhash : 35 ∉ o.string := by
    simp [string, o.authority_plain.1, o.not_mem_scheme (show schemeByte 35 = false by decide)]
  have hfront : (cut 35 rest).1.head? = some 47 := by
    cases rest with
    | nil => cases hrest
    | cons c rest =>
      cases hrest
      rw [cut, if_neg (by decide)]
      rfl
  generalize hcut : cut 35 rest = parts at hfront
  obtain ⟨front, fragment⟩ := parts
  have hparse := o.parseNoFragment_append hfront
  -- An empty fragment changes nothing.
  have hempty : ((o.start (splitQuery front).2).setPath (splitQuery front).1).bind
      (fun u => u.setFragment []) = (o.start (splitQuery front).2).setPath
        (splitQuery front).1 := by
    unfold URL.setPath
    cases unescape .path (splitQuery front).1 <;> rfl
  unfold URL.parse url
  rw [cut_append hhash, hcut]
  rcases fragment with _ | _ | ⟨c, fragment⟩
  · show parseNoFragment (o.string ++ front) = if containsCTL front then none else
      ((o.start (splitQuery front).2).setPath (splitQuery front).1).bind fun u => u.setFragment []
    rw [hparse, hempty]
  · show parseNoFragment (o.string ++ front) = if containsCTL front then none else
      ((o.start (splitQuery front).2).setPath (splitQuery front).1).bind fun u => u.setFragment []
    rw [hparse, hempty]
  · show (parseNoFragment (o.string ++ front)).bind (fun u => u.setFragment (c :: fragment)) = _
    rw [hparse]
    show _ = if containsCTL front then none else _
    split_ifs <;> rfl

end Origin

end VirePortal.Go
