import VirePortal.Go.RequestUri
import VirePortal.Go.Routing
import VirePortal.Go.Segments

/-!
# Redirects and browsers

What becomes of a URL that a handler passes to `http.Redirect` with a path of the server: the
`Location` header (`redirectLocation`, `headerValue`) and the path that a browser makes of it
(`pathname`).

A browser parses URLs as the URL standard says: blanks and control characters at the ends and tabs
and line breaks anywhere are removed, a backslash is a slash, dot segments may be spelled with
escapes, and bytes outside the path set are percent-encoded.
-/

namespace VirePortal.Go

/-- The lower-case hexadecimal digit of a value below 16. -/
def lowerHexDigit (v : ℕ) : UInt8 := UInt8.ofNat (if v < 10 then 48 + v else 87 + v)

/-- `hexEscapeNonASCII`, of one byte. -/
def hexEscapeByte (c : UInt8) : Str :=
  if 128 ≤ c then [37, lowerHexDigit (c.toNat / 16), lowerHexDigit (c.toNat % 16)] else [c]

/-- `hexEscapeNonASCII`. -/
def hexEscapeNonASCII (s : Str) : Str := s.flatMap hexEscapeByte

/-- A URL from its question mark on. -/
def queryPart (url : Str) : Str :=
  match (cut 63 url).2 with
  | some query => 63 :: query
  | none => []

/-- The URL as `http.Redirect` cleans it, for one that starts with a slash. -/
def cleanedURL (url : Str) : Str :=
  match URL.parse url with
  | none => url
  | some u => if u.scheme = [] ∧ u.host = [] then cleanPath (cut 63 url).1 ++ queryPart url else url

/-- The `Location` header that `http.Redirect` sets. -/
def redirectLocation (url : Str) : Str := hexEscapeNonASCII (cleanedURL url)

/-- A string without the bytes at its ends that satisfy `p`. -/
def stripEnds (p : UInt8 → Bool) (s : Str) : Str := ((s.dropWhile p).reverse.dropWhile p).reverse

/-- A header value as the server writes it: line breaks become blanks, and the ends are trimmed. -/
def headerValue (s : Str) : Str :=
  stripEnds (· ∈ [9, 10, 13, 32]) (s.map fun c => if c = 10 ∨ c = 13 then 32 else c)

/-- The bytes that the URL standard encodes in a path. -/
def encodedInPath (c : UInt8) : Bool := c ≤ 32 || 127 ≤ c || c ∈ ascii "\"#<>?`\x7b\x7d^"

/-- The percent-encoding of a path. -/
def pathPercentEncode (s : Str) : Str :=
  s.flatMap fun c =>
    if encodedInPath c then [37, hexDigit (c.toNat / 16), hexDigit (c.toNat % 16)] else [c]

/-- A dot segment, perhaps spelled with escapes, spelled with dots. -/
def dotted (s : Str) : Str :=
  match unescape .path s with
  | some t => if Dots t then t else s
  | none => s

/-- The path of a reference to a path of the server, as a browser splits it. -/
def browserPath (ref : Str) : Str :=
  let input := (stripEnds (· ≤ 32) ref).filter fun c => c ≠ 9 && c ≠ 10 && c ≠ 13
  (pathPart input).map fun c => if c = 92 then 47 else c

/-- The path of the URL that a browser makes of such a reference. -/
def pathname (ref : Str) : Str :=
  slashed (removeDots ((split 47 (browserPath ref)).tail.map fun s => dotted (pathPercentEncode s)))

/-! ### Encoders -/

/-- An escape is decoded to its byte. -/
theorem unescape_escaped {h l c : UInt8} (hh : unhex h = some (c.toNat / 16))
    (hl : unhex l = some (c.toNat % 16)) (s : Str) :
    unescape .path (37 :: h :: l :: s) = (unescape .path s).map (c :: ·) := by
  have hback : UInt8.ofNat (c.toNat / 16 * 16 + c.toNat % 16) = c := by
    rw [show c.toNat / 16 * 16 + c.toNat % 16 = c.toNat by omega, UInt8.ofNat_toNat]
  rw [unescape, hh, hl]
  simp only [Option.bind_eq_bind, Option.bind_some, escapeAllowed, if_true, hback, Option.pure_def]
  cases unescape .path s <;> rfl

/-- A lower-case digit is read back. -/
theorem unhex_lowerHexDigit {v : ℕ} (hv : v < 16) : unhex (lowerHexDigit v) = some v := by
  have hall : ∀ v ∈ List.range 16, unhex (lowerHexDigit v) = some v := by decide
  exact hall v (List.mem_range.2 hv)

/-- The first byte is encoded by itself. -/
theorem pathPercentEncode_cons (c : UInt8) (s : Str) : pathPercentEncode (c :: s) =
    (if encodedInPath c then [37, hexDigit (c.toNat / 16), hexDigit (c.toNat % 16)] else [c]) ++
      pathPercentEncode s := rfl

/-- What `hexEscapeNonASCII` writes decodes to the string, if that has no percent sign of its
own. -/
theorem unescape_hexEscapeNonASCII {s : Str} (hs : 37 ∉ s) :
    unescape .path (hexEscapeNonASCII s) = some s := by
  induction s with
  | nil => rfl
  | cons c s ih =>
    simp only [List.mem_cons, not_or] at hs
    have hlt : c.toNat < 256 := c.toNat_lt_size
    rw [hexEscapeNonASCII, List.flatMap_cons, hexEscapeByte, ← hexEscapeNonASCII]
    split_ifs with hc
    · calc unescape .path ([37, lowerHexDigit (c.toNat / 16), lowerHexDigit (c.toNat % 16)] ++
            hexEscapeNonASCII s)
          = (unescape .path (hexEscapeNonASCII s)).map (c :: ·) :=
            unescape_escaped (unhex_lowerHexDigit (by omega)) (unhex_lowerHexDigit (by omega)) _
        _ = some (c :: s) := by rw [ih hs.2, Option.map_some]
    · rw [List.singleton_append, unescape_cons (Ne.symm hs.1), unescapeByte_path, ih hs.2]
      rfl

/-- A hexadecimal digit is not encoded in a path. -/
theorem not_encodedInPath_of_unhex {c : UInt8} {v : ℕ} (h : unhex c = some v) :
    encodedInPath c = false := by
  have hmarks : ∀ b ∈ ascii "\"#<>?`\x7b\x7d^", unhex b = none :=
    forall_mem_of_all (by decide)
  have hmem : c ∉ ascii "\"#<>?`\x7b\x7d^" := by
    intro hmem
    rw [hmarks c hmem] at h
    cases h
  have hrange : 48 ≤ c ∧ c < 127 := by
    unfold unhex at h
    split_ifs at h
    all_goals grind
  simp only [encodedInPath, hmem, decide_false, Bool.or_false, Bool.or_eq_false_iff,
    decide_eq_false_iff_not]
  grind

/-- Encoding a path leaves its escapes as they are, so it decodes to the same. -/
theorem unescape_pathPercentEncode {s t : Str} (h : unescape .path s = some t) :
    unescape .path (pathPercentEncode s) = some t := by
  refine unescape_induct (motive := fun s t => unescape .path (pathPercentEncode s) = some t)
    rfl ?_ ?_ h
  · intro h l hi lo s t hh hl _ ih
    have hpercent : encodedInPath 37 = false := by decide
    rw [pathPercentEncode_cons, pathPercentEncode_cons, pathPercentEncode_cons, hpercent,
      not_encodedInPath_of_unhex hh, not_encodedInPath_of_unhex hl]
    show unescape .path (37 :: h :: l :: pathPercentEncode s) = _
    rw [unescape, hh, hl, ih]
    rfl
  · intro c b s t hc hb _ ih
    rw [unescapeByte_path, Option.some.injEq] at hb
    have hlt : c.toNat < 256 := c.toNat_lt_size
    rw [pathPercentEncode_cons, ← hb]
    split_ifs
    · calc unescape .path ([37, hexDigit (c.toNat / 16), hexDigit (c.toNat % 16)] ++
          pathPercentEncode s)
          = (unescape .path (pathPercentEncode s)).map (c :: ·) :=
            unescape_escaped (unhex_hexDigit (by omega)) (unhex_hexDigit (by omega)) _
        _ = some (c :: t) := by rw [ih, Option.map_some]
    · rw [List.singleton_append, unescape_cons hc, unescapeByte_path, ih]
      rfl

/-- A segment that decodes to no dot segment is not taken for one. -/
theorem dotted_eq_self {s t : Str} (h : unescape .path s = some t) (ht : ¬ Dots t) :
    dotted s = s := by
  rw [dotted, h]
  exact if_neg ht

/-! ### What a browser keeps -/

/-- The bytes that a browser removes from a path, reads as a slash, or ends the path at. -/
def marks : Str := [9, 10, 13, 35, 63, 92]

/-- Nothing is stripped when neither end satisfies `p`. -/
theorem stripEnds_eq_self {p : UInt8 → Bool} {s : Str} {a b : UInt8} (hhead : s.head? = some a)
    (ha : p a = false) (hlast : s.getLast? = some b) (hb : p b = false) : stripEnds p s = s := by
  obtain ⟨rest, rfl⟩ := List.head?_eq_some_iff.1 hhead
  have hfront : (a :: rest).dropWhile p = a :: rest := by
    rw [List.dropWhile_cons_of_neg (by simp [ha])]
  obtain ⟨front, hfront'⟩ := List.getLast?_eq_some_iff.1 hlast
  rw [stripEnds, hfront, hfront', List.reverse_append, List.reverse_singleton,
    List.singleton_append,
    List.dropWhile_cons_of_neg (by simp [hb]), List.reverse_cons, List.reverse_reverse]

/-- Stripping adds nothing. -/
theorem stripEnds_sublist (p : UInt8 → Bool) (s : Str) : (stripEnds p s).Sublist s := by
  have hback : ((s.dropWhile p).reverse.dropWhile p).Sublist (s.dropWhile p).reverse :=
    List.dropWhile_sublist p
  have hfront : (stripEnds p s).Sublist (s.dropWhile p) := by
    simpa [stripEnds] using List.reverse_sublist.2 hback
  exact hfront.trans (List.dropWhile_sublist p)

/-- A last byte that satisfies the predicate is removed. -/
theorem stripEnds_length {p : UInt8 → Bool} {s : Str} {b : UInt8} (hlast : s.getLast? = some b)
    (hb : p b = true) : (stripEnds p s).length < s.length := by
  obtain ⟨front, rfl⟩ := List.getLast?_eq_some_iff.1 hlast
  have hdrop : (front ++ [b]).dropWhile p = front.dropWhile p ++ [b] ∨
      (front ++ [b]).dropWhile p = [] := by
    rw [List.dropWhile_append]
    by_cases hnil : (front.dropWhile p).isEmpty = true
    · rw [if_pos hnil, List.dropWhile_cons_of_pos hb]
      exact .inr rfl
    · rw [if_neg hnil]
      exact .inl rfl
  have hfront : (front.dropWhile p).length ≤ front.length := (List.dropWhile_sublist p).length_le
  have hlength : (front ++ [b]).length = front.length + 1 := by simp
  rcases hdrop with hdrop | hdrop
  · have hback : ((front.dropWhile p).reverse.dropWhile p).length ≤
        (front.dropWhile p).reverse.length :=
      (List.dropWhile_sublist p).length_le
    rw [List.length_reverse] at hback
    rw [stripEnds, hdrop, List.reverse_append, List.reverse_singleton, List.singleton_append,
      List.dropWhile_cons_of_pos hb, List.length_reverse]
    omega
  · rw [stripEnds, hdrop]
    simp

/-- A plain path is requested as it is. -/
theorem browserPath_eq_self {ref : Str} {c : UInt8} (hhead : ref.head? = some 47)
    (hplain : ∀ c ∈ ref, c ∉ marks) (hlast : ref.getLast? = some c) (hc : 32 < c) :
    browserPath ref = ref := by
  have hmark : ∀ {b : UInt8}, b ∈ marks → b ∉ ref := fun hb hmem => hplain _ hmem hb
  have hstrip : stripEnds (· ≤ 32) ref = ref :=
    stripEnds_eq_self hhead (by decide) hlast (by simpa using hc)
  have hfilter : ref.filter (fun c => c ≠ 9 && c ≠ 10 && c ≠ 13) = ref := by
    refine List.filter_eq_self.2 fun c hc => ?_
    have h9 : c ≠ 9 := fun heq => hmark (by decide) (heq ▸ hc)
    have h10 : c ≠ 10 := fun heq => hmark (by decide) (heq ▸ hc)
    have h13 : c ≠ 13 := fun heq => hmark (by decide) (heq ▸ hc)
    simp [h9, h10, h13]
  have hpart : pathPart ref = ref := pathPart_of_not_mem (hmark (by decide)) (hmark (by decide))
  have hback : ref.map (fun c => if c = 92 then 47 else c) = ref := by
    refine (List.map_congr_left fun c hc => if_neg ?_).trans (List.map_id _)
    rintro rfl
    exact hmark (by decide) hc
  unfold browserPath
  dsimp only
  rw [hstrip, hfilter, hpart, hback]

/-- The path has neither mark and begins the reference. -/
theorem pathPart_spec (s : Str) : 35 ∉ pathPart s ∧ 63 ∉ pathPart s ∧ pathPart s <+: s := by
  obtain ⟨hhash, hfirst⟩ := cut_fst_spec 35 s
  obtain ⟨hmark, hsecond⟩ := cut_fst_spec 63 (cut 35 s).1
  exact ⟨fun hmem => hhash (hsecond.subset hmem), hmark, hsecond.trans hfirst⟩

/-- The bytes of the path are bytes of the reference and slashes. -/
theorem mem_browserPath {ref : Str} {c : UInt8} (h : c ∈ browserPath ref) :
    (c ∈ ref ∨ c = 47) ∧ c ∉ marks := by
  obtain ⟨b, hb, rfl⟩ := List.mem_map.1 h
  obtain ⟨hhash, hmark, hpart⟩ :=
    pathPart_spec ((stripEnds (· ≤ 32) ref).filter fun c => c ≠ 9 && c ≠ 10 && c ≠ 13)
  have hkept := List.mem_filter.1 (hpart.subset hb)
  simp only [ne_eq, Bool.and_eq_true, decide_eq_true_eq] at hkept
  split_ifs with hback
  · exact ⟨.inr rfl, by decide⟩
  · refine ⟨.inl ((stripEnds_sublist _ _).subset hkept.1), ?_⟩
    have hne : b ≠ 35 ∧ b ≠ 63 := ⟨fun heq => hhash (heq ▸ hb), fun heq => hmark (heq ▸ hb)⟩
    simp only [marks, List.mem_cons, List.not_mem_nil, or_false, not_or]
    exact ⟨hkept.2.1.1, hkept.2.1.2, hkept.2.2, hne.1, hne.2, hback⟩

/-- The path is no longer than the reference. -/
theorem browserPath_length (ref : Str) :
    (browserPath ref).length ≤ (stripEnds (· ≤ 32) ref).length := by
  have hpart :=
    (pathPart_spec ((stripEnds (· ≤ 32) ref).filter fun c => c ≠ 9 && c ≠ 10 && c ≠
    13)).2.2.length_le
  have hfilter := List.length_filter_le (fun c => c ≠ 9 && c ≠ 10 && c ≠ 13)
    (stripEnds (· ≤ 32) ref)
  unfold browserPath
  dsimp only
  rw [List.length_map]
  omega

/-- A text that decodes to no dot segment is none. -/
theorem not_dots_of_unescape {x s : Str} (h : unescape .path x = some s) (hs : ¬ Dots s) :
    ¬ Dots x := by
  rintro (rfl | rfl)
  · exact hs (.inl (Option.some.inj h).symm)
  · exact hs (.inr (Option.some.inj h).symm)

/-- A browser keeps the segments of a path and encodes what has to be, as long as no byte of them is
special to it, none of them spells a dot segment, and the path does not end in a blank. -/
theorem pathname_slashed {texts : List Str} {c : UInt8} (hne : texts ≠ [])
    (hslash : ∀ s ∈ texts, 47 ∉ s) (hplain : ∀ c ∈ slashed texts, c ∉ marks)
    (hlast : (slashed texts).getLast? = some c) (hc : 32 < c)
    (hdecode : ∀ s ∈ texts, ∃ t, unescape .path s = some t ∧ ¬ Dots t) :
    pathname (slashed texts) = slashed (texts.map pathPercentEncode) := by
  have hhead := head?_slashed hne
  have hdotted : texts.map (fun s => dotted (pathPercentEncode s)) =
      texts.map pathPercentEncode := by
    refine List.map_congr_left fun s hs => ?_
    obtain ⟨t, ht, hdots⟩ := hdecode s hs
    exact dotted_eq_self (unescape_pathPercentEncode ht) hdots
  have hkeep : removeDots (texts.map pathPercentEncode) = texts.map pathPercentEncode := by
    refine removeDots_eq_self fun x hx => ?_
    obtain ⟨s, hs, rfl⟩ := List.mem_map.1 hx
    obtain ⟨t, ht, hdots⟩ := hdecode s hs
    exact not_dots_of_unescape (unescape_pathPercentEncode ht) hdots
  rw [pathname, browserPath_eq_self hhead hplain hlast hc, split_slashed_self hslash,
    List.tail_cons, hdotted, hkeep]

end VirePortal.Go
