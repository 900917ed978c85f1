import VirePortal.Go.Browser

/-!
# What comes back after a redirect

A handler redirects to a path of its own server, the browser follows, and the server decodes the
path that it is asked for (`exists_returned`). A path without a percent sign comes back as
`returned` says: the escapes that `hexEscapeNonASCII` and the browser write are decoded, and what is
left is what the header and the browser remove, read as a slash or end the path at. So a path
without dot segments comes back as it was exactly when no byte of it is of that kind and it does not
end in a blank or a control character (`returned_eq_self_iff`).

The escapes are written before the header and the browser look at the bytes. They hold no byte that
either of them treats in a special way, so the order does not matter
(`headerValue_hexEscapeNonASCII`, `browserPath_hexEscapeNonASCII`).
-/

namespace VirePortal.Go

/-! ### Encoders byte by byte -/

section Encoder

variable {f : UInt8 → Str} {p : UInt8 → Bool}

/-- Where the bytes of a code satisfy a predicate exactly when the coded byte does, filtering
commutes with the encoder. -/
theorem filter_flatMap (hbyte : ∀ c, ∀ b ∈ f c, p b = p c) (s : Str) :
    (s.flatMap f).filter p = (s.filter p).flatMap f := by
  induction s with
  | nil => rfl
  | cons c s ih =>
    rw [List.flatMap_cons, List.filter_append, ih, List.filter_cons]
    by_cases hc : p c = true
    · rw [if_pos hc, List.flatMap_cons, List.filter_eq_self.2 fun b hb => (hbyte c b hb).trans hc]
    · have hnone : (f c).filter p = [] := by
        refine List.filter_eq_nil_iff.2 fun b hb => ?_
        rw [hbyte c b hb]
        exact hc
      rw [if_neg hc, hnone, List.nil_append]

/-- What is dropped of the escaped text. -/
theorem dropWhile_flatMap (hbyte : ∀ c, ∀ b ∈ f c, p b = p c) (hne : ∀ c, f c ≠ []) (s : Str) :
    (s.flatMap f).dropWhile p = (s.dropWhile p).flatMap f := by
  induction s with
  | nil => rfl
  | cons c s ih =>
    rw [List.flatMap_cons, List.dropWhile_cons]
    by_cases hc : p c = true
    · rw [if_pos hc, List.dropWhile_append_of_pos fun b hb => (hbyte c b hb).trans hc, ih]
    · obtain ⟨b, rest, hb⟩ := List.exists_cons_of_ne_nil (hne c)
      have hkeep : ¬ p b = true := by
        rw [hbyte c b (hb ▸ List.mem_cons_self)]
        exact hc
      rw [if_neg hc, List.flatMap_cons, hb, List.cons_append, List.dropWhile_cons_of_neg hkeep]

/-- What is stripped of the escaped text. -/
theorem stripEnds_flatMap (hbyte : ∀ c, ∀ b ∈ f c, p b = p c) (hne : ∀ c, f c ≠ []) (s : Str) :
    stripEnds p (s.flatMap f) = (stripEnds p s).flatMap f := by
  have hbyte' : ∀ c, ∀ b ∈ (List.reverse ∘ f) c, p b = p c :=
    fun c b hb => hbyte c b (List.mem_reverse.1 hb)
  have hne' : ∀ c, (List.reverse ∘ f) c ≠ [] := fun c hnil => hne c (List.reverse_eq_nil_iff.1 hnil)
  rw [stripEnds, dropWhile_flatMap hbyte hne, List.reverse_flatMap]
  calc ((((s.dropWhile p).reverse).flatMap (List.reverse ∘ f)).dropWhile p).reverse
      = (((s.dropWhile p).reverse.dropWhile p).flatMap (List.reverse ∘ f)).reverse := by
        rw [dropWhile_flatMap hbyte' hne']
    _ = (stripEnds p s).flatMap f := by
        rw [List.reverse_flatMap, stripEnds]
        congr 1
        funext c
        exact List.reverse_reverse (f c)

/-- An encoder that keeps a byte, and writes it for no other, commutes with cutting there. -/
theorem cut_flatMap {sep : UInt8} (hsep : f sep = [sep]) (hnot : ∀ c, c ≠ sep →
    sep ∉ f c) (s : Str) :
    (cut sep (s.flatMap f)).1 = (cut sep s).1.flatMap f := by
  induction s with
  | nil => rfl
  | cons c s ih =>
    rw [List.flatMap_cons, cut]
    split_ifs with hc
    · rw [hc, hsep, List.singleton_append, cut, if_pos rfl]
      rfl
    · rw [cut_append (hnot c hc), ih]
      rfl

end Encoder

/-! ### The escapes of the header -/

/-- The bytes that `hexEscapeNonASCII` writes for a byte that is not ASCII. -/
def escapeBytes : Str := "%0123456789abcdef"

/-- A byte stays, or becomes an escape. -/
theorem hexEscapeByte_cases (c : UInt8) :
    (c < 128 ∧ hexEscapeByte c = [c]) ∨
      (128 ≤ c ∧ hexEscapeByte c ≠ [] ∧ ∀ b ∈ hexEscapeByte c, b ∈ escapeBytes) := by
  have hdigit : ∀ v ∈ List.range 16, lowerHexDigit v ∈ escapeBytes := by decide
  have hlt : c.toNat < 256 := c.toNat_lt_size
  unfold hexEscapeByte
  split_ifs with hc
  · refine .inr ⟨hc, List.cons_ne_nil _ _, fun b hb => ?_⟩
    simp only [List.mem_cons, List.not_mem_nil, or_false] at hb
    rcases hb with rfl | rfl | rfl
    · decide
    · exact hdigit _ (List.mem_range.2 (by omega))
    · exact hdigit _ (List.mem_range.2 (by omega))
  · exact .inl ⟨UInt8.not_le.1 hc, rfl⟩

/-- A byte becomes something. -/
theorem hexEscapeByte_ne_nil (c : UInt8) : hexEscapeByte c ≠ [] := by
  rcases hexEscapeByte_cases c with ⟨-, heq⟩ | ⟨-, hne, -⟩
  · rw [heq]
    exact List.cons_ne_nil _ _
  · exact hne

/-- A predicate that is the same at the bytes of the escapes and at the bytes that are escaped. -/
theorem hexEscapeByte_agree {p : UInt8 → Bool} {v : Bool} (hescape : ∀ b ∈ escapeBytes, p b = v)
    (hhigh : ∀ c, 128 ≤ c → p c = v) (c : UInt8) : ∀ b ∈ hexEscapeByte c, p b = p c := by
  intro b hb
  rcases hexEscapeByte_cases c with ⟨-, heq⟩ | ⟨hc, -, hmem⟩
  · rw [heq, List.mem_singleton] at hb
    rw [hb]
  · rw [hescape b (hmem b hb), hhigh c hc]

variable {c : UInt8} {s url : Str} {segments texts : List Str}

/-- An ASCII byte that the escapes do not hold is written for itself only. -/
theorem not_mem_hexEscapeByte {b : UInt8} (hb : b ∉ escapeBytes) (hne : c ≠ b) :
    b ∉ hexEscapeByte c := by
  rcases hexEscapeByte_cases c with ⟨-, heq⟩ | ⟨-, -, hmem⟩
  · rw [heq, List.mem_singleton]
    exact Ne.symm hne
  · exact fun h => hb (hmem b h)

/-- Bytes that are neither in the escapes nor escaped may be replaced by such bytes. -/
theorem map_hexEscapeByte {g : UInt8 → UInt8} (hescape : ∀ b ∈ escapeBytes, g b = b)
    (hhigh : ∀ c, 128 ≤ c → g c = c) (hlow : ∀ c, c < 128 → g c < 128) (s : Str) :
    (hexEscapeNonASCII s).map g = hexEscapeNonASCII (s.map g) := by
  rw [hexEscapeNonASCII, hexEscapeNonASCII, List.map_flatMap, List.flatMap_map]
  congr 1
  funext c
  rcases hexEscapeByte_cases c with ⟨hc, heq⟩ | ⟨hc, -, hmem⟩
  · rw [heq, hexEscapeByte, if_neg (UInt8.not_le.2 (hlow c hc))]
    rfl
  · rw [hhigh c hc]
    exact (List.map_congr_left fun b hb => hescape b (hmem b hb)).trans (List.map_id _)

/-- A high byte is no ASCII byte. -/
theorem ne_of_high {b : UInt8} (hb : b < 128) (hc : 128 ≤ c) : c ≠ b := by
  rintro rfl
  exact absurd hc (UInt8.not_le.2 hb)

/-- Escaping goes past the header's writer. -/
theorem headerValue_hexEscapeNonASCII (s : Str) :
    headerValue (hexEscapeNonASCII s) = hexEscapeNonASCII (headerValue s) := by
  have hmap : (hexEscapeNonASCII s).map (fun c => if c = 10 ∨ c = 13 then 32 else c) =
      hexEscapeNonASCII (s.map fun c => if c = 10 ∨ c = 13 then 32 else c) := by
    refine map_hexEscapeByte (forall_mem_of_all (by decide)) (fun c hc => if_neg ?_)
      (fun c hc => ?_) s
    · exact not_or.2 ⟨ne_of_high (by decide) hc, ne_of_high (by decide) hc⟩
    · split_ifs
      · decide
      · exact hc
  rw [headerValue, hmap]
  refine stripEnds_flatMap (hexEscapeByte_agree (v := false) (forall_mem_of_all (by decide))
    fun c hc => ?_) hexEscapeByte_ne_nil _
  simp [ne_of_high (show (9 : UInt8) < 128 by decide) hc,
    ne_of_high (show (10 : UInt8) < 128 by decide) hc,
    ne_of_high (show (13 : UInt8) < 128 by decide) hc,
      ne_of_high (show (32 : UInt8) < 128 by decide) hc]

/-- Escaping goes past the browser's parser. -/
theorem browserPath_hexEscapeNonASCII (s : Str) :
    browserPath (hexEscapeNonASCII s) = hexEscapeNonASCII (browserPath s) := by
  have hstrip : ∀ x, stripEnds (· ≤ 32) (hexEscapeNonASCII x) =
      hexEscapeNonASCII (stripEnds (· ≤ 32) x) := by
    refine stripEnds_flatMap (hexEscapeByte_agree (v := false) (forall_mem_of_all (by decide))
      fun c hc => ?_) hexEscapeByte_ne_nil
    rw [decide_eq_false_iff_not]
    exact fun hle => absurd (UInt8.le_trans hc hle) (by decide)
  have hfilter : ∀ x, (hexEscapeNonASCII x).filter (fun c => c ≠ 9 && c ≠ 10 && c ≠ 13) =
      hexEscapeNonASCII (x.filter fun c => c ≠ 9 && c ≠ 10 && c ≠ 13) := by
    refine filter_flatMap (hexEscapeByte_agree (v := true) (forall_mem_of_all (by decide))
      fun c hc => ?_)
    simp [ne_of_high (show (9 : UInt8) < 128 by decide) hc,
      ne_of_high (show (10 : UInt8) < 128 by decide) hc,
      ne_of_high (show (13 : UInt8) < 128 by decide) hc]
  have hcut : ∀ sep, hexEscapeByte sep = [sep] → sep ∉ escapeBytes → ∀ x,
      (cut sep (hexEscapeNonASCII x)).1 = hexEscapeNonASCII (cut sep x).1 :=
    fun sep hsep hnot => cut_flatMap hsep fun c hne => not_mem_hexEscapeByte hnot hne
  have hmap : ∀ x, (hexEscapeNonASCII x).map (fun c => if c = 92 then 47 else c) =
      hexEscapeNonASCII (x.map fun c => if c = 92 then 47 else c) := by
    refine map_hexEscapeByte (forall_mem_of_all (by decide))
      (fun c hc => if_neg (ne_of_high (by decide) hc)) fun c hc => ?_
    split_ifs
    · decide
    · exact hc
  unfold browserPath pathPart
  dsimp only
  rw [hstrip, hfilter, hcut 35 (by decide) (by decide), hcut 63 (by decide) (by decide), hmap]

/-- Escaping goes past the split. -/
theorem split_hexEscapeNonASCII (s : Str) :
    split 47 (hexEscapeNonASCII s) = (split 47 s).map hexEscapeNonASCII :=
  split_flatMap (by decide) (fun _ hne => not_mem_hexEscapeByte (by decide) hne) s

/-! ### The request that comes back -/

/-- A segment as the browser asks for it. -/
def requested (s : Str) : Str := pathPercentEncode (hexEscapeNonASCII s)

/-- The server reads what was requested. -/
theorem unescape_requested (hs : 37 ∉ s) : unescape .path (requested s) = some s :=
  unescape_pathPercentEncode (unescape_hexEscapeNonASCII hs)

/-- Removing dot segments commutes with a map that keeps the empty segment and the dot segments and
maps nothing else to a dot segment. -/
theorem removeDots_map {f : Str → Str} (hnil : f [] = [])
    (hdots : ∀ s ∈ segments, ∀ d, Dots d → (f s = d ↔ s = d)) :
    removeDots (segments.map f) = (removeDots segments).map f := by
  have hfrom : ∀ acc, removeDotsFrom (acc.map f) (segments.map f) =
      (removeDotsFrom acc segments).map f := by
    induction segments with
    | nil => exact fun acc => List.map_reverse.symm
    | cons s rest ih =>
      intro acc
      have hrest := ih fun x hx => hdots x (.tail _ hx)
      have hempty : rest.map f = [] ↔ rest = [] := List.map_eq_nil_iff
      have htail : acc.tail.map f = (acc.map f).tail := List.map_tail
      rw [List.map_cons, removeDotsFrom, removeDotsFrom]
      simp only [hdots s (.head _) [46] (.inl rfl), hdots s (.head _) [46, 46]
        (.inr rfl), hempty, ← htail]
      split_ifs
      all_goals rw [← hrest]
      all_goals simp only [List.map_cons, hnil]
  exact hfrom []

/-- A segment without a percent sign is taken for a dot segment exactly when it is one. -/
theorem dotted_requested (hs : 37 ∉ s) :
    dotted (requested s) = if Dots s then s else requested s := by
  rw [dotted, unescape_requested hs]

/-- No dots come from the escapes. -/
theorem dotted_requested_eq_iff {d : Str} (hs : 37 ∉ s) (hd : Dots d) :
    dotted (requested s) = d ↔ s = d := by
  rw [dotted_requested hs]
  split_ifs with hdots
  · exact Iff.rfl
  · constructor
    · intro heq
      exact absurd (heq ▸ hd) (not_dots_of_unescape (unescape_requested hs) hdots)
    · intro heq
      exact absurd (heq ▸ hd) hdots

/-- The segments of a path that a redirect carried to the browser and back. -/
def returnedSegments (url : Str) : List Str :=
  removeDots (split 47 (browserPath (headerValue url))).tail

/-- The path itself. -/
def returned (url : Str) : Str := slashed (returnedSegments url)

/-- The header adds blanks at most. -/
theorem mem_headerValue (h : c ∈ headerValue s) : c ∈ s ∨ c = 32 := by
  obtain ⟨b, hb, rfl⟩ := List.mem_map.1 ((stripEnds_sublist _ _).subset h)
  split_ifs
  · exact .inr rfl
  · exact .inl hb

/-- A segment that comes back has neither dots nor marks. -/
theorem mem_returnedSegments (hs : s ∈ returnedSegments url) :
    ¬ Dots s ∧ 47 ∉ s ∧ ∀ c ∈ s, (c ∈ url ∨ c = 32) ∧ c ∉ marks := by
  obtain ⟨hdots, rfl | hmem⟩ := mem_removeDots hs
  · exact ⟨hdots, List.not_mem_nil, nofun⟩
  · have hpiece := List.mem_of_mem_tail hmem
    have hslash := not_mem_of_mem_split hpiece
    refine ⟨hdots, hslash, fun c hc => ?_⟩
    obtain ⟨hfrom, hmark⟩ := mem_browserPath (mem_of_mem_split hpiece hc)
    refine ⟨?_, hmark⟩
    rcases hfrom with hfrom | rfl
    · exact mem_headerValue hfrom
    · exact absurd hc hslash

/-- The path that the browser asks for. -/
theorem pathname_headerValue (hpercent : 37 ∉ url) :
    pathname (headerValue (hexEscapeNonASCII url)) =
      slashed ((returnedSegments url).map requested) := by
  have hplain : ∀ s ∈ (split 47 (browserPath (headerValue url))).tail, 37 ∉ s := by
    intro s hs hmem
    obtain ⟨hfrom | heq, -⟩ := mem_browserPath (mem_of_mem_split (List.mem_of_mem_tail hs) hmem)
    · exact (mem_headerValue hfrom).elim hpercent (by decide)
    · exact absurd heq (by decide)
  have hdots := removeDots_map (f := fun s => dotted (requested s)) (by decide)
    fun s hs d hd => dotted_requested_eq_iff (hplain s hs) hd
  have hkeep : (returnedSegments url).map (fun s => dotted (requested s)) =
      (returnedSegments url).map requested := by
    refine List.map_congr_left fun s hs => ?_
    obtain ⟨hs', -, hbytes⟩ := mem_returnedSegments hs
    rw [dotted_requested fun hmem => (hbytes 37 hmem).1.elim hpercent (by decide), if_neg hs']
  rw [pathname, headerValue_hexEscapeNonASCII, browserPath_hexEscapeNonASCII,
    split_hexEscapeNonASCII, ← List.map_tail, List.map_map, ← hkeep, returnedSegments, ← hdots]
  rfl

/-- A path without improper segments is clean. -/
theorem cleanPath_slashed (hne : texts ≠ []) (hslash : ∀ s ∈ texts, 47 ∉ s)
    (hproper : ∀ s ∈ texts, Proper s) : cleanPath (slashed texts) = slashed texts := by
  have hhead := head?_slashed hne
  have hlast : (slashed texts).getLast? ≠ some 47 := by
    obtain ⟨front, last, hsplit⟩ := List.eq_nil_or_concat texts |>.resolve_left hne
    have hmem : last ∈ texts := by simp [hsplit]
    obtain ⟨c, last', hlast'⟩ : ∃ c last', last = last' ++ [c] := by
      rcases List.eq_nil_or_concat last with hnil | ⟨last', c, hlast'⟩
      · exact absurd hnil (hproper last hmem).1
      · exact ⟨c, last', by simpa using hlast'⟩
    have hc : c ≠ 47 := by
      rintro rfl
      exact hslash last hmem (by simp [hlast'])
    have hend : slashed texts = slashed front ++ (47 :: last') ++ [c] := by
      simp [hsplit, slashed, hlast']
    rw [hend, List.getLast?_append]
    simpa using hc
  have hclean : slashed (cleanSegments (split 47 (slashed texts))) = slashed texts := by
    rw [split_slashed_self hslash, cleanSegments_proper hproper]
  have hnil : slashed texts ≠ [] := by
    intro hnil
    rw [hnil] at hhead
    cases hhead
  unfold cleanPath
  dsimp only
  rw [if_pos hhead, hclean, if_neg hnil, if_neg hlast]

/-- A text that decodes to a proper segment is one. -/
theorem Proper.of_unescape {x : Str} (h : unescape .path x = some s) (hs : Proper s) :
    Proper x := by
  refine ⟨?_, ?_, ?_⟩
  · rintro rfl
    exact hs.1 (Option.some.inj h).symm
  · rintro rfl
    exact hs.2.1 (Option.some.inj h).symm
  · rintro rfl
    exact hs.2.2 (Option.some.inj h).symm

/-- A proper segment is no dots. -/
theorem Proper.not_dots (hs : Proper s) : ¬ Dots s := not_or.2 hs.2

/-- An encoder that keeps the slash encodes a path segment by segment. -/
theorem flatMap_slashed {f : UInt8 → Str} (hf : f 47 = [47]) (texts : List Str) :
    (slashed texts).flatMap f = slashed (texts.map (List.flatMap f)) := by
  induction texts with
  | nil => rfl
  | cons s texts ih =>
    calc (slashed (s :: texts)).flatMap f
        = f 47 ++ s.flatMap f ++ (slashed texts).flatMap f := by simp [slashed]
      _ = slashed ((s :: texts).map (List.flatMap f)) := by
        rw [hf, ih]
        rfl

/-- The bytes of an encoded path. -/
theorem mem_pathPercentEncode (h : c ∈ pathPercentEncode s) :
    (c ∈ s ∧ encodedInPath c = false) ∨ c = 37 ∨ ∃ v < 16, c = hexDigit v := by
  obtain ⟨b, hb, hc⟩ := List.mem_flatMap.1 h
  have hlt : b.toNat < 256 := b.toNat_lt_size
  split_ifs at hc with hencoded
  · simp only [List.mem_cons, List.not_mem_nil, or_false] at hc
    rcases hc with rfl | rfl | rfl
    · exact .inr (.inl rfl)
    · exact .inr (.inr ⟨_, by omega, rfl⟩)
    · exact .inr (.inr ⟨_, by omega, rfl⟩)
  · obtain rfl := List.mem_singleton.1 hc
    exact .inl ⟨hb, by simpa using hencoded⟩

/-- A byte of a segment that the browser asks for is not one that it encodes. -/
theorem mem_requested (h : c ∈ requested s) :
    encodedInPath c = false ∧ (c = 47 → 47 ∈ s) := by
  have hupper : ∀ v ∈ List.range 16, encodedInPath (hexDigit v) = false ∧ hexDigit v ≠ 47 :=
    by decide
  rcases mem_pathPercentEncode h with ⟨hmem, hkept⟩ | rfl | ⟨v, hv, rfl⟩
  · refine ⟨hkept, ?_⟩
    rintro rfl
    obtain ⟨b, hb, hcode⟩ := List.mem_flatMap.1 hmem
    by_contra hslash
    exact not_mem_hexEscapeByte (by decide) (fun heq : b = 47 => hslash (heq ▸ hb)) hcode
  · exact ⟨by decide, fun heq => absurd heq (by decide)⟩
  · exact ⟨(hupper v (List.mem_range.2 hv)).1, fun heq => absurd heq
      (hupper v (List.mem_range.2 hv)).2⟩

/-- A path of such segments, as a server reads it. -/
theorem parseRequestURI_requested (hne : segments ≠ []) (hslash : ∀ s ∈ segments, 47 ∉ s)
    (hpercent : ∀ s ∈ segments, 37 ∉ s) :
    ∃ u, URL.parseRequestURI (slashed (segments.map requested)) = some u ∧
      u.path = slashed segments ∧
      u.segments = some segments ∧ ((∀ s ∈ segments, Proper s) → u.Routed) := by
  have hhead : (slashed (segments.map requested)).head? = some 47 :=
    head?_slashed (mt List.map_eq_nil_iff.1 hne)
  have hbyte : ∀ x ∈ segments.map requested, ∀ c ∈ x, encodedInPath c = false ∧ c ≠ 47 := by
    intro x hx c hc
    obtain ⟨s, hs, rfl⟩ := List.mem_map.1 hx
    exact ⟨(mem_requested hc).1, fun heq => hslash s hs ((mem_requested hc).2 heq)⟩
  have hmark : 63 ∉ slashed (segments.map requested) :=
    not_mem_slashed (by decide) fun x hx hmem => absurd (hbyte x hx 63 hmem).1 (by decide)
  have hctl : containsCTL (slashed (segments.map requested)) = false := by
    refine containsCTL_slashed fun x hx => List.any_eq_false.2 fun c hc hctl => ?_
    have hkept := (hbyte x hx c hc).1
    simp only [encodedInPath, Bool.or_eq_false_iff, decide_eq_false_iff_not] at hkept
    simp only [Bool.or_eq_true, decide_eq_true_eq] at hctl
    grind
  have hdecode : (segments.map requested).mapM (unescape .path) = some segments :=
    mapM_map_some fun s hs => unescape_requested (hpercent s hs)
  rw [parseRequestURI_path hhead hctl hmark]
  obtain ⟨u, hset, hpath⟩ : ∃ u, ({} : URL).setPath (slashed (segments.map requested)) = some u ∧
      u.path = slashed segments := by
    rw [URL.setPath, unescape_slashed hdecode]
    exact ⟨_, rfl, rfl⟩
  have hsegments : u.segments = some segments := by
    rw [URL.segments_slashed hset (by simpa using hne) (fun x hx hmem => (hbyte x hx 47 hmem).2 rfl)
      hdecode, split_slashed_self hslash, List.tail_cons, ite_self]
  refine ⟨u, hset, hpath, hsegments, fun hproper => ?_⟩
  have hproper' : ∀ {f : Str → Str}, (∀ s ∈ segments, unescape .path (f s) = some s) →
      ∀ x ∈ segments.map f, Proper x := by
    intro f hf x hx
    obtain ⟨s, hs, rfl⟩ := List.mem_map.1 hx
    exact (hproper s hs).of_unescape (hf s hs)
  -- the mux sees the path as it was asked for, or the decoded path encoded anew
  unfold URL.Routed
  rw [(URL.escapedPath_eq hset hhead).2, hpath]
  split_ifs
  · exact cleanPath_slashed (by simpa using hne) (fun x hx hmem => (hbyte x hx 47 hmem).2 rfl)
      (hproper' fun s hs => unescape_requested (hpercent s hs))
  · have hescape : escape .path (slashed segments) = slashed (segments.map (escape .path)) :=
      flatMap_slashed (by decide) segments
    rw [hescape]
    refine cleanPath_slashed (by simpa using hne) (fun x hx => ?_)
      (hproper' fun s _ => unescape_escape s)
    obtain ⟨s, hs, rfl⟩ := List.mem_map.1 hx
    intro hmem
    have hsplit : split 47 (escape .path s) = [escape .path s] := by
      rw [split_escape, split_of_not_mem (hslash s hs)]
      rfl
    exact not_mem_of_mem_split (hsplit ▸ List.mem_singleton_self _) hmem

/-- A first byte that is kept. -/
theorem stripEnds_cons {p : UInt8 → Bool} (hc : p c = false) (s : Str) :
    ∃ t, stripEnds p (c :: s) = c :: t := by
  have hneg : ¬ p c = true := by simp [hc]
  rw [stripEnds, List.dropWhile_cons_of_neg hneg, List.reverse_cons, List.dropWhile_append]
  split_ifs
  · rw [List.dropWhile_cons_of_neg hneg]
    exact ⟨[], rfl⟩
  · rw [List.reverse_append, List.reverse_singleton]
    exact ⟨_, rfl⟩

/-- The slash at the start of a path stays there. -/
theorem browserPath_headerValue_cons (s : Str) :
    ∃ t, browserPath (headerValue (47 :: s)) = 47 :: t := by
  obtain ⟨value, hvalue⟩ : ∃ t, headerValue (47 :: s) = 47 :: t := stripEnds_cons (by decide) _
  obtain ⟨input, hinput⟩ := stripEnds_cons (p := (· ≤ 32)) (c := 47) (by decide) value
  obtain ⟨kept, hkept⟩ : ∃ t, (47 :: input).filter (fun c => c ≠ 9 && c ≠ 10 && c ≠ 13) = 47 :: t :=
    ⟨_, List.filter_cons_of_pos (by decide)⟩
  have hpart : pathPart (47 :: kept) = 47 :: pathPart kept :=
    pathPart_append_left (p := [47]) (by decide) (by decide) kept
  rw [hvalue, browserPath, hinput, hkept, hpart]
  exact ⟨_, rfl⟩

/-- A segment is left. -/
theorem removeDots_ne_nil (hne : segments ≠ []) : removeDots segments ≠ [] := by
  have hfrom : ∀ segments acc, (segments = [] → acc ≠ []) → removeDotsFrom acc segments ≠ [] := by
    intro segments
    induction segments with
    | nil =>
      intro acc h hnil
      exact h rfl (List.reverse_eq_nil_iff.1 hnil)
    | cons s rest ih =>
      -- the last segment is kept, or an empty one is put in its place
      intro acc _
      rw [removeDotsFrom]
      split_ifs with hone hlast htwo hlast
      · exact ih _ fun _ => List.cons_ne_nil _ _
      · exact ih _ fun h => absurd h hlast
      · exact ih _ fun _ => List.cons_ne_nil _ _
      · exact ih _ fun h => absurd h hlast
      · exact ih _ fun _ => List.cons_ne_nil _ _
  exact hfrom segments [] fun h => absurd h hne

/-- What the server reads after a redirect to a path without a percent sign. -/
theorem exists_returned (hhead : url.head? = some 47) (hpercent : 37 ∉ url) :
    ∃ u, URL.parseRequestURI (pathname (headerValue (hexEscapeNonASCII url))) = some u ∧
      u.path = returned url ∧
      u.segments = some (returnedSegments url) ∧
        ((∀ s ∈ returnedSegments url, Proper s) → u.Routed) := by
  obtain ⟨rest, rfl⟩ := List.head?_eq_some_iff.1 hhead
  have hne : (split 47 (browserPath (headerValue (47 :: rest)))).tail ≠ [] := by
    obtain ⟨t, ht⟩ := browserPath_headerValue_cons rest
    rw [ht, split_cons_self]
    exact split_ne_nil 47 t
  rw [pathname_headerValue hpercent]
  exact parseRequestURI_requested (removeDots_ne_nil hne)
    (fun s hs => (mem_returnedSegments hs).2.1)
    fun s hs hmem => ((mem_returnedSegments hs).2.2 37 hmem).1.elim hpercent (by decide)

/-! ### Paths that come back as they were -/

/-- A string is put together from its pieces. -/
theorem slashed_split (s : Str) : slashed (split 47 s) = 47 :: s := by
  induction s with
  | nil => rfl
  | cons c s ih =>
    obtain ⟨first, rest, hs⟩ := List.exists_cons_of_ne_nil (split_ne_nil 47 s)
    have hparts : first ++ slashed rest = s := by
      rw [hs] at ih
      exact List.cons.inj ih |>.2
    rw [split]
    split_ifs with hc
    · rw [hc, ← ih]
      rfl
    · rw [hs, ← hparts]
      rfl

/-- Removing dot segments makes no path longer. -/
theorem removeDots_length (segments : List Str) :
    (slashed (removeDots segments)).length ≤ (slashed segments).length := by
  have hcons : ∀ (s : Str) (rest : List Str), (slashed (s :: rest)).length = s.length + 1 +
      (slashed rest).length := by
    intro s rest
    simp [slashed]
    omega
  have hreverse : ∀ acc : List Str, (slashed acc.reverse).length = (slashed acc).length := by
    intro acc
    exact ((List.reverse_perm acc).flatMap_right _).length_eq
  have htail : ∀ acc : List Str, (slashed acc.tail).length ≤ (slashed acc).length := by
    intro acc
    cases acc with
    | nil => exact Nat.le_refl _
    | cons s rest =>
      rw [List.tail_cons, hcons]
      omega
  -- The induction is over the segments, with the ones that were kept so far.
  have hfrom : ∀ acc, (slashed (removeDotsFrom acc segments)).length ≤
      (slashed acc).length + (slashed segments).length := by
    induction segments with
    | nil => exact fun acc => Nat.le_of_eq (hreverse acc)
    | cons s rest ih =>
      intro acc
      have hacc := htail acc
      rw [removeDotsFrom, hcons]
      split_ifs with hone hlast htwo hlast
      all_goals refine (ih _).trans ?_
      · rw [hcons, hone, List.length_singleton, List.length_nil]
        omega
      · omega
      · rw [hcons, htwo, List.length_nil]
        omega
      · omega
      · rw [hcons]
        omega
  have hnil := hfrom []
  rw [show slashed [] = [] from rfl, List.length_nil, Nat.zero_add] at hnil
  exact hnil

/-- The path that comes back is no longer. -/
theorem returned_length (hhead : url.head? = some 47) :
    (returned url).length ≤ (browserPath (headerValue url)).length := by
  obtain ⟨rest, rfl⟩ := List.head?_eq_some_iff.1 hhead
  obtain ⟨t, ht⟩ := browserPath_headerValue_cons rest
  rw [returned, returnedSegments, ht, split_cons_self, List.tail_cons]
  calc (slashed (removeDots (split 47 t))).length
      ≤ (slashed (split 47 t)).length := removeDots_length _
    _ = (47 :: t).length := by rw [slashed_split]

/-- A path that ends in a blank or a control character gets shorter. -/
theorem returned_shorter (hhead : url.head? = some 47) (hlast : url.getLast? = some c)
    (hc : c ≤ 32) : (returned url).length < url.length := by
  have hstrip := (stripEnds_sublist (· ≤ 32) (headerValue url)).length_le
  have hpath := browserPath_length (headerValue url)
  have hlength := returned_length hhead
  by_cases hblank : c ∈ ([9, 10, 13, 32] : Str)
  · -- the header is trimmed
    have hmap : (url.map fun c => if c = 10 ∨ c = 13 then 32 else c).getLast? =
        some (if c = 10 ∨ c = 13 then 32 else c) := by
      rw [List.getLast?_map, hlast]
      rfl
    have hvalue : (headerValue url).length < url.length := by
      refine Nat.lt_of_lt_of_eq (stripEnds_length hmap ?_) (List.length_map _)
      split_ifs
      · decide
      · simpa using hblank
    omega
  · -- the header keeps the byte and the browser removes it
    have hsame : (if c = 10 ∨ c = 13 then 32 else c) = c := by
      refine if_neg ?_
      rintro (rfl | rfl)
      · exact hblank (by decide)
      · exact hblank (by decide)
    have hmap : (url.map fun c => if c = 10 ∨ c = 13 then 32 else c).getLast? = some c := by
      rw [List.getLast?_map, hlast, Option.map_some, hsame]
    have hhead' : (url.map fun c => if c = 10 ∨ c = 13 then 32 else c).head? = some 47 := by
      rw [List.head?_map, hhead]
      rfl
    have hvalue : headerValue url = url.map fun c => if c = 10 ∨ c = 13 then 32 else c :=
      stripEnds_eq_self hhead' (by decide) hmap (by simpa using hblank)
    have hshort : (stripEnds (· ≤ 32) (headerValue url)).length < (headerValue url).length := by
      rw [hvalue]
      exact stripEnds_length hmap (by simpa using hc)
    have hkept : (headerValue url).length = url.length := by rw [hvalue, List.length_map]
    omega

/-- A path without dot segments comes back as it was exactly when no byte of it is special to a
browser and it does not end in a blank or a control character. -/
theorem returned_eq_self_iff (hne : texts ≠ []) (hslash : ∀ s ∈ texts, 47 ∉ s)
    (hdots : ∀ s ∈ texts, ¬ Dots s) : returned (slashed texts) = slashed texts ↔
      (∀ c ∈ slashed texts, c ∉ marks) ∧ ∃ c, (slashed texts).getLast? = some c ∧ 32 < c := by
  have hhead := head?_slashed hne
  constructor
  · intro h
    refine ⟨fun c hc => ?_, ?_⟩
    · rw [← h] at hc
      obtain ⟨s, hs, hmem⟩ := List.mem_flatMap.1 hc
      rcases List.mem_cons.1 hmem with rfl | hmem
      · decide
      · exact ((mem_returnedSegments hs).2.2 c hmem).2
    · have hnil : slashed texts ≠ [] := by
        intro hnil
        rw [hnil] at hhead
        cases hhead
      refine ⟨_, List.getLast?_eq_some_getLast hnil, ?_⟩
      -- What ends in a blank comes back shorter.
      by_contra hle
      have hshort := returned_shorter hhead (List.getLast?_eq_some_getLast hnil)
        (UInt8.not_lt.1 hle)
      rw [h] at hshort
      exact Nat.lt_irrefl _ hshort
  · -- Neither the header nor the browser finds anything to change.
    rintro ⟨hplain, c, hlast, hc⟩
    have hmap : (slashed texts).map (fun c => if c = 10 ∨ c = 13 then 32 else c) =
        slashed texts := by
      refine (List.map_congr_left fun b hb => if_neg ?_).trans (List.map_id _)
      rintro (rfl | rfl)
      · exact hplain _ hb (by decide)
      · exact hplain _ hb (by decide)
    have hend : decide (c ∈ ([9, 10, 13, 32] : Str)) = false := by
      have hall : ∀ b ∈ ([9, 10, 13, 32] : Str), ¬ 32 < b := forall_mem_of_all (by decide)
      exact decide_eq_false fun hmem => hall c hmem hc
    have hvalue : headerValue (slashed texts) = slashed texts := by
      rw [headerValue, hmap]
      exact stripEnds_eq_self hhead (by decide) hlast hend
    rw [returned, returnedSegments, hvalue, browserPath_eq_self hhead hplain hlast hc,
      split_slashed_self hslash, List.tail_cons, removeDots_eq_self hdots]

/-! ### The cleaned URL -/

/-- The path and the query make the URL. -/
theorem cut_append_queryPart (url : Str) : (cut 63 url).1 ++ queryPart url = url := by
  induction url with
  | nil => rfl
  | cons c url ih =>
    unfold queryPart at ih ⊢
    rw [cut]
    split_ifs with hc
    · rw [hc]
      rfl
    · exact congrArg (c :: ·) ih

/-- A clean path begins with a slash. -/
theorem cleanPath_cons (p : Str) : ∃ t, cleanPath p = 47 :: t := by
  unfold cleanPath
  dsimp only
  generalize (if p.head? = some 47 then p else 47 :: p) = rooted
  generalize cleanSegments (split 47 rooted) = segments
  cases segments with
  | nil => exact ⟨[], rfl⟩
  | cons first rest =>
    split_ifs with hnil
    · exact absurd hnil (List.cons_ne_nil _ _)
    · exact ⟨_, rfl⟩
    · exact ⟨_, rfl⟩

/-- Cleaning adds slashes at most. -/
theorem mem_cleanPath {p : Str} (h : c ∈ cleanPath p) : c ∈ p ∨ c = 47 := by
  have hrooted : c ∈ (if p.head? = some 47 then p else 47 :: p) → c ∈ p ∨ c = 47 := by
    split_ifs
    · exact Or.inl
    · exact fun hmem => (List.mem_cons.1 hmem).symm
  unfold cleanPath at h
  dsimp only at h
  generalize (if p.head? = some 47 then p else 47 :: p) = rooted at h hrooted
  have hsegments : c ∈ slashed (cleanSegments (split 47 rooted)) → c ∈ p ∨ c = 47 := by
    intro hmem
    obtain ⟨s, hs, hmem⟩ := List.mem_flatMap.1 hmem
    rcases List.mem_cons.1 hmem with rfl | hmem
    · exact .inr rfl
    · exact hrooted (mem_of_mem_split ((cleanSegments_sublist _).subset hs) hmem)
  split_ifs at h
  · exact .inr (List.mem_singleton.1 h)
  · exact (List.mem_append.1 h).elim hsegments fun h => .inr (List.mem_singleton.1 h)
  · exact hsegments h

/-- The bytes of the cleaned URL are bytes of the URL and slashes. -/
theorem mem_cleanedURL (h : c ∈ cleanedURL url) : c ∈ url ∨ c = 47 := by
  have hclean : c ∈ cleanPath (cut 63 url).1 ++ queryPart url → c ∈ url ∨ c = 47 := by
    intro hmem
    rcases List.mem_append.1 hmem with hmem | hmem
    · exact (mem_cleanPath hmem).imp_left fun hmem => (cut_fst_spec 63 url).2.subset hmem
    · refine .inl ?_
      rw [← cut_append_queryPart url]
      exact List.mem_append_right _ hmem
  unfold cleanedURL at h
  cases hparse : URL.parse url with
  | none =>
    rw [hparse] at h
    exact .inl h
  | some u =>
    rw [hparse] at h
    dsimp only at h
    split_ifs at h
    · exact hclean h
    · exact .inl h

/-- A clean URL begins with a slash. -/
theorem cleanedURL_head (hhead : url.head? = some 47) : (cleanedURL url).head? = some 47 := by
  obtain ⟨t, ht⟩ := cleanPath_cons (cut 63 url).1
  unfold cleanedURL
  cases URL.parse url with
  | none => exact hhead
  | some u =>
    dsimp only
    split_ifs
    · rw [ht]
      rfl
    · exact hhead

/-- A path without improper segments is left as it is, whether it parses or not. -/
theorem cleanedURL_slashed (hne : texts ≠ []) (hslash : ∀ s ∈ texts, 47 ∉ s)
    (hproper : ∀ s ∈ texts, Proper s) (hmark : 63 ∉ slashed texts) :
    cleanedURL (slashed texts) = slashed texts := by
  have hclean : cleanPath (cut 63 (slashed texts)).1 ++ queryPart (slashed texts) =
      slashed texts := by
    rw [queryPart, cut_of_not_mem hmark, cleanPath_slashed hne hslash hproper, List.append_nil]
  unfold cleanedURL
  cases URL.parse (slashed texts) with
  | none => rfl
  | some u =>
    dsimp only
    rw [hclean, ite_self]

/-! ### A name at the end of a path -/

/-- What `encodeURIComponent` writes means itself in a path, to a server and to a browser. -/
theorem mem_encodeURIComponent_plain (h : c ∈ encodeURIComponent s) :
    encodedInPath c = false ∧ c ∉ marks ∧ c ≠ 47 ∧ 32 < c ∧ validEncoded [c] .path = true := by
  have hdigit : ∀ v ∈ List.range 16, uriUnescaped (hexDigit v) = true := by decide
  have hkept : uriUnescaped c = true →
      encodedInPath c = false ∧ c ∉ marks ∧ c ≠ 47 ∧ 32 < c ∧ validEncoded [c] .path = true := by
    intro hkept
    have hspecial : ∀ b ∈ 47 :: marks ++ "\"#<>?`\x7b\x7d^", uriUnescaped b = false :=
      forall_mem_of_all (by decide)
    have hnot : c ∉ 47 :: marks ++ ascii "\"#<>?`\x7b\x7d^" := by
      intro hmem
      rw [hspecial c hmem] at hkept
      cases hkept
    simp only [List.cons_append, List.mem_cons, List.mem_append, not_or] at hnot
    rcases Bool.or_eq_true_iff.1 hkept with hletter | hother
    · have hrange : 48 ≤ c ∧ c < 127 := by
        unfold isLetter isDigit at hletter
        grind
      refine ⟨?_, hnot.2.1, hnot.1, by grind, ?_⟩
      · rw [encodedInPath, decide_eq_false hnot.2.2, decide_eq_false (by grind),
          decide_eq_false (by grind)]
        rfl
      · rw [validEncoded, List.all_cons, shouldEscape, if_pos hletter]
        simp
    · have hall : ∀ b ∈ ascii "-_.!~*'()", encodedInPath b = false ∧ b ∉ marks ∧ b ≠ 47 ∧ 32 < b ∧
          validEncoded [b] .path = true := forall_mem_of_all (by decide)
      exact hall c (of_decide_eq_true hother)
  -- A byte that is kept, the percent sign, or a digit of an escape.
  rcases mem_encodeURIComponent h with h | rfl | ⟨v, hv, rfl⟩
  · exact hkept h
  · decide
  · exact hkept (hdigit v (List.mem_range.2 hv))

/-- A browser leaves an encoded component. -/
theorem pathPercentEncode_encodeURIComponent (s : Str) :
    pathPercentEncode (encodeURIComponent s) = encodeURIComponent s := by
  have hself : ∀ x : Str, (∀ c ∈ x, encodedInPath c = false) → pathPercentEncode x = x := by
    intro x hx
    induction x with
    | nil => rfl
    | cons c x ih =>
      rw [pathPercentEncode_cons, hx c (.head _), ih fun b hb => hx b
        (.tail _ hb)]
      rfl
  exact hself _ fun c hc => (mem_encodeURIComponent_plain hc).1

variable {dir s : Str}

/-- The path with an encoded name, as a server reads it. -/
theorem parseRequestURI_named (hdir : PlainSegment dir) (hvalid : validEncoded dir .path = true)
    (hs : Proper s) :
    ∃ u, URL.parseRequestURI (slashed [dir, encodeURIComponent s]) = some u ∧
      u.path = slashed [dir] ++ 47 :: s ∧
      u.segments = some [dir, s] ∧ u.Routed := by
  obtain ⟨⟨hproper, -, hpercent, hslash, hmark⟩, hctl⟩ := hdir
  have hhead : (slashed [dir, encodeURIComponent s]).head? = some 47 := rfl
  have hslash' : ∀ x ∈ [dir, encodeURIComponent s], 47 ∉ x := by
    simpa using ⟨hslash, fun hmem => (mem_encodeURIComponent_plain hmem).2.2.1 rfl⟩
  have hmark' : 63 ∉ slashed [dir, encodeURIComponent s] := by
    refine not_mem_slashed (by decide) ?_
    simpa using ⟨hmark, fun hmem => absurd (mem_encodeURIComponent_plain hmem).1 (by decide)⟩
  have hctl' : containsCTL (slashed [dir, encodeURIComponent s]) = false :=
    containsCTL_slashed (by simpa using ⟨hctl, containsCTL_encodeURIComponent s⟩)
  have hdecode : [dir, encodeURIComponent s].mapM (unescape .path) = some [dir, s] := by
    simp [unescape_path_of_not_mem hpercent, unescape_encodeURIComponent]
  have hvalid' : validEncoded (slashed [dir, encodeURIComponent s]) .path = true := by
    have hname : validEncoded (encodeURIComponent s) .path = true := by
      refine List.all_eq_true.2 fun c hc => ?_
      simpa [validEncoded] using (mem_encodeURIComponent_plain hc).2.2.2.2
    have hbyte : validEncoded [47] .path = true := by decide
    have hpath : slashed [dir, encodeURIComponent s] = [47] ++
        (dir ++ ([47] ++ encodeURIComponent s)) := by
      simp [slashed]
    rw [hpath, validEncoded_append, validEncoded_append, validEncoded_append, hvalid, hname, hbyte]
    rfl
  -- The path has no control byte and no `?`, so the parser decodes it as it is.
  rw [parseRequestURI_path hhead hctl' hmark']
  obtain ⟨u, hset⟩ : ∃ u, ({} : URL).setPath (slashed [dir, encodeURIComponent s]) = some u := by
    rw [URL.setPath, unescape_slashed hdecode]
    exact ⟨_, rfl⟩
  obtain ⟨hpath, hescaped⟩ := URL.escapedPath_eq hset hhead
  rw [unescape_slashed hdecode, Option.some.injEq] at hpath
  rw [if_pos hvalid'] at hescaped
  refine ⟨u, hset, ?_, ?_, ?_⟩
  · rw [← hpath]
    simp [slashed]
  · rw [URL.segments_slashed hset (List.cons_ne_nil _ _) hslash' hdecode, if_pos hvalid']
  · have hname := hs.of_unescape (unescape_encodeURIComponent s)
    rw [URL.Routed, hescaped]
    exact cleanPath_slashed (List.cons_ne_nil _ _) hslash' (by simpa using ⟨hproper, hname⟩)

/-- The path with an encoded name, as a browser keeps it. -/
theorem pathname_named (hdir : PlainSegment dir) (hplain : ∀ c ∈ dir, c ∉ marks)
    (hencode : pathPercentEncode dir = dir) (hs : Proper s) :
    pathname (slashed [dir, encodeURIComponent s]) = slashed [dir, encodeURIComponent s] := by
  obtain ⟨⟨hproper, -, hpercent, hslash, -⟩, -⟩ := hdir
  have hslash' : ∀ x ∈ [dir, encodeURIComponent s], 47 ∉ x := by
    simpa using ⟨hslash, fun hmem => (mem_encodeURIComponent_plain hmem).2.2.1 rfl⟩
  have hplain' : ∀ c ∈ slashed [dir, encodeURIComponent s], c ∉ marks := by
    intro c hc
    obtain ⟨x, hx, hmem⟩ := List.mem_flatMap.1 hc
    rcases List.mem_cons.1 hmem with rfl | hmem
    · decide
    · simp only [List.mem_cons, List.not_mem_nil, or_false] at hx
      rcases hx with rfl | rfl
      · exact hplain c hmem
      · exact (mem_encodeURIComponent_plain hmem).2.1
  -- A browser strips blanks at the end, and the encoded name ends in none.
  obtain ⟨front, c, hname⟩ : ∃ front c, encodeURIComponent s = front ++ [c] := by
    have hne : encodeURIComponent s ≠ [] := (hs.of_unescape (unescape_encodeURIComponent s)).1
    exact ⟨_, _, (List.dropLast_append_getLast hne).symm⟩
  have hlast : (slashed [dir, encodeURIComponent s]).getLast? = some c :=
    List.getLast?_eq_some_iff.2 ⟨47 :: dir ++ 47 :: front, by simp [slashed, hname]⟩
  have hc : 32 < c := (mem_encodeURIComponent_plain (s := s) (by simp [hname])).2.2.2.1
  rw [pathname_slashed (List.cons_ne_nil _ _) hslash' hplain' hlast hc, List.map_cons,
    List.map_singleton, hencode, pathPercentEncode_encodeURIComponent]
  intro x hx
  simp only [List.mem_cons, List.not_mem_nil, or_false] at hx
  rcases hx with rfl | rfl
  · exact ⟨x, unescape_path_of_not_mem hpercent, hproper.not_dots⟩
  · exact ⟨s, unescape_encodeURIComponent s, hs.not_dots⟩

end VirePortal.Go
