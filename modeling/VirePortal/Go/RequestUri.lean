import VirePortal.Go.Templates

/-!
# Request URIs

The URL of a request as a server reads it from the request line (`URL.parseRequestURI`), and the
names that a browser puts into one (`encodeURIComponent`).

A URL with a path that the parser accepted (`URL.Accepted`) has a query without control bytes, no
opaque part, and an escaped path that decodes to the path. The path itself may hold any byte, since
every byte can be escaped.
-/

namespace VirePortal.Go

/-- The part of `parse` after the scheme and the query, for the URL of a request. -/
def parseRequestRest (u : URL) (rest : Str) : Option URL :=
  if rest.head? ≠ some 47 then
    if u.scheme ≠ [] then some { u with opaqueData := rest } else none
  else if u.scheme ≠ [] ∧ hasPrefix rest "//" then do
    let (authority, path) := splitAuthority (rest.drop 2)
    let (user, host) ← parseAuthority authority
    { u with user := user, host := host }.setPath path
  else
    { u with omitHost := u.scheme ≠ [] }.setPath rest

/-- `url.ParseRequestURI`, `none` when it returns an error. The fragment is not cut off. -/
def URL.parseRequestURI (rawURL : Str) : Option URL :=
  if containsCTL rawURL ∨ rawURL = [] then none
  else if rawURL = [42] then some { path := [42] }
  else do
    let (scheme, rest) ← getScheme rawURL
    let (rest, query, force) := splitQuery rest
    parseRequestRest { scheme := scheme.map toLower, rawQuery := query, forceQuery := force } rest

/-- A URL with a path that the server read from a request line. -/
def URL.Accepted (u : URL) : Prop :=
  (∃ raw, URL.parseRequestURI raw = some u) ∧ u.path.head? = some 47

/-- The bytes that `encodeURIComponent` keeps. -/
def uriUnescaped (c : UInt8) : Bool := isLetter c || isDigit c || c ∈ ascii "-_.!~*'()"

/-- `encodeURIComponent`, on the UTF-8 encoding of a string. -/
def encodeURIComponent (s : Str) : Str :=
  s.flatMap fun c =>
    if uriUnescaped c then [c] else [37, hexDigit (c.toNat / 16), hexDigit (c.toNat % 16)]

/-! ### Accepted URLs -/

/-- Fewer bytes have no more control bytes. -/
theorem containsCTL_sublist {s t : Str} (h : s.Sublist t) (ht : containsCTL t = false) :
    containsCTL s = false := by
  unfold containsCTL at ht ⊢
  rw [List.any_eq_false] at ht ⊢
  exact fun c hc => ht c (h.subset hc)

/-- What follows the scheme. -/
theorem getSchemeFrom_suffix {seen s scheme rest : Str}
    (h : getSchemeFrom seen s = some (some scheme, rest)) : rest <:+ s := by
  induction s generalizing seen with
  | nil => simp [getSchemeFrom] at h
  | cons c s ih =>
    rw [getSchemeFrom] at h
    split_ifs at h
    · exact (ih h).trans (List.suffix_cons c s)
    · simp at h
    · exact (ih h).trans (List.suffix_cons c s)
    · simp only [Option.some.injEq, Prod.mk.injEq] at h
      rw [← h.2]
      exact List.suffix_cons c s
    · simp at h

/-- What follows the scheme. -/
theorem getScheme_suffix {raw scheme rest : Str} (h : getScheme raw = some (scheme, rest)) :
    rest <:+ raw := by
  unfold getScheme at h
  rcases hfrom : getSchemeFrom [] raw with _ | ⟨_ | found, after⟩
  · rw [hfrom] at h
    cases h
  · rw [hfrom] at h
    obtain ⟨-, rfl⟩ := Prod.mk.inj (Option.some.inj h)
    exact List.suffix_rfl
  · rw [hfrom] at h
    obtain ⟨-, rfl⟩ := Prod.mk.inj (Option.some.inj h)
    exact getSchemeFrom_suffix hfrom

/-- What follows the separator. -/
theorem cut_snd_sublist (sep : UInt8) (s : Str) : ((cut sep s).2.getD []).Sublist s := by
  induction s with
  | nil => exact List.Sublist.slnil
  | cons b s ih =>
    rw [cut]
    split_ifs
    · exact List.sublist_cons_self b s
    · exact ih.cons b

/-- The query is part of the text. -/
theorem splitQuery_snd_sublist (s : Str) : (splitQuery s).2.1.Sublist s := by
  have hcut := cut_snd_sublist 63 s
  unfold splitQuery
  rcases h : cut 63 s with ⟨before, _ | _ | ⟨c, query⟩⟩
  · exact List.nil_sublist s
  · exact List.nil_sublist s
  · rw [h] at hcut
    exact hcut

/-- The path of an authority form is empty or starts with a slash. -/
theorem splitAuthority_snd (s : Str) :
    (splitAuthority s).2 = [] ∨ (splitAuthority s).2.head? = some 47 := by
  unfold splitAuthority
  rcases cut 47 s with ⟨authority, _ | path⟩
  · exact .inl rfl
  · exact .inr rfl

/-- How an accepted URL came by its path and its query. -/
theorem URL.Accepted.parts {u : URL} (h : u.Accepted) :
    ∃ (v : URL) (p : Str), v.setPath p = some u ∧ p.head? = some 47 ∧ v.opaqueData = [] ∧
      containsCTL v.rawQuery = false := by
  obtain ⟨⟨raw, hraw⟩, hpath⟩ := h
  unfold URL.parseRequestURI at hraw
  split_ifs at hraw with hrefused hstar
  · -- The asterisk is no path.
    rw [← Option.some.inj hraw] at hpath
    exact absurd hpath (by decide)
  · rw [not_or, Bool.not_eq_true] at hrefused
    rcases hscheme : getScheme raw with _ | ⟨scheme, rest⟩
    · rw [hscheme] at hraw
      cases hraw
    rw [hscheme] at hraw
    -- A control byte in the query is one in the whole text, which is refused.
    have hquery : containsCTL (splitQuery rest).2.1 = false :=
      containsCTL_sublist ((splitQuery_snd_sublist rest).trans
        (getScheme_suffix hscheme).sublist) hrefused.1
    have hnil : ∀ v : URL, v.setPath [] ≠ some u := by
      intro v hv
      rw [← Option.some.inj hv] at hpath
      cases hpath
    rcases hsplit : splitQuery rest with ⟨before, query, force⟩
    rw [hsplit] at hquery
    change (match splitQuery rest with
      | (rest, query, force) => parseRequestRest
        { scheme := scheme.map toLower, rawQuery := query, forceQuery := force } rest) =
          some u at hraw
    rw [hsplit] at hraw
    unfold parseRequestRest at hraw
    dsimp only at hraw
    split_ifs at hraw with hhead hne hauthority
    · -- An opaque URL has no path.
      rw [← Option.some.inj hraw] at hpath
      cases hpath
    · simp only [Option.bind_eq_bind, Option.bind_eq_some_iff] at hraw
      obtain ⟨⟨user, host⟩, -, hset⟩ := hraw
      rcases splitAuthority_snd (before.drop 2) with hempty | hslash
      · rw [hempty] at hset
        exact absurd hset (hnil _)
      · exact ⟨_, _, hset, hslash, rfl, hquery⟩
    · exact ⟨_, _, hraw, not_not.1 hhead, rfl, hquery⟩

variable {u : URL}

/-- An accepted URL is not opaque. -/
theorem URL.Accepted.opaqueData_eq (h : u.Accepted) : u.opaqueData = [] := by
  obtain ⟨v, p, hset, -, hopaque, -⟩ := h.parts
  obtain ⟨t, -, rfl⟩ := URL.setPath_eq_some hset
  exact hopaque

/-- The query of an accepted URL has no control byte. -/
theorem URL.Accepted.rawQuery_plain (h : u.Accepted) : containsCTL u.rawQuery = false := by
  obtain ⟨v, p, hset, -, -, hquery⟩ := h.parts
  obtain ⟨t, -, rfl⟩ := URL.setPath_eq_some hset
  exact hquery

/-- The escaped path of an accepted URL decodes to its path. -/
theorem URL.Accepted.unescape_escapedPath (h : u.Accepted) :
    unescape .path u.escapedPath = some u.path := by
  obtain ⟨v, p, hset, hp, -, -⟩ := h.parts
  obtain ⟨hdecode, hescaped⟩ := URL.escapedPath_eq hset hp
  rw [hescaped]
  split_ifs
  · exact hdecode
  · exact unescape_escape u.path

/-- A leading slash stays. -/
theorem head_escape {s : Str} (hs : s.head? = some 47) : (escape .path s).head? = some 47 := by
  cases s with
  | nil => cases hs
  | cons c s =>
    cases hs
    rw [escape_cons, show escapeByte .path 47 = [47] by decide]
    rfl

/-- The path of an accepted URL has a leading slash. -/
theorem URL.Accepted.head_escapedPath (h : u.Accepted) : u.escapedPath.head? = some 47 := by
  obtain ⟨v, p, hset, hp, -, -⟩ := h.parts
  rw [(URL.escapedPath_eq hset hp).2]
  split_ifs
  · exact hp
  · exact head_escape h.2

/-- An escaped path has no question mark. -/
theorem not_mem_escape_question (s : Str) : 63 ∉ escape .path s :=
  not_mem_escape (by decide) (by decide) (by decide) s

/-- The path of an accepted URL has no `?`. -/
theorem URL.Accepted.not_mem_escapedPath (h : u.Accepted) : 63 ∉ u.escapedPath := by
  obtain ⟨v, p, hset, hp, -, -⟩ := h.parts
  rw [(URL.escapedPath_eq hset hp).2]
  split_ifs with hvalid
  · intro hmem
    exact absurd (List.all_eq_true.1 hvalid 63 hmem) (by decide)
  · exact not_mem_escape_question u.path

/-! ### Paths on the request line -/

/-- How a server reads a path without a query. -/
theorem parseRequestURI_path {p : Str} (hp : p.head? = some 47) (hctl : containsCTL p = false)
    (hmark : 63 ∉ p) : URL.parseRequestURI p = ({} : URL).setPath p := by
  have hscheme : getScheme p = some ([], p) := by
    cases p with
    | nil => cases hp
    | cons c s =>
      cases hp
      rw [getScheme, getSchemeFrom, if_neg (by decide), if_neg (by decide), if_neg (by decide)]
  have hquery : splitQuery p = (p, [], false) := by
    rw [splitQuery, cut_of_not_mem hmark]
  have hne : p ≠ [] := by
    rintro rfl
    cases hp
  have hstar : p ≠ [42] := by
    rintro rfl
    exact absurd hp (by decide)
  unfold URL.parseRequestURI
  rw [if_neg (by simp [hctl, hne]), if_neg hstar, hscheme]
  show (match splitQuery p with
    | (rest, query, force) => parseRequestRest
      { scheme := [].map toLower, rawQuery := query, forceQuery := force } rest) = _
  rw [hquery]
  show parseRequestRest {} p = _
  unfold parseRequestRest
  rw [if_neg (not_not.2 hp), if_neg (by simp)]
  rfl

/-- A prefix without a percent sign is decoded by itself. -/
theorem unescape_append_left {p : Str} (hp : 37 ∉ p) (s : Str) :
    unescape .path (p ++ s) = (unescape .path s).map (p ++ ·) := by
  induction p with
  | nil => simp
  | cons c p ih =>
    simp only [List.mem_cons, not_or] at hp
    rw [List.cons_append, unescape_cons (Ne.symm hp.1), unescapeByte_path, ih hp.2]
    cases unescape .path s <;> rfl

/-! ### Encoded names -/

/-- The decoder undoes `encodeURIComponent`. -/
theorem unescape_encodeURIComponent (s : Str) : unescape .path (encodeURIComponent s) = some s := by
  refine unescape_flatMap (fun c => ?_) s
  split_ifs with hc
  · refine .inl ⟨rfl, ?_⟩
    rintro rfl
    exact absurd hc (by decide)
  · exact .inr rfl

/-- The bytes of an encoded name: a byte that is kept, or one of an escape. -/
theorem mem_encodeURIComponent {s : Str} {b : UInt8} (h : b ∈ encodeURIComponent s) :
    uriUnescaped b = true ∨ b = 37 ∨ ∃ v < 16, b = hexDigit v := by
  unfold encodeURIComponent at h
  rw [List.mem_flatMap] at h
  obtain ⟨c, -, hb⟩ := h
  split_ifs at hb with hc
  · exact .inl (List.mem_singleton.1 hb ▸ hc)
  · have hlt : c.toNat < 256 := c.toNat_lt_size
    simp only [List.mem_cons, List.not_mem_nil, or_false] at hb
    rcases hb with rfl | rfl | rfl
    · exact .inr (.inl rfl)
    · exact .inr (.inr ⟨c.toNat / 16, by omega, rfl⟩)
    · exact .inr (.inr ⟨c.toNat % 16, by omega, rfl⟩)

/-- An encoded name has no byte that is not kept, besides the percent sign. -/
theorem not_mem_encodeURIComponent {c : UInt8} (hc : uriUnescaped c = false)
    (hne : c ≠ 37) (s : Str) :
    c ∉ encodeURIComponent s := by
  intro hmem
  have hhex : ∀ v ∈ List.range 16, uriUnescaped (hexDigit v) = true := by decide
  rcases mem_encodeURIComponent hmem with hkept | rfl | ⟨v, hv, rfl⟩
  · rw [hkept] at hc
    cases hc
  · exact hne rfl
  · rw [hhex v (List.mem_range.2 hv)] at hc
    cases hc

/-- A control byte is not kept. -/
theorem uriUnescaped_of_ctl {c : UInt8} (hc : (c < 32 || c = 127) = true) :
    uriUnescaped c = false ∧ c ≠ 37 := by
  have hmarks : containsCTL (ascii "-_.!~*'()") = false := by decide
  have hmem : c ∉ ascii "-_.!~*'()" := fun hmem => List.any_eq_false.1 hmarks c hmem hc
  simp only [Bool.or_eq_true, decide_eq_true_eq] at hc
  have hletter : isLetter c = false := by
    unfold isLetter
    grind
  have hdigit : isDigit c = false := by
    unfold isDigit
    grind
  refine ⟨by simp [uriUnescaped, hletter, hdigit, hmem], ?_⟩
  rintro rfl
  exact absurd hc (by decide)

/-- An encoded component has no control byte. -/
theorem containsCTL_encodeURIComponent (s : Str) : containsCTL (encodeURIComponent s) = false := by
  unfold containsCTL
  rw [List.any_eq_false]
  intro c hc hctl
  obtain ⟨hno, hne⟩ := uriUnescaped_of_ctl hctl
  exact not_mem_encodeURIComponent hno hne s hc

/-- How a server reads a path that ends in an encoded name. -/
theorem parseRequestURI_encodeURIComponent {p : Str} (hp : p.head? = some 47)
    (hctl : containsCTL p = false) (hmark : 63 ∉ p) (hpercent : 37 ∉ p) (s : Str) :
    ∃ u, URL.parseRequestURI (p ++ encodeURIComponent s) = some u ∧ u.path = p ++ s ∧
      u.rawQuery = [] := by
  have hhead : (p ++ encodeURIComponent s).head? = some 47 := by
    rw [List.head?_append, hp]
    rfl
  have hctl' : containsCTL (p ++ encodeURIComponent s) = false := by
    rw [Origin.containsCTL_append, hctl, containsCTL_encodeURIComponent]
    rfl
  have hmark' : 63 ∉ p ++ encodeURIComponent s := by
    have hname : 63 ∉ encodeURIComponent s :=
      not_mem_encodeURIComponent (by decide) (by decide) s
    simp [hmark, hname]
  rw [parseRequestURI_path hhead hctl' hmark', URL.setPath, unescape_append_left hpercent,
    unescape_encodeURIComponent]
  exact ⟨_, rfl, rfl, rfl⟩

end VirePortal.Go
