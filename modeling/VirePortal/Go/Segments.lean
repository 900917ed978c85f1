import VirePortal.Go.Templates

/-!
# The segments of a path

A URL path is split at its slashes and each segment is decoded (`URL.segments`), and dot segments
are then removed as a resolver of relative references does (`removeDots`), which unlike `path.Clean`
keeps empty segments. A path that is put together from encoded texts has the decoded texts as its
segments when all its bytes may stand in a path. Otherwise the path is decoded and encoded anew as a
whole, and a slash that was escaped separates (`URL.segments_slashed`).
-/

namespace VirePortal.Go

/-- The segments of a URL's path, split before they are decoded. -/
def URL.segments (u : URL) : Option (List Str) :=
  (split 47 u.escapedPath).tail.mapM (unescape .pathSegment)

/-- The segments without dot segments, with those before them in reverse. A dot segment at the end
leaves an empty one. -/
def removeDotsFrom (acc : List Str) : List Str → List Str
  | [] => acc.reverse
  | s :: rest =>
    if s = [46] then removeDotsFrom (if rest = [] then [] :: acc else acc) rest
    else if s = [46, 46] then removeDotsFrom (if rest = [] then [] :: acc.tail else acc.tail) rest
    else removeDotsFrom (s :: acc) rest

/-- The segments without dot segments. -/
def removeDots (segments : List Str) : List Str := removeDotsFrom [] segments

/-- A dot segment. -/
def Dots (s : Str) : Prop := s = [46] ∨ s = [46, 46]

instance : DecidablePred Dots := fun s => by
  unfold Dots
  infer_instance

/-- Where there is no dot segment nothing is removed. -/
theorem removeDots_eq_self {segments : List Str} (h : ∀ s ∈ segments, ¬ Dots s) :
    removeDots segments = segments := by
  have hfrom : ∀ acc, removeDotsFrom acc segments = acc.reverse ++ segments := by
    induction segments with
    | nil => exact fun acc => (List.append_nil _).symm
    | cons s rest ih =>
      intro acc
      have hs := h s (.head _)
      rw [Dots, not_or] at hs
      rw [removeDotsFrom, if_neg hs.1, if_neg hs.2, ih fun x hx => h x (.tail _ hx)]
      simp
  exact hfrom []

/-- What is left are the segments before, segments that are no dot segments, and perhaps an empty
one. -/
theorem mem_removeDotsFrom {acc segments : List Str} {x : Str}
    (hx : x ∈ removeDotsFrom acc segments) :
    x ∈ acc ∨ ¬ Dots x ∧ (x = [] ∨ x ∈ segments) := by
  induction segments generalizing acc with
  | nil => exact .inl (List.mem_reverse.1 hx)
  | cons s rest ih =>
    have hlater : ¬ Dots x ∧ (x = [] ∨ x ∈ rest) → ¬ Dots x ∧ (x = [] ∨ x ∈ s :: rest) :=
      fun h => ⟨h.1, h.2.imp_right (List.mem_cons_of_mem s)⟩
    -- the segments that a dot segment leaves, with an empty one if it is the last
    have hdot : ∀ acc' : List Str, acc' ⊆ acc →
        x ∈ removeDotsFrom (if rest = [] then [] :: acc' else acc') rest →
        x ∈ acc ∨ ¬ Dots x ∧ (x = [] ∨ x ∈ s :: rest) := by
      intro acc' hsub h
      rcases ih h with hmem | hmem
      · split_ifs at hmem
        · rcases List.mem_cons.1 hmem with rfl | hmem
          · exact .inr ⟨by decide, .inl rfl⟩
          · exact .inl (hsub hmem)
        · exact .inl (hsub hmem)
      · exact .inr (hlater hmem)
    rw [removeDotsFrom] at hx
    by_cases hone : s = [46]
    · rw [if_pos hone] at hx
      exact hdot acc (List.Subset.refl acc) hx
    · rw [if_neg hone] at hx
      by_cases htwo : s = [46, 46]
      · rw [if_pos htwo] at hx
        exact hdot acc.tail (List.tail_subset acc) hx
      · rw [if_neg htwo] at hx
        rcases ih hx with hmem | hmem
        · rcases List.mem_cons.1 hmem with rfl | hmem
          · exact .inr ⟨not_or.2 ⟨hone, htwo⟩, .inr (.head _)⟩
          · exact .inl hmem
        · exact .inr (hlater hmem)

/-- What is left has no dots. -/
theorem mem_removeDots {segments : List Str} {x : Str} (hx : x ∈ removeDots segments) :
    ¬ Dots x ∧ (x = [] ∨ x ∈ segments) :=
  (mem_removeDotsFrom hx).resolve_left List.not_mem_nil

/-- Segments without dots stay. -/
theorem removeDots_eq_self_iff {segments : List Str} :
    removeDots segments = segments ↔ ∀ s ∈ segments, ¬ Dots s := by
  constructor
  · intro h s hs
    rw [← h] at hs
    exact (mem_removeDots hs).1
  · exact removeDots_eq_self

/-- A piece of a split has no separator. -/
theorem not_mem_of_mem_split {sep : UInt8} {s piece : Str} (h : piece ∈ split sep s) :
    sep ∉ piece := by
  induction s generalizing piece with
  | nil =>
    obtain rfl := List.mem_singleton.1 h
    exact List.not_mem_nil
  | cons b s ih =>
    by_cases hb : b = sep
    · rw [hb, split_cons_self] at h
      rcases List.mem_cons.1 h with rfl | h
      · exact List.not_mem_nil
      · exact ih h
    · obtain ⟨first, rest, hs⟩ := List.exists_cons_of_ne_nil (split_ne_nil sep s)
      have hb' : sep ∉ [b] := by simpa using Ne.symm hb
      rw [← List.singleton_append, split_append hb' hs] at h
      rw [hs] at ih
      rcases List.mem_cons.1 h with rfl | h
      · have hfirst := ih (.head _)
        simp [Ne.symm hb, hfirst]
      · exact ih (.tail _ h)

/-- Splitting a path at its slashes and removing its dot segments gives the segments that it was
made of exactly when they are no dot segments and hold no slash. -/
theorem removeDots_split_iff {segments : List Str} :
    removeDots (split 47 (slashed segments)).tail = segments ↔ ∀ s ∈ segments, ¬ Dots s ∧
      47 ∉ s := by
  constructor
  · intro h s hs
    rw [← h] at hs
    obtain ⟨hdots, rfl | hmem⟩ := mem_removeDots hs
    · exact ⟨hdots, List.not_mem_nil⟩
    · exact ⟨hdots, not_mem_of_mem_split (List.mem_of_mem_tail hmem)⟩
  · intro h
    rw [split_slashed_self fun s hs => (h s hs).2, List.tail_cons]
    exact removeDots_eq_self fun s hs => (h s hs).1

/-! ### Decoding a text piece by piece -/

section MapM

variable {α β : Type} {f g : α → Option β} {x : α} {xs : List α} {ys : List β}

/-- The first element and the rest. -/
theorem mapM_cons_eq_some :
    (x :: xs).mapM f = some ys ↔ ∃ y zs, f x = some y ∧ xs.mapM f = some zs ∧ ys = y :: zs := by
  rw [List.mapM_cons]
  simp only [Option.bind_eq_bind, Option.bind_eq_some_iff, Option.pure_def, Option.some.injEq]
  constructor
  · rintro ⟨y, hy, zs, hzs, rfl⟩
    exact ⟨y, zs, hy, hzs, rfl⟩
  · rintro ⟨y, zs, hy, hzs, rfl⟩
    exact ⟨y, hy, zs, hzs, rfl⟩

/-- Another function that has all these results. -/
theorem mapM_imp (h : ∀ x ∈ xs, ∀ y, f x = some y → g x = some y) (hf : xs.mapM f = some ys) :
    xs.mapM g = some ys := by
  induction xs generalizing ys with
  | nil => exact hf
  | cons x xs ih =>
    obtain ⟨y, zs, hy, hzs, rfl⟩ := mapM_cons_eq_some.1 hf
    exact mapM_cons_eq_some.2 ⟨y, zs, h x (.head _) y hy,
      ih (fun x' hx' => h x' (.tail _ hx')) hzs, rfl⟩

/-- Two parts. -/
theorem mapM_append_some {xs' : List α} {ys' : List β} (h : xs.mapM f = some ys)
    (h' : xs'.mapM f = some ys') : (xs ++ xs').mapM f = some (ys ++ ys') := by
  rw [List.mapM_append, h, h']
  rfl

/-- A function that undoes another one gives the list back. -/
theorem mapM_map_some {e : β → α} (h : ∀ y ∈ ys, f (e y) = some y) :
    (ys.map e).mapM f = some ys := by
  induction ys with
  | nil => rfl
  | cons y ys ih =>
    exact mapM_cons_eq_some.2 ⟨y, ys, h y (.head _),
      ih fun y' hy' => h y' (.tail _ hy'), rfl⟩

/-- Each element has an image. -/
theorem exists_of_mapM (hf : xs.mapM f = some ys) (hx : x ∈ xs) : ∃ y ∈ ys, f x = some y := by
  induction xs generalizing ys with
  | nil => exact absurd hx List.not_mem_nil
  | cons x' xs ih =>
    obtain ⟨y, zs, hy, hzs, rfl⟩ := mapM_cons_eq_some.1 hf
    rcases List.mem_cons.1 hx with rfl | hx
    · exact ⟨y, .head _, hy⟩
    · obtain ⟨y', hy', hfx⟩ := ih hzs hx
      exact ⟨y', .tail _ hy', hfx⟩

end MapM

/-- A text that decodes by itself is decoded in front of another. -/
theorem unescape_append {s t : Str} (hs : unescape .path s = some t) (r : Str) :
    unescape .path (s ++ r) = (unescape .path r).map (t ++ ·) := by
  refine unescape_induct (motive := fun s t =>
    unescape .path (s ++ r) = (unescape .path r).map (t ++ ·)) ?_ ?_ ?_ hs
  · simp
  · intro h l hi lo s t hh hl _ ih
    rw [List.cons_append, List.cons_append, List.cons_append, unescape, hh, hl, ih]
    cases unescape .path r <;> rfl
  · intro c b s t hc hb _ ih
    rw [List.cons_append, unescape_cons hc, hb, ih]
    cases unescape .path r <;> rfl

/-- The texts of some pieces are decoded one by one. -/
theorem unescape_flatMap_of {α : Type} {f : α → Str} {g : α → Option Str} {xs : List α}
    {ys : List Str} (h : ∀ x ∈ xs, ∀ y, g x = some y → unescape .path (f x) = some y)
    (hg : xs.mapM g = some ys) :
    unescape .path (xs.flatMap f) = some ys.flatten := by
  induction xs generalizing ys with
  | nil =>
    cases hg
    rfl
  | cons x xs ih =>
    obtain ⟨y, ys, hy, hys, rfl⟩ := mapM_cons_eq_some.1 hg
    rw [List.flatMap_cons, unescape_append (h x (.head _) y hy),
      ih (fun x' hx' => h x' (.tail _ hx')) hys]
    rfl

/-- The path of some texts is decoded text by text. -/
theorem unescape_slashed {texts decoded : List Str}
    (h : texts.mapM (unescape .path) = some decoded) :
    unescape .path (slashed texts) = some (slashed decoded) := by
  induction texts generalizing decoded with
  | nil =>
    cases h
    rfl
  | cons x texts ih =>
    obtain ⟨y, ys, hy, hys, rfl⟩ := mapM_cons_eq_some.1 h
    have hslash : unescape .path (47 :: x) = some (47 :: y) := by
      rw [unescape_cons (by decide), unescapeByte_path, hy]
      rfl
    show unescape .path (47 :: x ++ slashed texts) = some (47 :: y ++ slashed ys)
    rw [unescape_append hslash, ih hys]
    rfl

/-- The segments of a path that is put together from texts. -/
theorem URL.segments_slashed {u v : URL} {texts decoded : List Str}
    (h : u.setPath (slashed texts) = some v) (hne : texts ≠ []) (hslash : ∀ x ∈ texts, 47 ∉ x)
    (hdecode : texts.mapM (unescape .path) = some decoded) :
    v.segments = some (if validEncoded (slashed texts) .path then decoded
      else (split 47 (slashed decoded)).tail) := by
  obtain ⟨hpath, hescaped⟩ := URL.escapedPath_eq h (head?_slashed hne)
  rw [unescape_slashed hdecode, Option.some.injEq] at hpath
  unfold URL.segments
  rw [hescaped]
  split_ifs
  · rw [split_slashed_self hslash, List.tail_cons, funext unescape_pathSegment, hdecode]
  · rw [← hpath, split_escape, ← List.map_tail, mapM_unescape_escape]

/-! ### The texts of `PathEscape` -/

/-- The two forms of a byte in a segment. -/
theorem escapeByte_pathSegment (c : UInt8) :
    (escapeByte .pathSegment c = [c] ∧ shouldEscape c .pathSegment = false) ∨
      escapeByte .pathSegment c = [37, hexDigit (c.toNat / 16), hexDigit (c.toNat % 16)] := by
  have hspace : ¬ (c = 32 ∧ Encoding.pathSegment = .queryComponent) := by simp
  rw [escapeByte, if_neg hspace]
  split_ifs with hescape
  · exact .inr rfl
  · exact .inl ⟨rfl, by simpa using hescape⟩

/-- An escaped segment is read back. -/
theorem unescape_pathEscape (s : Str) : unescape .path (pathEscape s) = some s := by
  refine unescape_flatMap (fun c => (escapeByte_pathSegment c).imp_left fun h => ⟨h.1, ?_⟩) s
  rintro rfl
  exact absurd h.2 (by decide)

/-- A byte of an escaped segment: a percent sign, or a byte that needs no escape. -/
theorem mem_pathEscape {s : Str} {c : UInt8} (hc : c ∈ pathEscape s) :
    c = 37 ∨ shouldEscape c .pathSegment = false := by
  rcases mem_escape hc with ⟨-, h⟩ | h
  · cases h
  · exact h

/-- A byte that a segment escapes is not in the escaped text. -/
theorem not_mem_pathEscape {c : UInt8} (hc : shouldEscape c .pathSegment = true)
    (hne : c ≠ 37) (s : Str) :
    c ∉ pathEscape s := by
  intro hmem
  rcases mem_pathEscape hmem with h | h
  · exact hne h
  · rw [hc] at h
    cases h

/-- The encoding of two parts. -/
theorem validEncoded_append (s t : Str) (mode : Encoding) :
    validEncoded (s ++ t) mode = (validEncoded s mode && validEncoded t mode) := List.all_append

/-- An escaped segment may stand in a path. -/
theorem validEncoded_pathEscape (s : Str) : validEncoded (pathEscape s) .path = true := by
  -- a path escapes no byte that a segment keeps
  have hkeep : ∀ c, shouldEscape c .pathSegment = false → shouldEscape c .path = false := by
    intro c hc
    unfold shouldEscape at hc ⊢
    have hmark : escapeReserved c .pathSegment = false → escapeReserved c .path = false := by
      simp only [escapeReserved, Bool.or_eq_false_iff]
      exact fun h => h.2
    split_ifs at hc ⊢ <;> simp_all
  refine List.all_eq_true.2 fun c hc => ?_
  rcases mem_pathEscape hc with rfl | h
  · decide
  · rw [hkeep c h]
    simp

/-! ### URLs that are put together -/

/-- A URL of an origin with a path of texts and a query. -/
theorem Origin.url_slashed {o : Origin} {texts : List Str} {query : Str} {u : URL}
    (hhash : ∀ x ∈ texts, 35 ∉ x) (hmark : ∀ x ∈ texts, 63 ∉ x) (hquery : 35 ∉ query)
    (h : o.url (slashed texts ++ if query = [] then [] else 63 :: query) = some u) :
    (∃ v, (o.start (query, false)).setPath (slashed texts) = some v ∧ u.segments = v.segments) ∧
      u.host = o.host ∧ u.rawQuery = query ∧ u.forceQuery = false ∧ u.frag = [] := by
  have hhash' : 35 ∉ slashed texts ++ if query = [] then [] else 63 :: query := by
    rw [List.mem_append, not_or]
    refine ⟨not_mem_slashed (by decide) hhash, ?_⟩
    split_ifs
    · exact List.not_mem_nil
    · simp [hquery]
  -- The first `?` of the rest is the one in front of the query.
  have hsplit : splitQuery (slashed texts ++ if query = [] then [] else 63 :: query) =
      (slashed texts, query, false) := by
    rw [Origin.splitQuery_append (not_mem_slashed (by decide) hmark)]
    cases query with
    | nil => simp [splitQuery, cut]
    | cons c query => simp [splitQuery, cut]
  generalize slashed texts ++ (if query = [] then [] else 63 :: query) = rest at h hhash' hsplit
  unfold Origin.url at h
  rw [cut_of_not_mem hhash'] at h
  dsimp only at h
  rw [hsplit] at h
  split_ifs at h
  obtain ⟨v, hv, hu⟩ := Option.bind_eq_some_iff.1 h
  obtain rfl : { v with frag := [], rawFragment := [] } = u := Option.some.inj hu
  obtain ⟨path, -, rfl⟩ := URL.setPath_eq_some hv
  exact ⟨⟨_, hv, rfl⟩, rfl, rfl, rfl, rfl⟩

end VirePortal.Go
