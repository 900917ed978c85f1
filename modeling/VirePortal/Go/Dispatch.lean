import VirePortal.Go.Redirects
import VirePortal.Go.ServeMux

/-!
# What a multiplexer makes of a request

`findHandler` of `http.ServeMux`: the path is cleaned, a directory without its slash and a path that
is not clean are redirected, and every other request goes to the handler of the pattern that
`lookup` finds. The patterns are matched against the decoded segments of the escaped path. A handler
sees the decoded path as a whole, in which a slash may come from an escape. `URL.Accepted.path_eq`
is the relation of the two: the path is the segments behind slashes.
-/

namespace VirePortal.Go

open ServeMux

/-- `pathUnescape`. -/
def pathUnescape (s : Str) : Str := (unescape .pathSegment s).getD s

/-- The segments of an escaped path, as `firstSegment` takes them off one by one. Behind a slash at
the end there is an empty one. -/
def pathSegments (path : Str) : List Str := (split 47 (path.drop 1)).map pathUnescape

/-- A path has a segment. -/
theorem pathSegments_ne_nil (path : Str) : pathSegments path ≠ [] := by
  rw [pathSegments, ne_eq, List.map_eq_nil_iff]
  exact split_ne_nil _ _

/-- What becomes of a request: a redirect, or its handler. -/
inductive Routing (H : Type) where
  | moved (location : Str)
  | served (handler : H)
  | notFound
  deriving DecidableEq

/-- `exactMatch`: what a wildcard at the end matches is empty. -/
def exactMatch {H : Type} (found : Option (Pattern Str × H)) (path : List Str) : Bool :=
  match found with
  | none => false
  | some e => !e.1.subtree || path = e.1.segments ++ [[]]

/-- The handler of a pattern. -/
def Routing.of {H : Type} : Option (Pattern Str × H) → Routing H
  | some e => .served e.2
  | none => .notFound

/-- `findHandler`, with the method and the URL of a request. -/
def findHandler {H : Type} (table : List (Pattern Str × H)) (method : Str) (url : URL) :
    Routing H :=
  let escaped := url.escapedPath
  let path := if method = "CONNECT" then escaped else cleanPath escaped
  let segments := pathSegments path
  let found := ServeMux.lookup table method segments
  let directory := segments ++ [[]]
  if !exactMatch found segments && path.getLast? ≠ some 47 &&
      exactMatch (ServeMux.lookup table method directory) directory then
    .moved ({ path := cleanPath url.path ++ [47], rawQuery := url.rawQuery } : URL).string
  else if path ≠ escaped then .moved ({ path := path, rawQuery := url.rawQuery } : URL).string
  else .of found

/-- A request that is not redirected goes to the pattern that the lookup finds for its own path. -/
theorem findHandler_cases {H : Type} (table : List (Pattern Str × H)) (method : Str) (url : URL) :
    (∃ location, findHandler table method url = .moved location) ∨
      findHandler table method url =
        .of (ServeMux.lookup table method (pathSegments url.escapedPath)) := by
  unfold findHandler
  dsimp only
  generalize (if method = "CONNECT" then url.escapedPath
    else cleanPath url.escapedPath) = path
  split_ifs with _ hclean
  · exact .inl ⟨_, rfl⟩
  · exact .inl ⟨_, rfl⟩
  · rw [not_not] at hclean
    rw [hclean]
    exact .inr rfl

/-! ### The decoded path -/

/-- Neither digit of an escape is the slash behind a text, so the text has both. -/
theorem exists_digits {s r s' : Str} {h l : UInt8} {hi lo : ℕ} (hr : r = [] ∨ r.head? = some 47)
    (hs : s ++ r = h :: l :: s') (hhi : unhex h = some hi) (hlo : unhex l = some lo) :
    ∃ s'', s = h :: l :: s'' ∧ s' = s'' ++ r := by
  rcases s with _ | ⟨x, _ | ⟨y, s⟩⟩
  · rcases hr with rfl | hr
    · cases hs
    · change r = h :: l :: s' at hs
      rw [hs] at hr
      exact absurd (Option.some.inj hr) (unhex_slash hhi)
  · rcases hr with rfl | hr
    · cases hs
    · obtain ⟨-, hs⟩ := List.cons.inj hs
      change r = l :: s' at hs
      rw [hs] at hr
      exact absurd (Option.some.inj hr) (unhex_slash hlo)
  · obtain ⟨hx, hs⟩ := List.cons.inj hs
    obtain ⟨hy, hs⟩ := List.cons.inj hs
    exact ⟨s, by rw [hx, hy], hs.symm⟩

/-- A text in front of a slash is decoded by itself: an escape does not go across the slash. -/
theorem unescape_append_slash {s r t : Str} (hr : r = [] ∨ r.head? = some 47)
    (h : unescape .path (s ++ r) = some t) :
    ∃ a b, unescape .path s = some a ∧ unescape .path r = some b ∧ t = a ++ b := by
  -- The induction is on the length, since an escape takes three bytes.
  suffices hlength : ∀ n (s t : Str), s.length ≤ n → unescape .path (s ++ r) = some t →
      ∃ a b, unescape .path s = some a ∧ unescape .path r = some b ∧ t = a ++ b from
    hlength s.length s t le_rfl h
  clear h s t
  intro n
  induction n with
  | zero =>
    intro s t hn ht
    obtain rfl := List.eq_nil_of_length_eq_zero (Nat.le_zero.1 hn)
    exact ⟨[], t, rfl, ht, rfl⟩
  | succ n ih =>
    intro s t hn ht
    cases s with
    | nil => exact ⟨[], t, rfl, ht, rfl⟩
    | cons c s =>
      simp only [List.length_cons] at hn
      by_cases hc : c = 37
      · subst hc
        obtain ⟨h', l', hi, lo, s', t', hs, hhi, hlo, ht', rfl⟩ := unescape_percent ht
        obtain ⟨s'', rfl, rfl⟩ := exists_digits hr hs hhi hlo
        simp only [List.length_cons] at hn
        obtain ⟨a, b, ha, hb, rfl⟩ := ih s'' t' (by omega) ht'
        refine ⟨UInt8.ofNat (hi * 16 + lo) :: a, b, ?_, hb, rfl⟩
        rw [unescape, hhi, hlo, ha]
        rfl
      · rw [List.cons_append, unescape_cons hc, Option.bind_eq_some_iff] at ht
        obtain ⟨x, hx, ht⟩ := ht
        obtain ⟨t', ht', rfl⟩ := Option.map_eq_some_iff.1 ht
        obtain ⟨a, b, ha, hb, rfl⟩ := ih s t' (by omega) ht'
        refine ⟨x :: a, b, ?_, hb, rfl⟩
        rw [unescape_cons hc, hx, ha]
        rfl

/-- A path that decodes is decoded segment by segment. -/
theorem unescape_slashed_eq {texts : List Str} {t : Str}
    (h : unescape .path (slashed texts) = some t) :
    t = slashed (texts.map pathUnescape) := by
  induction texts generalizing t with
  | nil => exact (Option.some.inj h).symm
  | cons x texts ih =>
    have hrest : slashed texts = [] ∨ (slashed texts).head? = some 47 := by
      cases texts with
      | nil => exact .inl rfl
      | cons y texts => exact .inr rfl
    rw [slashed_cons, unescape_cons (by decide), unescapeByte_path, Option.bind_some] at h
    obtain ⟨t', ht', rfl⟩ := Option.map_eq_some_iff.1 h
    obtain ⟨a, b, ha, hb, rfl⟩ := unescape_append_slash hrest ht'
    rw [List.map_cons, slashed_cons, ← ih hb, pathUnescape, unescape_pathSegment, ha]
    rfl

/-- The decoded path of a request is its segments behind slashes. -/
theorem URL.Accepted.path_eq {u : URL} (h : u.Accepted) :
    u.path = slashed (pathSegments u.escapedPath) := by
  obtain ⟨rest, hrest⟩ := List.head?_eq_some_iff.1 h.head_escapedPath
  have hdecode := h.unescape_escapedPath
  rw [hrest, ← slashed_split] at hdecode
  rw [unescape_slashed_eq hdecode, hrest]
  rfl

end VirePortal.Go
