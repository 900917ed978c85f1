import VirePortal.Go.Strings

/-!
# The patterns of a request multiplexer

The patterns of `http.ServeMux` with a method and a path, where the path is matched as a whole or as
the start of a longer one. The multiplexer keeps them in a tree for each method and walks down the
segments of a path (`matchPath`), first in the tree of the method and last in that of the patterns
without one (`lookup`). It does not register a pattern that overlaps another one unless one of the
two is more specific (`conflict`).

Without conflicts the walk finds the most specific pattern that matches (`lookup_eq_some_iff`), so
the order of the registrations does not matter (`lookup_perm`). Segments and handlers are of any
type.
-/

namespace VirePortal.Go.ServeMux

variable {S H : Type}

/-- The method whose patterns match requests for HEAD too. -/
def methodGet : Str := "GET"

/-- `http.MethodHead`. -/
def methodHead : Str := "HEAD"

/-- A pattern. One for a subtree ends in a slash, or in a wildcard for the rest of a path. -/
structure Pattern (S : Type) where
  method : Option Str
  segments : List S
  subtree : Bool
  deriving DecidableEq

/-- The path is the segments, or goes on behind them in a subtree. -/
def Fits (segments : List S) (subtree : Bool) (path : List S) : Prop :=
  if subtree then ∃ s rest, path = segments ++ s :: rest else path = segments

section Fits

variable {path : List S} {subtree : Bool}

/-- The empty path. -/
theorem fits_nil {segments : List S} :
    Fits segments subtree [] ↔ segments = [] ∧ subtree = false := by
  cases subtree with
  | true => simp [Fits]
  | false => simp [Fits, eq_comm]

/-- A pattern begins the path that it fits. -/
theorem Fits.isPrefix {segments : List S} (h : Fits segments subtree path) : segments <+: path := by
  unfold Fits at h
  split_ifs at h
  · obtain ⟨s, rest, rfl⟩ := h
    exact List.prefix_append _ _
  · rw [h]

/-- The first segment and the rest. -/
theorem fits_cons_cons {s t : S} {ts : List S} :
    Fits (t :: ts) subtree (s :: path) ↔ t = s ∧ Fits ts subtree path := by
  cases subtree with
  | true =>
    simp only [Fits, if_true, List.cons_append, List.cons.injEq]
    constructor
    · rintro ⟨x, rest, rfl, hpath⟩
      exact ⟨rfl, x, rest, hpath⟩
    · rintro ⟨rfl, x, rest, hpath⟩
      exact ⟨x, rest, rfl, hpath⟩
  | false => simp [Fits, eq_comm]

/-- A pattern that has ended fits more if it is a subtree. -/
theorem fits_nil_cons {s : S} : Fits [] subtree (s :: path) ↔ subtree = true := by
  cases subtree with
  | true => simp [Fits]
  | false => simp [Fits]

end Fits

variable [DecidableEq S]

namespace Pattern

/-- The method of a request is one of the pattern. -/
def MatchesMethod (p : Pattern S) (method : Str) : Prop :=
  p.method = none ∨ p.method = some method ∨ p.method = some methodGet ∧ method = methodHead

/-- The pattern matches the request. -/
def Matches (p : Pattern S) (method : Str) (path : List S) : Prop :=
  p.MatchesMethod method ∧ Fits p.segments p.subtree path

/-- The methods of `p` are methods of `q`. -/
def withinMethod (p q : Pattern S) : Bool :=
  q.method = none || p.method = q.method || (p.method = some methodHead && q.method =
    some methodGet)

/-- The paths of `p` are paths of `q`. -/
def withinPath (p q : Pattern S) : Bool :=
  if q.subtree then q.segments.isPrefixOf p.segments && (p.subtree || p.segments ≠ q.segments)
  else !p.subtree && p.segments = q.segments

/-- The requests of `p` are requests of `q`. -/
def within (p q : Pattern S) : Bool := p.withinMethod q && p.withinPath q

/-- Some request is one of both patterns, and neither is more specific than the other. -/
def conflict (p q : Pattern S) : Bool :=
  (p.withinPath q || q.withinPath p) && (p.withinMethod q || q.withinMethod p) &&
    (p.within q == q.within p)

end Pattern

/-! ### The tree -/

/-- A node of the tree: the patterns below it, each with the segments that are left of it. -/
abbrev Node (S H : Type) := List (List S × Pattern S × H)

/-- The child of a node for a segment. -/
def child (s : S) (n : Node S H) : Node S H :=
  n.filterMap fun x => match x.1 with
    | t :: ts => if t = s then some (ts, x.2) else none
    | [] => none

/-- The pattern that ends at a node. -/
def leaf (subtree : Bool) (n : Node S H) : Option (Pattern S × H) :=
  (n.find? fun x => x.1 = [] ∧ x.2.1.subtree = subtree).map Prod.snd

/-- `matchPath`: the child for the next segment comes before the pattern for all that is below the
node. -/
def matchPath (n : Node S H) : List S → Option (Pattern S × H)
  | [] => leaf false n
  | s :: path => (matchPath (child s n) path).or (leaf true n)

/-- The tree of the patterns for a method, or of those without one. -/
def methodTree (table : List (Pattern S × H)) (method : Option Str) : Node S H :=
  (table.filter fun e => e.1.method = method).map fun e => (e.1.segments, e)

/-- `matchMethodAndPath`. -/
def lookup (table : List (Pattern S × H)) (method : Str) (path : List S) : Option (Pattern S × H) :=
  (matchPath (methodTree table (some method)) path).or
    ((if method = methodHead then matchPath (methodTree table (some methodGet)) path else none).or
      (matchPath (methodTree table none) path))

section Tree

variable {n : Node S H} {e : Pattern S × H} {path : List S}

/-- The patterns of a child. -/
theorem mem_child {s : S} {rest : List S} : (rest, e) ∈ child s n ↔ (s :: rest, e) ∈ n := by
  unfold child
  rw [List.mem_filterMap]
  constructor
  · rintro ⟨⟨segments, e'⟩, hmem, hx⟩
    cases segments with
    | nil => cases hx
    | cons t ts =>
      dsimp only at hx
      split_ifs at hx with hts
      obtain ⟨rfl, rfl⟩ := Prod.mk.inj (Option.some.inj hx)
      exact hts ▸ hmem
  · intro hmem
    exact ⟨_, hmem, by simp⟩

omit [DecidableEq S] in
/-- The pattern that is found ends here. -/
theorem leaf_eq_some {subtree : Bool} (h : leaf subtree n = some e) :
    ([], e) ∈ n ∧ e.1.subtree = subtree := by
  unfold leaf at h
  obtain ⟨⟨segments, e'⟩, hfind, rfl⟩ := Option.map_eq_some_iff.1 h
  have hx := List.find?_some hfind
  simp only [decide_eq_true_eq] at hx
  obtain ⟨rfl, hsub⟩ := hx
  exact ⟨List.mem_of_find?_eq_some hfind, hsub⟩

omit [DecidableEq S] in
/-- No pattern ends here. -/
theorem leaf_eq_none {subtree : Bool} (h : leaf subtree n = none) (he : ([], e) ∈ n) :
    e.1.subtree ≠ subtree := by
  unfold leaf at h
  rw [Option.map_eq_none_iff, List.find?_eq_none] at h
  intro hsub
  exact h _ he (by simp [hsub])

/-- The walk finds a pattern whenever one fits, and no pattern that fits goes deeper. -/
theorem matchPath_spec (n : Node S H) (path : List S) :
    (matchPath n path = none → ∀ x ∈ n, ¬ Fits x.1 x.2.1.subtree path) ∧
    ∀ e, matchPath n path = some e → ∃ rest, (rest, e) ∈ n ∧ Fits rest e.1.subtree path ∧
      ∀ x ∈ n, Fits x.1 x.2.1.subtree path → x.1 <+: rest := by
  induction path generalizing n with
  | nil =>
    constructor
    · rintro hnone ⟨segments, e⟩ hx hfits
      obtain ⟨rfl, hsub⟩ := fits_nil.1 hfits
      exact leaf_eq_none hnone hx hsub
    · intro e he
      obtain ⟨hmem, hsub⟩ := leaf_eq_some he
      refine ⟨[], hmem, fits_nil.2 ⟨rfl, hsub⟩, fun x _ hfits => ?_⟩
      rw [(fits_nil.1 hfits).1]
  | cons s path ih =>
    obtain ⟨ihnone, ihsome⟩ := ih (child s n)
    -- A pattern that fits goes on with the segment, or it ends here and is for a subtree.
    constructor
    · rintro hnone ⟨segments, e⟩ hx hfits
      obtain ⟨hchild, hleaf⟩ := Option.or_eq_none_iff.1 hnone
      cases segments with
      | nil => exact leaf_eq_none hleaf hx (fits_nil_cons.1 hfits)
      | cons t ts =>
        obtain ⟨rfl, hts⟩ := fits_cons_cons.1 hfits
        exact ihnone hchild (ts, e) (mem_child.2 hx) hts
    · intro e he
      rcases Option.or_eq_some_iff.1 he with hchild | ⟨hchild, hleaf⟩
      · -- The walk goes on below the segment when it finds something there.
        obtain ⟨rest, hmem, hfits, hdeepest⟩ := ihsome e hchild
        refine ⟨s :: rest, mem_child.1 hmem, fits_cons_cons.2 ⟨rfl, hfits⟩, ?_⟩
        rintro ⟨segments, e'⟩ hx hfits'
        cases segments with
        | nil => exact List.nil_prefix
        | cons t ts =>
          obtain ⟨rfl, hts⟩ := fits_cons_cons.1 hfits'
          exact List.cons_prefix_cons.2 ⟨rfl, hdeepest (ts, e') (mem_child.2 hx) hts⟩
      · obtain ⟨hmem, hsub⟩ := leaf_eq_some hleaf
        refine ⟨[], hmem, fits_nil_cons.2 hsub, ?_⟩
        rintro ⟨segments, e'⟩ hx hfits'
        cases segments with
        | nil => exact List.prefix_rfl
        | cons t ts =>
          obtain ⟨rfl, hts⟩ := fits_cons_cons.1 hfits'
          exact absurd hts (ihnone hchild (ts, e') (mem_child.2 hx))

end Tree

namespace Pattern

variable {p q : Pattern S} {method : Str} {path : List S}

/-- What is within a pattern is matched by it. -/
theorem Matches.within (h : p.Matches method path) (hpq : p.within q = true) :
    q.Matches method path := by
  obtain ⟨hmethod, hpath⟩ := Bool.and_eq_true_iff.1 hpq
  refine ⟨?_, ?_⟩
  · simp only [withinMethod, Bool.or_eq_true, Bool.and_eq_true, decide_eq_true_eq] at hmethod
    rcases hmethod with (hany | hsame) | ⟨hhead, hget⟩
    · exact .inl hany
    · unfold MatchesMethod
      rw [← hsame]
      exact h.1
    · rcases h.1 with hp | hp | ⟨hp, -⟩
      · rw [hhead] at hp
        cases hp
      · rw [hhead] at hp
        exact .inr (.inr ⟨hget, (Option.some.inj hp).symm⟩)
      · rw [hhead] at hp
        exact absurd (Option.some.inj hp) (by decide)
  · have hfits := h.2
    unfold withinPath at hpath
    split_ifs at hpath with hsub
    · rw [Bool.and_eq_true, List.isPrefixOf_iff_prefix] at hpath
      obtain ⟨⟨more, hmore⟩, hproper⟩ := hpath
      rw [hsub]
      -- The path goes on behind the segments of `p`, or `p` itself goes on behind those of `q`.
      cases hp : p.subtree with
      | true =>
        rw [hp] at hfits
        obtain ⟨s, rest, rfl⟩ := hfits
        rw [← hmore]
        cases more with
        | nil => exact ⟨s, rest, by simp⟩
        | cons t more => exact ⟨t, more ++ s :: rest, by simp⟩
      | false =>
        rw [hp] at hfits hproper
        obtain rfl : path = p.segments := hfits
        rw [← hmore] at hproper ⊢
        cases more with
        | nil => simp at hproper
        | cons t more => exact ⟨t, more, rfl⟩
    · simp only [Bool.and_eq_true, Bool.not_eq_true', decide_eq_true_eq] at hpath
      rw [Bool.not_eq_true] at hsub
      rw [hpath.1] at hfits
      rw [hsub, ← hpath.2]
      exact hfits

/-- Of two patterns that fit a path, the one that goes deeper is within the other. -/
theorem withinPath_of_deeper (hp : Fits p.segments p.subtree path)
    (hq : Fits q.segments q.subtree path) (hdeeper : q.segments <+: p.segments) :
    p.withinPath q = true := by
  unfold withinPath
  split_ifs with hsub
  · rw [Bool.and_eq_true, List.isPrefixOf_iff_prefix]
    refine ⟨hdeeper, ?_⟩
    rw [hsub] at hq
    obtain ⟨s, rest, rfl⟩ := hq
    cases hp' : p.subtree with
    | true => rfl
    | false =>
      rw [hp'] at hp
      have hne : p.segments ≠ q.segments := by
        rw [← (show q.segments ++ s :: rest = p.segments from hp)]
        simp
      simpa using hne
  · rw [Bool.not_eq_true] at hsub
    rw [hsub] at hq
    obtain rfl : path = q.segments := hq
    cases hp' : p.subtree with
    | true =>
      -- The path would be longer than the segments that it is behind.
      rw [hp'] at hp
      obtain ⟨s, rest, hpath⟩ := hp
      have hlength := hdeeper.length_le
      rw [hpath, List.length_append, List.length_cons] at hlength
      omega
    | false =>
      rw [hp'] at hp
      simp [(show q.segments = p.segments from hp)]

/-- Two patterns that fit the same path are within each other one way or the other. -/
theorem withinPath_or (hp : Fits p.segments p.subtree path) (hq : Fits q.segments q.subtree path) :
    p.withinPath q = true ∨ q.withinPath p = true := by
  rcases List.prefix_or_prefix_of_prefix hp.isPrefix hq.isPrefix with h | h
  · exact .inr (withinPath_of_deeper hq hp h)
  · exact .inl (withinPath_of_deeper hp hq h)

omit [DecidableEq S] in
/-- Methods within each other are equal. -/
theorem method_eq_of_within (hpq : p.withinMethod q = true) (hqp : q.withinMethod p = true) :
    p.method = q.method := by
  simp only [withinMethod, Bool.or_eq_true, Bool.and_eq_true, decide_eq_true_eq] at hpq hqp
  rcases hpq with (hq | hsame) | ⟨hhead, hget⟩
  · rcases hqp with (hp | hsame) | ⟨hhead, -⟩
    · rw [hp, hq]
    · exact hsame.symm
    · rw [hq] at hhead
      cases hhead
  · exact hsame
  · rcases hqp with (hp | hsame) | ⟨hhead', -⟩
    · rw [hp] at hhead
      cases hhead
    · exact hsame.symm
    · rw [hget] at hhead'
      exact absurd (Option.some.inj hhead') (by decide)

/-- A conflict is mutual. -/
theorem conflict_comm (p q : Pattern S) : p.conflict q = q.conflict p := by
  unfold conflict
  rw [Bool.or_comm, Bool.or_comm (p.withinMethod q), Bool.beq_comm]

end Pattern

/-! ### The lookup -/

section Lookup

variable {table table' : List (Pattern S × H)} {e : Pattern S × H} {method : Str} {path : List S}

omit [DecidableEq S] in
/-- The patterns of a method. -/
theorem mem_methodTree {m : Option Str} {segments : List S} :
    (segments, e) ∈ methodTree table m ↔ e ∈ table ∧ e.1.method = m ∧ e.1.segments = segments := by
  unfold methodTree
  rw [List.mem_map]
  constructor
  · rintro ⟨e', he', heq⟩
    obtain ⟨hmem, hmethod⟩ := List.mem_filter.1 he'
    obtain ⟨rfl, rfl⟩ := Prod.mk.inj heq
    exact ⟨hmem, by simpa using hmethod, rfl⟩
  · rintro ⟨hmem, hmethod, rfl⟩
    exact ⟨e, List.mem_filter.2 ⟨hmem, by simpa using hmethod⟩, rfl⟩

/-- In one of the trees, the walk finds the deepest of the patterns that fit. -/
theorem matchPath_methodTree {m : Option Str} (h : matchPath (methodTree table m) path = some e) :
    e ∈ table ∧ e.1.method = m ∧ Fits e.1.segments e.1.subtree path ∧
      ∀ e' ∈ table, e'.1.method = m → Fits e'.1.segments e'.1.subtree path →
        e.1.withinPath e'.1 = true := by
  obtain ⟨segments, hmem, hfits, hdeepest⟩ := (matchPath_spec _ path).2 e h
  obtain ⟨htable, hmethod, rfl⟩ := mem_methodTree.1 hmem
  refine ⟨htable, hmethod, hfits, fun e' he' hmethod' hfits' => ?_⟩
  exact Pattern.withinPath_of_deeper hfits hfits'
    (hdeepest (e'.1.segments, e') (mem_methodTree.2 ⟨he', hmethod', rfl⟩) hfits')

/-- The search of a method is complete. -/
theorem not_fits_of_matchPath {m : Option Str} (h : matchPath (methodTree table m) path = none)
    (he : e ∈ table) (hmethod : e.1.method = m) : ¬ Fits e.1.segments e.1.subtree path :=
  (matchPath_spec _ path).1 h (e.1.segments, e) (mem_methodTree.2 ⟨he, hmethod, rfl⟩)

/-- What the lookup finds matches. Its methods are within those of every pattern that matches, and
it is the deepest for its method. -/
theorem lookup_sound (h : lookup table method path = some e) :
    e ∈ table ∧ e.1.Matches method path ∧ ∀ e' ∈ table, e'.1.Matches method path →
      e.1.withinMethod e'.1 = true ∧ (e'.1.method = e.1.method → e.1.withinPath e'.1 = true) := by
  rcases Option.or_eq_some_iff.1 h with hown | ⟨hown, hrest⟩
  · obtain ⟨hmem, hmethod, hfits, hdeepest⟩ := matchPath_methodTree hown
    refine ⟨hmem, ⟨.inr (.inl hmethod), hfits⟩, ?_⟩
    rintro e' he' ⟨hmethod', hfits'⟩
    refine ⟨?_, fun hsame => hdeepest e' he' (hsame.trans hmethod) hfits'⟩
    rcases hmethod' with hany | hsame | ⟨hget, rfl⟩
    · simp [Pattern.withinMethod, hany]
    · simp [Pattern.withinMethod, hsame, hmethod]
    · simp [Pattern.withinMethod, hget, hmethod]
  rcases Option.or_eq_some_iff.1 hrest with hget | ⟨hget, hany⟩
  · -- A request for HEAD that has no pattern of its own.
    split_ifs at hget with hhead
    obtain ⟨hmem, hmethod, hfits, hdeepest⟩ := matchPath_methodTree hget
    refine ⟨hmem, ⟨.inr (.inr ⟨hmethod, hhead⟩), hfits⟩, ?_⟩
    rintro e' he' ⟨hmethod', hfits'⟩
    refine ⟨?_, fun hsame => hdeepest e' he' (hsame.trans hmethod) hfits'⟩
    rcases hmethod' with hany | hsame | ⟨hget', -⟩
    · simp [Pattern.withinMethod, hany]
    · exact absurd hfits' (not_fits_of_matchPath hown he' hsame)
    · simp [Pattern.withinMethod, hget', hmethod]
  · obtain ⟨hmem, hmethod, hfits, hdeepest⟩ := matchPath_methodTree hany
    refine ⟨hmem, ⟨.inl hmethod, hfits⟩, ?_⟩
    rintro e' he' ⟨hmethod', hfits'⟩
    refine ⟨?_, fun hsame => hdeepest e' he' (hsame.trans hmethod) hfits'⟩
    rcases hmethod' with hany' | hsame | ⟨hget', rfl⟩
    · simp [Pattern.withinMethod, hany']
    · exact absurd hfits' (not_fits_of_matchPath hown he' hsame)
    · rw [if_pos rfl] at hget
      exact absurd hfits' (not_fits_of_matchPath hget he' hget')

/-- The search is complete. -/
theorem not_matches_of_lookup (h : lookup table method path = none) (he : e ∈ table) :
    ¬ e.1.Matches method path := by
  rintro ⟨hmethod, hfits⟩
  obtain ⟨hown, hrest⟩ := Option.or_eq_none_iff.1 h
  obtain ⟨hget, hany⟩ := Option.or_eq_none_iff.1 hrest
  rcases hmethod with hmethod | hmethod | ⟨hmethod, rfl⟩
  · exact not_fits_of_matchPath hany he hmethod hfits
  · exact not_fits_of_matchPath hown he hmethod hfits
  · rw [if_pos rfl] at hget
    exact not_fits_of_matchPath hget he hmethod hfits

/-- The patterns can be registered: no two of them conflict. -/
def Registers (table : List (Pattern S × H)) : Prop :=
  table.Pairwise fun e e' => e.1.conflict e'.1 = false

/-- Registered patterns do not conflict. -/
theorem Registers.eq_of_conflict (h : Registers table) {e' : Pattern S × H} (he : e ∈ table)
    (he' : e' ∈ table) (hconflict : e.1.conflict e'.1 = true) : e = e' := by
  by_contra hne
  have hsymm : Std.Symm fun e e' : Pattern S × H => e.1.conflict e'.1 = false :=
    ⟨fun x y hxy => (Pattern.conflict_comm _ _).trans hxy⟩
  rw [List.Pairwise.forall h he he' hne] at hconflict
  cases hconflict

/-- Without conflicts the lookup finds the most specific pattern that matches. -/
theorem lookup_eq_some_iff (h : Registers table) : lookup table method path = some e ↔
    e ∈ table ∧ e.1.Matches method path ∧ ∀ e' ∈ table, e'.1.Matches method path →
      e.1.within e'.1 = true := by
  have hspecific : ∀ {e}, lookup table method path = some e →
      e ∈ table ∧ e.1.Matches method path ∧ ∀ e' ∈ table, e'.1.Matches method path →
        e.1.within e'.1 = true := by
    intro e hfound
    obtain ⟨hmem, hmatches, hbest⟩ := lookup_sound hfound
    refine ⟨hmem, hmatches, fun e' he' hmatches' => ?_⟩
    obtain ⟨hmethod, hdeepest⟩ := hbest e' he' hmatches'
    by_contra hnot
    have hpath := Pattern.withinPath_or hmatches.2 hmatches'.2
    -- The two overlap, so the other one is the more specific one. Then it has the same methods.
    have hother : e'.1.within e.1 = true := by
      by_contra hnot'
      have hconflict : e.1.conflict e'.1 = true := by
        simp [Pattern.conflict, hmethod, hpath, Bool.eq_false_of_not_eq_true hnot,
          Bool.eq_false_of_not_eq_true hnot']
      obtain rfl := h.eq_of_conflict hmem he' hconflict
      rcases hpath with hpath | hpath
      all_goals exact hnot (by simp [Pattern.within, hmethod, hpath])
    have hmethod' := (Bool.and_eq_true_iff.1 hother).1
    exact hnot
      (by simp [Pattern.within, hmethod, hdeepest (Pattern.method_eq_of_within hmethod' hmethod)])
  refine ⟨hspecific, ?_⟩
  rintro ⟨hmem, hmatches, hwithin⟩
  cases hfound : lookup table method path with
  | none => exact absurd hmatches (not_matches_of_lookup hfound hmem)
  | some e' =>
    obtain ⟨hmem', hmatches', hwithin'⟩ := hspecific hfound
    have hle := hwithin e' hmem' hmatches'
    have hge := hwithin' e hmem hmatches
    obtain ⟨hmethod, hpath⟩ := Bool.and_eq_true_iff.1 hle
    have hconflict : e.1.conflict e'.1 = true :=
      by simp [Pattern.conflict, hmethod, hpath, hle, hge]
    rw [h.eq_of_conflict hmem hmem' hconflict]

/-- The order of registration does not matter. -/
theorem Registers.perm (h : Registers table) (hperm : table.Perm table') : Registers table' :=
  List.Pairwise.perm h hperm fun hxy => (Pattern.conflict_comm _ _).trans hxy

/-- The order of the registrations does not matter. -/
theorem lookup_perm (h : Registers table) (hperm : table.Perm table') :
    lookup table' method path = lookup table method path := by
  have h' : Registers table' := h.perm hperm
  refine Option.ext fun e => ?_
  rw [lookup_eq_some_iff h, lookup_eq_some_iff h']
  simp only [hperm.mem_iff]

end Lookup

end VirePortal.Go.ServeMux
