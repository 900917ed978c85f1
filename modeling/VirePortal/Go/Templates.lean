import VirePortal.Go.Paths

/-!
# URLs with a string put in as it is

A program that builds a URL by formatting puts a string between fixed parts without encoding it. The
string is one segment of the path (`PathTemplate`), or the value of the query (`QueryTemplate`). The
theorems here say for which strings the URL is refused by `Parse` and for which ones it names what
was meant: exactly those with nothing that the parser reads as something else.

That only such strings do is proved by counting bytes. What the server decodes is at most as long as
what it was sent (`URL.resource_weight`, `unescape_length`), so when the string arrives as a whole
nothing of it was cut off, split or decoded.
-/

namespace VirePortal.Go

/-- A string that is one segment of a path as it stands. -/
def OneSegment (s : Str) : Prop := Proper s ∧ 35 ∉ s ∧ 37 ∉ s ∧ 47 ∉ s ∧ 63 ∉ s

/-- A string that is one value of a query as it stands. -/
def OneValue (s : Str) : Prop := 35 ∉ s ∧ 37 ∉ s ∧ 38 ∉ s ∧ 43 ∉ s ∧ 59 ∉ s

/-- A fixed segment of a path. -/
def PlainSegment (x : Str) : Prop := OneSegment x ∧ containsCTL x = false

/-- No segments are plain. -/
theorem plainSegment_nil : ∀ x ∈ ([] : List Str), PlainSegment x := by simp

instance : DecidablePred OneSegment := fun s => by
  unfold OneSegment Proper
  infer_instance

instance : DecidablePred OneValue := fun s => by
  unfold OneValue
  infer_instance

instance : DecidablePred PlainSegment := fun s => by
  unfold PlainSegment
  infer_instance

/-- A path of the given segments. -/
def slashed (segments : List Str) : Str := segments.flatMap (47 :: ·)

/-- The segment between `before` and `after`, when the segments are of this form. -/
def between (before after segments : List Str) : Option Str :=
  match segments.drop before.length with
  | k :: rest => if segments.take before.length = before ∧ rest = after then some k else none
  | [] => none

/-- The path of what follows an origin. -/
def pathPart (s : Str) : Str := (cut 63 (cut 35 s).1).1

/-- Whether a string goes on with two hexadecimal digits. -/
def startsHex : Str → Bool
  | h :: l :: _ => (unhex h).isSome && (unhex l).isSome
  | _ => false

/-- Whether a string has a percent sign without two hexadecimal digits after it. -/
def badEscape : Str → Bool
  | [] => false
  | c :: s => (c = 37 && !startsHex s) || badEscape s

/-- `Parse` refuses what follows an origin: it has a control byte in front of the fragment, or a
malformed escape in the path or in the fragment. -/
def Refused (s : Str) : Prop :=
  containsCTL (cut 35 s).1 = true ∨ badEscape (pathPart s) = true ∨
    badEscape ((cut 35 s).2.getD []) = true

/-! ### Malformed escapes -/

variable {s : Str} {segments : List Str}

/-- Bytes without a percent sign have no malformed escape. -/
theorem badEscape_of_not_mem (h : 37 ∉ s) : badEscape s = false := by
  induction s with
  | nil => rfl
  | cons c s ih =>
    simp only [List.mem_cons, not_or] at h
    simp [badEscape, Ne.symm h.1, ih h.2]

/-- A bad escape behind a plain part. -/
theorem badEscape_append_left {p : Str} (hp : 37 ∉ p) (s : Str) :
    badEscape (p ++ s) = badEscape s := by
  induction p with
  | nil => rfl
  | cons c p ih =>
    simp only [List.mem_cons, not_or] at hp
    simp [badEscape, Ne.symm hp.1, ih hp.2]

/-- A slash completes no escape. -/
theorem startsHex_append_slash (s r : Str) : startsHex (s ++ 47 :: r) = startsHex s := by
  have hslash : unhex 47 = none := by decide
  rcases s with _ | ⟨h, _ | ⟨l, s⟩⟩
  · cases r <;> simp [startsHex, hslash]
  · simp [startsHex, hslash]
  · rfl

/-- A bad escape before a plain part. -/
theorem badEscape_append_slash (s : Str) {r : Str} (hr : 37 ∉ r) :
    badEscape (s ++ 47 :: r) = badEscape s := by
  induction s with
  | nil =>
    have hslash : 37 ∉ 47 :: r := by simp [hr]
    exact badEscape_of_not_mem hslash
  | cons c s ih =>
    rw [List.cons_append, badEscape, badEscape, startsHex_append_slash, ih]

/-- A hexadecimal digit is no percent sign. -/
theorem unhex_percent {h : UInt8} {hi : ℕ} (hhi : unhex h = some hi) : h ≠ 37 := by
  rintro rfl
  rw [show unhex 37 = none by decide] at hhi
  cases hhi

/-- The decoder of a path or a fragment fails at a malformed escape, and only there. -/
theorem unescape_eq_none_iff {mode : Encoding} (hmode : mode = .path ∨ mode = .fragment) (s : Str) :
    unescape mode s = none ↔ badEscape s = true := by
  have hallowed : ∀ hi lo, escapeAllowed mode hi lo = true := by
    rcases hmode with rfl | rfl <;> exact fun _ _ => rfl
  have hbyte : ∀ c, unescapeByte mode c = some c := by
    rcases hmode with rfl | rfl <;> simp [unescapeByte]
  -- An escape takes three bytes, so the induction is on the length.
  suffices h : ∀ n (s : Str), s.length ≤ n → (unescape mode s = none ↔ badEscape s = true) from
    h s.length s le_rfl
  intro n
  induction n with
  | zero =>
    intro s hn
    obtain rfl := List.eq_nil_of_length_eq_zero (Nat.le_zero.1 hn)
    simp [unescape, badEscape]
  | succ n ih =>
    intro s hn
    cases s with
    | nil => simp [unescape, badEscape]
    | cons c s =>
      simp only [List.length_cons] at hn
      by_cases hc : c = 37
      · subst hc
        by_cases hhex : startsHex s = true
        · -- A well formed escape: its digits are no percent signs.
          rcases s with _ | ⟨h', _ | ⟨l', s⟩⟩
          · cases hhex
          · cases hhex
          · simp only [startsHex, Bool.and_eq_true, Option.isSome_iff_exists] at hhex
            obtain ⟨⟨hi, hhi⟩, lo, hlo⟩ := hhex
            simp only [List.length_cons] at hn
            have hbad : badEscape (37 :: h' :: l' :: s) = badEscape s := by
              simp [badEscape, startsHex, hhi, hlo, unhex_percent hhi, unhex_percent hlo]
            rw [hbad, ← ih s (by omega), unescape, hhi, hlo]
            cases unescape mode s <;> simp [hallowed]
        · have hbad : badEscape (37 :: s) = true := by simp [badEscape, hhex]
          rw [hbad]
          simp only [iff_true]
          cases hdecode : unescape mode (37 :: s) with
          | none => rfl
          | some t =>
            obtain ⟨h', l', hi, lo, s', t', rfl, hhi, hlo, -, -⟩ := unescape_percent hdecode
            simp [startsHex, hhi, hlo] at hhex
      · have hbad : badEscape (c :: s) = badEscape s := by simp [badEscape, hc]
        rw [hbad, ← ih s (by omega), unescape_cons hc, hbyte]
        simp

/-! ### Paths of plain segments -/

/-- The first segment and the rest. -/
theorem slashed_cons (x : Str) (segments : List Str) :
    slashed (x :: segments) = 47 :: (x ++ slashed segments) :=
  rfl

/-- A path begins with a slash. -/
theorem head?_slashed (h : segments ≠ []) : (slashed segments).head? = some 47 := by
  obtain ⟨x, rest, rfl⟩ := List.exists_cons_of_ne_nil h
  rfl

/-- A byte of no segment. -/
theorem not_mem_slashed {c : UInt8} (hslash : c ≠ 47) (h : ∀ x ∈ segments, c ∉ x) :
    c ∉ slashed segments := by
  unfold slashed
  rw [List.mem_flatMap]
  rintro ⟨x, hx, hc⟩
  rcases List.mem_cons.1 hc with rfl | hc
  · exact hslash rfl
  · exact h x hx hc

/-- No segment has a control byte. -/
theorem containsCTL_slashed (h : ∀ x ∈ segments, containsCTL x = false) :
    containsCTL (slashed segments) = false := by
  unfold containsCTL at h ⊢
  rw [List.any_eq_false]
  intro c hc
  rw [slashed, List.mem_flatMap] at hc
  obtain ⟨x, hx, hc⟩ := hc
  rcases List.mem_cons.1 hc with rfl | hc
  · decide
  · exact List.any_eq_false.1 (h x hx) c hc

/-- The weight of two parts. -/
theorem weight_append (s t : Str) : weight (s ++ t) = weight s + weight t := by
  simp [weight]

/-- A slash has no weight. -/
theorem weight_cons_slash (s : Str) : weight (47 :: s) = weight s := by
  simp [weight]

/-- The weight is at most the length. -/
theorem weight_le (s : Str) : weight s ≤ s.length := List.length_filter_le _ s

/-- A string weighs its length exactly when it has no slash. -/
theorem weight_eq_length_iff (s : Str) : weight s = s.length ↔ 47 ∉ s := by
  unfold weight
  rw [List.length_filter_eq_length_iff]
  simp only [ne_eq, decide_eq_true_eq]
  constructor
  · exact fun h hmem => h 47 hmem rfl
  · rintro h c hc rfl
    exact h hc

/-- The weight is the total of the segments. -/
theorem weight_slashed (h : ∀ x ∈ segments, 47 ∉ x) :
    weight (slashed segments) = total segments := by
  induction segments with
  | nil => rfl
  | cons x segments ih =>
    rw [slashed_cons, weight_cons_slash, weight_append,
      (weight_eq_length_iff x).2 (h x (.head _)),
      ih fun y hy => h y (.tail _ hy)]
    rfl

/-- The segments are found again. -/
theorem split_slashed_self (h : ∀ x ∈ segments, 47 ∉ x) :
    split 47 (slashed segments) = [] :: segments := by
  induction segments with
  | nil => rfl
  | cons x segments ih =>
    have hrest := ih fun y hy => h y (.tail _ hy)
    rw [slashed_cons, split_cons_self, split_append (h x (.head _)) hrest,
      List.append_nil]

/-- Cleaning keeps proper segments. -/
theorem cleanSegments_proper (h : ∀ x ∈ segments, Proper x) :
    cleanSegments ([] :: segments) = segments := by
  rw [cleanSegments, List.foldl_cons, show cleanStep [] [] = [] from rfl, foldl_cleanStep_proper h]
  simp

/-- A segment that is not proper does not stay between proper ones. -/
theorem cleanSegments_between {before after : List Str} (hbefore : ∀ x ∈ before, Proper x)
    (hafter : ∀ x ∈ after, Proper x)
    (h : cleanSegments ([] :: (before ++ s :: after)) = before ++ s :: after) : Proper s := by
  by_contra hs
  have hfold : cleanSegments ([] :: (before ++ s :: after)) =
      (after.reverse ++ cleanStep before.reverse s).reverse := by
    rw [cleanSegments, List.foldl_cons, show cleanStep [] [] = [] from rfl, List.foldl_append,
      foldl_cleanStep_proper hbefore, List.foldl_cons, foldl_cleanStep_proper hafter,
        List.append_nil]
  have hstep : (cleanStep before.reverse s).length ≤ before.length := by
    unfold cleanStep
    unfold Proper at hs
    split_ifs with hempty hdots
    · simp
    · simp
    · exact absurd ⟨fun h => hempty (.inl h), fun h => hempty (.inr h), hdots⟩ hs
  have hlength := congrArg List.length (hfold.symm.trans h)
  simp only [List.length_reverse, List.length_append, List.length_cons] at hlength
  omega

/-- What stands between. -/
theorem between_eq_some {before after : List Str} {k : Str} :
    between before after segments = some k ↔ segments = before ++ k :: after := by
  unfold between
  constructor
  · intro h
    have hsplit := List.take_append_drop before.length segments
    rcases hdrop : segments.drop before.length with _ | ⟨k', rest⟩
    · rw [hdrop] at h
      cases h
    · rw [hdrop] at h hsplit
      dsimp only at h
      split_ifs at h with hform
      cases h
      rw [hform.1, hform.2] at hsplit
      exact hsplit.symm
  · rintro rfl
    simp

/-! ### The parts of what follows an origin -/

/-- The part before the `?`. -/
theorem splitQuery_fst (s : Str) : (splitQuery s).1 = (cut 63 s).1 := by
  unfold splitQuery
  rcases cut 63 s with ⟨before, _ | _ | ⟨c, query⟩⟩ <;> rfl

/-- A text without marks is a path. -/
theorem pathPart_of_not_mem (hhash : 35 ∉ s) (hmark : 63 ∉ s) : pathPart s = s := by
  rw [pathPart, cut_of_not_mem hhash, cut_of_not_mem hmark]

/-- The path behind a part without marks. -/
theorem pathPart_append_left {p : Str} (hhash : 35 ∉ p) (hmark : 63 ∉ p) (s : Str) :
    pathPart (p ++ s) = p ++ pathPart s := by
  rw [pathPart, cut_append hhash, cut_append hmark]
  rfl

/-- The path ends inside a string with a separator. -/
theorem pathPart_append_of_mem (h : 35 ∈ s ∨ 63 ∈ s) (t : Str) :
    pathPart (s ++ t) = pathPart s ∧ (pathPart s).length < s.length := by
  unfold pathPart
  by_cases hhash : 35 ∈ s
  · rw [cut_append_of_mem hhash]
    refine ⟨rfl, lt_of_le_of_lt ?_ (cut_fst_length hhash)⟩
    exact (cut_fst_spec 63 _).2.length_le
  · have hmark : 63 ∈ s := h.resolve_left hhash
    rw [cut_append hhash, cut_append_of_mem hmark, cut_of_not_mem hhash]
    exact ⟨rfl, cut_fst_length hmark⟩

/-- Plain bytes in front do not change whether the rest is refused. -/
theorem refused_append_left {p : Str} (hhash : 35 ∉ p) (hmark : 63 ∉ p) (hpercent : 37 ∉ p)
    (hctl : containsCTL p = false) (s : Str) : Refused (p ++ s) ↔ Refused s := by
  unfold Refused
  rw [pathPart_append_left hhash hmark, cut_append hhash, Origin.containsCTL_append, hctl,
    badEscape_append_left hpercent]
  rfl

/-- Nor do plain bytes after a slash behind it. -/
theorem refused_append_slash (s : Str) {r : Str} (hhash : 35 ∉ r) (hmark : 63 ∉ r)
    (hpercent : 37 ∉ r) (hctl : containsCTL r = false) : Refused (s ++ 47 :: r) ↔ Refused s := by
  have hctl' : containsCTL (s ++ 47 :: r) = containsCTL s := by
    rw [Origin.containsCTL_append, show containsCTL (47 :: r) = containsCTL r from rfl, hctl,
      Bool.or_false]
  unfold Refused
  by_cases hs : 35 ∈ s
  · -- The fragment starts inside of `s`, so the rest belongs to it.
    have hfragment : badEscape (((cut 35 s).2.map (· ++ 47 :: r)).getD []) =
        badEscape ((cut 35 s).2.getD []) := by
      cases (cut 35 s).2 with
      | none => rfl
      | some f => exact badEscape_append_slash f hpercent
    rw [(pathPart_append_of_mem (.inl hs) _).1, cut_append_of_mem hs, hfragment]
  · have hall : 35 ∉ s ++ 47 :: r := by simp [hs, hhash]
    have hpath : badEscape (pathPart (s ++ 47 :: r)) = badEscape (pathPart s) := by
      by_cases hs' : 63 ∈ s
      · rw [(pathPart_append_of_mem (.inr hs') _).1]
      · rw [pathPart_of_not_mem hall (by simp [hs', hmark]), pathPart_of_not_mem hs hs',
          badEscape_append_slash s hpercent]
    rw [hpath, cut_of_not_mem hall, cut_of_not_mem hs, hctl']

namespace Origin

/-- When `Parse` refuses a URL of the origin. -/
theorem url_eq_none_iff (o : Origin) (rest : Str) : o.url rest = none ↔ Refused rest := by
  have hfragment : ∀ u : URL, u.setFragment ((cut 35 rest).2.getD []) = none ↔
      badEscape ((cut 35 rest).2.getD []) = true := by
    intro u
    rw [← unescape_eq_none_iff (.inr rfl), URL.setFragment]
    cases unescape .fragment ((cut 35 rest).2.getD []) <;> simp
  have hpath : ∀ u : URL, u.setPath (pathPart rest) = none ↔ badEscape (pathPart rest) = true := by
    intro u
    rw [← unescape_eq_none_iff (.inl rfl), URL.setPath]
    cases unescape .path (pathPart rest) <;> simp
  unfold url Refused
  rw [splitQuery_fst, show (cut 63 (cut 35 rest).1).1 = pathPart rest from rfl]
  split_ifs with hctl
  · simp [hctl]
  · rw [← hpath (o.start (splitQuery (cut 35 rest).1).2)]
    rcases (o.start (splitQuery (cut 35 rest).1).2).setPath (pathPart rest) with _ | u
    · simp
    · rw [Option.bind_some, hfragment]
      simp [hctl]

/-- An accepted URL has its path and its query, and a fragment besides. -/
theorem url_eq_some {o : Origin} {rest : Str} {u : URL} (h : o.url rest = some u) :
    ∃ v : URL, (o.start (splitQuery (cut 35 rest).1).2).setPath (pathPart rest) = some v ∧
      v.rawQuery = (splitQuery (cut 35 rest).1).2.1 ∧
      ∃ f g, u = { v with frag := f, rawFragment := g } := by
  unfold url at h
  rw [splitQuery_fst, show (cut 63 (cut 35 rest).1).1 = pathPart rest from rfl] at h
  split_ifs at h
  obtain ⟨v, hv, hu⟩ := Option.bind_eq_some_iff.1 h
  refine ⟨v, hv, ?_, ?_⟩
  · obtain ⟨t, -, rfl⟩ := URL.setPath_eq_some hv
    rfl
  · rw [URL.setFragment] at hu
    simp only [Option.bind_eq_bind, Option.bind_eq_some_iff, Option.pure_def,
      Option.some.injEq] at hu
    obtain ⟨f, -, rfl⟩ := hu
    exact ⟨_, _, rfl⟩

end Origin

/-- A plain segment is not refused. -/
theorem PlainSegment.not_refused (h : PlainSegment s) : ¬ Refused s := by
  obtain ⟨⟨-, hhash, hpercent, -, hmark⟩, hctl⟩ := h
  rw [Refused, cut_of_not_mem hhash, pathPart_of_not_mem hhash hmark, badEscape_of_not_mem hpercent,
    hctl]
  simp [badEscape]

/-! ### A string as a segment of the path -/

/-- A URL of fixed segments around a string. -/
structure PathTemplate where
  origin : Origin
  before : List Str
  after : List Str
  before_plain : ∀ x ∈ before, PlainSegment x
  after_plain : ∀ x ∈ after, PlainSegment x

namespace PathTemplate

variable (t : PathTemplate)

/-- What the URL holds in front of the string, after the origin. -/
def lead : Str := slashed t.before ++ [47]

/-- The URL with the string put in. -/
def fill (s : Str) : Str := t.origin.string ++ (t.lead ++ (s ++ slashed t.after))

/-- The segment that a URL has at the place of the string. -/
def key (u : URL) : Option Str := u.resource.bind (between t.before t.after)

/-- The bytes that a plain segment does not have. -/
theorem not_mem_of_plain {segments : List Str} (h : ∀ x ∈ segments, PlainSegment x) :
    35 ∉ slashed segments ∧ 37 ∉ slashed segments ∧ 63 ∉ slashed segments ∧
      containsCTL (slashed segments) = false := by
  refine ⟨?_, ?_, ?_, ?_⟩
  · exact not_mem_slashed (by decide) fun x hx => (h x hx).1.2.1
  · exact not_mem_slashed (by decide) fun x hx => (h x hx).1.2.2.1
  · exact not_mem_slashed (by decide) fun x hx => (h x hx).1.2.2.2.2
  · exact containsCTL_slashed fun x hx => (h x hx).2

/-- What stands before is plain. -/
theorem lead_plain : 35 ∉ t.lead ∧ 37 ∉ t.lead ∧ 63 ∉ t.lead ∧ containsCTL t.lead = false := by
  obtain ⟨hhash, hpercent, hmark, hctl⟩ := not_mem_of_plain t.before_plain
  refine ⟨?_, ?_, ?_, ?_⟩
  · simp [lead, hhash]
  · simp [lead, hpercent]
  · simp [lead, hmark]
  · rw [lead, Origin.containsCTL_append, hctl]
    rfl

/-- The path begins with a slash. -/
theorem lead_head (s : Str) : (t.lead ++ s).head? = some 47 := by
  unfold lead
  cases t.before <;> rfl

/-- The URL is parsed at its origin. -/
theorem parse_fill (s : Str) :
    URL.parse (t.fill s) = t.origin.url (t.lead ++ (s ++ slashed t.after)) :=
  t.origin.parse_append (t.lead_head _)

/-- The fixed segments have no part in whether the URL is refused. -/
theorem parse_eq_none_iff (s : Str) : URL.parse (t.fill s) = none ↔ Refused s := by
  obtain ⟨hhash, hpercent, hmark, hctl⟩ := t.lead_plain
  rw [parse_fill, Origin.url_eq_none_iff, refused_append_left hhash hmark hpercent hctl]
  obtain ⟨hhash, hpercent, hmark, hctl⟩ := not_mem_of_plain t.after_plain
  cases hafter : t.after with
  | nil => rw [show slashed [] = [] from rfl, List.append_nil]
  | cons x after =>
    rw [hafter, slashed_cons] at hhash hpercent hmark hctl
    simp only [List.mem_cons, not_or] at hhash hpercent hmark
    exact refused_append_slash s hhash.2 hmark.2 hpercent.2 hctl

variable {s : Str}

/-- The segments of the path when the string is one of them. -/
theorem split_lead (hs : 47 ∉ s) :
    split 47 (t.lead ++ (s ++ slashed t.after)) = [] :: (t.before ++ s :: t.after) := by
  have hpath : t.lead ++ (s ++ slashed t.after) = slashed (t.before ++ s :: t.after) := by
    simp [lead, slashed]
  rw [hpath]
  refine split_slashed_self fun x hx => ?_
  rcases List.mem_append.1 hx with hx | hx
  · exact (t.before_plain x hx).1.2.2.2.1
  · rcases List.mem_cons.1 hx with rfl | hx
    · exact hs
    · exact (t.after_plain x hx).1.2.2.2.1

/-- The path when the string does not end it. -/
theorem pathPart_fill (hhash : 35 ∉ s) (hmark : 63 ∉ s) :
    pathPart (t.lead ++ (s ++ slashed t.after)) = t.lead ++ (s ++ slashed t.after) := by
  obtain ⟨hlead, -, hlead', -⟩ := t.lead_plain
  obtain ⟨hafter, -, hafter', -⟩ := not_mem_of_plain t.after_plain
  refine pathPart_of_not_mem ?_ ?_
  · simp [hlead, hhash, hafter]
  · simp [hlead', hmark, hafter']

/-- No escape comes in. -/
theorem percent_fill (hs : 37 ∉ s) : 37 ∉ t.lead ++ (s ++ slashed t.after) := by
  obtain ⟨-, hlead, -, -⟩ := t.lead_plain
  obtain ⟨-, hafter, -, -⟩ := not_mem_of_plain t.after_plain
  simp [hlead, hs, hafter]

/-- The resource of the URL when the string is one segment of the path without escapes. -/
theorem resource_fill {u : URL} (hu : URL.parse (t.fill s) = some u) (hhash : 35 ∉ s)
    (hmark : 63 ∉ s) (hslash : 47 ∉ s) (hpercent : 37 ∉ s) :
    u.resource = some (cleanSegments ([] :: (t.before ++ s :: t.after))) := by
  rw [parse_fill] at hu
  obtain ⟨v, hv, -, f, g, rfl⟩ := Origin.url_eq_some hu
  rw [t.pathPart_fill hhash hmark] at hv
  show v.resource = _
  rw [URL.resource_plain hv (t.lead_head _) (t.percent_fill hpercent), t.split_lead hslash]

/-- One segment names the key. -/
theorem key_of_oneSegment {u : URL} (hu : URL.parse (t.fill s) = some u) (hs : OneSegment s) :
    t.key u = some s := by
  obtain ⟨hproper, hhash, hpercent, hslash, hmark⟩ := hs
  rw [key, t.resource_fill hu hhash hmark hslash hpercent, Option.bind_some, between_eq_some]
  refine cleanSegments_proper fun x hx => ?_
  rcases List.mem_append.1 hx with hx | hx
  · exact (t.before_plain x hx).1.1
  · rcases List.mem_cons.1 hx with rfl | hx
    · exact hproper
    · exact (t.after_plain x hx).1.1

/-- The weight of what stands before. -/
theorem weight_lead : weight t.lead = total t.before := by
  rw [lead, weight_append, weight_slashed fun x hx => (t.before_plain x hx).1.2.2.2.1]
  rfl

/-- A key is named by one segment. -/
theorem oneSegment_of_key {u : URL} (hu : URL.parse (t.fill s) = some u) (hkey : t.key u = some s) :
    OneSegment s := by
  rw [key, Option.bind_eq_some_iff] at hkey
  obtain ⟨segments, hsegments, hbetween⟩ := hkey
  rw [between_eq_some] at hbetween
  subst hbetween
  obtain ⟨v, hv, -, f, g, rfl⟩ := Origin.url_eq_some ((t.parse_fill s).symm.trans hu)
  have hsame : v.resource = some (t.before ++ s :: t.after) := hsegments
  -- The path has at least the bytes of the fixed segments and of the string.
  have htotal : total (t.before ++ s :: t.after) = total t.before + (s.length + total t.after) := by
    simp [total]
  obtain ⟨hlead, hlead', hlead'', -⟩ := t.lead_plain
  have hhead : (pathPart (t.lead ++ (s ++ slashed t.after))).head? = some 47 := by
    rw [pathPart_append_left hlead hlead'']
    exact t.lead_head _
  obtain ⟨hle, heq⟩ := URL.resource_weight hv hhead hsame
  rw [htotal] at hle heq
  -- So no separator ends the path inside of the string.
  have hnot : ¬ (35 ∈ s ∨ 63 ∈ s) := by
    intro hmem
    obtain ⟨hpath, hlt⟩ := pathPart_append_of_mem hmem (slashed t.after)
    rw [pathPart_append_left hlead hlead'', hpath, weight_append, weight_lead] at hle
    have hweight := weight_le (pathPart s)
    omega
  obtain ⟨hhash, hmark⟩ := not_or.1 hnot
  have hweight : weight (t.lead ++ (s ++ slashed t.after)) =
      total t.before + (weight s + total t.after) := by
    rw [weight_append, weight_append, weight_lead,
      weight_slashed fun x hx => (t.after_plain x hx).1.2.2.2.1]
  rw [t.pathPart_fill hhash hmark, hweight] at hle heq
  have hlength : weight s = s.length := by
    have hweight := weight_le s
    omega
  have hslash : 47 ∉ s := (weight_eq_length_iff s).1 hlength
  have hpercent : 37 ∉ s := by
    have hnone := heq (by omega)
    simp only [List.mem_append, not_or] at hnone
    exact hnone.2.1
  -- With nothing to decode, what is left to exclude are segments of dots and empty ones.
  have hclean := t.resource_fill hu hhash hmark hslash hpercent
  rw [hsegments, Option.some.injEq] at hclean
  have hproper := cleanSegments_between (fun x hx => (t.before_plain x hx).1.1)
    (fun x hx => (t.after_plain x hx).1.1) hclean.symm
  exact ⟨hproper, hhash, hpercent, hslash, hmark⟩

/-- The URL is refused or names the string as a segment exactly when the string is malformed or is
one segment as it stands. -/
theorem addressed_iff (s : Str) :
    URL.parse (t.fill s) = none ∨ (URL.parse (t.fill s)).bind t.key = some s ↔
      Refused s ∨ OneSegment s := by
  rw [parse_eq_none_iff]
  refine or_congr_right' fun hrefused => ?_
  rw [← t.parse_eq_none_iff s] at hrefused
  obtain ⟨u, hu⟩ := Option.ne_none_iff_exists'.1 hrefused
  rw [hu, Option.bind_some]
  exact ⟨t.oneSegment_of_key hu, t.key_of_oneSegment hu⟩

end PathTemplate

/-! ### A string as the value of a query -/

/-- The first piece of a split is shorter than the string when there are others, and the others are
shorter too. -/
theorem split_lengths {sep : UInt8} {first : Str} {rest : List Str}
    (h : split sep s = first :: rest) :
    (∀ piece ∈ rest, piece.length < s.length) ∧ (first.length < s.length ∨ sep ∉ s) := by
  induction s generalizing first rest with
  | nil =>
    obtain ⟨rfl, rfl⟩ := List.cons.inj h
    simp
  | cons b s ih =>
    obtain ⟨first', rest', hs⟩ := List.exists_cons_of_ne_nil (split_ne_nil sep s)
    obtain ⟨hrest, hfirst⟩ := ih hs
    rw [split, hs] at h
    -- A separator ends the first piece; any other byte makes it longer.
    split_ifs at h with hb
    · obtain ⟨rfl, rfl⟩ := List.cons.inj h
      refine ⟨fun piece hpiece => ?_, .inl (Nat.succ_pos _)⟩
      rcases List.mem_cons.1 hpiece with rfl | hpiece
      · rcases hfirst with hlt | hnot
        · exact Nat.lt_succ_of_lt hlt
        · obtain ⟨rfl, -⟩ := List.cons.inj ((split_of_not_mem hnot).symm.trans hs)
          exact Nat.lt_succ_self _
      · exact Nat.lt_succ_of_lt (hrest piece hpiece)
    · obtain ⟨rfl, rfl⟩ := List.cons.inj h
      refine ⟨fun piece hpiece => Nat.lt_succ_of_lt (hrest piece hpiece), ?_⟩
      rcases hfirst with hlt | hnot
      · exact .inl (Nat.succ_lt_succ hlt)
      · exact .inr (by simp [Ne.symm hb, hnot])

/-- A query component without a percent sign and without a plus sign is what it decodes to. -/
theorem unescape_queryComponent_of_not_mem (hpercent : 37 ∉ s) (hplus : 43 ∉ s) :
    unescape .queryComponent s = some s := by
  induction s with
  | nil => rfl
  | cons c s ih =>
    simp only [List.mem_cons, not_or] at hpercent hplus
    have hbyte : unescapeByte .queryComponent c = some c := by
      simp [unescapeByte, Ne.symm hplus.1]
    rw [unescape_cons (Ne.symm hpercent.1), hbyte, ih hpercent.2 hplus.2]
    rfl

/-- A query component without a percent sign that decodes to itself has no plus sign. -/
theorem not_mem_plus_of_unescape (hpercent : 37 ∉ s) (h : unescape .queryComponent s = some s) :
    43 ∉ s := by
  induction s with
  | nil => simp
  | cons c s ih =>
    simp only [List.mem_cons, not_or] at hpercent ⊢
    rw [unescape_cons (Ne.symm hpercent.1), Option.bind_eq_some_iff] at h
    obtain ⟨b, hb, h⟩ := h
    rw [Option.map_eq_some_iff] at h
    obtain ⟨t, ht, hcons⟩ := h
    obtain ⟨rfl, rfl⟩ := List.cons.inj hcons
    refine ⟨?_, ih hpercent.2 ht⟩
    rintro rfl
    exact absurd hb (by decide)

namespace Values

/-- `P` holds of all values. -/
def All (P : Str → Prop) (v : Values) : Prop := ∀ e ∈ v, ∀ value ∈ e.2, P value

/-- `Add` of a value with the property. -/
theorem All.add {P : Str → Prop} {v : Values} (hv : v.All P) (key : Str) {value : Str}
    (hvalue : P value) : (v.add key value).All P := by
  induction v with
  | nil =>
    intro e he x hx
    obtain rfl := List.mem_singleton.1 he
    obtain rfl := List.mem_singleton.1 hx
    exact hvalue
  | cons e v ih =>
    have htail : Values.All P v := fun e he => hv e (.tail _ he)
    have hhead := hv e (.head _)
    unfold Values.add
    split_ifs
    · intro e' he'
      rcases List.mem_cons.1 he' with rfl | he'
      · intro x hx
        rcases List.mem_append.1 hx with hx | hx
        · exact hhead x hx
        · exact List.mem_singleton.1 hx ▸ hvalue
      · exact htail e' he'
    · intro e' he'
      rcases List.mem_cons.1 he' with rfl | he'
      · exact hhead
      · exact ih htail e' he'

/-- `Get` returns nothing or such a value. -/
theorem All.get {P : Str → Prop} {v : Values} (hv : v.All P) (key : Str) :
    v.get key = [] ∨ P (v.get key) := by
  unfold Values.get
  split
  · rename_i value _ hfind
    exact .inr (hv _ (List.mem_of_find?_eq_some hfind) value (.head _))
  · exact .inl rfl

end Values

/-- Every value of a query was decoded from a piece of it without a semicolon. -/
theorem parseQuery_all (query : Str) :
    (parseQuery query).All fun value => ∃ piece ∈ split 38 query, 59 ∉ piece ∧
      unescape .queryComponent ((cut 61 piece).2.getD []) = some value := by
  refine List.foldlRecOn _ addPiece nofun fun v hv piece hpiece => ?_
  unfold addPiece
  split_ifs with hskip
  · exact hv
  · split
    · rename_i key value _ hvalue
      exact hv.add key ⟨piece, hpiece, fun h => hskip (.inr h), hvalue⟩
    · exact hv

/-- A URL of fixed segments, with a string as the value of its query. -/
structure QueryTemplate where
  origin : Origin
  path : List Str
  name : Str
  path_ne : path ≠ []
  path_plain : ∀ x ∈ path, PlainSegment x
  name_plain : OneValue name ∧ 61 ∉ name ∧ containsCTL name = false

namespace QueryTemplate

variable (t : QueryTemplate)

/-- What the URL holds in front of the string, after the path. -/
def lead : Str := 63 :: (t.name ++ [61])

/-- The URL with the string put in. -/
def fill (s : Str) : Str := t.origin.string ++ (slashed t.path ++ (t.lead ++ s))

/-- The value that a URL has at the place of the string. -/
def key (u : URL) : Option Str :=
  if u.resource = some t.path then some (u.query.get t.name) else none

/-- `Parse` refuses the URL: the string has a control byte in front of the fragment, or a malformed
escape in the fragment. -/
def Refused (s : Str) : Prop :=
  containsCTL (cut 35 s).1 = true ∨ badEscape ((cut 35 s).2.getD []) = true

/-- The URL is parsed at its origin. -/
theorem parse_fill (s : Str) :
    URL.parse (t.fill s) = t.origin.url (slashed t.path ++ (t.lead ++ s)) := by
  refine t.origin.parse_append ?_
  obtain ⟨x, path, hpath⟩ := List.exists_cons_of_ne_nil t.path_ne
  rw [hpath]
  rfl

/-- What stands before is plain. -/
theorem lead_plain : 35 ∉ t.lead ∧ containsCTL t.lead = false := by
  obtain ⟨⟨hhash, -⟩, -, hctl⟩ := t.name_plain
  refine ⟨by simp [lead, hhash], ?_⟩
  have hcons : containsCTL t.lead = containsCTL (t.name ++ [61]) := rfl
  rw [hcons, Origin.containsCTL_append, hctl]
  rfl

/-- What precedes the fragment of the URL, and the fragment. -/
theorem cut_fill (s : Str) : cut 35 (slashed t.path ++ (t.lead ++ s)) =
    (slashed t.path ++ (t.lead ++ (cut 35 s).1), (cut 35 s).2) := by
  rw [cut_append (PathTemplate.not_mem_of_plain t.path_plain).1, cut_append t.lead_plain.1]

/-- The path and the query of the URL. -/
theorem splitQuery_fill (s : Str) : splitQuery (slashed t.path ++ (t.lead ++ s)) =
    (slashed t.path, t.name ++ 61 :: s, false) := by
  have hlead : t.lead ++ s = 63 :: (t.name ++ 61 :: s) := by simp [lead]
  obtain ⟨c, query, hquery⟩ : ∃ c query, t.name ++ 61 :: s = c :: query := by
    cases t.name with
    | nil => exact ⟨_, _, rfl⟩
    | cons c name => exact ⟨_, _, rfl⟩
  rw [Origin.splitQuery_append (PathTemplate.not_mem_of_plain t.path_plain).2.2.1, hlead, hquery]
  simp [splitQuery, cut]

/-- The path ends before the query. -/
theorem pathPart_fill (s : Str) : pathPart (slashed t.path ++ (t.lead ++ s)) = slashed t.path := by
  rw [pathPart, cut_fill, ← splitQuery_fst, splitQuery_fill]

/-- The URLs that are refused. -/
theorem parse_eq_none_iff (s : Str) : URL.parse (t.fill s) = none ↔ Refused s := by
  obtain ⟨hhash, hpercent, hmark, hctl⟩ := PathTemplate.not_mem_of_plain t.path_plain
  rw [parse_fill, Origin.url_eq_none_iff, Go.Refused, pathPart_fill, cut_fill,
    Origin.containsCTL_append, Origin.containsCTL_append, hctl, t.lead_plain.2,
    badEscape_of_not_mem hpercent]
  simp [Refused]

/-- The key of an accepted URL is the value of its query. -/
theorem key_fill {s : Str} {u : URL} (hu : URL.parse (t.fill s) = some u) :
    t.key u = some ((parseQuery (t.name ++ 61 :: (cut 35 s).1)).get t.name) := by
  rw [parse_fill] at hu
  obtain ⟨v, hv, hquery, f, g, rfl⟩ := Origin.url_eq_some hu
  rw [t.pathPart_fill] at hv
  rw [t.cut_fill, t.splitQuery_fill] at hquery
  have hhead : (slashed t.path).head? = some 47 := by
    obtain ⟨x, path, hpath⟩ := List.exists_cons_of_ne_nil t.path_ne
    rw [hpath]
    rfl
  have hpath : v.resource = some t.path := by
    rw [URL.resource_plain hv hhead (PathTemplate.not_mem_of_plain t.path_plain).2.1,
      split_slashed_self fun x hx => (t.path_plain x hx).1.2.2.2.1,
      cleanSegments_proper fun x hx => (t.path_plain x hx).1.1]
  show (if v.resource = some t.path then some ((parseQuery v.rawQuery).get t.name) else none) = _
  rw [if_pos hpath, hquery]

/-- The query has one piece, with the string as its value, when the string has no separator. -/
theorem get_of_oneValue {s : Str} (hs : OneValue s) :
    (parseQuery (t.name ++ 61 :: s)).get t.name = s := by
  obtain ⟨-, hpercent, hamp, hplus, hsemi⟩ := hs
  obtain ⟨⟨-, hpercent', hamp', hplus', hsemi'⟩, heq, -⟩ := t.name_plain
  have hpiece : split 38 (t.name ++ 61 :: s) = [t.name ++ 61 :: s] :=
    split_of_not_mem (by simp [hamp, hamp'])
  have hcut : cut 61 (t.name ++ 61 :: s) = (t.name, some s) := by
    rw [cut_append heq]
    simp [cut]
  have hskip : ¬ (t.name ++ 61 :: s = [] ∨ 59 ∈ t.name ++ 61 :: s) := by simp [hsemi, hsemi']
  have hadd : addPiece [] (t.name ++ 61 :: s) = [(t.name, [s])] := by
    rw [addPiece, if_neg hskip, hcut, unescape_queryComponent_of_not_mem hpercent' hplus',
      Option.getD_some, unescape_queryComponent_of_not_mem hpercent hplus]
    rfl
  rw [parseQuery, hpiece, List.foldl_cons, List.foldl_nil, hadd]
  simp [Values.get]

/-- A value that is read back is one value. -/
theorem oneValue_of_get {s : Str} (h : (parseQuery (t.name ++ 61 :: (cut 35 s).1)).get t.name = s) :
    OneValue s := by
  obtain ⟨⟨-, -, hamp, -, -⟩, heq, -⟩ := t.name_plain
  rcases (parseQuery_all (t.name ++ 61 :: (cut 35 s).1)).get t.name with hnil | hpiece
  · rw [h] at hnil
    rw [hnil]
    simp [OneValue]
  · rw [h] at hpiece
    obtain ⟨piece, hpiece, hsemi, hvalue⟩ := hpiece
    have hle := (unescape_length hvalue).1
    have hfront := (cut_fst_spec 35 s).2.length_le
    obtain ⟨first, rest, hsplit⟩ := List.exists_cons_of_ne_nil (split_ne_nil 38 (cut 35 s).1)
    obtain ⟨hrest, hfirst⟩ := split_lengths hsplit
    have hlead : 38 ∉ t.name ++ [61] := by simp [hamp]
    have hall : split 38 (t.name ++ 61 :: (cut 35 s).1) = (t.name ++ [61] ++ first) :: rest := by
      rw [← split_append hlead hsplit]
      simp
    rw [hall] at hpiece
    rcases List.mem_cons.1 hpiece with rfl | hpiece
    · -- The piece of the name: the whole string is its value, undecoded.
      have hcut : cut 61 (t.name ++ [61] ++ first) = (t.name, some first) := by
        rw [List.append_assoc, cut_append heq]
        simp [cut]
      rw [hcut, Option.getD_some] at hvalue hle
      have hhash : 35 ∉ s := fun hmem => by
        have hlt := cut_fst_length hmem
        have hle' : first.length ≤ (cut 35 s).1.length := by
          rcases hfirst with hlt | hnot
          · exact hlt.le
          · obtain ⟨rfl, -⟩ := List.cons.inj ((split_of_not_mem hnot).symm.trans hsplit)
            exact le_rfl
        omega
      rw [cut_of_not_mem hhash] at hsplit hfirst hfront
      have hamp' : 38 ∉ s := by
        rcases hfirst with hlt | hnot
        · dsimp only at hlt
          omega
        · exact hnot
      obtain ⟨rfl, -⟩ := List.cons.inj ((split_of_not_mem hamp').symm.trans hsplit)
      have hpercent : 37 ∉ s := (unescape_length hvalue).2 rfl
      simp only [List.mem_append, not_or] at hsemi
      exact ⟨hhash, hpercent, hamp', not_mem_plus_of_unescape hpercent hvalue, hsemi.2⟩
    · -- Another piece is too short.
      have hlt := hrest piece hpiece
      have hle' : ((cut 61 piece).2.getD []).length ≤ piece.length := cut_snd_length 61 piece
      omega

/-- The URL is refused or names the string as the value exactly when the string is malformed or is
one value as it stands. -/
theorem addressed_iff (s : Str) :
    URL.parse (t.fill s) = none ∨ (URL.parse (t.fill s)).bind t.key = some s ↔
      Refused s ∨ OneValue s := by
  rw [parse_eq_none_iff]
  refine or_congr_right' fun hrefused => ?_
  rw [← t.parse_eq_none_iff s] at hrefused
  obtain ⟨u, hu⟩ := Option.ne_none_iff_exists'.1 hrefused
  rw [hu, Option.bind_some, t.key_fill hu, Option.some.injEq]
  constructor
  · exact t.oneValue_of_get
  · intro hs
    rw [cut_of_not_mem hs.1]
    exact t.get_of_oneValue hs

end QueryTemplate

end VirePortal.Go
