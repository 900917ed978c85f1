import VirePortal.Go.Segments

/-!
# Queries that are written and read back

`Values.Encode` writes the pairs of a key and a value in the order of the keys, and `ParseQuery`
collects the pairs that it reads under their keys. A component is read back since the encoder
escapes all bytes that the parser treats in a special way (`unescape_queryEscape`,
`not_mem_queryEscape`), and so is every pair (`parseQuery_encode`). The order of the keys is not
that of the values which were encoded, so these are compared key by key: each key has its values
again (`values_parseQuery_encode`), as long as the keys are distinct, which they are in values that
were parsed or set.
-/

namespace VirePortal.Go

/-! ### One component -/

/-- The three forms of a byte in a query component. -/
theorem escapeByte_queryComponent (c : UInt8) :
    (c = 32 ∧ escapeByte .queryComponent c = [43]) ∨
      (escapeByte .queryComponent c = [c] ∧ shouldEscape c .queryComponent = false) ∨
      escapeByte .queryComponent c = [37, hexDigit (c.toNat / 16), hexDigit (c.toNat % 16)] := by
  rw [escapeByte]
  split_ifs with hspace hescape
  · exact .inl ⟨hspace.1, rfl⟩
  · exact .inr (.inr rfl)
  · exact .inr (.inl ⟨rfl, by simpa using hescape⟩)

/-- An escaped component is read back. -/
theorem unescape_queryEscape (s : Str) : unescape .queryComponent (queryEscape s) = some s := by
  refine unescape_flatMap_of_forms (fun _ _ => rfl) (fun c => ?_) s
  rcases escapeByte_queryComponent c with ⟨rfl, heq⟩ | ⟨heq, hkeep⟩ | heq
  · exact .inl ⟨43, heq, by decide, by decide⟩
  · -- a byte that is kept is neither a percent sign nor a plus sign
    have hpercent : c ≠ 37 := by
      rintro rfl
      exact absurd hkeep (by decide)
    have hplus : c ≠ 43 := by
      rintro rfl
      exact absurd hkeep (by decide)
    exact .inl ⟨c, heq, hpercent, by simp [unescapeByte, hplus]⟩
  · exact .inr heq

/-- A byte that a component escapes is not in the encoded component. -/
theorem not_mem_queryEscape {c : UInt8} (hc : shouldEscape c .queryComponent = true)
    (hplus : c ≠ 43) (hpercent : c ≠ 37) (s : Str) : c ∉ queryEscape s :=
  not_mem_escape hc hplus hpercent s

/-! ### One pair -/

/-- A pair as `Encode` writes it. -/
def pairText (p : Str × Str) : Str := queryEscape p.1 ++ 61 :: queryEscape p.2

/-- A byte that a component escapes is in a pair only as the sign between its components. -/
theorem not_mem_pairText {c : UInt8} (hc : shouldEscape c .queryComponent = true) (hplus : c ≠ 43)
    (hpercent : c ≠ 37) (hequals : c ≠ 61) (p : Str × Str) : c ∉ pairText p := by
  rw [pairText, List.mem_append, List.mem_cons, not_or, not_or]
  exact ⟨not_mem_queryEscape hc hplus hpercent p.1, hequals, not_mem_queryEscape hc
    hplus hpercent p.2⟩

/-- A pair has an `=`. -/
theorem pairText_ne_nil (p : Str × Str) : pairText p ≠ [] := by simp [pairText]

/-- A pair is read back. -/
theorem addPiece_pairText (v : Values) (p : Str × Str) :
    addPiece v (pairText p) = v.add p.1 p.2 := by
  have hsemicolon : 59 ∉ pairText p := not_mem_pairText (by decide) (by decide) (by decide)
      (by decide) p
  have hequals : 61 ∉ queryEscape p.1 := not_mem_queryEscape (by decide) (by decide) (by decide) p.1
  have hcut : cut 61 (pairText p) = (queryEscape p.1, some (queryEscape p.2)) := by
    simp [pairText, cut_append hequals, cut]
  unfold addPiece
  rw [if_neg (not_or.2 ⟨pairText_ne_nil p, hsemicolon⟩), hcut]
  simp only [Option.getD_some, unescape_queryEscape]

/-! ### The pairs of a query -/

/-- What is interspersed. -/
theorem mem_intersperse {α : Type} {sep x : α} :
    ∀ {l : List α}, x ∈ l.intersperse sep → x = sep ∨ x ∈ l
  | [], h => .inr h
  | [_], h => .inr h
  | a :: b :: l, h => by
    rw [List.intersperse_cons_cons] at h
    simp only [List.mem_cons] at h
    rcases h with rfl | rfl | h
    · exact .inr (.head _)
    · exact .inl rfl
    · exact (mem_intersperse h).imp_right (List.mem_cons_of_mem a)

/-- Pieces that do not hold the separator are split where they were joined. -/
theorem split_intersperse {sep : UInt8} : ∀ {l : List Str}, l ≠ [] → (∀ s ∈ l, sep ∉ s) →
    split sep (l.intersperse [sep]).flatten = l
  | [], hne, _ => absurd rfl hne
  | [s], _, h => by
    have hs : sep ∉ s := h s (.head _)
    simpa using split_of_not_mem hs
  | s :: t :: l, _, h => by
    have hs : sep ∉ s := h s (.head _)
    have hrest := split_intersperse (List.cons_ne_nil t l) fun x hx =>
      h x (.tail _ hx)
    rw [List.intersperse_cons_cons, List.flatten_cons, List.flatten_cons, List.singleton_append,
      split_append_cons hs, hrest]

namespace Values

/-- The pairs of a key and one of its values. -/
def pairs (v : Values) : List (Str × Str) := v.flatMap fun e => e.2.map fun value => (e.1, value)

/-- The values in the order in which they are encoded. -/
def sorted (v : Values) : Values := v.insertionSort fun a b => strLe a.1 b.1

/-- Sorting permutes. -/
theorem sorted_perm (v : Values) : v.sorted.Perm v := List.perm_insertionSort ..

/-- The query consists of its pairs. -/
theorem encode_eq (v : Values) :
    v.encode = ((v.sorted.pairs.map pairText).intersperse [38]).flatten := by
  unfold encode pairs sorted
  rw [List.map_flatMap]
  simp only [List.map_map]
  rfl

end Values

/-- A byte that a component escapes is in a query only as one of its signs. -/
theorem not_mem_encode {c : UInt8} (hc : shouldEscape c .queryComponent = true) (hplus : c ≠ 43)
    (hpercent : c ≠ 37) (hequals : c ≠ 61) (hamp : c ≠ 38) (v : Values) : c ∉ v.encode := by
  intro hmem
  rw [v.encode_eq] at hmem
  obtain ⟨piece, hpiece, hbyte⟩ := List.mem_flatten.1 hmem
  rcases mem_intersperse hpiece with rfl | hpiece
  · exact hamp (List.mem_singleton.1 hbyte)
  · obtain ⟨p, -, rfl⟩ := List.mem_map.1 hpiece
    exact not_mem_pairText hc hplus hpercent hequals p hbyte

/-- An encoded query has no `#`. -/
theorem hash_not_mem_encode (v : Values) : 35 ∉ v.encode :=
  not_mem_encode (by decide) (by decide) (by decide) (by decide) (by decide) v

/-- The query is read back pair by pair, in the order of the keys. -/
theorem parseQuery_encode (v : Values) :
    parseQuery v.encode = v.sorted.pairs.foldl (fun w p => Values.add w p.1 p.2) [] := by
  rw [v.encode_eq, parseQuery]
  by_cases hnil : v.sorted.pairs = []
  · rw [hnil]
    rfl
  · have hamp : ∀ s ∈ v.sorted.pairs.map pairText, 38 ∉ s := by
      intro s hs
      obtain ⟨p, -, rfl⟩ := List.mem_map.1 hs
      exact not_mem_pairText (by decide) (by decide) (by decide) (by decide) p
    rw [split_intersperse (by simpa using hnil) hamp, List.foldl_map]
    simp only [addPiece_pairText]

/-- Keys with values are encoded as something. -/
theorem encode_ne_nil {v : Values} (hne : v ≠ []) (hvalues : ∀ e ∈ v, e.2 ≠ []) :
    v.encode ≠ [] := by
  -- there is a first pair, and it is written
  have hpairs : v.sorted.pairs ≠ [] := by
    obtain ⟨e, rest, he⟩ := List.exists_cons_of_ne_nil hne
    have hmem : e ∈ v := he ▸ List.mem_cons_self
    obtain ⟨value, values, hvalue⟩ := List.exists_cons_of_ne_nil (hvalues e hmem)
    have hpair : (e.1, value) ∈ v.sorted.pairs :=
      List.mem_flatMap.2 ⟨e, v.sorted_perm.mem_iff.2 hmem, by simp [hvalue]⟩
    exact List.ne_nil_of_mem hpair
  obtain ⟨p, rest, hp⟩ := List.exists_cons_of_ne_nil hpairs
  rw [v.encode_eq, hp, List.map_cons]
  cases rest with
  | nil => simpa using pairText_ne_nil p
  | cons q rest => simp [pairText_ne_nil]

/-! ### The values of a key -/

namespace Values

/-- The values of a key, `v[key]`. -/
def values (v : Values) (key : Str) : List Str :=
  match v.find? fun e => e.1 = key with
  | some e => e.2
  | none => []

/-- No two entries have the same key, as in a map. -/
def Distinct (v : Values) : Prop := (v.map Prod.fst).Nodup

variable {v v' : Values} {key name value : Str}

/-- The values under a key, from the first entry on. -/
theorem values_cons (e : Str × List Str) (v : Values) (key : Str) :
    values (e :: v) key = if e.1 = key then e.2 else v.values key := by
  unfold values
  rw [List.find?_cons]
  by_cases h : e.1 = key
  · simp [h]
  · simp [h]

/-- A key that is not there has no values. -/
theorem values_eq_nil (h : key ∉ v.map Prod.fst) : v.values key = [] := by
  induction v with
  | nil => rfl
  | cons e v ih =>
    rw [List.map_cons, List.mem_cons, not_or] at h
    rw [values_cons, if_neg (Ne.symm h.1), ih h.2]

/-- `Add` appends to the values of its key. -/
theorem values_add (v : Values) (name value key : Str) :
    (v.add name value).values key = if name = key then v.values key ++ [value]
      else v.values key := by
  induction v with
  | nil =>
    rw [add, values_cons]
    split_ifs <;> rfl
  | cons e v ih =>
    rw [add]
    split_ifs with he hname hname
    · rw [values_cons, values_cons, if_pos (he.trans hname), if_pos (he.trans hname)]
    · have hne : e.1 ≠ key := fun h => hname (he.symm.trans h)
      rw [values_cons, values_cons, if_neg hne, if_neg hne]
    · have hne : e.1 ≠ key := fun h => he (h.trans hname.symm)
      rw [values_cons, values_cons, if_neg hne, if_neg hne, ih, if_pos hname]
    · rw [values_cons, values_cons, ih, if_neg hname]

/-- What `Set` leaves of a key. -/
theorem values_set (v : Values) (name value key : Str) :
    (v.set name value).values key = if name = key then [value] else v.values key := by
  unfold set
  induction v with
  | nil => rw [List.filter_nil, List.nil_append, values_cons]
  | cons e v ih =>
    by_cases he : e.1 = name
    · rw [List.filter_cons_of_neg (by simpa using he), ih, values_cons]
      split_ifs with hname hkey
      · rfl
      · exact absurd (he.symm.trans hkey) hname
      · rfl
    · rw [List.filter_cons_of_pos (by simpa using he), List.cons_append, values_cons, values_cons,
        ih]
      split_ifs with hkey hname
      · exact absurd (hkey.trans hname.symm) he
      · rfl
      · rfl
      · rfl

/-- `Add` adds a key at most. -/
theorem map_fst_add (v : Values) (name value : Str) :
    (v.add name value).map Prod.fst =
      if name ∈ v.map Prod.fst then v.map Prod.fst else v.map Prod.fst ++ [name] := by
  induction v with
  | nil => rfl
  | cons e v ih =>
    rw [add]
    by_cases he : e.1 = name
    · simp [he]
    · rw [if_neg he, List.map_cons, ih]
      simp only [List.map_cons, List.mem_cons, Ne.symm he, false_or]
      split_ifs <;> rfl

/-- `Add` keeps the keys distinct. -/
theorem Distinct.add (h : v.Distinct) (name value : Str) : (v.add name value).Distinct := by
  unfold Distinct
  rw [map_fst_add]
  split_ifs with hmem
  · exact h
  · refine List.nodup_append.2 ⟨h, List.nodup_singleton name, ?_⟩
    intro key hkey name' hname heq
    rw [heq, List.mem_singleton.1 hname] at hkey
    exact hmem hkey

/-- `Set` keeps the keys distinct. -/
theorem Distinct.set (h : v.Distinct) (name value : Str) : (v.set name value).Distinct := by
  unfold Distinct Values.set
  rw [List.map_append, List.map_singleton]
  refine List.nodup_append.2 ⟨h.sublist (List.filter_sublist.map _), List.nodup_singleton name, ?_⟩
  intro key hkey name' hname heq
  obtain ⟨e, he, rfl⟩ := List.mem_map.1 hkey
  have hne := (List.mem_filter.1 he).2
  rw [heq, List.mem_singleton.1 hname] at hne
  simp at hne

/-- Parsed values have distinct keys. -/
theorem distinct_parseQuery (query : Str) : (parseQuery query).Distinct := by
  refine List.foldlRecOn _ addPiece List.nodup_nil fun v hv piece _ => ?_
  unfold addPiece
  split_ifs
  · exact hv
  · split
    · exact hv.add _ _
    · exact hv

/-- The values of distinct keys do not depend on their order. -/
theorem values_perm (h : v.Perm v') (hv : v.Distinct) (key : Str) :
    v.values key = v'.values key := by
  induction h with
  | nil => rfl
  | cons e _ ih =>
    rw [values_cons, values_cons, ih (List.nodup_cons.1 hv).2]
  | swap e e' v =>
    have hne : e'.1 ≠ e.1 := fun h => (List.nodup_cons.1 hv).1 (h ▸ List.mem_cons_self)
    simp only [values_cons]
    split_ifs with h' h
    · exact absurd (h'.trans h.symm) hne
    · rfl
    · rfl
    · rfl
  | trans hperm _ ih ih' =>
    rw [ih hv, ih' ((hperm.map Prod.fst).nodup_iff.1 hv)]

/-- Adding pairs one after the other adds to each key its values. -/
theorem values_foldl_add (l : List (Str × Str)) (v : Values) (key : Str) :
    (l.foldl (fun v p => v.add p.1 p.2) v).values key =
      v.values key ++ (l.filter fun p => p.1 = key).map Prod.snd := by
  induction l generalizing v with
  | nil => simp
  | cons p l ih =>
    rw [List.foldl_cons, ih, values_add, List.filter_cons]
    by_cases hp : p.1 = key
    · simp [hp]
    · simp [hp]

/-- The pairs of a key are those with its values. -/
theorem filter_pairs (hv : v.Distinct) (key : Str) :
    (v.pairs.filter fun p => p.1 = key).map Prod.snd = v.values key := by
  induction v with
  | nil => rfl
  | cons e v ih =>
    obtain ⟨hfresh, hrest⟩ := List.nodup_cons.1 hv
    have hsplit : pairs (e :: v) = e.2.map (fun value => (e.1, value)) ++ pairs v := rfl
    rw [hsplit, List.filter_append, List.map_append, ih hrest, values_cons, List.filter_map,
      List.map_map]
    by_cases he : e.1 = key
    · rw [if_pos he, values_eq_nil (he ▸ hfresh)]
      simp [Function.comp_def, he]
    · rw [if_neg he]
      simp [Function.comp_def, he]

/-- Every key has its values again in the query that is read back. -/
theorem values_parseQuery_encode (hv : v.Distinct) (key : Str) :
    (parseQuery v.encode).values key = v.values key := by
  have hsorted : v.sorted.Distinct := (v.sorted_perm.map Prod.fst).nodup_iff.2 hv
  calc (parseQuery v.encode).values key
      = (v.sorted.pairs.filter fun p => p.1 = key).map Prod.snd := by
        rw [parseQuery_encode, values_foldl_add, values_eq_nil List.not_mem_nil, List.nil_append]
    _ = v.sorted.values key := filter_pairs hsorted key
    _ = v.values key := values_perm v.sorted_perm hsorted key

end Values

/-! ### The query of a URL that is printed -/

/-- The query of the text of a URL: what is between the first question mark and the fragment. -/
def rawQueryOf (url : Str) : Str := (splitQuery (cut 35 url).1).2.1

/-- A scheme has bytes of a scheme only. -/
theorem schemeByte_of_getSchemeFrom {seen s scheme rest : Str}
    (hseen : ∀ c ∈ seen, schemeByte c = true)
    (h : getSchemeFrom seen s = some (some scheme, rest)) : ∀ c ∈ scheme, schemeByte c = true := by
  induction s generalizing seen with
  | nil => simp [getSchemeFrom] at h
  | cons b s ih =>
    have hnext : schemeByte b = true → ∀ c ∈ seen ++ [b], schemeByte c = true := by
      intro hb c hc
      rcases List.mem_append.1 hc with hc | hc
      · exact hseen c hc
      · rw [List.mem_singleton.1 hc]
        exact hb
    rw [getSchemeFrom] at h
    split_ifs at h with hletter hbyte hnil hcolon
    · exact ih (hnext (by simp [schemeByte, hletter])) h
    · simp at h
    · exact ih (hnext (by simpa [schemeByte, hletter, or_assoc] using hbyte)) h
    · simp only [Option.some.injEq, Prod.mk.injEq] at h
      rw [← h.1]
      exact hseen
    · simp at h

/-- A scheme has bytes of a scheme only. -/
theorem schemeByte_of_getScheme {raw scheme rest : Str} (h : getScheme raw = some (scheme, rest)) :
    ∀ c ∈ scheme, schemeByte c = true := by
  unfold getScheme at h
  rcases hfrom : getSchemeFrom [] raw with _ | ⟨_ | found, after⟩
  · rw [hfrom] at h
    cases h
  · rw [hfrom] at h
    obtain ⟨rfl, -⟩ := Prod.mk.inj (Option.some.inj h)
    exact nofun
  · rw [hfrom] at h
    obtain ⟨rfl, -⟩ := Prod.mk.inj (Option.some.inj h)
    exact schemeByte_of_getSchemeFrom (fun c hc => absurd hc List.not_mem_nil) hfrom

/-- The bytes of a scheme are closed under case. -/
theorem schemeByte_toLower (c : UInt8) : schemeByte (toLower c) = schemeByte c := by
  unfold toLower
  split_ifs with hupper
  · have hletter : isLetter c = true := by simp [isLetter, hupper]
    have hlower : isLetter (c + 32) = true := by
      simp only [isLetter, Bool.or_eq_true, Bool.and_eq_true, decide_eq_true_eq]
      grind
    simp [schemeByte, hletter, hlower]
  · rfl

/-- What the parser says of the parts in front of the path: a scheme has no separators, and a URL
with a host is not opaque. -/
theorem URL.parts_of_parse {raw : Str} {u : URL} (h : URL.parse raw = some u) :
    (∀ c ∈ u.scheme, schemeByte c = true) ∧ (u.host ≠ [] → u.opaqueData = []) := by
  -- Three layers of the parser: the path, what follows the scheme, and the URL without its
  -- fragment.
  have hset : ∀ {v w : URL} {p : Str}, v.setPath p = some w →
      w.scheme = v.scheme ∧ w.host = v.host ∧ w.opaqueData = v.opaqueData := by
    intro v w p hw
    obtain ⟨t, -, rfl⟩ := URL.setPath_eq_some hw
    exact ⟨rfl, rfl, rfl⟩
  have hrest : ∀ {v w : URL} {rest : Str}, v.opaqueData = [] → v.host = [] →
      parseRest v rest = some w → w.scheme = v.scheme ∧ (w.host ≠ [] → w.opaqueData = []) := by
    intro v w rest hdata hhost hw
    unfold parseRest at hw
    split_ifs at hw with hrelative hcolon hauthority
    · cases hw
      exact ⟨rfl, fun h => absurd hhost h⟩
    · obtain ⟨⟨user, host⟩, -, hw⟩ := Option.bind_eq_some_iff.1 hw
      obtain ⟨hscheme, -, hdata'⟩ := hset hw
      exact ⟨hscheme, fun _ => hdata'.trans hdata⟩
    · obtain ⟨hscheme, -, hdata'⟩ := hset hw
      exact ⟨hscheme, fun _ => hdata'.trans hdata⟩
  have hfront : ∀ {front : Str} {v : URL}, parseNoFragment front = some v →
      (∀ c ∈ v.scheme, schemeByte c = true) ∧ (v.host ≠ [] → v.opaqueData = []) := by
    intro front v hv
    unfold parseNoFragment at hv
    split_ifs at hv
    · cases hv
      exact ⟨nofun, fun _ => rfl⟩
    · obtain ⟨⟨scheme, rest⟩, hscheme, hv⟩ := Option.bind_eq_some_iff.1 hv
      obtain ⟨hlower, hdata⟩ := hrest rfl rfl hv
      refine ⟨fun c hc => ?_, hdata⟩
      rw [hlower] at hc
      obtain ⟨b, hb, rfl⟩ := List.mem_map.1 hc
      rw [schemeByte_toLower]
      exact schemeByte_of_getScheme hscheme b hb
  unfold URL.parse at h
  rcases hcut : cut 35 raw with ⟨front, _ | _ | ⟨c, f⟩⟩
  · rw [hcut] at h
    exact hfront h
  · rw [hcut] at h
    exact hfront h
  · rw [hcut] at h
    obtain ⟨v, hv, h⟩ := Option.bind_eq_some_iff.1 h
    obtain ⟨frag, -, h⟩ := Option.bind_eq_some_iff.1 h
    have hparts := hfront hv
    cases h
    exact hparts

/-- The text has neither the mark of a query nor that of a fragment. -/
def Unmarked (s : Str) : Prop := 35 ∉ s ∧ 63 ∉ s

instance (s : Str) : Decidable (Unmarked s) := inferInstanceAs (Decidable (35 ∉ s ∧ 63 ∉ s))

/-- Two unmarked parts. -/
theorem Unmarked.append {s t : Str} (hs : Unmarked s) (ht : Unmarked t) : Unmarked (s ++ t) := by
  simp only [Unmarked, List.mem_append, not_or]
  exact ⟨⟨hs.1, ht.1⟩, hs.2, ht.2⟩

/-- The marks are escaped in every component that is printed in front of them. -/
theorem unmarked_escape {mode : Encoding} (hhash : shouldEscape 35 mode = true)
    (hmark : shouldEscape 63 mode = true) (s : Str) : Unmarked (escape mode s) :=
  ⟨not_mem_escape hhash (by decide) (by decide) s, not_mem_escape hmark (by decide) (by decide) s⟩

/-- An escaped path is unmarked. -/
theorem URL.unmarked_escapedPath (u : URL) : Unmarked u.escapedPath := by
  unfold URL.escapedPath
  split_ifs with hraw hstar
  · have hvalid := List.all_eq_true.1 hraw.2.1
    exact ⟨fun h => absurd (hvalid 35 h) (by decide), fun h => absurd (hvalid 63 h) (by decide)⟩
  · decide
  · exact unmarked_escape (by decide) (by decide) u.path

/-- The user is unmarked. -/
theorem Userinfo.unmarked_string (ui : Userinfo) : Unmarked ui.string := by
  have hescape : ∀ s, Unmarked (escape .userPassword s) := unmarked_escape (by decide) (by decide)
  unfold Userinfo.string
  cases ui.password with
  | none => exact (hescape _).append (by decide)
  | some password =>
    exact (hescape _).append ((show Unmarked [58] by decide).append (hescape password))

/-- The authority is unmarked. -/
theorem URL.unmarked_authorityString (u : URL) : Unmarked u.authorityString := by
  have hhost : Unmarked (escape .host u.host) := unmarked_escape (by decide) (by decide) u.host
  unfold URL.authorityString
  split_ifs
  · decide
  · refine ((show Unmarked "//" by decide).append ?_).append hhost
    cases u.user with
    | none => decide
    | some ui => exact ui.unmarked_string.append (by decide)
  · refine ((show Unmarked [] by decide).append ?_).append hhost
    cases u.user with
    | none => decide
    | some ui => exact ui.unmarked_string.append (by decide)
  · decide

/-- The query that is printed is the query of the text. -/
theorem URL.rawQueryOf_string {u : URL} (hscheme : ∀ c ∈ u.scheme, schemeByte c = true)
    (hdata : u.opaqueData = []) (hquery : u.rawQuery ≠ []) (hhash : 35 ∉ u.rawQuery) :
    rawQueryOf u.string = u.rawQuery := by
  -- what is printed in front of the query
  obtain ⟨front, hfront, hstring⟩ : ∃ front, Unmarked front ∧ u.string = front ++ 63 ::
      u.rawQuery ++
      if u.frag ≠ [] then 35 :: u.escapedFragment else [] := by
    have hletters : Unmarked u.scheme :=
      ⟨fun h => absurd (hscheme 35 h) (by decide), fun h => absurd (hscheme 63 h) (by decide)⟩
    have hscheme' : Unmarked (if u.scheme ≠ [] then u.scheme ++ [58] else []) := by
      split_ifs
      · exact hletters.append (by decide)
      · decide
    have hslash : Unmarked (if u.escapedPath ≠ [] ∧ u.escapedPath.head? ≠ some 47 ∧
        u.host ≠ [] then [47] else []) := by
      split_ifs
      · decide
      · decide
    have hdot : ∀ P : Prop, ∀ [Decidable P], Unmarked (if P then "./" else []) := by
      intro P _
      split_ifs
      · decide
      · decide
    have hprinted : (if u.forceQuery = true ∨ u.rawQuery ≠ [] then 63 :: u.rawQuery else []) = 63 ::
        u.rawQuery :=
      if_pos (.inr hquery)
    unfold URL.string
    dsimp only
    rw [if_neg (not_not.2 hdata), hprinted]
    exact ⟨_, (((hscheme'.append u.unmarked_authorityString).append hslash).append (hdot _)).append
      u.unmarked_escapedPath, rfl⟩
  obtain ⟨c, rest, hcons⟩ := List.exists_cons_of_ne_nil hquery
  have hcut : (cut 35 u.string).1 = front ++ 63 :: u.rawQuery := by
    have hplain : 35 ∉ front ++ 63 :: u.rawQuery := by
      simp only [List.mem_append, List.mem_cons, not_or]
      exact ⟨hfront.1, by decide, hhash⟩
    rw [hstring, cut_append hplain]
    split_ifs
    · rw [cut, if_pos rfl, List.append_nil]
    · rw [cut, List.append_nil]
  rw [rawQueryOf, hcut, Origin.splitQuery_append hfront.2, hcons]
  rfl

end VirePortal.Go
