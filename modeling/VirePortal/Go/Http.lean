import VirePortal.Go.Url

/-!
# Package net/http

The parts of `net/http` that the handlers read and write: header maps with their canonical keys,
cookies, and requests. A request carries its query and form already parsed into values, and its
cookies already read from the `Cookie` header.

HTTP compares header names without regard to case, so what a peer receives under a name is
`Header.received`: the values of every key that agrees with the name up to case. Keys that agree up
to case have one canonical form when the name consists of header field bytes
(`canonicalKey_eq_of_fold`), which is what makes `Header.add` and `Header.set` collect them.
-/

namespace VirePortal.Go

/-- `validHeaderFieldByte`: the token characters. -/
def validHeaderFieldByte (c : UInt8) : Bool :=
  isLetter c || isDigit c || c ∈ ascii "!#$%&'*+-.^_`|~"

/-- The canonical case of a key's bytes: a letter at the start or after a dash is upper case, and
the others are lower case. -/
def canonicalBytes (upper : Bool) : Str → Str
  | [] => []
  | c :: s => (if upper then toUpper c else toLower c) :: canonicalBytes (c = 45) s

/-- `CanonicalMIMEHeaderKey`. -/
def canonicalKey (key : Str) : Str :=
  if key.all validHeaderFieldByte then canonicalBytes true key else key

/-- A header: the values of each key. -/
abbrev Header := List (Str × List Str)

/-- The case-folded form of a header name. -/
def foldKey (key : Str) : Str := key.map toLower

/-- `Header.Get`. -/
def Header.get (h : Header) (key : Str) : Str :=
  match h.find? fun e => e.1 = canonicalKey key with
  | some (_, value :: _) => value
  | _ => []

/-- The value appended to the entry of a key, which is made when there is none. -/
def Header.append (h : Header) (key value : Str) : Header :=
  match h with
  | [] => [(key, [value])]
  | e :: h => if e.1 = key then (e.1, e.2 ++ [value]) :: h else e :: Header.append h key value

/-- `Header.Add`. -/
def Header.add (h : Header) (key value : Str) : Header := h.append (canonicalKey key) value

/-- `Header.Set`. -/
def Header.set (h : Header) (key value : Str) : Header :=
  (h.filter fun e => e.1 ≠ canonicalKey key) ++ [(canonicalKey key, [value])]

/-- The loop that adds every value of every key of `src` to `h`. -/
def Header.addAll (h src : Header) : Header :=
  src.foldl (fun h e => e.2.foldl (fun h value => h.add e.1 value) h) h

/-- The loop that sets every value of every key of `src`. -/
def Header.setAll (h src : Header) : Header :=
  src.foldl (fun h e => e.2.foldl (fun h value => h.set e.1 value) h) h

/-- The values of an `http.Header` under a name: those of the keys that agree with it up to case.
The blanks around a value, which the transport trims when it writes the header, are still there. -/
def Header.received (h : Header) (name : Str) : List Str :=
  (h.filter fun e => foldKey e.1 = foldKey name).flatMap Prod.snd

/-- `httpguts.ValidHeaderFieldValue`: no control byte but a tab. -/
def validHeaderFieldValue (v : Str) : Bool := v.all fun b => !(b < 32 || b = 127) || b = 9

/-- A cookie of a request. -/
structure Cookie where
  name : Str
  value : Str
  deriving DecidableEq

/-- A cookie that a response sets. -/
structure SetCookie where
  name : Str
  value : Str
  path : Str := "/"
  httpOnly : Bool := true
  sameSiteLax : Bool := true
  maxAge : ℤ := 0
  deriving DecidableEq

/-- A request as a handler reads it. -/
structure Request where
  method : Str := "GET"
  /-- `r.URL`. -/
  url : URL := { path := "/" }
  /-- `r.URL.Query()`. -/
  query : Values := []
  /-- The values that `r.FormValue` reads. -/
  form : Values := []
  /-- Whether `r.ParseForm` fails. -/
  formError : Bool := false
  cookies : List Cookie := []
  header : Header := []
  host : Str := []
  /-- Whether the request came over TLS. -/
  tls : Bool := false
  deriving DecidableEq

/-- `r.Cookie`: the value of the first cookie of a name. -/
def Request.cookie (r : Request) (name : Str) : Option Str :=
  (r.cookies.find? fun c => c.name = name).map Cookie.value

/-- `validMethod`. -/
def validMethod (method : Str) : Bool := method ≠ [] && method.all validHeaderFieldByte

/-- The canonical form keeps a name up to case. -/
theorem foldKey_canonicalBytes (upper : Bool) (s : Str) :
    foldKey (canonicalBytes upper s) = foldKey s := by
  induction s generalizing upper with
  | nil => rfl
  | cons c s ih =>
    have hbyte : toLower (if upper then toUpper c else toLower c) = toLower c := by
      cases upper
      · exact toLower_toLower c
      · exact toLower_toUpper c
    calc foldKey (canonicalBytes upper (c :: s))
        = toLower (if upper then toUpper c else toLower c) ::
          foldKey (canonicalBytes (c = 45) s) := rfl
      _ = toLower c :: foldKey s := by rw [hbyte, ih]

/-- The canonical key is the key up to case. -/
theorem foldKey_canonicalKey (key : Str) : foldKey (canonicalKey key) = foldKey key := by
  unfold canonicalKey
  split_ifs
  · exact foldKey_canonicalBytes true key
  · rfl

/-- The canonical form of valid bytes depends on them up to case. -/
theorem canonicalBytes_foldKey (upper : Bool) (s : Str) :
    canonicalBytes upper (foldKey s) = canonicalBytes upper s := by
  induction s generalizing upper with
  | nil => rfl
  | cons c s ih =>
    have hbyte : (if upper then toUpper (toLower c) else toLower (toLower c)) =
        if upper then toUpper c else toLower c := by
      rw [toUpper_toLower, toLower_toLower]
    have hdash : decide (toLower c = 45) = decide (c = 45) := by
      rw [decide_eq_decide]
      unfold toLower
      grind
    calc canonicalBytes upper (foldKey (c :: s))
        = (if upper then toUpper (toLower c) else toLower (toLower c)) ::
          canonicalBytes (toLower c = 45) (foldKey s) := rfl
      _ = (if upper then toUpper c else toLower c) :: canonicalBytes (c = 45) s := by
          rw [hbyte, ih, hdash]

/-- The valid bytes are closed under case. -/
theorem validHeaderFieldByte_toLower (c : UInt8) :
    validHeaderFieldByte (toLower c) = validHeaderFieldByte c := by
  by_cases hc : 65 ≤ c ∧ c ≤ 90
  · have hletter : isLetter c = true := by simp [isLetter, hc]
    have hlower : isLetter (toLower c) = true := by
      have hrange : 97 ≤ c + 32 ∧ c + 32 ≤ 122 := by
        constructor
        · grind
        · grind
      simp [isLetter, toLower, hc, hrange]
    rw [validHeaderFieldByte, validHeaderFieldByte, hletter, hlower]
    rfl
  · rw [toLower, if_neg hc]

/-- A name stays valid when it is folded. -/
theorem all_validHeaderFieldByte_foldKey (s : Str) :
    (foldKey s).all validHeaderFieldByte = s.all validHeaderFieldByte := by
  rw [foldKey, List.all_map]
  exact congrArg s.all (funext validHeaderFieldByte_toLower)

/-- Keys that agree up to case have one canonical form. -/
theorem canonicalKey_eq_of_fold {key name : Str} (hname : name.all validHeaderFieldByte = true)
    (h : foldKey key = foldKey name) : canonicalKey key = canonicalKey name := by
  have hkey : key.all validHeaderFieldByte = true := by
    rw [← all_validHeaderFieldByte_foldKey, h, all_validHeaderFieldByte_foldKey, hname]
  rw [canonicalKey, canonicalKey, if_pos hkey, if_pos hname, ← canonicalBytes_foldKey, h,
    canonicalBytes_foldKey]

namespace Header

variable {h src : Header} {key name value v : Str}

/-- `Get` after `Set` of the key. -/
theorem get_set_self (h : Header) (key value : Str) : (h.set key value).get key = value := by
  unfold get set
  have hnone : (h.filter fun e => e.1 ≠ canonicalKey key).find?
      (fun e => e.1 = canonicalKey key) = none := by
    simp
  rw [List.find?_append, hnone]
  simp

/-- `Get` after `Set` of another key. -/
theorem get_set_of_ne (h : Header) (hne : canonicalKey key ≠ canonicalKey name) (value : Str) :
    (h.set key value).get name = h.get name := by
  unfold get set
  have hkeep : (h.filter fun e => e.1 ≠ canonicalKey key).find? (fun e => e.1 = canonicalKey name) =
      h.find? fun e => e.1 = canonicalKey name := by
    rw [List.find?_filter]
    congr 1
    funext e
    by_cases he : e.1 = canonicalKey name
    · simp [he, Ne.symm hne]
    · simp [he]
  have hlast : [(canonicalKey key, [value])].find? (fun e => e.1 = canonicalKey name) = none := by
    simp [hne]
  rw [List.find?_append, hkeep, hlast, Option.or_none]

/-- What is received under a name. -/
theorem mem_received : v ∈ h.received name ↔ ∃ e ∈ h, foldKey e.1 = foldKey name ∧ v ∈ e.2 := by
  simp only [received, List.mem_flatMap, List.mem_filter, decide_eq_true_eq, and_assoc]

/-- What a peer receives after a value was appended. -/
theorem mem_received_append :
    v ∈ (h.append key value).received name ↔
      v ∈ h.received name ∨ foldKey key = foldKey name ∧ v = value := by
  induction h with
  | nil => simp [mem_received, append]
  | cons e h ih =>
    have hcons : ∀ (e : Str × List Str) (h : Header), v ∈ received (e :: h) name ↔
        foldKey e.1 = foldKey name ∧ v ∈ e.2 ∨ v ∈ h.received name := by
      intro e h
      simp only [mem_received, List.mem_cons, exists_eq_or_imp]
    rw [append]
    split_ifs with hkey
    · rw [hcons, hcons, ← hkey, List.mem_append, List.mem_singleton]
      tauto
    · rw [hcons, hcons, ih]
      tauto

/-- What a peer receives after the headers of `src` were added. -/
theorem mem_received_addAll :
    v ∈ (h.addAll src).received name ↔ v ∈ h.received name ∨ v ∈ src.received name := by
  have hvalues : ∀ (key : Str) (values : List Str) (h : Header),
      v ∈ (values.foldl (fun h value => h.add key value) h).received name ↔
        v ∈ h.received name ∨ foldKey key = foldKey name ∧ v ∈ values := by
    intro key values
    induction values with
    | nil => simp
    | cons value values ih =>
      intro h
      rw [List.foldl_cons, ih, add, mem_received_append, foldKey_canonicalKey, List.mem_cons]
      tauto
  unfold addAll
  induction src generalizing h with
  | nil => simp [mem_received]
  | cons e src ih =>
    refine ih.trans ?_
    rw [hvalues]
    simp only [mem_received, List.mem_cons, exists_eq_or_imp]
    exact or_assoc

/-- Every key that agrees with the name up to case is its canonical form. -/
def CanonicalFor (name : Str) (h : Header) : Prop :=
  ∀ e ∈ h, foldKey e.1 = foldKey name → e.1 = canonicalKey name

section

variable (hcanon : CanonicalFor name h)
include hcanon

/-- A canonical key keeps the header canonical. -/
theorem CanonicalFor.append (hkey : foldKey key = foldKey name → key = canonicalKey name) :
    CanonicalFor name (h.append key value) := by
  induction h with
  | nil =>
    intro e he hfold
    obtain rfl := List.mem_singleton.1 he
    exact hkey hfold
  | cons e h ih =>
    rw [Header.append]
    have hrest : CanonicalFor name h := fun e' he' => hcanon e' (.tail _ he')
    split_ifs
    · intro e' he'
      rcases List.mem_cons.1 he' with rfl | he'
      · exact hcanon e (.head _)
      · exact hrest e' he'
    · intro e' he'
      rcases List.mem_cons.1 he' with rfl | he'
      · exact hcanon e' (.head _)
      · exact ih hrest e' he'

/-- The loop that adds headers collects the keys of a name under its canonical form. -/
theorem CanonicalFor.addAll (hname : name.all validHeaderFieldByte = true) :
    CanonicalFor name (h.addAll src) := by
  refine List.foldlRecOn src _ hcanon fun h hcanon e _ => ?_
  refine List.foldlRecOn e.2 _ hcanon fun h hcanon value _ => hcanon.append fun hfold => ?_
  rw [foldKey_canonicalKey] at hfold
  exact canonicalKey_eq_of_fold hname hfold

/-- `Set` keeps the header canonical. -/
theorem CanonicalFor.set (hname : name.all validHeaderFieldByte = true) :
    CanonicalFor name (h.set key value) := by
  intro e he hfold
  rcases List.mem_append.1 he with he | he
  · exact hcanon e (List.mem_filter.1 he).1 hfold
  · obtain rfl := List.mem_singleton.1 he
    rw [foldKey_canonicalKey] at hfold
    exact canonicalKey_eq_of_fold hname hfold

/-- The loop that sets headers keeps the keys of a name in canonical form. -/
theorem CanonicalFor.setAll (hname : name.all validHeaderFieldByte = true) :
    CanonicalFor name (h.setAll src) := by
  refine List.foldlRecOn src _ hcanon fun h hcanon e _ => ?_
  exact List.foldlRecOn e.2 _ hcanon fun h hcanon value _ => hcanon.set hname

end

/-- A header that is set is received with its one value. -/
theorem received_set (hcanon : CanonicalFor name h) :
    (h.set name value).received name = [value] := by
  have hrest : (h.filter fun e => e.1 ≠ canonicalKey name).filter
      (fun e => foldKey e.1 = foldKey name) = [] := by
    rw [List.filter_eq_nil_iff]
    intro e he hfold
    obtain ⟨hmem, hne⟩ := List.mem_filter.1 he
    exact of_decide_eq_true hne (hcanon e hmem (of_decide_eq_true hfold))
  have hnew : [(canonicalKey name, [value])].filter (fun e => foldKey e.1 = foldKey name) =
      [(canonicalKey name, [value])] := by
    simp [foldKey_canonicalKey]
  rw [received, set, List.filter_append, hrest, hnew]
  rfl

/-- Setting a header leaves the others alone. -/
theorem received_set_of_ne (hne : foldKey key ≠ foldKey name) :
    (h.set key value).received name = h.received name := by
  have hnew : [(canonicalKey key, [value])].filter (fun e => foldKey e.1 = foldKey name) = [] := by
    simp [foldKey_canonicalKey, hne]
  rw [received, received, set, List.filter_append, hnew, List.append_nil, List.filter_filter]
  congr 1
  refine List.filter_congr fun e _ => ?_
  rw [Bool.eq_iff_iff, Bool.and_eq_true, decide_eq_true_eq, decide_eq_true_eq]
  constructor
  · exact fun h => h.1
  · refine fun hfold => ⟨hfold, fun heq => hne ?_⟩
    rw [← hfold, heq, foldKey_canonicalKey]

/-- A header as the transport delivers it: one entry of each key, in canonical form and with
values. -/
structure Canonical (h : Header) : Prop where
  nodup : (h.map Prod.fst).Nodup
  key : ∀ e ∈ h, canonicalKey e.1 = e.1
  values : ∀ e ∈ h, e.2 ≠ []

/-- A value is appended to the last entry when no other has its key. -/
theorem append_last {values : List Str} (hkey : key ∉ h.map Prod.fst) :
    append (h ++ [(key, values)]) key value = h ++ [(key, values ++ [value])] := by
  induction h with
  | nil => simp [append]
  | cons e h ih =>
    simp only [List.map_cons, List.mem_cons, not_or] at hkey
    rw [List.cons_append, append, if_neg (Ne.symm hkey.1), ih hkey.2]
    rfl

/-- A new key comes last. -/
theorem append_new (hkey : key ∉ h.map Prod.fst) : h.append key value = h ++ [(key, [value])] := by
  induction h with
  | nil => rfl
  | cons e h ih =>
    simp only [List.map_cons, List.mem_cons, not_or] at hkey
    rw [append, if_neg (Ne.symm hkey.1), ih hkey.2]
    rfl

/-- The values of a new key are added as its entry. -/
theorem foldl_add {values : List Str} (hcanon : canonicalKey key = key)
    (hkey : key ∉ h.map Prod.fst) (hvalues : values ≠ []) :
    values.foldl (fun h value => h.add key value) h = h ++ [(key, values)] := by
  have hrest : ∀ (values before : List Str),
      values.foldl (fun h value => add h key value) (h ++ [(key, before)]) =
        h ++ [(key, before ++ values)] := by
    intro values
    induction values with
    | nil => simp
    | cons value values ih =>
      intro before
      rw [List.foldl_cons, add, hcanon, append_last hkey, ih]
      simp
  cases values with
  | nil => exact absurd rfl hvalues
  | cons value values =>
    rw [List.foldl_cons, add, hcanon, append_new hkey, hrest]
    rfl

/-- Copying a header as the transport delivers it gives the header. -/
theorem addAll_canonical (h : Header) (hsrc : src.Canonical)
    (hkeys : ∀ e ∈ src, e.1 ∉ h.map Prod.fst) : h.addAll src = h ++ src := by
  induction src generalizing h with
  | nil => simp [addAll]
  | cons e src ih =>
    have hnodup := hsrc.nodup
    rw [List.map_cons, List.nodup_cons] at hnodup
    have htail : Canonical src :=
      ⟨hnodup.2, fun e he => hsrc.key e (.tail _ he),
        fun e he => hsrc.values e (.tail _ he)⟩
    have hstep : h.addAll (e :: src) = addAll (h ++ [e]) src := by
      show addAll (e.2.foldl (fun h value => h.add e.1 value) h) src = _
      rw [foldl_add (hsrc.key e (.head _)) (hkeys e (.head _))
        (hsrc.values e (.head _))]
    rw [hstep, ih (h ++ [e]) htail fun e' he' => ?_, List.append_assoc]
    · rfl
    · simp only [List.map_append, List.map_cons, List.map_nil, List.mem_append, List.mem_singleton,
        not_or]
      refine ⟨hkeys e' (.tail _ he'), fun heq => hnodup.1 ?_⟩
      rw [← heq]
      exact List.mem_map_of_mem he'

end Header

end VirePortal.Go
