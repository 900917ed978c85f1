import VirePortal.Go.Paths
import VirePortal.Go.RoundTrip
import VirePortal.Mcp.Validators

/-!
# Minted tokens are accepted until they expire

`mintAccessToken` and `mintLoopbackJWT` sign a payload that the three validators read back. The
parts of a token are base64, which has no dots, so `SplitN` finds the parts that were joined, the
decoders undo the encoders, and the signature is computed from the same text. What is left is the
check of `exp`, which is positive for every mint time after the epoch: `mint_validate`.

`JSONRoundTrips` is what is assumed of `encoding/json`. `plainCodec` shows that it can be met.
-/

namespace VirePortal.Mcp.MintValidate

open Go Auth Concurrent Validators

/-- The last second of a `time.Time`, which counts the seconds from the year 1 in an `int64`. -/
def maxUnix : ℤ := 2 ^ 63 - 1 - 62135596800

/-- The values of an `int64`. -/
def IsInt64 (z : ℤ) : Prop := -2 ^ 63 ≤ z ∧ z < 2 ^ 63

/-- The members of the payload of an access token. `json.Marshal` sorts the keys of a map. -/
def accessMembers (c : AccessClaims) : List (Str × Json) :=
  [("client_id", .string c.clientID), ("exp", .number (formatInt c.exp)),
    ("iat", .number (formatInt c.iat)), ("iss", .string c.iss),
    ("scope", .string c.scope), ("sub", .string c.sub)]

/-- The members of the payload of a loopback token. -/
def loopbackMembers (c : LoopbackClaims) : List (Str × Json) :=
  [("sub", .string c.sub), ("iss", .string c.iss),
    ("iat", .number (formatInt c.iat)), ("exp", .number (formatInt c.exp))]

/-- `json.Unmarshal` reads back what `json.Marshal` wrote, for strings of valid UTF-8. -/
structure JSONRoundTrips (codec : Codec) (marshal : LoopbackClaims → Option Str) : Prop where
  access : ∀ c : AccessClaims, validUTF8 c.sub → validUTF8 c.scope → validUTF8 c.clientID →
    validUTF8 c.iss → IsInt64 c.iat → IsInt64 c.exp →
    codec.unmarshal (codec.marshalClaims c) = some (.object (accessMembers c))
  loopback : ∀ c : LoopbackClaims, validUTF8 c.sub → validUTF8 c.iss → IsInt64 c.iat →
    IsInt64 c.exp → ∃ text, marshal c = some text ∧
      codec.unmarshal text = some (.object (loopbackMembers c))

/-- The token has three parts, and each validator accepts it up to the second `exp` with the given
claims and refuses it later. -/
structure Validated (codec : Codec) (secret token sub iss scope clientID : Str)
    (exp : ℤ) : Prop where
  parts : (split 46 token).length = 3
  browser : ∀ now, unix now ≤ exp → ∃ claims, Auth.validateJWT codec secret token now = .ok claims ∧
    claims.sub = sub ∧ claims.iss = iss
  browserPast : ∀ now, exp < unix now → Auth.validateJWT codec secret token now = .error .expired
  mcp : ∀ now, unix now ≤ exp → validateJWT codec secret token now =
    .ok ⟨sub, exp, iss, clientID, scope⟩
  mcpPast : ∀ now, exp < unix now → validateJWT codec secret token now = .error .expired
  session : ∀ now (r : Request), r.cookie "vire_session" = some token → unix now ≤ exp →
    (extractSessionUserID codec secret r).answer (atTime now) = sub
  sessionPast : ∀ now (r : Request), r.cookie "vire_session" = some token → exp < unix now →
    (extractSessionUserID codec secret r).answer (atTime now) = []

variable {codec : Codec} {secret : Str}

/-- The three parts of a signed token. -/
theorem splitN_signText (secret text : Str) : splitN 46 4 (signText codec secret text) =
    [jwtHeader, base64Encode text,
      base64Encode (codec.hmacSHA256 secret (jwtHeader ++ 46 :: base64Encode text))] :=
  splitN_dots (dot_not_mem_base64Encode _) (dot_not_mem_base64Encode _) (dot_not_mem_base64Encode _)

/-- A signed token has three parts. -/
theorem split_signText (secret text : Str) :
    (split 46 (signText codec secret text)).length = 3 := by
  unfold signText
  rw [List.append_assoc, List.cons_append, jwtHeader, split_append_cons
    (dot_not_mem_base64Encode _),
    split_append_cons (dot_not_mem_base64Encode _), split_of_not_mem (dot_not_mem_base64Encode _)]
  rfl

/-- A signed token verifies, and its members are those of the signed text. -/
theorem verifiedMembers_signText {text : Str} {members : List (Str × Json)}
    (h : codec.unmarshal text = some (.object members)) :
    verifiedMembers codec secret (signText codec secret text) = .ok members := by
  have hpayload : payloadMembers codec (base64Encode text) = .ok members := by
    rw [payloadMembers, base64Decode_base64Encode]
    simp only [h, Option.bind_some, structMembers]
  have hsignature : checkSignature codec secret jwtHeader (base64Encode text)
      (base64Encode (codec.hmacSHA256 secret (jwtHeader ++ 46 :: base64Encode text))) = .ok () := by
    rw [checkSignature, base64Decode_base64Encode]
    simp
  rw [verifiedMembers, splitN_signText]
  dsimp only
  rw [hsignature, hpayload]
  split_ifs <;> rfl

/-- A signed token whose members decode to the given claims, with a positive `exp`, is validated. -/
theorem validated_signText {text sub email name provider iss scope clientID : Str} {iat exp : ℤ}
    {members : List (Str × Json)} (h : codec.unmarshal text = some (.object members))
    (hbrowser : Auth.decodeClaims members = some ⟨sub, email, name, provider, iss, iat, exp⟩)
    (hmcp : decodeClaims members = some ⟨sub, exp, iss, clientID, scope⟩) (hexp : 0 < exp) :
    Validated codec secret (signText codec secret text) sub iss scope clientID exp := by
  have hverified : verifiedMembers codec secret (signText codec secret text) = .ok members :=
    verifiedMembers_signText h
  have hsub : subAndExp codec secret (signText codec secret text) = some (sub, exp) := by
    -- The session cookie is read for two of the claims that the MCP endpoint decodes.
    have hfields : stringField "sub" members = some sub ∧ int64Field "exp" members = some exp := by
      unfold decodeClaims at hmcp
      simp only [Option.bind_eq_bind, Option.bind_eq_some_iff, Option.pure_def, Option.some.injEq,
        JwtClaims.mk.injEq] at hmcp
      obtain ⟨sub', hsub', exp', hexp', -, -, -, -, -, -, rfl, rfl, -⟩ := hmcp
      exact ⟨hsub', hexp'⟩
    rw [subAndExp, hverified]
    simp [hfields.1, hfields.2]
  -- For each validator, the times up to `exp` and those past it.
  refine ⟨split_signText _ _, ?_, ?_, ?_, ?_, ?_, ?_⟩
  · intro now hnow
    refine ⟨⟨sub, email, name, provider, iss, iat, exp⟩, ?_, rfl, rfl⟩
    rw [Auth.validateJWT, hverified]
    simp only [hbrowser]
    rw [if_neg hexp.ne', if_neg (not_lt.2 hnow)]
  · intro now hnow
    rw [Auth.validateJWT, hverified]
    simp only [hbrowser]
    rw [if_neg hexp.ne', if_pos hnow]
  · intro now hnow
    rw [validateJWT, hverified]
    simp only [hmcp]
    rw [if_neg (by omega)]
  · intro now hnow
    rw [validateJWT, hverified]
    simp only [hmcp]
    rw [if_pos ⟨hexp, hnow⟩]
  · intro now r hr hnow
    rw [extractSessionUserID_answer hr, hsub]
    dsimp only
    rw [if_neg (by omega)]
  · intro now r hr hnow
    rw [extractSessionUserID_answer hr, hsub]
    dsimp only
    rw [if_pos ⟨hexp, hnow⟩]

/-- A number is read back from the one member that sets its field. -/
theorem int64Field_formatInt {name : Str} {members : List (Str × Json)} {z : ℤ}
    (h : fieldValues name members = [.number (formatInt z)]) (hz : IsInt64 z) :
    int64Field name members = some z := by
  rw [int64Field, h]
  show (parseInt64 (formatInt z)).bind some = some z
  rw [parseInt64_formatInt hz.1 hz.2]
  rfl

/-- The claims that the two validators decode from an access token. -/
theorem decode_accessMembers {c : AccessClaims} (hiat : IsInt64 c.iat) (hexp : IsInt64 c.exp) :
    Auth.decodeClaims (accessMembers c) = some ⟨c.sub, [], [], [], c.iss, c.iat, c.exp⟩ ∧
      decodeClaims (accessMembers c) = some ⟨c.sub, c.exp, c.iss, c.clientID, c.scope⟩ := by
  have hsub : stringField "sub" (accessMembers c) = some c.sub := rfl
  have hiss : stringField "iss" (accessMembers c) = some c.iss := rfl
  have hscope : stringField "scope" (accessMembers c) = some c.scope := rfl
  have hclientID : stringField "client_id" (accessMembers c) = some c.clientID := rfl
  have hemail : stringField "email" (accessMembers c) = some [] := rfl
  have hname : stringField "name" (accessMembers c) = some [] := rfl
  have hprovider : stringField "provider" (accessMembers c) = some [] := rfl
  have hiat' : int64Field "iat" (accessMembers c) = some c.iat := int64Field_formatInt rfl hiat
  have hexp' : int64Field "exp" (accessMembers c) = some c.exp := int64Field_formatInt rfl hexp
  constructor
  · simp [Auth.decodeClaims, hsub, hiss, hemail, hname, hprovider, hiat', hexp']
  · simp [decodeClaims, hsub, hiss, hscope, hclientID, hexp']

/-- The claims that the two validators decode from a loopback token. -/
theorem decode_loopbackMembers {c : LoopbackClaims} (hiat : IsInt64 c.iat) (hexp : IsInt64 c.exp) :
    Auth.decodeClaims (loopbackMembers c) = some ⟨c.sub, [], [], [], c.iss, c.iat, c.exp⟩ ∧
      decodeClaims (loopbackMembers c) = some ⟨c.sub, c.exp, c.iss, [], []⟩ := by
  have hsub : stringField "sub" (loopbackMembers c) = some c.sub := rfl
  have hiss : stringField "iss" (loopbackMembers c) = some c.iss := rfl
  have hrest : ∀ name ∈ ["scope", "client_id", "email", "name",
      "provider"], stringField name (loopbackMembers c) = some [] := by
    simp only [List.forall_mem_cons]
    exact ⟨rfl, rfl, rfl, rfl, rfl, by simp⟩
  have hiat' : int64Field "iat" (loopbackMembers c) = some c.iat := int64Field_formatInt rfl hiat
  have hexp' : int64Field "exp" (loopbackMembers c) = some c.exp := int64Field_formatInt rfl hexp
  simp only [List.forall_mem_cons] at hrest
  obtain ⟨hscope, hclientID, hemail, hname, hprovider, -⟩ := hrest
  constructor
  · simp [Auth.decodeClaims, hsub, hiss, hemail, hname, hprovider, hiat', hexp']
  · simp [decodeClaims, hsub, hiss, hscope, hclientID, hexp']

/-- An hour later in nanoseconds is 3600 seconds later. -/
theorem unix_add_hour (t : Time) : unix (t + seconds 3600) = unix t + 3600 := by
  unfold unix seconds
  omega

/-- Every token that the portal mints after the epoch has three parts, is accepted by the three
validators with the minted claims up to and including the second in which its lifetime ends, and is
refused by them at every later second. -/
theorem mint_validate {marshal : LoopbackClaims → Option Str} (hjson : JSONRoundTrips codec marshal)
    {userID scope clientID issuer : Str} (huserID : validUTF8 userID) (hscope : validUTF8 scope)
    (hclientID : validUTF8 clientID) (hissuer : validUTF8 issuer) {t : Time} (ht : 0 < unix t)
    (hmax : unix t ≤ maxUnix) :
    (∃ token, (mintAccessToken codec secret userID scope clientID issuer).answer (atTime t) =
      some token ∧
      Validated codec secret token userID issuer scope clientID (unix t + 3600)) ∧
    ∃ token, mintLoopbackJWT codec marshal userID secret t = some token ∧
      Validated codec secret token userID "vire-portal-loopback" [] [] (unix t + 30) := by
  -- The lifetimes do not leave the range of an `int64`.
  have hint : ∀ d : ℤ, 0 ≤ d → d ≤ 3600 → IsInt64 (unix t + d) := by
    intro d hlow hhigh
    unfold IsInt64 maxUnix at *
    omega
  have hnow : IsInt64 (unix t) := by simpa using hint 0 le_rfl (by norm_num)
  constructor
  · have hexp : IsInt64 (unix t + 3600) := hint 3600 (by norm_num) le_rfl
    refine ⟨signText codec secret (codec.marshalClaims
      ⟨userID, scope, clientID, issuer, unix t, unix t + 3600⟩), ?_, ?_⟩
    · -- The handler adds the hour to the time, and the claim counts seconds.
      rw [← unix_add_hour]
      rfl
    · have htext := hjson.access ⟨userID, scope, clientID, issuer, unix t,
        unix t + 3600⟩ huserID hscope
        hclientID hissuer hnow hexp
      obtain ⟨hbrowser, hmcp⟩ := decode_accessMembers
        (c := ⟨userID, scope, clientID, issuer, unix t, unix t + 3600⟩) hnow hexp
      exact validated_signText htext hbrowser hmcp (by omega)
  · have hexp : IsInt64 (unix t + 30) := hint 30 (by norm_num) (by norm_num)
    have hiss : validUTF8 "vire-portal-loopback" := by decide
    obtain ⟨text, hmarshal, htext⟩ := hjson.loopback
      ⟨userID, "vire-portal-loopback", unix t, unix t + 30⟩ huserID hiss hnow hexp
    refine ⟨signText codec secret text, ?_, ?_⟩
    · show (marshal ⟨userID, "vire-portal-loopback", unix t, unix t + 30⟩).map _ = _
      rw [hmarshal]
      rfl
    · obtain ⟨hbrowser, hmcp⟩ := decode_loopbackMembers
        (c := ⟨userID, "vire-portal-loopback", unix t, unix t + 30⟩) hnow hexp
      exact validated_signText htext hbrowser hmcp (by omega)

/-! ### A codec that meets the assumption -/

/-- A string, each byte after a one, and a zero at its end. -/
def putString (s rest : Str) : Str := s.flatMap (fun b => [1, b]) ++ 0 :: rest

/-- The string at the start of a text, and the rest. -/
def takeString : Str → Option (Str × Str)
  | 0 :: rest => some ([], rest)
  | 1 :: b :: rest => (takeString rest).map fun x => (b :: x.1, x.2)
  | _ => none

/-- A string is read back. -/
theorem takeString_putString (s rest : Str) : takeString (putString s rest) = some (s, rest) := by
  induction s with
  | nil => rfl
  | cons b s ih =>
    show (takeString (putString s rest)).map _ = _
    rw [ih]
    rfl

/-- The text of a list of strings. -/
def putStrings (l : List Str) : Str := l.foldr putString []

/-- The given number of strings at the start of a text. -/
def takeStrings : ℕ → Str → Option (List Str)
  | 0, _ => some []
  | n + 1, text => (takeString text).bind fun x => (takeStrings n x.2).map (x.1 :: ·)

/-- Strings are read back. -/
theorem takeStrings_putStrings (l : List Str) : takeStrings l.length (putStrings l) = some l := by
  induction l with
  | nil => rfl
  | cons s l ih =>
    rw [List.length_cons, takeStrings, show putStrings (s :: l) = putString s (putStrings l)
      from rfl, takeString_putString, Option.bind_some, ih]
    rfl

/-- The document of a text of `plainCodec`. -/
def plainUnmarshal : Str → Option Json
  | 2 :: text => match takeStrings 6 text with
    | some [clientID, exp, iat, iss, scope, sub] => some (.object
        [("client_id", .string clientID), ("exp", .number exp), ("iat", .number iat),
          ("iss", .string iss), ("scope", .string scope), ("sub", .string sub)])
    | _ => none
  | 3 :: text => match takeStrings 4 text with
    | some [sub, iss, iat, exp] => some (.object
        [("sub", .string sub), ("iss", .string iss), ("iat", .number iat), ("exp", .number exp)])
    | _ => none
  | _ => none

/-- A codec with a plain text form of the two payloads. -/
def plainCodec : Codec where
  sha256 s := s
  hmacSHA256 key message := key ++ message
  unmarshal := plainUnmarshal
  marshalClaims c :=
    2 :: putStrings [c.clientID, formatInt c.exp, formatInt c.iat, c.iss, c.scope, c.sub]

/-- The text of a loopback payload. -/
def plainMarshal (c : LoopbackClaims) : Option Str :=
  some (3 :: putStrings [c.sub, c.iss, formatInt c.iat, formatInt c.exp])

/-- The plain codec reads back what it wrote. -/
theorem plainCodec_roundTrips : JSONRoundTrips plainCodec plainMarshal where
  access c _ _ _ _ _ _ := by
    have hstrings := takeStrings_putStrings
      [c.clientID, formatInt c.exp, formatInt c.iat, c.iss, c.scope, c.sub]
    show plainUnmarshal (2 :: _) = _
    rw [plainUnmarshal, show takeStrings 6 _ = _ from hstrings]
    rfl
  loopback c _ _ _ _ := by
    have hstrings := takeStrings_putStrings [c.sub, c.iss, formatInt c.iat, formatInt c.exp]
    refine ⟨_, rfl, ?_⟩
    show plainUnmarshal (3 :: _) = _
    rw [plainUnmarshal, show takeStrings 4 _ = _ from hstrings]
    rfl

/-- The tokens of alice are validated. -/
theorem mint_validate_alice :
    (∃ token, (mintAccessToken plainCodec "k" "alice" "read" "m"
        "http://p").answer (atTime (seconds 60)) = some token ∧
      Validated plainCodec "k" token "alice" "http://p" "read" "m" (unix (seconds 60) + 3600)) ∧
    ∃ token, mintLoopbackJWT plainCodec plainMarshal "alice" "k" (seconds 60) = some token ∧
      Validated plainCodec "k" token "alice" "vire-portal-loopback" [] []
        (unix (seconds 60) + 30) :=
  mint_validate plainCodec_roundTrips (by decide) (by decide) (by decide) (by decide)
    (by decide) (by decide)

end VirePortal.Mcp.MintValidate
