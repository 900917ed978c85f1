import VirePortal.Go.Encoding
import VirePortal.Auth.Stores

/-!
# Tokens: signing, validation and PKCE

The portal reads a JWT in three places. `ValidateJWT` (browser sessions) and `extractSessionUserID`
(the authorize endpoint) check the signature, and differ in what they make of a missing `exp`.
`extractJWTSubFromToken` (the login and callback handlers) only decodes the payload.

The hash functions and the syntax of JSON are parameters (`Codec`). How a JSON document is stored
into the struct of its reader is modelled, so the three readers differ here as they do in the
source.
-/

namespace VirePortal.Auth

open Go Concurrent

/-- The claims of an access token that the portal mints. -/
structure AccessClaims where
  sub : Str
  scope : Str
  clientID : Str
  iss : Str
  iat : ℤ
  exp : ℤ
  deriving DecidableEq

/-- The functions of the standard library that the proofs take as they are. -/
structure Codec where
  /-- `sha256.Sum256`. -/
  sha256 : Str → Str
  /-- HMAC-SHA256 of a message under a key. -/
  hmacSHA256 : Str → Str → Str
  /-- The document of a JSON text, `none` for a syntax error. -/
  unmarshal : Str → Option Json
  /-- `json.Marshal` of the claims of an access token. -/
  marshalClaims : AccessClaims → Str

/-- The claims that `ValidateJWT` decodes. -/
structure JWTClaims where
  sub : Str
  email : Str := []
  name : Str := []
  provider : Str := []
  iss : Str := []
  iat : ℤ := 0
  exp : ℤ := 0
  deriving DecidableEq

/-- The errors of `ValidateJWT`. -/
inductive JWTError where
  | format (parts : ℕ)
  | signatureEncoding
  | signature
  | payloadEncoding
  | payloadJSON
  | missingExp
  | expired
  deriving DecidableEq

variable (codec : Codec)

/-- The check of the third part of a token against the first two. -/
def checkSignature (secret header payload signature : Str) : Except JWTError Unit :=
  match base64Decode signature with
  | none => .error .signatureEncoding
  | some actual =>
    if codec.hmacSHA256 secret (header ++ 46 :: payload) = actual then .ok ()
    else .error .signature

/-- The members of the JSON object in the payload of a token. -/
def payloadMembers (payload : Str) : Except JWTError (List (Str × Json)) :=
  match base64Decode payload with
  | none => .error .payloadEncoding
  | some text =>
    match (codec.unmarshal text).bind structMembers with
    | none => .error .payloadJSON
    | some members => .ok members

/-- The first half of `ValidateJWT` and of `extractSessionUserID`: a token of three parts whose
signature verifies, unless there is no secret. -/
def verifiedMembers (secret token : Str) : Except JWTError (List (Str × Json)) :=
  match splitN 46 4 token with
  | [header, payload, signature] =>
    if secret = [] then payloadMembers codec payload
    else match checkSignature codec secret header payload signature with
      | .error err => .error err
      | .ok () => payloadMembers codec payload
  | parts => .error (.format parts.length)

/-- The payload stored into a `JWTClaims`. A member of another type is an error. -/
def decodeClaims (members : List (Str × Json)) : Option JWTClaims := do
  let sub ← stringField "sub" members
  let email ← stringField "email" members
  let name ← stringField "name" members
  let provider ← stringField "provider" members
  let iss ← stringField "iss" members
  let iat ← int64Field "iat" members
  let exp ← int64Field "exp" members
  return ⟨sub, email, name, provider, iss, iat, exp⟩

/-- `ValidateJWT`, at the time `now`. -/
def validateJWT (secret token : Str) (now : Time) : Except JWTError JWTClaims :=
  match verifiedMembers codec secret token with
  | .error err => .error err
  | .ok members =>
    match decodeClaims members with
    | none => .error .payloadJSON
    | some claims =>
      if claims.exp = 0 then .error .missingExp
      else if claims.exp < unix now then .error .expired
      else .ok claims

/-- `IsLoggedIn`: the test header, validated at the time `now`, then the session cookie, validated
at the time `now'`. -/
def isLoggedIn (r : Request) (secret : Str) (now now' : Time) : Option JWTClaims :=
  let fromCookie := match r.cookie "vire_session" with
    | none => none
    | some value =>
      if value = [] then none
      else match validateJWT codec secret value now' with
        | .ok claims => some claims
        | .error _ => none
  let testToken := r.header.get "X-Test-Session"
  if testToken = [] then fromCookie
  else match validateJWT codec secret testToken now with
    | .ok claims => some claims
    | .error _ => fromCookie

/-- Without a test token the session is that of the cookie. -/
theorem isLoggedIn_of_cookie {r : Request} {secret value : Str} (now : Time) {now' : Time}
    (hheader : r.header.get "X-Test-Session" = [])
    (hcookie : r.cookie "vire_session" = some value) (hvalue : value ≠ []) :
    isLoggedIn codec r secret now now' = (validateJWT codec secret value now').toOption := by
  unfold isLoggedIn
  dsimp only
  rw [if_pos hheader, hcookie]
  dsimp only
  rw [if_neg hvalue]
  cases validateJWT codec secret value now' <;> rfl

/-- The `sub` and the `exp` of a token whose signature verifies. -/
def subAndExp (secret token : Str) : Option (Str × ℤ) :=
  match verifiedMembers codec secret token with
  | .error _ => none
  | .ok members => do
    let sub ← stringField "sub" members
    let exp ← int64Field "exp" members
    return (sub, exp)

/-- `OAuthServer.extractSessionUserID`. The clock is read for a positive `exp` only. -/
def extractSessionUserID (secret : Str) (r : Request) : M Str :=
  match (r.cookie "vire_session").bind (subAndExp codec secret) with
  | none => return []
  | some (sub, exp) =>
    if 0 < exp then do
      let now ← perform .now
      return if exp < unix now then [] else sub
    else return sub

/-- `extractJWTSubFromToken`: the `sub` of the payload, with no check. -/
def extractJWTSubFromToken (token : Str) : Str :=
  match splitN 46 3 token with
  | _ :: payload :: _ =>
    match payloadMembers codec payload with
    | .error _ => []
    | .ok members => (stringField "sub" members).getD []
  | _ => []

/-- The header of every token that the portal mints. -/
def jwtHeader : Str := base64Encode "\x7b\"alg\":\"HS256\",\"typ\":\"JWT\"\x7d"

/-- The token with the given claims, signed. -/
def signToken (secret : Str) (claims : AccessClaims) : Str :=
  let sigInput := jwtHeader ++ 46 :: base64Encode (codec.marshalClaims claims)
  sigInput ++ 46 :: base64Encode (codec.hmacSHA256 secret sigInput)

/-- `OAuthServer.mintAccessToken`, `none` when it returns an error. -/
def mintAccessToken (secret userID scope clientID issuer : Str) : M (Option Str) := do
  let now ← perform .now
  match ← perform .marshalClaims with
  | false => return none
  | true => return some (signToken codec secret
      ⟨userID, scope, clientID, issuer, unix now, unix (now + seconds 3600)⟩)

/-- `VerifyPKCE`. -/
def verifyPKCE (verifier challenge : Str) : Bool :=
  base64Encode (codec.sha256 verifier) = challenge

/-! ### A token of Alice -/

/-- A token that expires after an hour, signed under `k`. -/
def aliceToken : Str := ascii ("eyJhbGciOiJIUzI1NiIsInR5cCI6IkpXVCJ9.eyJzdWIiOiJhbGljZSIsImV" ++
  "4cCI6MzYwMH0.wjNsUPBFdH26cVj4eXgWKKGLwBnRqDYBmTAOnhOHTdc")

/-- The members of its payload. -/
def aliceMembers : List (Str × Json) :=
  [("sub", .string "alice"), ("exp", .number "3600")]

/-- The functions of the standard library at that token. -/
def aliceCodec : Codec where
  sha256 _ := []
  hmacSHA256 _ _ := [194, 51, 108, 80, 240, 69, 116, 125, 186, 113, 88, 248, 121, 120, 22, 40,
    161, 139, 192, 25, 209, 168, 54, 1, 153, 48, 14, 158, 19, 135, 77, 215]
  unmarshal _ := some (.object aliceMembers)
  marshalClaims _ := []

end VirePortal.Auth
