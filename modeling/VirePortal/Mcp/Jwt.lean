import VirePortal.Auth.Jwt

/-!
# The tokens of the MCP endpoint

The MCP endpoint has its own validator of tokens, and mints short-lived tokens for the requests that
it makes to the portal itself. The split, the signature and the decoding of the payload are those of
`ValidateJWT`; what differs is the struct that the payload is stored into, and the check of `exp`.
-/

namespace VirePortal.Mcp

open Go Auth

variable (codec : Codec)

/-- `jwtClaims`. -/
structure JwtClaims where
  sub : Str
  exp : ℤ := 0
  iss : Str := []
  clientID : Str := []
  scope : Str := []
  deriving DecidableEq

/-- The payload stored into a `jwtClaims`. -/
def decodeClaims (members : List (Str × Json)) : Option JwtClaims := do
  let sub ← stringField "sub" members
  let exp ← int64Field "exp" members
  let iss ← stringField "iss" members
  let clientID ← stringField "client_id" members
  let scope ← stringField "scope" members
  return ⟨sub, exp, iss, clientID, scope⟩

/-- `validateJWT` of the MCP endpoint, at the time `now`. An `exp` that is missing, zero or negative
is not checked. -/
def validateJWT (secret token : Str) (now : Time) : Except JWTError JwtClaims :=
  match verifiedMembers codec secret token with
  | .error err => .error err
  | .ok members =>
    match decodeClaims members with
    | none => .error .payloadJSON
    | some claims =>
      if 0 < claims.exp ∧ claims.exp < unix now then .error .expired
      else .ok claims

/-- The payload of a loopback token. -/
structure LoopbackClaims where
  sub : Str
  iss : Str
  iat : ℤ
  exp : ℤ
  deriving DecidableEq

/-- `loopbackJWTTTL`, in seconds. -/
def loopbackJWTTTL : ℤ := 30

/-- The token with the given text as its payload, signed. -/
def signText (secret text : Str) : Str :=
  let sigInput := jwtHeader ++ 46 :: base64Encode text
  sigInput ++ 46 :: base64Encode (codec.hmacSHA256 secret sigInput)

/-- `mintLoopbackJWT`, at the time `now`, where `marshal` is `json.Marshal` of the payload. -/
def mintLoopbackJWT (marshal : LoopbackClaims → Option Str) (userID secret : Str) (now : Time) :
    Option Str :=
  (marshal ⟨userID, "vire-portal-loopback", unix now, unix now + loopbackJWTTTL⟩).map
    (signText codec secret)

end VirePortal.Mcp
