import VirePortal.Mcp.Jwt

/-!
# The three validators of tokens

`ValidateJWT` guards the pages and the API proxy, `validateJWT` the MCP endpoint, and
`extractSessionUserID` the authorize endpoint. All three check the signature in the same way, so
they differ in the check of `exp` alone: the first one asks for an `exp` that is not zero and not
past, the other two accept every `exp` that is not positive. `validators_agree_iff` says for which
tokens they agree on a user, and `undated_token` is a token without `exp` on which they do not.
-/

namespace VirePortal.Mcp.Validators

open Go Auth Concurrent

variable (codec : Codec) (secret token : Str) (now : Time) (s : Str)

/-- The replies to the operations of a handler at the time `now`. -/
def atTime (now : Time) (o : Op) : Reply o := (exec false o {} { now := now }).1

/-- `ValidateJWT` accepts the token for the user. -/
def BrowserAccepts : Prop :=
  ∃ claims, Auth.validateJWT codec secret token now = .ok claims ∧ claims.sub = s

/-- The validator of the MCP endpoint accepts the token for the user. -/
def McpAccepts : Prop := ∃ claims, validateJWT codec secret token now = .ok claims ∧ claims.sub = s

/-- `extractSessionUserID` returns the user for every request with the token as its cookie. -/
def SessionAccepts : Prop := ∀ r : Request, r.cookie "vire_session" = some token →
  (extractSessionUserID codec secret r).answer (atTime now) = s

/-- The three validators agree on whether the token is one of the user. -/
def Agree : Prop :=
  (BrowserAccepts codec secret token now s ↔ McpAccepts codec secret token now s) ∧
    (McpAccepts codec secret token now s ↔ SessionAccepts codec secret token now s)

/-- The fields of the three structs have the types that the structs declare. -/
structure Typed (members : List (Str × Json)) : Prop where
  strings : ∀ name ∈ [ascii "sub", "iss", "client_id", "scope", "email", "name", "provider"],
    ∃ v, stringField name members = some v
  numbers : ∀ name ∈ [ascii "exp", "iat"], ∃ v, int64Field name members = some v

/-- The payload of the token, if it has one, is well typed. -/
def PayloadTyped : Prop := ∀ header payload signature members,
  splitN 46 4 token = [header, payload, signature] → payloadMembers codec payload = .ok members →
    Typed members

/-- The token is signed, if there is a secret, and names the user and the `exp`. -/
def Signed (exp : ℤ) : Prop := ∃ members, verifiedMembers codec secret token = .ok members ∧
  stringField "sub" members = some s ∧ int64Field "exp" members = some exp

/-- A token of the user has a positive `exp`, or a negative one that is not past. -/
def Dated : Prop := ∀ exp, Signed codec secret token s exp → 0 < exp ∨ exp < 0 ∧ unix now ≤ exp

variable {codec secret token now s}

/-- A token that verifies has three parts, and its members are those of the second one. -/
theorem verifiedMembers_ok {members : List (Str × Json)}
    (h : verifiedMembers codec secret token = .ok members) : ∃ header payload signature,
    splitN 46 4 token = [header, payload, signature] ∧ payloadMembers codec payload =
      .ok members := by
  unfold verifiedMembers at h
  split at h
  · rename_i header payload signature hsplit
    refine ⟨header, payload, signature, hsplit, ?_⟩
    split_ifs at h
    · exact h
    · split at h
      · cases h
      · exact h
  · cases h

/-- A signed token has one `exp`. -/
theorem Signed.unique {exp exp' : ℤ} (h : Signed codec secret token s exp)
    (h' : Signed codec secret token s exp') : exp = exp' := by
  obtain ⟨members, hmembers, -, hexp⟩ := h
  obtain ⟨members', hmembers', -, hexp'⟩ := h'
  rw [hmembers] at hmembers'
  cases hmembers'
  exact Option.some.inj (hexp.symm.trans hexp')

/-- The members of a verified token are typed. -/
theorem PayloadTyped.members (htyped : PayloadTyped codec token) {members : List (Str × Json)}
    (h : verifiedMembers codec secret token = .ok members) : Typed members := by
  obtain ⟨header, payload, signature, hsplit, hmembers⟩ := verifiedMembers_ok h
  exact htyped header payload signature members hsplit hmembers

/-- What the browser's check accepts. -/
theorem browserAccepts_iff (htyped : PayloadTyped codec token) :
    BrowserAccepts codec secret token now s ↔
      ∃ exp, Signed codec secret token s exp ∧ exp ≠ 0 ∧ unix now ≤ exp := by
  unfold BrowserAccepts Signed Auth.validateJWT
  cases hverified : verifiedMembers codec secret token with
  | error err => simp
  | ok members =>
    obtain ⟨hstrings, hnumbers⟩ := htyped.members hverified
    obtain ⟨sub, hsub⟩ := hstrings "sub" (by simp)
    obtain ⟨email, hemail⟩ := hstrings "email" (by simp)
    obtain ⟨name, hname⟩ := hstrings "name" (by simp)
    obtain ⟨provider, hprovider⟩ := hstrings "provider" (by simp)
    obtain ⟨iss, hiss⟩ := hstrings "iss" (by simp)
    obtain ⟨iat, hiat⟩ := hnumbers "iat" (by simp)
    obtain ⟨exp, hexp⟩ := hnumbers "exp" (by simp)
    -- With typed members every field decodes, so only the signature and `exp` decide.
    have hdecode : Auth.decodeClaims members = some ⟨sub, email, name, provider, iss, iat,
        exp⟩ := by
      simp [Auth.decodeClaims, hsub, hemail, hname, hprovider, hiss, hiat, hexp]
    simp only [hdecode, hsub, hexp, Except.ok.injEq, exists_eq_left', Option.some.injEq]
    split_ifs with hzero hpast
    · simp [hzero]
    · simp only [false_and, exists_false, false_iff]
      omega
    · simp only [Except.ok.injEq, exists_eq_left']
      constructor
      · exact fun hs => ⟨exp, ⟨hs, rfl⟩, hzero, by omega⟩
      · rintro ⟨exp', ⟨hs, -⟩, -, -⟩
        exact hs

/-- What the check of the MCP endpoint accepts. -/
theorem mcpAccepts_iff (htyped : PayloadTyped codec token) :
    McpAccepts codec secret token now s ↔
      ∃ exp, Signed codec secret token s exp ∧ (0 < exp → unix now ≤ exp) := by
  unfold McpAccepts Signed validateJWT
  cases hverified : verifiedMembers codec secret token with
  | error err => simp
  | ok members =>
    obtain ⟨hstrings, hnumbers⟩ := htyped.members hverified
    obtain ⟨sub, hsub⟩ := hstrings "sub" (by simp)
    obtain ⟨iss, hiss⟩ := hstrings "iss" (by simp)
    obtain ⟨clientID, hclientID⟩ := hstrings "client_id" (by simp)
    obtain ⟨scope, hscope⟩ := hstrings "scope" (by simp)
    obtain ⟨exp, hexp⟩ := hnumbers "exp" (by simp)
    -- The MCP endpoint decodes other fields, of the same types.
    have hdecode : decodeClaims members = some ⟨sub, exp, iss, clientID, scope⟩ := by
      simp [decodeClaims, hsub, hexp, hiss, hclientID, hscope]
    simp only [hdecode, hsub, hexp, Except.ok.injEq, exists_eq_left', Option.some.injEq]
    split_ifs with hpast
    · simp only [false_and, exists_false, false_iff]
      omega
    · simp only [Except.ok.injEq, exists_eq_left']
      constructor
      · exact fun hs => ⟨exp, ⟨hs, rfl⟩, by omega⟩
      · rintro ⟨exp', ⟨hs, -⟩, -⟩
        exact hs

/-- What `extractSessionUserID` returns for a token. -/
theorem extractSessionUserID_answer {r : Request}
    (hr : r.cookie "vire_session" = some token) (now : Time) :
    (extractSessionUserID codec secret r).answer (atTime now) =
      match subAndExp codec secret token with
      | none => []
      | some (sub, exp) => if 0 < exp ∧ exp < unix now then [] else sub := by
  unfold extractSessionUserID
  rw [hr, Option.bind_some]
  rcases subAndExp codec secret token with _ | ⟨sub, exp⟩
  · rfl
  · dsimp only
    by_cases hexp : 0 < exp
    · rw [if_pos hexp]
      show (if exp < unix now then [] else sub) = _
      simp [hexp]
    · rw [if_neg hexp, if_neg (by simp [hexp])]
      rfl

/-- What the check of the session accepts. -/
theorem sessionAccepts_iff (hs : s ≠ []) :
    SessionAccepts codec secret token now s ↔
      ∃ exp, Signed codec secret token s exp ∧ (0 < exp → unix now ≤ exp) := by
  -- The result depends on the cookie alone, so one request decides for all.
  have hone : SessionAccepts codec secret token now s ↔
      (match subAndExp codec secret token with
        | none => []
        | some (sub, exp) => if 0 < exp ∧ exp < unix now then [] else sub) = s := by
    constructor
    · intro h
      have hcookie : Request.cookie { cookies := [⟨"vire_session", token⟩] }
          "vire_session" = some token := by simp [Request.cookie]
      exact (extractSessionUserID_answer hcookie now).symm.trans (h _ hcookie)
    · intro h r hr
      rw [extractSessionUserID_answer hr, h]
  rw [hone]
  unfold subAndExp Signed
  cases hverified : verifiedMembers codec secret token with
  | error err => simpa using Ne.symm hs
  | ok members =>
    simp only [Except.ok.injEq, exists_eq_left']
    rcases hsub : stringField "sub" members with _ | sub
    · simpa using Ne.symm hs
    · rcases hexp : int64Field "exp" members with _ | exp
      · simpa using Ne.symm hs
      · simp only [Option.bind_eq_bind, Option.bind_some, Option.pure_def, Option.some.injEq]
        split_ifs with hpast
        · constructor
          · exact fun h => absurd h.symm hs
          · rintro ⟨exp', ⟨-, rfl⟩, hle⟩
            exact absurd (hle hpast.1) (by omega)
        · constructor
          · exact fun h => ⟨exp, ⟨h, rfl⟩, by omega⟩
          · rintro ⟨exp', ⟨h, -⟩, -⟩
            exact h

/-- The three validators agree on a user exactly when a token of that user has a positive `exp`, or
a negative one that is not past. -/
theorem validators_agree_iff (hs : s ≠ []) (htyped : PayloadTyped codec token) :
    Agree codec secret token now s ↔ Dated codec secret token now s := by
  unfold Agree Dated
  rw [browserAccepts_iff htyped, mcpAccepts_iff htyped, sessionAccepts_iff hs]
  constructor
  · rintro ⟨hbrowser, -⟩ exp hsigned
    by_cases hexp : 0 < exp
    · exact .inl hexp
    · -- The MCP endpoint accepts the token, so `ValidateJWT` has to.
      obtain ⟨exp', hsigned', hne, hle⟩ := hbrowser.2 ⟨exp, hsigned, fun h => absurd h hexp⟩
      obtain rfl := hsigned.unique hsigned'
      exact .inr ⟨by omega, hle⟩
  · intro hdated
    refine ⟨?_, Iff.rfl⟩
    constructor
    · rintro ⟨exp, hsigned, -, hle⟩
      exact ⟨exp, hsigned, fun _ => hle⟩
    · rintro ⟨exp, hsigned, hle⟩
      rcases hdated exp hsigned with hpos | ⟨hneg, hle'⟩
      · exact ⟨exp, hsigned, by omega, hle hpos⟩
      · exact ⟨exp, hsigned, by omega, hle'⟩

/-- The payload is well typed if all that is decoded is. -/
theorem payloadTyped_of_unmarshal {members : List (Str × Json)} (h : Typed members)
    (hcodec : ∀ text, codec.unmarshal text = some (.object members)) :
    PayloadTyped codec token := by
  intro header payload signature members' _ hmembers
  unfold payloadMembers at hmembers
  split at hmembers
  · cases hmembers
  · rw [hcodec] at hmembers
    exact Except.ok.inj hmembers ▸ h

/-- The members of alice's token are typed. -/
theorem typed_aliceMembers : Typed aliceMembers := by
  constructor <;>
  · intro name hname
    simp only [List.mem_cons, List.not_mem_nil, or_false] at hname
    rcases hname with rfl | rfl | rfl | rfl | rfl | rfl | rfl <;> exact ⟨_, rfl⟩

/-- The validators agree on the token of Alice, which is dated. -/
theorem validators_agree_alice : ascii "alice" ≠ [] ∧ PayloadTyped aliceCodec aliceToken ∧
    (Agree aliceCodec "k" aliceToken (seconds 60) "alice" ↔
      Dated aliceCodec "k" aliceToken (seconds 60) "alice") := by
  have htyped : PayloadTyped aliceCodec aliceToken := payloadTyped_of_unmarshal typed_aliceMembers
      fun _ => rfl
  exact ⟨by decide, htyped, validators_agree_iff (by decide) htyped⟩

/-- A token with the payload `{"sub":"alice"}`, signed under `k`. -/
def undatedToken : Str := ascii ("eyJhbGciOiJIUzI1NiIsInR5cCI6IkpXVCJ9.eyJzdWIiOiJhbGljZSJ9." ++
  "W9LqiGjOKc4IhIg1mdkybh8jCTN-GHCfPjcHXcbmTkw")

/-- The members of that payload. -/
def undatedMembers : List (Str × Json) := [("sub", .string "alice")]

/-- The functions of the standard library at that token. -/
def undatedCodec : Codec where
  sha256 _ := []
  hmacSHA256 _ _ := [91, 210, 234, 136, 104, 206, 41, 206, 8, 132, 136, 53, 153, 217, 50, 110, 31,
    35, 9, 51, 126, 24, 112, 159, 62, 55, 7, 93, 198, 230, 78, 76]
  unmarshal _ := some (.object undatedMembers)
  marshalClaims _ := []

/-- The members of the undated token are typed. -/
theorem typed_undatedMembers : Typed undatedMembers := by
  constructor <;>
  · intro name hname
    simp only [List.mem_cons, List.not_mem_nil, or_false] at hname
    rcases hname with rfl | rfl | rfl | rfl | rfl | rfl | rfl <;> exact ⟨_, rfl⟩

set_option maxRecDepth 20000 in
/-- Alice's token without `exp` is accepted by the MCP endpoint and the authorize endpoint and
refused by `ValidateJWT`. -/
theorem undated_token : PayloadTyped undatedCodec undatedToken ∧
    Auth.validateJWT undatedCodec "k" undatedToken (seconds 60) = .error .missingExp ∧
    McpAccepts undatedCodec "k" undatedToken (seconds 60) "alice" ∧
    SessionAccepts undatedCodec "k" undatedToken (seconds 60) "alice" ∧
    ¬ Agree undatedCodec "k" undatedToken (seconds 60) "alice" := by
  have hbrowser : Auth.validateJWT undatedCodec "k" undatedToken (seconds 60) =
      .error .missingExp := rfl
  have hmcp : McpAccepts undatedCodec "k" undatedToken (seconds 60)
      "alice" := ⟨⟨"alice", 0, [], [], []⟩, rfl, rfl⟩
  refine ⟨payloadTyped_of_unmarshal typed_undatedMembers fun _ => rfl, hbrowser, hmcp,
    fun r hr => ?_, fun hagree => ?_⟩
  · rw [extractSessionUserID_answer hr]
    rfl
  · obtain ⟨claims, hclaims, -⟩ := hagree.1.2 hmcp
    rw [hbrowser] at hclaims
    cases hclaims

end VirePortal.Mcp.Validators
