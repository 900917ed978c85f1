import VirePortal.Auth.Records
import VirePortal.Go.Encoding

/-!
# The version of vire-server

`version.go`: the fields that vire-server gives for its version, with `unavailable` for a version
that it does not give, the version endpoint of the portal, and the version that its pages show. A
function that panics returns `none`.

The reply is decoded into a variable of type `map[string]string`, which is nil at first. An object
makes a map, `null` leaves the variable as it is, and every other document is an error. The
assignment to the nil map is the only panic (`fetchServerVersionFields_eq_none`).
-/

namespace VirePortal.Server.Version

open Go Auth

/-- What comes of `client.Get`: no reply, or one with its status and its body. -/
inductive Fetched where
  | failed
  | reply (statusCode : ℕ) (body : Str)

/-- What the version depends on. -/
structure Settings where
  /-- The URL of vire-server. -/
  apiURL : Str
  /-- `client.Get`. -/
  get : Str → Fetched
  /-- The first JSON value of a body, `none` if the decoder finds none. -/
  decode : Str → Option Json

/-- A variable of type `map[string]string`, `none` while it is nil. -/
abbrev StringMap := Option (Table Str)

/-- A document decoded into a nil `map[string]string`, `none` for an error. A `null` member is the
empty string. -/
def decodeStringMap : Json → Option StringMap
  | .null => some none
  | .object members => (members.foldlM (fun (m : Table Str) (name, value) =>
      (storeString [] value).map (m.insert name)) ∅).map some
  | _ => none

/-- The assignment to an entry of a map, which panics on a nil map. -/
def StringMap.assign (m : StringMap) (key value : Str) : Option (Table Str) :=
  m.map (·.insert key value)

/-- `m[key]`, the empty string for an entry that is not there. -/
def StringMap.index (m : StringMap) (key : Str) : Str := (m.bind (·.lookup key)).getD []

/-- The fields where vire-server does not give a version. -/
def unavailable : Table Str := AList.insert "version" "unavailable" ∅

variable (cfg : Settings)

/-- `fetchServerVersionFields`. -/
def fetchServerVersionFields : Option (Table Str) :=
  if cfg.apiURL = [] then some unavailable
  else
    match cfg.get (cfg.apiURL ++ "/api/version") with
    | .failed => some unavailable
    | .reply statusCode body =>
      if statusCode ≠ 200 then some unavailable
      else
        match (cfg.decode body).bind decodeStringMap with
        | none => some unavailable
        | some data =>
          if data.index "version" = [] then data.assign "version"
            "unavailable" else data

/-- `GetServerVersion`. -/
def getServerVersion : Option Str := do
  let fields ← fetchServerVersionFields cfg
  match fields.lookup (ascii "version") with
  | some v => return v
  | none => return ascii "unavailable"

/-- What the version endpoint answers. -/
inductive Response where
  | methodNotAllowed
  | ok (fields : Table Str)

/-- `VersionHandler.ServeHTTP`, with the version, the build and the commit of the portal. -/
def serveHTTP (version build commit method : Str) : Option Response :=
  if method = ascii "GET" ∨ method = ascii "HEAD" then do
    let resp : Table Str := (((∅ : Table Str).insert (ascii "portal_version") version).insert
      (ascii "portal_build") build).insert (ascii "portal_commit") commit
    let serverVersion ← fetchServerVersionFields cfg
    return .ok (serverVersion.entries.foldl (fun resp field => resp.insert field.1 field.2) resp)
  else return .methodNotAllowed

variable {cfg}

/-! ### The version -/

/-- vire-server replies with the document `null`. -/
def RepliesNull (cfg : Settings) : Prop :=
  cfg.apiURL ≠ [] ∧ ∃ body, cfg.get (cfg.apiURL ++ "/api/version") = .reply 200 body ∧
    cfg.decode body = some .null

/-- Only `null` decodes to a nil map. -/
theorem decodeStringMap_eq_nil {doc : Json} : decodeStringMap doc = some none ↔ doc = .null := by
  cases doc with
  | object members => simp [decodeStringMap]
  | null | bool _ | number _ | string _ | array _ => simp [decodeStringMap]

/-- A reply of status 200 is decoded into a nil map exactly if it is `null`. -/
theorem decoded_eq_nil {body : Str} :
    (cfg.decode body).bind decodeStringMap = some none ↔ cfg.decode body = some .null := by
  rw [Option.bind_eq_some_iff]
  constructor
  · rintro ⟨doc, hdoc, hnil⟩
    rw [hdoc, decodeStringMap_eq_nil.1 hnil]
  · intro hnull
    exact ⟨.null, hnull, rfl⟩

/-- The fields of a document that could be decoded. -/
def completed (data : StringMap) : Option (Table Str) :=
  if data.index "version" = [] then data.assign "version"
    "unavailable" else data

/-- A nil map stays one. -/
theorem completed_eq_none {data : StringMap} : completed data = none ↔ data = none := by
  cases data with
  | none => exact iff_of_true rfl rfl
  | some fields =>
    refine iff_of_false ?_ (Option.some_ne_none fields)
    by_cases hempty : StringMap.index (some fields) "version" = []
    · rw [completed, if_pos hempty]
      exact Option.some_ne_none _
    · rw [completed, if_neg hempty]
      exact Option.some_ne_none _

/-- A completed map has a version. -/
theorem version_of_completed {data : StringMap} {fields : Table Str}
    (h : completed data = some fields) :
    ∃ v, fields.lookup (ascii "version") = some v ∧ v ≠ [] := by
  unfold completed at h
  split_ifs at h with hempty
  · obtain ⟨old, -, rfl⟩ := Option.map_eq_some_iff.1 h
    exact ⟨"unavailable", AList.lookup_insert old, by decide⟩
  · rw [h, StringMap.index, Option.bind_some] at hempty
    cases hlookup : fields.lookup (ascii "version") with
    | none =>
      rw [hlookup] at hempty
      exact absurd rfl hempty
    | some v =>
      rw [hlookup] at hempty
      exact ⟨v, rfl, hempty⟩

/-- The reply is the one of status 200 with this body. -/
theorem repliesNull_of_get {statusCode : ℕ} {body : Str} (hurl : cfg.apiURL ≠ [])
    (hget : cfg.get (cfg.apiURL ++ "/api/version") = .reply statusCode body) :
    RepliesNull cfg ↔ statusCode = 200 ∧ (cfg.decode body).bind decodeStringMap = some none := by
  rw [decoded_eq_nil, RepliesNull, hget]
  constructor
  · rintro ⟨-, body', hreply, hnull⟩
    obtain ⟨rfl, rfl⟩ := Fetched.reply.inj hreply
    exact ⟨rfl, hnull⟩
  · rintro ⟨rfl, hnull⟩
    exact ⟨hurl, body, rfl, hnull⟩

/-- What `fetchServerVersionFields` returns: the version as unavailable, or the fields of a
document. -/
theorem fetchServerVersionFields_cases (cfg : Settings) :
    (¬ RepliesNull cfg ∧ fetchServerVersionFields cfg = some unavailable) ∨
      ∃ data, (data = none ↔ RepliesNull cfg) ∧ fetchServerVersionFields cfg = completed data := by
  unfold fetchServerVersionFields
  split_ifs with hurl
  · exact .inl ⟨fun h => h.1 hurl, rfl⟩
  · cases hget : cfg.get (cfg.apiURL ++ "/api/version") with
    | failed =>
      refine .inl ⟨?_, rfl⟩
      rintro ⟨-, body, hreply, -⟩
      rw [hget] at hreply
      cases hreply
    | reply statusCode body =>
      have hiff := repliesNull_of_get hurl hget
      -- A document is only read from a reply 200.
      by_cases hstatus : statusCode = 200
      · simp only [hstatus, ne_eq, not_true_eq_false, if_false]
        cases hdoc : (cfg.decode body).bind decodeStringMap with
        | none =>
          rw [hdoc] at hiff
          exact .inl ⟨fun h => absurd (hiff.1 h).2.symm (Option.some_ne_none _), rfl⟩
        | some data =>
          rw [hdoc, Option.some.injEq] at hiff
          exact .inr ⟨data, ⟨fun h => hiff.2 ⟨hstatus, h⟩, fun h => (hiff.1 h).2⟩, rfl⟩
      · simp only [ne_eq, hstatus, not_false_iff, if_true]
        exact .inl ⟨fun h => hstatus (hiff.1 h).1, trivial⟩

/-- The only panic. -/
theorem fetchServerVersionFields_eq_none :
    fetchServerVersionFields cfg = none ↔ RepliesNull cfg := by
  obtain ⟨hnot, heq⟩ | ⟨data, hnil, heq⟩ := fetchServerVersionFields_cases cfg
  · rw [heq]
    exact iff_of_false (Option.some_ne_none _) hnot
  · rw [heq, completed_eq_none, hnil]

/-- The version that is returned is not empty. -/
theorem version_of_fetch {fields : Table Str} (h : fetchServerVersionFields cfg = some fields) :
    ∃ v, fields.lookup (ascii "version") = some v ∧ v ≠ [] := by
  obtain ⟨-, heq⟩ | ⟨data, -, heq⟩ := fetchServerVersionFields_cases cfg
  · rw [heq] at h
    rw [← Option.some.inj h]
    exact ⟨"unavailable", AList.lookup_insert _, by decide⟩
  · exact version_of_completed (heq.symm.trans h)

/-- There is a version, and no page panics, exactly if vire-server does not reply with `null`. The
endpoint panics exactly for that reply to a `GET` or a `HEAD`. -/
theorem version_available (cfg : Settings) :
    ((∃ fields v, fetchServerVersionFields cfg = some fields ∧ fields.lookup (ascii "version") =
        some v ∧ v ≠ []) ↔
        ¬ RepliesNull cfg) ∧
      ((∃ v, getServerVersion cfg = some v ∧ v ≠ []) ↔ ¬ RepliesNull cfg) ∧
      ∀ version build commit method, (serveHTTP cfg version build commit method).isSome = true ↔
        (method = ascii "GET" ∨ method = ascii "HEAD" → ¬ RepliesNull cfg) := by
  rw [← fetchServerVersionFields_eq_none]
  cases hfields : fetchServerVersionFields cfg with
  | none => simp [getServerVersion, serveHTTP, hfields]
  | some fields =>
    obtain ⟨v, hlookup, hne⟩ := version_of_fetch hfields
    have hsome := Option.some_ne_none fields
    refine ⟨iff_of_true ⟨fields, v, rfl, hlookup, hne⟩ hsome, iff_of_true ⟨v, ?_, hne⟩ hsome, ?_⟩
    · rw [getServerVersion, hfields]
      simp [hlookup]
    · intro version build commit method
      refine iff_of_true ?_ fun _ => hsome
      rw [serveHTTP, hfields]
      split_ifs <;> rfl

/-- A vire-server that replies with the text, read by a decoder that knows two documents. -/
def sampleSettings (body : String) : Settings where
  apiURL := "http://v"
  get _ := .reply 200 (ascii body)
  decode text :=
    if text = "null" then some .null
    else if text = "\x7b\"version\":\"1.2\"\x7d" then
      some (.object [("version", .string "1.2")])
    else none

/-- The version of a document. -/
theorem version_available_document :
    ¬ RepliesNull (sampleSettings "\x7b\"version\":\"1.2\"\x7d") ∧
      ∃ v, getServerVersion (sampleSettings "\x7b\"version\":\"1.2\"\x7d") = some v ∧ v ≠ [] := by
  have hnot : ¬ RepliesNull (sampleSettings "\x7b\"version\":\"1.2\"\x7d") := by
    rw [repliesNull_of_get (by decide) rfl]
    rintro ⟨-, hnil⟩
    cases hnil
  exact ⟨hnot, (version_available _).2.1.2 hnot⟩

/-- The reply `null` makes the endpoint and the pages panic. -/
theorem version_fails_null :
    (sampleSettings "null").get (ascii "http://v/api/version") = .reply 200 (ascii "null") ∧
      fetchServerVersionFields (sampleSettings "null") = none ∧
        getServerVersion (sampleSettings "null") = none ∧
      serveHTTP (sampleSettings "null") [] [] [] (ascii "GET") = none :=
  ⟨rfl, rfl, rfl, rfl⟩

end VirePortal.Server.Version
