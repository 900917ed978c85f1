import VirePortal.Go.Templates
import VirePortal.Auth.Stores

/-!
# The backend as its URLs address it

`backend.go` puts the id of a record into the URL of a request as it is. `Endpoint.key` is the key
of the record that a URL names when it is routed as a server routes it, and `addressed_iff` says for
which ids this is the id itself (`Sound`). The other modules let a request for an id act on the
record of that id; `routed` is what the requests do when their URLs are taken at their word.
-/

namespace VirePortal.Auth

open Go

/-- The `apiURL` of a backend: an origin, and a path of plain segments. -/
structure Base where
  origin : Origin
  segments : List Str
  plain : ∀ x ∈ segments, PlainSegment x

/-- `OAuthBackend.apiURL`. -/
def Base.apiURL (b : Base) : Str := b.origin.string ++ slashed b.segments

/-- The requests of `OAuthBackend` that name a record by an id. -/
inductive Endpoint where
  | getSession
  | getSessionByClientID
  | deleteSession
  | getClient
  | getCode
  | markCodeUsed
  deriving DecidableEq

namespace Endpoint

/-- The path of the request, as `fmt.Sprintf` makes it from the id. -/
def path : Endpoint → Str → Str
  | .getSession, sessionID => "/api/internal/oauth/sessions/" ++ sessionID
  | .getSessionByClientID, clientID => "/api/internal/oauth/sessions?client_id=" ++ clientID
  | .deleteSession, sessionID => "/api/internal/oauth/sessions/" ++ sessionID
  | .getClient, clientID => "/api/internal/oauth/clients/" ++ clientID
  | .getCode, code => "/api/internal/oauth/codes/" ++ code
  | .markCodeUsed, code => "/api/internal/oauth/codes/" ++ code ++ "/used"

/-- The URL of the request, `none` when `http.NewRequest` refuses it. -/
def url (e : Endpoint) (b : Base) (id : Str) : Option URL := URL.parse (b.apiURL ++ e.path id)

/-- The name of the collection that the request is about. -/
def collection : Endpoint → Str
  | .getSession | .getSessionByClientID | .deleteSession => "sessions"
  | .getClient => "clients"
  | .getCode | .markCodeUsed => "codes"

/-- What the path has after the id. -/
def after : Endpoint → List Str
  | .markCodeUsed => ["used"]
  | _ => []

/-- The segments in front of the id. -/
def before (e : Endpoint) (b : Base) : List Str :=
  b.segments ++ [ascii "api", ascii "internal", ascii "oauth", e.collection]

/-- The segments before the id are plain. -/
theorem before_plain (e : Endpoint) (b : Base) : ∀ x ∈ e.before b, PlainSegment x := by
  have hfixed : ∀ x ∈ [ascii "api", ascii "internal", ascii "oauth", e.collection],
      PlainSegment x := by
    cases e <;> decide
  intro x hx
  rcases List.mem_append.1 hx with hx | hx
  · exact b.plain x hx
  · exact hfixed x hx

/-- The segments behind the id are plain. -/
theorem after_plain (e : Endpoint) : ∀ x ∈ e.after, PlainSegment x := by
  cases e <;> decide

/-- The form of the URL when the id is a segment of its path. -/
def pathTemplate (e : Endpoint) (b : Base) : PathTemplate :=
  ⟨b.origin, e.before b, e.after, e.before_plain b, e.after_plain⟩

/-- The form of the URL when the id is the value of its query. -/
def queryTemplate (e : Endpoint) (b : Base) : QueryTemplate :=
  ⟨b.origin, e.before b, ascii "client_id", by simp [before], e.before_plain b, by decide⟩

/-- The key of the record that a URL names, as the backend routes it. -/
def key (e : Endpoint) (b : Base) : URL → Option Str :=
  match e with
  | .getSessionByClientID => (queryTemplate .getSessionByClientID b).key
  | e => (e.pathTemplate b).key

/-- The key of the record that the request for an id names. -/
def address (e : Endpoint) (b : Base) (id : Str) : Option Str := (e.url b id).bind (e.key b)

end Endpoint

/-- The request fails, or names the record of the id. -/
def Addressed (b : Base) (e : Endpoint) (id : Str) : Prop :=
  e.url b id = none ∨ e.address b id = some id

/-- The id is refused, or stands for itself. In a path it has to be one segment: not empty, not
dots, and with none of `#`, `%`, `/` and `?`. In a query it has to be one value: with none of `#`,
`%`, `&`, `+` and `;`. -/
def Sound : Endpoint → Str → Prop
  | .getSessionByClientID, id => QueryTemplate.Refused id ∨ OneValue id
  | _, id => Refused id ∨ OneSegment id

/-- The path of a request is that of its form. -/
theorem apiURL_append_path (b : Base) {e : Endpoint} (he : e ≠ .getSessionByClientID) (id : Str) :
    b.apiURL ++ e.path id = (e.pathTemplate b).fill id := by
  have hpath : e.path id = slashed [ascii "api", ascii "internal", ascii "oauth", e.collection] ++
      47 :: (id ++ slashed e.after) := by
    cases e with
    | getSessionByClientID => exact absurd rfl he
    | getSession | deleteSession | getClient | getCode =>
      show _ = _ ++ 47 :: (id ++ [])
      rw [List.append_nil]
      rfl
    | markCodeUsed => rfl
  rw [hpath]
  simp [Base.apiURL, PathTemplate.fill, PathTemplate.lead, Endpoint.pathTemplate, Endpoint.before,
    slashed]

/-- The URL of a lookup by client fills a query. -/
theorem apiURL_append_query (b : Base) (id : Str) :
    b.apiURL ++ Endpoint.path .getSessionByClientID id =
      (Endpoint.queryTemplate .getSessionByClientID b).fill id := by
  have hpath : Endpoint.path .getSessionByClientID id =
      slashed ["api", "internal", "oauth", "sessions"] ++
        (63 :: (ascii "client_id" ++ [61]) ++ id) := rfl
  rw [hpath]
  simp [Base.apiURL, QueryTemplate.fill, QueryTemplate.lead, Endpoint.queryTemplate,
    Endpoint.before, Endpoint.collection, slashed]

/-- The ids for which a request fails or names the record of the id. -/
theorem addressed_iff (b : Base) (e : Endpoint) (id : Str) : Addressed b e id ↔ Sound e id := by
  unfold Addressed Endpoint.address Endpoint.url
  by_cases he : e = .getSessionByClientID
  · subst he
    rw [apiURL_append_query]
    exact (Endpoint.queryTemplate .getSessionByClientID b).addressed_iff id
  · have hkey : e.key b = (e.pathTemplate b).key := by
      cases e <;> first | rfl | exact absurd rfl he
    have hsound : Sound e id ↔ Refused id ∨ OneSegment id := by
      cases e <;> first | exact Iff.rfl | exact absurd rfl he
    rw [hkey, hsound, apiURL_append_path b he]
    exact (e.pathTemplate b).addressed_iff id

/-- The two requests about codes name the same record. -/
theorem Addressed.markCodeUsed {b : Base} {code : Str} (h : Addressed b .getCode code) :
    Addressed b .markCodeUsed code :=
  (addressed_iff b .markCodeUsed code).2 ((addressed_iff b .getCode code).1 h)

/-- The change `f` at the key that a request names, if it names one. -/
def atKey (k : Option Str) (f : Str → Stores → Stores) (d : Stores) : Stores :=
  match k with
  | some k => f k d
  | none => d

/-- What an operation replies and does when its request to the backend is routed by its URL: a write
for an id goes to the record that its URL names. -/
def routed (b : Base) : (o : Op) → Env → State → Reply o × State
  | .sessionsDelete sessionID, e, s =>
    ((), (s.updateMem fun m => { m with sessions := m.sessions.erase sessionID }).updateDb
      true e.write (atKey (Endpoint.deleteSession.address b sessionID) fun k d =>
        { d with sessions := d.sessions.erase k }))
  | .codesMarkUsed code, e, s =>
    ((), (s.updateMem fun m => { m with codes := setUsed code m.codes }).updateDb true e.write
      (atKey (Endpoint.markCodeUsed.address b code) fun k d =>
        { d with codes := setUsed k d.codes }))
  | .markCodeUsed code, e, s =>
    ((), s.updateDb true e.write
      (atKey (Endpoint.markCodeUsed.address b code) fun k d =>
        { d with codes := setUsed k d.codes }))
  | o, e, s => exec true o e s

/-- The reply `r` to a read for an id, by a backend with the records `t`: an error, or what is
stored under the key that the URL names. About a URL that names no key of the collection nothing is
said. -/
def Answers {V : Type} (b : Base) (e : Endpoint) (id : Str) (r : ReadReply V)
    (t : Table V) : Prop :=
  r = .failed ∨ e.url b id ≠ none ∧ ∀ k, e.address b id = some k → r = .of (t.lookup k)

/-- What a read for an addressed id found is the record of the id. -/
theorem Answers.lookup {V : Type} {b : Base} {e : Endpoint} {id : Str} {r : ReadReply V}
    {t : Table V} (h : Answers b e id r t) (hid : Addressed b e id) {v : V} (hr : r = .found v) :
    t.lookup id = some v := by
  rcases h with hfailed | ⟨hurl, hkey⟩
  · rw [hr] at hfailed
    cases hfailed
  · have haddress := hkey id (hid.resolve_left hurl)
    rw [hr] at haddress
    exact ReadReply.of_eq_found.1 haddress.symm

end VirePortal.Auth
