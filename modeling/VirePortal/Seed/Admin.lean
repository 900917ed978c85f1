import VirePortal.Auth.Backend
import VirePortal.Concurrent.Pool
import VirePortal.Go.RoundTrip

/-!
# Admin sync

`SyncAdmins` of `admin.go`: it lists the users of vire-server and gives the role `admin` to those
whose email is in the configured list, in up to three attempts. The state is vire-server's table of
users, which any number of portals change at once. A request is one operation, and what becomes of
it is decided by the environment (`Exchange`): it may not arrive, and its reply may be lost,
unreadable or an error.

`strings.ToLower` is a function that the definitions take as an argument. A role update names its
user by the path of its URL, and vire-server finds the user as it routes that URL (`roleKey`). Users
may join at any time.
-/

namespace VirePortal.Seed

open Go Auth Concurrent

/-- `seedRetryAttempts`. -/
def seedRetryAttempts : ℕ := 3

/-- `client.AdminUser`, the fields that the sync reads. -/
structure AdminUser where
  id : Str
  email : Str
  role : Str
  deriving DecidableEq

/-- The requests of the sync. -/
inductive SeedOp where
  | adminListUsers (serviceID : Str)
  | adminUpdateUserRole (serviceID userID role : Str)
  deriving DecidableEq

/-- What the sync receives: the users or an error, and an error or `nil`. -/
@[reducible]
def SeedReply : SeedOp → Type
  | .adminListUsers _ => Except Str (List AdminUser)
  | .adminUpdateUserRole _ _ _ => Option Str

/-- What becomes of a request. -/
structure Exchange where
  /-- It arrives, and vire-server accepts it. -/
  arrives : Bool
  /-- The reply comes back with the status 200 and can be read. -/
  replied : Bool
  /-- The text of the error otherwise. -/
  err : Str

/-- The URL of `AdminUpdateUserRole`, `none` when `http.NewRequest` refuses it. -/
def roleURL (b : Base) (userID : Str) : Option URL :=
  URL.parse (b.apiURL ++ "/api/admin/users/" ++ userID ++ "/role")

/-- The segments before the id are plain. -/
theorem before_plain (b : Base) :
    ∀ x ∈ b.segments ++ [ascii "api", ascii "admin", ascii "users"], PlainSegment x := by
  have hfixed : ∀ x ∈ [ascii "api", ascii "admin", ascii "users"], PlainSegment x := by decide
  intro x hx
  rcases List.mem_append.1 hx with hx | hx
  · exact b.plain x hx
  · exact hfixed x hx

/-- The segment behind the id is plain. -/
theorem after_plain : ∀ x ∈ [ascii "role"], PlainSegment x := by decide

/-- The form of that URL. -/
def roleTemplate (b : Base) : PathTemplate :=
  ⟨b.origin, b.segments ++ [ascii "api", ascii "admin", ascii "users"], [ascii "role"],
    before_plain b, after_plain⟩

/-- The id of the user that the request for an id is about, as vire-server routes it. -/
def roleKey (b : Base) (userID : Str) : Option Str := (roleURL b userID).bind (roleTemplate b).key

/-- The role of one user set. -/
def setRole (id role : Str) (users : List AdminUser) : List AdminUser :=
  users.map fun u => if u.id = id then { u with role := role } else u

/-- What a request replies and does. An update of nobody is an error of vire-server. -/
def seedExec (b : Base) : (o : SeedOp) → Exchange → List AdminUser → SeedReply o × List AdminUser
  | .adminListUsers _, x, users =>
    if x.arrives && x.replied then (.ok users, users) else (.error x.err, users)
  | .adminUpdateUserRole _ userID role, x, users =>
    match roleKey b userID with
    | none => (some x.err, users)
    | some id =>
      if x.arrives then
        if id ∈ users.map AdminUser.id then
          (if x.replied then none else some x.err, setRole id role users)
        else (some x.err, users)
      else (some x.err, users)

/-- A program of the sync. -/
abbrev SeedProg := Prog SeedOp SeedReply

/-- `VireClient.AdminListUsers`. -/
def adminListUsers (serviceID : Str) : SeedProg (Except Str (List AdminUser)) :=
  .call (SeedOp.adminListUsers serviceID)

/-- `VireClient.AdminUpdateUserRole`. -/
def adminUpdateUserRole (serviceID userID role : Str) : SeedProg (Option Str) :=
  .call (SeedOp.adminUpdateUserRole serviceID userID role)

/-- The map from the lower-case emails to the users. -/
def emailToUser (toLower : Str → Str) (users : List AdminUser) : Table AdminUser :=
  users.foldl (fun m u => m.insert (toLower u.email) u) ∅

/-- The counters of the loop over the emails, and its last error. -/
structure Tally where
  updated : ℕ := 0
  notFound : ℕ := 0
  failed : ℕ := 0
  lastErr : Option Str := none

/-- The loop over the emails. -/
def updateLoop (toLower : Str → Str) (serviceUserID : Str) (users : Table AdminUser) :
    List Str → Tally → SeedProg Tally
  | [], t => pure t
  | email :: rest, t =>
    match users.lookup (toLower email) with
    | none => updateLoop toLower serviceUserID users rest { t with notFound := t.notFound + 1 }
    | some user =>
      if user.role = "admin" then updateLoop toLower serviceUserID users rest t
      else do
        match ← adminUpdateUserRole serviceUserID user.id "admin" with
        | some err =>
          updateLoop toLower serviceUserID users rest
            { t with failed := t.failed + 1, lastErr := some err }
        | none => updateLoop toLower serviceUserID users rest { t with updated := t.updated + 1 }

/-- The error that an attempt returns after its loop. -/
def Tally.result (t : Tally) : Option Str :=
  t.lastErr.map fun err =>
    "admin sync: " ++ formatNat t.failed ++ " update(s) failed, last error: " ++ err

/-- `syncAdminsOnce`. -/
def syncAdminsOnce (toLower : Str → Str) (adminEmails : List Str) (serviceUserID : Str) :
    SeedProg (Option Str) := do
  match ← adminListUsers serviceUserID with
  | .error err => pure (some err)
  | .ok users =>
    let t ← updateLoop toLower serviceUserID (emailToUser toLower users) adminEmails {}
    pure t.result

/-- How a call of `SyncAdmins` ends: there are no emails, an attempt returned `nil`, or all failed,
the last one with this error. -/
inductive SyncResult where
  | skipped
  | synced
  | failed (err : Str)
  deriving DecidableEq

/-- The loop of `syncAdminsWithRetry`, with the attempts that are left and the last error. -/
def retryLoop (toLower : Str → Str) (adminEmails : List Str) (serviceUserID : Str) :
    ℕ → Str → SeedProg SyncResult
  | 0, err => pure (.failed err)
  | attempts + 1, _ => do
    match ← syncAdminsOnce toLower adminEmails serviceUserID with
    | none => pure .synced
    | some err => retryLoop toLower adminEmails serviceUserID attempts err

/-- `syncAdminsWithRetry`. -/
def syncAdminsWithRetry (toLower : Str → Str) (adminEmails : List Str) (serviceUserID : Str) :
    SeedProg SyncResult :=
  retryLoop toLower adminEmails serviceUserID seedRetryAttempts []

/-- `SyncAdmins`. -/
def syncAdmins (toLower : Str → Str) (adminEmails : List Str) (serviceUserID : Str) :
    SeedProg SyncResult :=
  if adminEmails.length = 0 then pure .skipped
  else syncAdminsWithRetry toLower adminEmails serviceUserID

/-- The portals with one list of emails. A call is a portal's service user, an event of the
environment is a user who joins, and a crash ends all portals and none of the users. -/
def seedSystem (b : Base) (toLower : Str → Str) (adminEmails : List Str) :
    System SeedOp SeedReply (List AdminUser) Exchange AdminUser Str SyncResult where
  exec := seedExec b
  handle := syncAdmins toLower adminEmails
  env u users := users ++ [u]
  crash := id

end VirePortal.Seed
