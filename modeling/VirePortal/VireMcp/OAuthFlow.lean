import VirePortal.Concurrent.Dialogue
import VirePortal.Go.Http
import VirePortal.Go.RoundTrip

/-!
# The OAuth flow of `vire-mcp`

`main` configures the OAuth client with a redirect URI and passes a port for the callback server to
`connectWithOAuth`, which runs `doOAuthFlow` when the portal demands it. `doOAuthFlow` starts the
callback server, opens the browser and waits for the first callback or for the deadline. The
functions are those of `main.go` and `oauth.go`.

`doOAuthFlow` is a program over the calls that it makes. `World` runs it with everything around it:
the goroutine of the callback server, which may fail to bind its address, the requests that reach
the server, each of which sends its result on the channel, and the deadline. Of the OAuth handler
the world knows that it rejects a state other than the expected one. Its other replies, and those of
the portal and of the platform, are the environment's.
-/

namespace VirePortal.VireMcp

open Go Concurrent

/-! ### Configuration -/

/-- `fmt.Sprintf("127.0.0.1:%d", port)`, the address of the callback server. -/
def callbackAddr (port : ℕ) : Str := "127.0.0.1:" ++ formatNat port

/-- What `main` configures for OAuth. -/
structure Setup where
  redirectURI : Str
  callbackPort : ℕ
  deriving DecidableEq

/-- `main`, from the results of its two calls of `findFreePort`, `none` where it exits. The error of
the second call is not looked at, and the port is zero then. -/
def main (first second : Except Str ℕ) : Option Setup :=
  match first with
  | .error _ => none
  | .ok callbackPort =>
    some
      { redirectURI := "http://127.0.0.1:" ++ formatNat callbackPort ++ "/callback"
        callbackPort := match second with
          | .ok port => port
          | .error _ => 0 }

/-! ### The callback -/

/-- `callbackResult`. -/
structure CallbackResult where
  code : Str := []
  state : Str := []
  err : Option Str := none
  deriving DecidableEq

/-- What the handler of `/callback` sends for the parameters `q`. -/
def callbackResult (q : Values) : CallbackResult :=
  let errCode := q.get "error"
  if errCode ≠ [] then { err := some (errCode ++ ": " ++ q.get "error_description") }
  else { code := q.get "code", state := q.get "state" }

/-! ### `doOAuthFlow` -/

/-- What ends the wait for the callback: a result from the channel, or the deadline. -/
inductive Wakeup where
  | result (r : CallbackResult)
  | done
  deriving DecidableEq

/-- The calls of `doOAuthFlow`: those of the OAuth handler, the callback server, the portal, the
browser, and the wait. -/
inductive Op where
  | getServerMetadata
  | getClientID
  | registerClient (name : Str)
  | generateCodeVerifier
  | generateCodeChallenge (codeVerifier : Str)
  | generateState
  | setExpectedState (state : Str)
  | getAuthorizationURL (state codeChallenge : Str)
  | startCallbackServer (port : ℕ)
  | postForm (url : Str) (form : Values)
  | openBrowser (url : Str)
  | wait
  | processAuthorizationResponse (code state codeVerifier : Str)
  | close

/-- The replies. An error is its text. -/
abbrev Reply : Op → Type
  | .getServerMetadata => Option Str
  | .getClientID => Str
  | .registerClient _ => Option Str
  | .generateCodeVerifier => Except Str Str
  | .generateCodeChallenge _ => Str
  | .generateState => Except Str Str
  | .setExpectedState _ => Unit
  | .getAuthorizationURL _ _ => Except Str Str
  | .startCallbackServer _ => Unit
  | .postForm _ _ => Except Str ℕ
  | .openBrowser _ => Option Str
  | .wait => Wakeup
  | .processAuthorizationResponse _ _ _ => Option Str
  | .close => Unit

/-- Programs over these calls. -/
abbrev M := Prog Op Reply

/-- One call. -/
def perform (o : Op) : M (Reply o) := .call o

/-- `prepareAuthSession`, and whether it returns no error. -/
def prepareAuthSession (authURL : Str) : M Bool :=
  match URL.parse authURL with
  | none => return false
  | some parsed => do
    let baseURL := parsed.scheme ++ "://" ++ parsed.host
    match ← perform (.postForm (baseURL ++ "/authorize") parsed.query) with
    | .error _ => return false
    | .ok status => return status = 200

/-- The URL that the browser opens when the session was prepared. -/
def browserURL (authURL : Str) : Str :=
  match URL.parse authURL with
  | none => authURL
  | some parsed => parsed.scheme ++ "://" ++ parsed.host ++ "/authorize?client_id=" ++
      queryEscape (parsed.query.get "client_id")

/-- The registration of a client that has no id yet. -/
def registerIfNeeded : M (Option Str) := do
  let clientID ← perform .getClientID
  if clientID = [] then perform (.registerClient "vire-mcp") else return none

/-- `doOAuthFlow` up to its wait: the code verifier, or the error that it returns. -/
def requestAuthorization (callbackPort : ℕ) : M (Except Str Str) := do
  match ← perform .getServerMetadata with
  | some err => return .error ("metadata discovery: " ++ err)
  | none =>
    match ← registerIfNeeded with
    | some err => return .error ("client registration: " ++ err)
    | none =>
      match ← perform .generateCodeVerifier with
      | .error err => return .error ("PKCE verifier: " ++ err)
      | .ok codeVerifier =>
        let codeChallenge ← perform (.generateCodeChallenge codeVerifier)
        match ← perform .generateState with
        | .error err => return .error ("state generation: " ++ err)
        | .ok state =>
          let () ← perform (.setExpectedState state)
          match ← perform (.getAuthorizationURL state codeChallenge) with
          | .error err => return .error ("authorization URL: " ++ err)
          | .ok authURL =>
            let () ← perform (.startCallbackServer callbackPort)
            let prepared ← prepareAuthSession authURL
            let _ ← perform (.openBrowser (if prepared then browserURL authURL else authURL))
            return .ok codeVerifier

/-- What `doOAuthFlow` returns after the exchange of a code. -/
def exchangeOutcome (reply : Option Str) : Option Str := reply.map ("token exchange: " ++ ·)

/-- What follows the wait of `doOAuthFlow`: the error that it returns, or `none`. -/
def resume (codeVerifier : Str) : Wakeup → M (Option Str)
  | .result ⟨_, _, some err⟩ => return some ("callback: " ++ err)
  | .result ⟨code, state, none⟩ => do
    let reply ← perform (.processAuthorizationResponse code state codeVerifier)
    return exchangeOutcome reply
  | .done => return some "authorization timed out"

/-- The wait and the deferred `srv.Close()`. -/
def finish (codeVerifier : Str) : M (Option Str) := do
  let wakeup ← perform .wait
  let err ← resume codeVerifier wakeup
  let () ← perform .close
  return err

/-- `doOAuthFlow`. -/
def doOAuthFlow (callbackPort : ℕ) : M (Option Str) := do
  match ← requestAuthorization callbackPort with
  | .error err => return some err
  | .ok codeVerifier => finish codeVerifier

/-! ### The world -/

/-- The callback server: not started, started with its port and about to bind it, serving at an
address, stopped because it could not bind, or closed. -/
inductive Listener where
  | idle
  | starting (port : ℕ)
  | listening (addr : Str)
  | failed
  | closed
  deriving DecidableEq

/-- A run of `doOAuthFlow` with what is around it. -/
structure World where
  /-- What is left of the flow. -/
  flow : M (Option Str)
  /-- The calls of the flow so far, with their replies. -/
  trace : List ((o : Op) × Reply o) := []
  listener : Listener := .idle
  /-- The results that were sent on the channel and not received. The first is in its buffer, the
  handlers of the others wait for room. -/
  codeCh : List CallbackResult := []
  /-- All results that were sent. -/
  delivered : List CallbackResult := []
  /-- The state that the OAuth handler expects. -/
  expectedState : Str := []
  /-- Whether the deadline has passed. -/
  expired : Bool := false

namespace World

/-- The flow that `main` comes to. -/
def start (s : Setup) : World := { flow := doOAuthFlow s.callbackPort }

/-- One call of the flow, with what the environment replies. It is `none` while the wait goes on: if
both the channel and the deadline are ready, the environment chooses. -/
def exec (w : World) : (o : Op) → Reply o → Option (Reply o × World)
  | .setExpectedState state, _ => some ((), { w with expectedState := state })
  | .startCallbackServer port, _ => some ((), { w with listener := .starting port })
  | .wait, .done => if w.expired then some (.done, w) else none
  | .wait, .result _ =>
    match w.codeCh with
    | [] => none
    | result :: rest => some (.result result, { w with codeCh := rest })
  | .processAuthorizationResponse _ state _, reply =>
    some (if state = w.expectedState then reply else some (Option.getD reply []), w)
  | .close, _ => some ((), { w with listener := .closed })
  | _, reply => some (reply, w)

/-- What happens next: the flow makes its next call, the server's goroutine binds its address or
fails to, a request reaches an address, or the deadline passes. A server at port zero is given a
free port. -/
inductive Label where
  | flow (reply : (o : Op) → Reply o)
  | listen (bound : Bool) (free : ℕ)
  | visit (addr : Str) (r : Request)
  | expire

/-- One step. -/
def step (w : World) : Label → World
  | .flow reply =>
    match w.flow with
    | .ret _ => w
    | .op o k =>
      match w.exec o (reply o) with
      | none => w
      | some (r, w') => { w' with flow := k r, trace := w.trace ++ [⟨o, r⟩] }
  | .listen bound free =>
    match w.listener with
    | .starting port =>
      { w with
        listener := if bound then .listening (callbackAddr (if port = 0 then free else port))
          else .failed }
    | _ => w
  | .visit addr r =>
    if w.listener = .listening addr ∧ r.url.path = "/callback" then
      { w with codeCh := w.codeCh ++ [callbackResult r.query]
               delivered := w.delivered ++ [callbackResult r.query] }
    else w
  | .expire => { w with expired := true }

/-- A run. -/
def run (w : World) (ls : List Label) : World := ls.foldl step w

/-- The flow is in its wait. -/
def Waiting (w : World) : Prop := ∃ k, w.flow = .op .wait k

/-- What the flow returned. -/
def outcome? (w : World) : Option (Option Str) :=
  match w.flow with
  | .ret err => some err
  | .op _ _ => none

/-- The flow received a result, so it was not the deadline that ended its wait. -/
def TookResult (w : World) : Prop := ∃ result, ⟨.wait, .result result⟩ ∈ w.trace

/-- The flow had the OAuth handler exchange the code, with the state that it expects, and returned
what came of it. -/
def Exchanged (w : World) (code : Str) : Prop :=
  ∃ codeVerifier reply, ⟨.processAuthorizationResponse code w.expectedState codeVerifier, reply⟩ ∈
    w.trace ∧ w.flow = .ret (exchangeOutcome reply)

end World

/-- The browser follows a redirect to the configured URI with a code and a state. -/
structure Redirected (redirectURI code state addr : Str) (r : Request) : Prop where
  target : ∃ u, URL.parse redirectURI = some u ∧ addr = u.host ∧ r.url.path = u.path
  no_error : r.query.get "error" = []
  code : r.query.get "code" = code
  state : r.query.get "state" = state

end VirePortal.VireMcp
