import VirePortal.Go.Forms

/-!
# The middleware chain

`middleware.go`: the handlers that every request passes on its way to the router. `withMiddleware`
applies them in reverse order, so a request meets the correlation id, the log, the security headers,
CORS, the CSRF check, the limit on the body and the recovery from panics, in this order.

The CSRF check looks for its token in the form of the request when there is none in the header, and
that is before the body has a limit. So a request whose form is in the body is read there without
the limit of the chain (`FormInBody`), and only such a request is (`body_limit`). The body of a
request that the server passes on is never nil.
-/

namespace VirePortal.Server.Middleware

open Go Concurrent

/-- What has been written to the response. The status is 0 while none is written. -/
structure Writer where
  header : Header := []
  status : ℕ := 0
  body : Str := []

/-- The response of a handler, and whether it panicked. -/
structure Outcome where
  writer : Writer
  panicked : Bool := false

/-- `http.Handler`: what is written so far and the request. -/
abbrev Handler := Writer → Incoming → Serving Outcome

/-- `w.Header().Set`. -/
def Writer.set (w : Writer) (key value : Str) : Writer :=
  { w with header := w.header.set key value }

/-- `WriteHeader`: the first status stays. -/
def Writer.writeHeader (w : Writer) (code : ℕ) : Writer :=
  if w.status = 0 then { w with status := code } else w

/-- `http.Error`. -/
def httpError (w : Writer) (text : Str) (code : ℕ) : Writer :=
  let w := { w with header := w.header.filter fun e => e.1 ≠ "Content-Length" }
  let w := (w.set "Content-Type" "text/plain; charset=utf-8").set "X-Content-Type-Options" "nosniff"
  let w := w.writeHeader code
  { w with body := w.body ++ text ++ [10] }

/-- `uuid.New().String()`. -/
def newUUID : Serving Str := Prog.call BodyOp.uuid

/-- `rand.Read`, `none` when it fails. -/
def randRead (n : ℕ) : Serving (Option Str) := Prog.call (BodyOp.rand n)

/-- The id of a request, as `correlationIDMiddleware` finds or draws it. -/
def correlationID (r : Incoming) : Serving Str :=
  let id := r.header.get "X-Request-ID"
  let id := if id = [] then r.header.get "X-Correlation-ID" else id
  if id = [] then newUUID else pure id

/-- `correlationIDMiddleware`. The id that it puts into the context goes to the log. -/
def correlationIDMiddleware (next : Handler) : Handler := fun w r => do
  let id ← correlationID r
  next (w.set "X-Correlation-ID" id) r

/-- `loggingMiddleware`: it passes the request on and writes to the log. -/
def loggingMiddleware (next : Handler) : Handler := fun w r => next w r

/-- The headers of `securityHeadersMiddleware`. -/
def securityHeaders : List (Str × Str) :=
  [("X-Content-Type-Options", "nosniff"), ("X-Frame-Options", "DENY"),
    ("X-XSS-Protection", "1; mode=block"),
    ("Referrer-Policy", "strict-origin-when-cross-origin"),
    ("Content-Security-Policy", ascii (
      "default-src 'self'; style-src 'self' 'unsafe-inline' https://fonts.googleapis.com; " ++
      "font-src 'self' https://fonts.gstatic.com; " ++
      "script-src 'self' 'unsafe-inline' 'unsafe-eval' https://cdn.jsdelivr.net; " ++
      "connect-src 'self' https://cdn.jsdelivr.net"))]

/-- `securityHeadersMiddleware`. -/
def securityHeadersMiddleware (next : Handler) : Handler := fun w r =>
  next (securityHeaders.foldl (fun w e => w.set e.1 e.2) w) r

/-- `corsMiddleware`. -/
def corsMiddleware (next : Handler) : Handler := fun w r =>
  let w := w.set "Access-Control-Allow-Origin" "*"
  let w := w.set "Access-Control-Allow-Methods" "GET, POST, PUT, DELETE, OPTIONS"
  let w := w.set "Access-Control-Allow-Headers" "Content-Type, Authorization"
  -- A preflight is answered here, and the rest of the chain does not see it.
  if r.method = "OPTIONS" then return ⟨w.writeHeader 200, false⟩ else next w r

/-- A digit of `hex.EncodeToString`. -/
def hexLower (v : ℕ) : UInt8 := UInt8.ofNat (if v < 10 then 48 + v else 87 + v)

/-- `hex.EncodeToString`. -/
def encodeToString (b : Str) : Str :=
  b.flatMap fun c => [hexLower (c.toNat / 16), hexLower (c.toNat % 16)]

/-- `generateCSRFToken`. -/
def generateCSRFToken : Serving Str := do
  match ← randRead 32 with
  | none => newUUID
  | some b => return encodeToString b

/-- The methods that `csrfMiddleware` lets pass. -/
def safeMethod (method : Str) : Bool :=
  method = "GET" || method = "HEAD" || method = "OPTIONS"

/-- The paths that `csrfMiddleware` skips. -/
def skipped (path : Str) : Bool :=
  hasPrefix path "/api/" || hasPrefix path "/mcp" || path = "/authorize" ||
    path = "/register" || path = "/token"

/-- The value of the cookie of the CSRF check, empty when there is none. -/
def csrfCookie (r : Incoming) : Str := (r.cookie "_csrf").getD []

/-- The token that a request presents: that of the header, or else that of the form. The body of the
request is as the server passed it on. -/
def presentedToken (lib : FormLib) (r : Incoming) : Serving (Str × Incoming) :=
  let token := r.header.get "X-CSRF-Token"
  if token = [] then formValue lib false r "_csrf" else return (token, r)

/-- `csrfMiddleware`. -/
def csrfMiddleware (lib : FormLib) (next : Handler) : Handler := fun w r =>
  if safeMethod r.method then
    -- A page that is fetched without the cookie brings one. Its scripts read it, so it is not
    -- `HttpOnly`.
    if r.method = "GET" ∧ csrfCookie r = [] then do
      let token ← generateCSRFToken
      let setCookie := "_csrf=" ++ token ++ "; Path=/; SameSite=Strict"
      next { w with header := w.header.add "Set-Cookie" setCookie } r
    else next w r
  else if skipped r.url.path then next w r
  else if csrfCookie r = [] then return ⟨httpError w "Forbidden: missing CSRF token" 403,
    false⟩
  else do
    let cookie := csrfCookie r
    -- The form is parsed here, and the limit on the body is still to come.
    let (token, r) ← presentedToken lib r
    if token = [] ∨ token ≠ cookie then
      return ⟨httpError w "Forbidden: invalid CSRF token" 403, false⟩
    else next w r

/-- The limit that `maxBodySizeMiddleware` puts on the body of a request for a path. -/
def bodyLimit (maxBytes : ℕ) (path : Str) : ℕ :=
  if path = "/mcp" then 10 * 2 ^ 20 else maxBytes

/-- The body gets its limit. -/
def wrapBody (limit : ℕ) : Serving Unit := Prog.call (BodyOp.wrap limit)

/-- `maxBodySizeMiddleware`. -/
def maxBodySizeMiddleware (maxBytes : ℕ) (next : Handler) : Handler := fun w r => do
  let limit := bodyLimit maxBytes r.url.path
  wrapBody limit
  MaxBytesReader.through ⟨limit, none⟩ (next w r)

/-- The deferred function of `recoveryMiddleware`. -/
def Outcome.recovered (outcome : Outcome) : Outcome :=
  if outcome.panicked then ⟨httpError outcome.writer "Internal server error" 500, false⟩
  else outcome

/-- `recoveryMiddleware`. -/
def recoveryMiddleware (next : Handler) : Handler := fun w r => do
  let outcome ← next w r
  return outcome.recovered

/-- `withMiddleware`. -/
def withMiddleware (lib : FormLib) (handler : Handler) : Handler :=
  -- The last one to be applied is the first to run, so the CSRF check runs before the limit is set.
  let handler := recoveryMiddleware handler
  let handler := maxBodySizeMiddleware (2 ^ 20) handler
  let handler := csrfMiddleware lib handler
  let handler := corsMiddleware handler
  let handler := securityHeadersMiddleware handler
  let handler := loggingMiddleware handler
  correlationIDMiddleware handler

/-- The CSRF check looks for its token in the form, and the form is in the body. -/
def FormInBody (lib : FormLib) (r : Incoming) : Prop :=
  safeMethod r.method = false ∧ skipped r.url.path = false ∧ csrfCookie r ≠ [] ∧
    r.header.get "X-CSRF-Token" = [] ∧ r.readsForm lib = true

instance (lib : FormLib) (r : Incoming) : Decidable (FormInBody lib r) :=
  inferInstanceAs (Decidable (_ ∧ _ ∧ _ ∧ _ ∧ _))

/-! ### The body behind the limit -/

/-- The response `a` is that of the handler to the request, perhaps with its form parsed. The
handler was handed what `ops` took from the body, up to the limit. -/
def HandlerRan (limit : ℕ) (handler : Handler) (r : Incoming) (ops : Served) (a : Outcome) : Prop :=
  ∃ w form inner outcome, (handler w { r with form := form }).Does inner outcome ∧
    a = outcome.recovered ∧ bytes inner = (bytes ops).take limit

/-- Nothing is read before the limit, the handler is handed at most the limit, and at most one byte
more is taken from the body. If the handler does not run then nothing is taken. -/
def Guarded (limit : ℕ) (handler : Handler) (r : Incoming) (p : Serving Outcome) : Prop :=
  ∀ ops a, p.Does ops a → NoEarlyRead ops ∧ (Fits ops → (bytes ops).length ≤ limit + 1 ∧
    (bytes ops = [] ∨ HandlerRan limit handler r ops a))

section Guarded

variable {limit : ℕ} {handler : Handler} {r : Incoming}

/-- An answer without the handler is guarded. -/
theorem guarded_pure (a : Outcome) : Guarded limit handler r (pure a) := by
  rintro ops b ⟨rfl, -⟩
  exact ⟨nofun, fun _ => ⟨Nat.zero_le _, .inl rfl⟩⟩

/-- What comes first may do anything but read. -/
theorem Guarded.bind {α : Type} {q : Serving α} {f : α → Serving Outcome}
    (hq : q.All fun o => o.isRead = false) (hf : ∀ a, Guarded limit handler r (f a)) :
    Guarded limit handler r (q >>= f) := by
  intro ops b h
  obtain ⟨before, a, rest, rfl, hbefore, hrest⟩ := Prog.does_bind.1 h
  have hother : ∀ x ∈ before, x.1.isRead = false := hbefore.all hq
  have hbytes : bytes (before ++ rest) = bytes rest := by
    rw [bytes_append, bytes_eq_nil hother, List.nil_append]
  obtain ⟨hearly, htaken⟩ := hf a rest b hrest
  refine ⟨noEarlyRead_append hother hearly, fun hfits => ?_⟩
  rw [HandlerRan, hbytes]
  exact htaken fun x hx => hfits x (List.mem_append_right _ hx)

/-- The rest of the chain has its limit. -/
theorem guarded_maxBodySizeMiddleware (maxBytes : ℕ) (handler : Handler) (w : Writer) (r : Incoming)
    (form : Option Values) :
    Guarded (bodyLimit maxBytes r.url.path) handler r
      (maxBodySizeMiddleware maxBytes (recoveryMiddleware handler) w { r with form := form }) := by
  rintro ops a ⟨u, rest, rfl, hrest⟩
  refine ⟨noEarlyRead_wrap _ _ _, fun hfits => ?_⟩
  -- Behind the limit there is only the handler, and what becomes of its panic.
  obtain ⟨⟨inner, hinner, hlimit⟩, htaken⟩ := MaxBytesReader.does_through hrest hfits.tail
  obtain ⟨served, outcome, ops', rfl, hserved, rfl, rfl⟩ := Prog.does_bind.1 hinner
  rw [List.append_nil] at hlimit
  exact ⟨htaken, .inr ⟨w, form, served, outcome, hserved, rfl, hlimit⟩⟩

/-- The token is drawn without the body. -/
theorem all_generateCSRFToken : generateCSRFToken.All fun o => o.isRead = false := by
  refine ⟨rfl, fun b => ?_⟩
  cases b with
  | none => exact ⟨rfl, fun _ => trivial⟩
  | some b => trivial

/-- The CSRF check leaves the body alone unless the form is in it. -/
theorem guarded_csrfMiddleware {lib : FormLib} {next : Handler} (h : ¬ FormInBody lib r)
    (hnext : ∀ w form, Guarded limit handler r (next w { r with form := form })) (w : Writer) :
    Guarded limit handler r (csrfMiddleware lib next w r) := by
  have hsame : ∀ w, Guarded limit handler r (next w r) := fun w => hnext w r.form
  unfold csrfMiddleware
  by_cases hsafe : safeMethod r.method = true
  · rw [if_pos hsafe]
    by_cases hget : r.method = "GET" ∧ csrfCookie r = []
    · rw [if_pos hget]
      exact Guarded.bind all_generateCSRFToken fun token => hsame _
    · rw [if_neg hget]
      exact hsame w
  rw [if_neg hsafe]
  by_cases hskip : skipped r.url.path = true
  · rw [if_pos hskip]
    exact hsame w
  rw [if_neg hskip]
  by_cases hcookie : csrfCookie r = []
  · rw [if_pos hcookie]
    exact guarded_pure _
  rw [if_neg hcookie]
  -- The token is in the header, or in a form that is not in the body.
  have htoken : ∃ token form, presentedToken lib r = pure (token, { r with form := form }) := by
    unfold presentedToken
    by_cases hheader : r.header.get "X-CSRF-Token" = []
    · have hreads : r.readsForm lib = false := by
        by_contra hreads
        exact h ⟨eq_false_of_ne_true hsafe, eq_false_of_ne_true hskip, hcookie, hheader,
          eq_true_of_ne_false hreads⟩
      rw [if_pos hheader]
      exact exists_formValue_eq_pure hreads false _
    · rw [if_neg hheader]
      exact ⟨_, r.form, rfl⟩
  obtain ⟨token, form, htoken⟩ := htoken
  rw [htoken]
  show Guarded limit handler r (if token = [] ∨ token ≠ csrfCookie r then _ else _)
  split_ifs
  · exact guarded_pure _
  · exact hnext w form

end Guarded

/-- The id is taken without the body. -/
theorem all_correlationID (r : Incoming) :
    (correlationID r).All fun o => o.isRead = false ∧ o.isWrap = false := by
  unfold correlationID
  dsimp only
  split_ifs
  · exact ⟨⟨rfl, rfl⟩, fun _ => trivial⟩
  all_goals trivial

/-- The chain is the id, and then the handlers from CORS on. -/
theorem withMiddleware_eq (lib : FormLib) (handler : Handler) (w : Writer) (r : Incoming) :
    withMiddleware lib handler w r = correlationID r >>= fun id =>
      corsMiddleware
        (csrfMiddleware lib (maxBodySizeMiddleware (2 ^ 20) (recoveryMiddleware handler)))
        (securityHeaders.foldl (fun w e => w.set e.1 e.2) (w.set "X-Correlation-ID" id)) r :=
  rfl

/-- The chain is guarded. -/
theorem guarded_withMiddleware {lib : FormLib} {r : Incoming} (h : ¬ FormInBody lib r)
    (handler : Handler) (w : Writer) :
    Guarded (bodyLimit (2 ^ 20) r.url.path) handler r (withMiddleware lib handler w r) := by
  rw [withMiddleware_eq]
  refine Guarded.bind ((all_correlationID r).imp fun o ho => ho.1) fun id => ?_
  unfold corsMiddleware
  split_ifs
  · exact guarded_pure _
  · exact guarded_csrfMiddleware h (fun w form => guarded_maxBodySizeMiddleware _
      handler w r form) _

/-- A form in the body is parsed right after the headers of the response are set. -/
theorem csrfMiddleware_of_formInBody {lib : FormLib} {r : Incoming} (h : FormInBody lib r)
    (next : Handler) (w : Writer) : ∃ w', corsMiddleware (csrfMiddleware lib next) w r =
      formValue lib false r "_csrf" >>= fun x =>
        if x.1 = [] ∨ x.1 ≠ csrfCookie r then
          pure ⟨httpError w' "Forbidden: invalid CSRF token" 403, false⟩
        else next w' x.2 := by
  obtain ⟨hsafe, hskip, hcookie, hheader, -⟩ := h
  have hoptions : r.method ≠ "OPTIONS" := by
    intro hmethod
    rw [hmethod] at hsafe
    exact absurd hsafe (by decide)
  unfold corsMiddleware csrfMiddleware presentedToken
  simp only [if_neg hoptions, hsafe, hskip, Bool.false_eq_true, if_false, if_neg hcookie,
    if_pos hheader]
  exact ⟨_, rfl⟩

/-- A form in the body is read before the limit. -/
theorem early_of_formInBody {lib : FormLib} {r : Incoming} (h : FormInBody lib r)
    (handler : Handler) (w : Writer) {ops : Served} {a : Outcome}
    (hrun : (withMiddleware lib handler w r).Does ops a) :
    ¬ NoEarlyRead ops := by
  obtain ⟨all, n, k, hread⟩ := exists_formValue_eq_read h.2.2.2.2 false "_csrf"
  rw [withMiddleware_eq] at hrun
  obtain ⟨before, id, rest, rfl, hbefore, hrest⟩ := Prog.does_bind.1 hrun
  have hother : ∀ x ∈ before, x.1.isWrap = false :=
    fun x hx => (hbefore.all (all_correlationID r) x hx).2
  obtain ⟨w', hcsrf⟩ := csrfMiddleware_of_formInBody h _ _
  rw [hcsrf, hread] at hrest
  obtain ⟨c, rest, rfl, -⟩ := hrest
  exact not_noEarlyRead hother

/-- For every handler behind the chain and every request: the body is not read before it has its
limit exactly if the CSRF check does not come to a form that is in the body. Then, for every body
and however it arrives, at most the limit of the path is handed to the handler, and at most one byte
more is taken from the body. -/
theorem body_limit (lib : FormLib) (handler : Handler) (w : Writer) (r : Incoming) :
    ((∀ ops a, (withMiddleware lib handler w r).Does ops a → NoEarlyRead ops) ↔
      ¬ FormInBody lib r) ∧
      (¬ FormInBody lib r → ∀ body ops a, (withMiddleware lib handler w r).Does ops a →
        Feeds body ops →
        (bytes ops).length ≤ bodyLimit (2 ^ 20) r.url.path + 1 ∧
          (bytes ops = [] ∨ HandlerRan (bodyLimit (2 ^ 20) r.url.path) handler r ops a)) := by
  constructor
  · constructor
    · intro hnone h
      -- There is a run, whatever the replies are.
      have hrun := Prog.does_answer BodyReply.empty (withMiddleware lib handler w r)
      exact early_of_formInBody h handler w hrun (hnone _ _ hrun)
    · intro h ops a hrun
      exact (guarded_withMiddleware h handler w ops a hrun).1
  · intro h body ops a hrun hfeeds
    exact (guarded_withMiddleware h handler w ops a hrun).2 hfeeds.fits

/-! ### Two requests that save a profile -/

/-- A reader of multipart forms that reads once and fails. -/
def readFailing (_ : Str) : Serving (Option Values) := readBody true 4096 >>= fun _ => pure none

/-- The handler of the sample reads. -/
theorem readFailing_reads (boundary : Str) :
    ∃ all n k, readFailing boundary = .op (.read all n) k :=
  ⟨true, 4096, _, rfl⟩

/-- Media types without parameters. -/
def plainLib : FormLib where
  parseMediaType v := { name := v }
  readForm := readFailing
  readForm_reads := readFailing_reads

/-- A handler that reads the body to its end and sends it back. -/
def echoHandler : Handler := fun w _ => do
  let c ← readBody true (2 ^ 30)
  return ⟨{ w with body := c.data }, false⟩

/-- `POST /profile` with the cookie of the CSRF check, as a form or with its token in the header. -/
def profilePost (header : Header) : Incoming where
  method := "POST"
  url := { path := "/profile" }
  header := ("X-Request-Id", ["1"]) :: header
  cookies := [⟨"_csrf", "t"⟩]

/-- The body `a=b`, as it is read behind the limit. -/
def shortBody : Served :=
  [⟨.wrap (2 ^ 20), ()⟩, ⟨.read true (2 ^ 20 + 1), ⟨"a=b", some .eof⟩⟩]

/-- With the token in the header the body comes to the handler. -/
theorem body_limit_header :
    ¬ FormInBody plainLib (profilePost [("X-Csrf-Token", ["t"])]) ∧ Feeds "a=b" shortBody ∧
      ∃ a, (withMiddleware plainLib echoHandler {} (profilePost [("X-Csrf-Token", ["t"])])).Does
          shortBody a ∧
        HandlerRan (2 ^ 20) echoHandler (profilePost [("X-Csrf-Token", ["t"])]) shortBody a := by
  have h : ¬ FormInBody plainLib (profilePost [("X-Csrf-Token", ["t"])]) := by decide
  have hfeeds : Feeds "a=b" shortBody := ⟨by decide, by decide, [], rfl, fun _ => rfl, trivial⟩
  have hrun :
      (withMiddleware plainLib echoHandler {}
      (profilePost [("X-Csrf-Token", ["t"])])).Does
      shortBody _ :=
    ⟨(), _, rfl, ⟨"a=b", some .eof⟩, [], rfl, rfl, rfl⟩
  refine ⟨h, hfeeds, _, hrun, ?_⟩
  obtain ⟨-, hnothing | hran⟩ :=
    (body_limit plainLib echoHandler {} _).2 h "a=b" shortBody _ hrun hfeeds
  · exact absurd hnothing (by decide)
  · exact hran

/-- `POST /profile` as a form of a page, which has no header for its token. -/
def formPost : Incoming :=
  profilePost [("Content-Type", ["application/x-www-form-urlencoded"])]

/-- A body of more than 10 MB. -/
def longBody : Str := List.replicate (10 * 2 ^ 20 + 1) 97

/-- The form is read up to one byte more than 10 MB, and the body has no limit yet. The limit of the
path is 1 MB. -/
theorem body_limit_form :
    FormInBody plainLib formPost ∧ bodyLimit (2 ^ 20) formPost.url.path = 2 ^ 20 ∧
      ∃ ops a, (withMiddleware plainLib echoHandler {} formPost).Does ops a ∧ Feeds longBody ops ∧
        ¬ NoEarlyRead ops ∧ (bytes (beforeWrap ops)).length = 10 * 2 ^ 20 + 1 := by
  have h : FormInBody plainLib formPost := by decide
  have hlength : longBody.length = 10 * 2 ^ 20 + 1 := List.length_replicate
  have hlong : maxFormSize false < longBody.length := by
    rw [hlength]
    decide
  have hform : (formValue plainLib false formPost "_csrf").Does
      [⟨.read true (10 * 2 ^ 20 + 1), ⟨longBody, none⟩⟩] ([], { formPost with form := some [] }) :=
    does_formValue_tooLong rfl rfl (by decide) (by decide) hlong "_csrf"
  have hrun : ∃ a, (withMiddleware plainLib echoHandler {} formPost).Does
      [⟨.read true (10 * 2 ^ 20 + 1), ⟨longBody, none⟩⟩] a := by
    obtain ⟨w', hcsrf⟩ := csrfMiddleware_of_formInBody h
      (maxBodySizeMiddleware (2 ^ 20) (recoveryMiddleware echoHandler))
      (securityHeaders.foldl (fun w e => w.set e.1 e.2) (Writer.set {} "X-Correlation-ID" "1"))
    refine ⟨⟨httpError w' "Forbidden: invalid CSRF token" 403, false⟩, ?_⟩
    rw [withMiddleware_eq]
    refine Prog.does_bind.2 ⟨[], "1", _, rfl, ⟨rfl, rfl⟩, ?_⟩
    rw [hcsrf]
    -- There is no token in what was read of the form.
    exact Prog.does_bind.2 ⟨_, _, [], rfl, hform, rfl, rfl⟩
  obtain ⟨a, hrun⟩ := hrun
  refine ⟨h, by decide, _, a, hrun, ?_, early_of_formInBody h echoHandler {} hrun, ?_⟩
  · exact ⟨hlength.le, fun _ _ => hlength, [], (List.append_nil _).symm, fun _ => rfl, trivial⟩
  · show (longBody ++ []).length = _
    rw [List.append_nil, hlength]

end VirePortal.Server.Middleware
