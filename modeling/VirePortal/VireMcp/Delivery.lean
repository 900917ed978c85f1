import VirePortal.Go.Paths
import VirePortal.VireMcp.OAuthFlow

/-!
# Which callback decides the flow

`doOAuthFlow` waits once, and takes the first result that was sent on its channel or the deadline
(`World.received_append`). So a redirect to the configured URI decides the flow exactly when it is
the first request that reaches the callback server and the flow takes it before the deadline. The
server must listen where the redirect goes, and `main` asks for two ports: one for the redirect URI
and one for the server (`World.Bound`, `flow_delivery`).
-/

namespace VirePortal.VireMcp

open Go Concurrent

/-! ### The address -/

/-- A number has digits only. -/
theorem isDigit_formatNat {n : ℕ} {c : UInt8} (h : c ∈ formatNat n) : isDigit c = true := by
  have hdigit : ∀ d ∈ List.range 10, isDigit (UInt8.ofNat (48 + d)) = true := by decide
  unfold formatNat at h
  split_ifs at h
  · obtain rfl := List.mem_singleton.1 h
    decide
  · obtain ⟨d, hd, rfl⟩ := List.mem_map.1 h
    exact hdigit d (List.mem_range.2 (Nat.digits_lt_base (by norm_num) (List.mem_reverse.1 hd)))

/-- Numbers are told apart. -/
theorem formatNat_injective : Function.Injective formatNat := by
  intro m n h
  have hm := parseDigits_formatNat m
  rw [h, parseDigits_formatNat] at hm
  exact (Option.some.inj hm).symm

/-- Ports are told apart. -/
theorem callbackAddr_injective : Function.Injective callbackAddr := fun _ _ h =>
  formatNat_injective (List.append_cancel_left h)

/-- The bytes of an address are digits, dots and a colon. -/
theorem mem_callbackAddr {port : ℕ} {c : UInt8} (h : c ∈ callbackAddr port) :
    isDigit c = true ∨ c = 46 ∨ c = 58 := by
  rcases List.mem_append.1 h with h | h
  · have hall : ∀ b ∈ ascii "127.0.0.1:", isDigit b = true ∨ b = 46 ∨ b = 58 :=
      forall_mem_of_all (by decide)
    exact hall c h
  · exact .inl (isDigit_formatNat h)

/-- The bytes of an address. -/
theorem not_mem_callbackAddr {c : UInt8} (hdigit : isDigit c = false) (hdot : c ≠ 46)
    (hcolon : c ≠ 58) (port : ℕ) :
    c ∉ callbackAddr port := by
  intro h
  rcases mem_callbackAddr h with h | h | h
  · rw [h] at hdigit
    cases hdigit
  · exact hdot h
  · exact hcolon h

/-- An address stands for itself in a URL. -/
theorem unescape_callbackAddr (port : ℕ) :
    unescape .host (callbackAddr port) = some (callbackAddr port) := by
  have hkeep : ∀ s : Str, (∀ c ∈ s, isDigit c = true ∨ c = 46 ∨ c = 58) →
      unescape .host s = some s := by
    intro s hs
    induction s with
    | nil => rfl
    | cons c s ih =>
      have hbyte : c ≠ 37 ∧ unescapeByte .host c = some c := by
        rcases hs c (.head _) with hc | rfl | rfl
        · refine ⟨?_, ?_⟩
          · rintro rfl
            exact absurd hc (by decide)
          · simp [unescapeByte, shouldEscape, hc]
        · decide
        · decide
      rw [unescape_cons hbyte.1, hbyte.2, ih fun b hb => hs b (.tail _ hb)]
      rfl
  exact hkeep _ fun c hc => mem_callbackAddr hc

/-- Without the separator nothing is cut. -/
theorem cutLast_of_not_mem {sep : UInt8} {s : Str} (h : sep ∉ s) : cutLast sep s = none := by
  rw [cutLast, cut_of_not_mem (by simpa using h)]

/-- The address is an authority. -/
theorem parseAuthority_callbackAddr (port : ℕ) :
    parseAuthority (callbackAddr port) = some (none, callbackAddr port) := by
  have hport : cutLast 58 (callbackAddr port) = some (ascii "127.0.0.1", formatNat port) := by
    have hcolon : 58 ∉ (formatNat port).reverse := by
      intro h
      exact absurd (isDigit_formatNat (List.mem_reverse.1 h)) (by decide)
    have hreverse : (callbackAddr port).reverse = (formatNat port).reverse ++ 58 ::
        (ascii "127.0.0.1").reverse := by
      have hascii : ascii "127.0.0.1:" = ascii "127.0.0.1" ++ [58] := by decide
      simp [callbackAddr, hascii]
    rw [cutLast, hreverse, cut_append hcolon, cut, if_pos rfl]
    simp
  have hdigits : validOptionalPort (58 :: formatNat port) = true := by
    simp only [validOptionalPort, decide_true, Bool.true_and]
    exact List.all_eq_true.2 fun c hc => isDigit_formatNat hc
  rw [parseAuthority, cutLast_of_not_mem (not_mem_callbackAddr (by decide) (by decide) (by decide)
    port), parseHost,
    cutLast_of_not_mem (not_mem_callbackAddr (by decide) (by decide) (by decide) port), hport]
  simp only [hdigits, if_true, unescape_callbackAddr]
  rfl

/-- The address has none of the separators of a URL, and no control byte. -/
theorem callbackAddr_plain (port : ℕ) :
    35 ∉ callbackAddr port ∧ 47 ∉ callbackAddr port ∧ 63 ∉ callbackAddr port ∧
    containsCTL (callbackAddr port) = false := by
  refine ⟨not_mem_callbackAddr (by decide) (by decide) (by decide) port,
    not_mem_callbackAddr (by decide) (by decide) (by decide) port,
    not_mem_callbackAddr (by decide) (by decide) (by decide) port, List.any_eq_false.2
      fun c hc hctl => ?_⟩
  rcases mem_callbackAddr hc with hdigit | rfl | rfl
  · simp only [isDigit, Bool.and_eq_true, decide_eq_true_eq] at hdigit
    simp only [Bool.or_eq_true, decide_eq_true_eq] at hctl
    grind
  · exact absurd hctl (by decide)
  · exact absurd hctl (by decide)

/-- The origin of the redirect URI. -/
def callbackOrigin (port : ℕ) : Origin where
  scheme := "http"
  authority := callbackAddr port
  user := none
  host := callbackAddr port
  scheme_head := http_head
  scheme_bytes := http_bytes
  authority_plain := callbackAddr_plain port
  authority_parses := parseAuthority_callbackAddr port

/-- The redirect URI names the address with its port. -/
theorem parse_redirectURI (port : ℕ) :
    ∃ u, URL.parse ("http://127.0.0.1:" ++ formatNat port ++ "/callback") = some u ∧
      u.host = callbackAddr port ∧ u.path = "/callback" := by
  have htext : "http://127.0.0.1:" ++ formatNat port ++ "/callback" =
      (callbackOrigin port).string ++ "/callback" := by
    have hascii : ascii "http://127.0.0.1:" = ascii "http" ++ 58 :: 47 :: 47 ::
        ascii "127.0.0.1:" := by decide
    rw [hascii, Origin.string]
    simp [callbackOrigin, callbackAddr]
  rw [htext, Origin.parse_append _ rfl]
  exact ⟨_, rfl, rfl, rfl⟩

/-- Where the browser goes. -/
theorem Redirected.address {first second : Except Str ℕ} {setup : Setup}
    (hmain : main first second = some setup) {code state addr : Str} {r : Request}
    (h : Redirected setup.redirectURI code state addr r) :
    ∃ port, first = .ok port ∧ addr = callbackAddr port ∧ r.url.path = "/callback" := by
  cases first with
  | error err => cases hmain
  | ok port =>
    cases hmain
    obtain ⟨u, hparse, hhost, hpath⟩ := parse_redirectURI port
    obtain ⟨v, hv, haddr, hcallback⟩ := h.target
    obtain rfl : u = v := Option.some.inj (hparse.symm.trans hv)
    exact ⟨port, rfl, haddr.trans hhost, hcallback.trans hpath⟩

/-- The result of the redirect. -/
theorem Redirected.result {redirectURI code state addr : Str} {r : Request}
    (h : Redirected redirectURI code state addr r) :
    callbackResult r.query = { code := code, state := state } := by
  unfold callbackResult
  rw [h.no_error, h.code, h.state]
  rfl

/-! ### The program -/

/-- A call before the wait: no wait and no exchange, and the server is started at the given port. -/
def Preparing (port : ℕ) : Op → Prop
  | .wait => False
  | .processAuthorizationResponse _ _ _ => False
  | .startCallbackServer p => p = port
  | _ => True

/-- One operation. -/
theorem all_perform {P : Op → Prop} {o : Op} (h : P o) : (perform o).All P :=
  (Prog.all_call P o).2 h

/-- The session is prepared on the port. -/
theorem all_prepareAuthSession (port : ℕ) (authURL : Str) :
    (prepareAuthSession authURL).All (Preparing port) := by
  unfold prepareAuthSession
  cases URL.parse authURL with
  | none => trivial
  | some parsed =>
    apply Prog.all_bind (all_perform trivial)
    intro reply
    cases reply with
    | error err => trivial
    | ok status => trivial

/-- The client is registered on the port. -/
theorem all_registerIfNeeded (port : ℕ) : registerIfNeeded.All (Preparing port) := by
  apply Prog.all_bind (all_perform trivial)
  intro clientID
  split_ifs
  · exact all_perform trivial
  · trivial

/-- The authorization is asked for on the port. -/
theorem all_requestAuthorization (port : ℕ) : (requestAuthorization port).All (Preparing port) := by
  apply Prog.all_bind (all_perform trivial)
  rintro (_ | err)
  · apply Prog.all_bind (all_registerIfNeeded port)
    rintro (_ | err)
    · apply Prog.all_bind (all_perform trivial)
      rintro (err | codeVerifier)
      · trivial
      · apply Prog.all_bind (all_perform trivial)
        intro codeChallenge
        apply Prog.all_bind (all_perform trivial)
        rintro (err | state)
        · trivial
        · apply Prog.all_bind (all_perform trivial)
          intro _
          apply Prog.all_bind (all_perform trivial)
          rintro (err | authURL)
          · trivial
          · -- the callback server is started at the port of the flow
            have hport : Preparing port (.startCallbackServer port) := rfl
            apply Prog.all_bind (all_perform hport)
            intro _
            apply Prog.all_bind (all_prepareAuthSession port authURL)
            intro prepared
            apply Prog.all_bind (all_perform trivial)
            intro _
            trivial
    · trivial
  · trivial

/-- What the flow does from its wait on. -/
theorem does_finish {codeVerifier : Str} {ops : List ((o : Op) × Reply o)} {err : Option Str}
    (h : (finish codeVerifier).Does ops err) :
    (ops = [⟨.wait, .done⟩, ⟨.close, ()⟩] ∧ err = some (ascii "authorization timed out")) ∨
    (∃ result e, result.err = some e ∧ ops = [⟨.wait, .result result⟩, ⟨.close, ()⟩] ∧
      err = some (ascii "callback: " ++ e)) ∨
    ∃ result reply, result.err = none ∧
      ops = [⟨.wait, .result result⟩,
        ⟨.processAuthorizationResponse result.code result.state codeVerifier, reply⟩,
          ⟨.close, ()⟩] ∧
      err = exchangeOutcome reply := by
  obtain ⟨ops0, wakeup, rest, rfl, hwait, hrest⟩ := Prog.does_bind.1 h
  obtain rfl := Prog.does_call.1 hwait
  obtain ⟨ops1, err', ops2, rfl, hresume, hclose⟩ := Prog.does_bind.1 hrest
  obtain ⟨⟨⟩, rest, rfl, rfl, rfl⟩ := hclose
  rcases wakeup with ⟨code, state, _ | e⟩ | _
  · obtain ⟨reply, rest, rfl, rfl, rfl⟩ := hresume
    exact .inr (.inr ⟨⟨code, state, none⟩, reply, rfl, rfl, rfl⟩)
  · obtain ⟨rfl, rfl⟩ := hresume
    exact .inr (.inl ⟨⟨code, state, some e⟩, e, rfl, rfl, rfl⟩)
  · obtain ⟨rfl, rfl⟩ := hresume
    exact .inl ⟨rfl, rfl⟩

/-- The flow waits once. -/
theorem all_resume (codeVerifier : Str) (wakeup : Wakeup) :
    (resume codeVerifier wakeup).All (· ≠ .wait) := by
  rcases wakeup with ⟨code, state, _ | e⟩ | _
  · apply Prog.all_bind (all_perform (by simp))
    intro reply
    trivial
  · trivial
  · trivial

/-- A flow in its wait has done what comes before, and goes on as `finish`. -/
theorem leads_wait {port : ℕ} {ops : List ((o : Op) × Reply o)} {k : Reply .wait → M (Option Str)}
    (h : (doOAuthFlow port).Leads ops (.op .wait k)) :
    ∃ codeVerifier, (requestAuthorization port).Does ops (.ok codeVerifier) ∧
      .op .wait k = finish codeVerifier := by
  rcases Prog.leads_bind h with ⟨o, k', hleads, heq⟩ | ⟨ops1, result, ops2, rfl, hdoes, hleads⟩
  · -- before the wait there is none
    obtain ⟨rfl, -⟩ := Prog.op.inj heq
    exact absurd (hleads.all (all_requestAuthorization port)).1 not_false
  · cases result with
    | error err =>
      have hret : Prog.ret (some err) = Prog.op Op.wait k ∨ ∃ x rest, ops2 = x :: rest := by
        cases ops2 with
        | nil => exact .inl (Prog.leads_nil.1 hleads)
        | cons x rest => exact .inr ⟨x, rest, rfl⟩
      rcases hret with hret | ⟨x, rest, rfl⟩
      · cases hret
      · obtain ⟨k', hk', -⟩ := hleads
        cases hk'
    | ok codeVerifier =>
      cases ops2 with
      | nil =>
        rw [List.append_nil]
        exact ⟨codeVerifier, hdoes, (Prog.leads_nil.1 hleads).symm⟩
      | cons x rest =>
        -- after the wait there is none either
        obtain ⟨o, reply⟩ := x
        obtain ⟨k', hk', hrest⟩ := hleads
        have hfinish : finish codeVerifier = .op .wait fun wakeup => do
            let err ← resume codeVerifier wakeup
            let () ← perform .close
            return err := rfl
        obtain ⟨rfl, hk⟩ := Prog.op.inj (hfinish.symm.trans hk')
        obtain rfl := eq_of_heq hk
        have hnone : (Prog.op Op.wait k : M (Option Str)).All (· ≠ .wait) := by
          apply hrest.all
          apply Prog.all_bind (all_resume codeVerifier _)
          intro err
          apply Prog.all_bind (all_perform (by simp))
          intro _
          trivial
        exact absurd rfl hnone.1

/-! ### The world -/

namespace World

variable {w w' : World} {o : Op} {reply r : Reply o}

/-- What a call of the flow does to the world. -/
theorem exec_cases (h : w.exec o reply = some (r, w')) :
    (∃ state, o = .setExpectedState state ∧ w' = { w with expectedState := state }) ∨
    (∃ port, o = .startCallbackServer port ∧ w' = { w with listener := .starting port }) ∨
    (o = .close ∧ w' = { w with listener := .closed }) ∨
    (∃ result rest, (⟨o, r⟩ : (o : Op) × Reply o) = ⟨.wait, .result result⟩ ∧ w.codeCh = result ::
      rest ∧ w' = { w with codeCh := rest }) ∨
    (w' = w ∧ ∀ result, (⟨o, r⟩ : (o : Op) × Reply o) ≠ ⟨.wait, .result result⟩) := by
  cases o with
  | setExpectedState state =>
    obtain ⟨rfl, rfl⟩ := Prod.mk.inj (Option.some.inj h)
    exact .inl ⟨state, rfl, rfl⟩
  | startCallbackServer port =>
    obtain ⟨rfl, rfl⟩ := Prod.mk.inj (Option.some.inj h)
    exact .inr (.inl ⟨port, rfl, rfl⟩)
  | close =>
    obtain ⟨rfl, rfl⟩ := Prod.mk.inj (Option.some.inj h)
    exact .inr (.inr (.inl ⟨rfl, rfl⟩))
  -- `wait` takes the first result of the channel, or sees the deadline.
  | wait =>
    cases reply with
    | done =>
      rw [exec] at h
      split_ifs at h
      obtain ⟨rfl, rfl⟩ := Prod.mk.inj (Option.some.inj h)
      exact .inr (.inr (.inr (.inr ⟨rfl, by simp⟩)))
    | result result =>
      cases hch : w.codeCh with
      | nil =>
        rw [exec, hch] at h
        cases h
      | cons first rest =>
        rw [exec, hch] at h
        obtain ⟨rfl, rfl⟩ := Prod.mk.inj (Option.some.inj h)
        exact .inr (.inr (.inr (.inl ⟨first, rest, rfl, rfl, rfl⟩)))
  | _ =>
    obtain ⟨rfl, rfl⟩ := Prod.mk.inj (Option.some.inj h)
    exact .inr (.inr (.inr (.inr ⟨rfl, by simp⟩)))

/-- The callback server is at the port, or, at port zero, anywhere. -/
def ListensAt (port : ℕ) : Listener → Prop
  | .starting p => p = port
  | .listening addr => port ≠ 0 → addr = callbackAddr port
  | _ => True

/-- The flow stays where it is while the rest of the world moves. -/
def Around (w w' : World) : Prop :=
  w'.flow = w.flow ∧ w'.trace = w.trace ∧ w'.expectedState = w.expectedState ∧
    (∀ port, ListensAt port w.listener → ListensAt port w'.listener) ∧
    ∃ sent, w'.codeCh = w.codeCh ++ sent ∧ w'.delivered = w.delivered ++ sent

/-- Nothing changed. -/
theorem Around.of_eq (h : w' = w) : w.Around w' := by
  rw [h]
  exact ⟨rfl, rfl, rfl, fun _ hp => hp, [], by simp⟩

/-- The flow takes a step. -/
theorem step_flow {k : Reply o → M (Option Str)} {reply : (o : Op) → Reply o}
    (hflow : w.flow = .op o k) (hexec : w.exec o (reply o) = some (r, w')) :
    w.step (.flow reply) = { w' with flow := k r, trace := w.trace ++ [⟨o, r⟩] } := by
  rw [step, hflow]
  simp only [hexec]

/-- What a step does: the flow makes a call, or the world moves around it. -/
theorem step_cases (w : World) (l : Label) :
    (∃ o k reply r w', w.flow = .op o k ∧ w.exec o reply = some (r, w') ∧
      w.step l = { w' with flow := k r, trace := w.trace ++ [⟨o, r⟩] }) ∨ w.Around (w.step l) := by
  -- Only a step of the flow itself makes a call; the others move the world.
  cases l with
  | flow reply =>
    cases hflow : w.flow with
    | ret err =>
      refine .inr (Around.of_eq ?_)
      rw [step, hflow]
    | op o k =>
      cases hexec : w.exec o (reply o) with
      | none =>
        refine .inr (Around.of_eq ?_)
        rw [step, hflow]
        simp only [hexec]
      | some x =>
        exact .inl ⟨o, k, reply o, x.1, x.2, rfl, hexec, step_flow hflow hexec⟩
  | listen bound free =>
    refine .inr ?_
    cases hlistener : w.listener with
    | starting p =>
      rw [step, hlistener]
      refine ⟨rfl, rfl, rfl, fun port hp => ?_, [], by simp⟩
      rw [hlistener] at hp
      obtain rfl : p = port := hp
      cases bound with
      | false => trivial
      | true =>
        intro hp
        rw [if_neg hp]
    | _ =>
      refine Around.of_eq ?_
      rw [step, hlistener]
  | visit addr r =>
    refine .inr ?_
    rw [step]
    split_ifs
    · exact ⟨rfl, rfl, rfl, fun _ hp => hp, _, rfl, rfl⟩
    · exact Around.of_eq rfl
  | expire => exact .inr ⟨rfl, rfl, rfl, fun _ hp => hp, [], by simp [step]⟩

/-- The result that a call received. -/
def receivedOf : (o : Op) × Reply o → Option CallbackResult
  | ⟨.wait, .result result⟩ => some result
  | _ => none

/-- Nothing was received. -/
theorem receivedOf_eq_none {x : (o : Op) × Reply o} (h : ∀ result, x ≠ ⟨.wait, .result result⟩) :
    receivedOf x = none := by
  obtain ⟨o, r⟩ := x
  cases o with
  | wait =>
    cases r with
    | result result => exact absurd rfl (h result)
    | done => rfl
  | _ => rfl

/-- Nothing is received before the wait. -/
theorem received_preparing {port : ℕ} {trace : List ((o : Op) × Reply o)}
    (h : ∀ x ∈ trace, Preparing port x.1) : trace.filterMap receivedOf = [] := by
  apply List.filterMap_eq_nil_iff.2
  intro x hx
  apply receivedOf_eq_none
  rintro result rfl
  exact h _ hx

/-- The results come out of the channel in the order in which they were sent. -/
def Ordered (w : World) : Prop := w.trace.filterMap receivedOf ++ w.codeCh = w.delivered

/-- Every step keeps the order. -/
theorem Ordered.step (h : w.Ordered) (l : Label) : (w.step l).Ordered := by
  rcases step_cases w l with ⟨o, k, reply, r, w', -, hexec, hstep⟩ | ⟨-, htrace, -, -, sent, hch,
    hdelivered⟩
  · unfold Ordered at h ⊢
    rw [hstep]
    simp only [List.filterMap_append, List.append_assoc]
    rcases exec_cases hexec with ⟨state, rfl, rfl⟩ | ⟨port, rfl, rfl⟩ | ⟨rfl, rfl⟩ |
      ⟨result, rest, heq, hch, rfl⟩ |
      ⟨rfl, hnone⟩
    · exact h
    · exact h
    · exact h
    · rw [heq, ← h, hch]
      rfl
    · rw [List.filterMap_cons_none (receivedOf_eq_none hnone)]
      exact h
  · unfold Ordered at h ⊢
    rw [htrace, hch, hdelivered, ← List.append_assoc, h]

/-- `w'` comes after `w`: the flow has made some more calls, and more results were sent. -/
def Follows (w w' : World) : Prop :=
  ∃ new sent, w'.trace = w.trace ++ new ∧ w.flow.Leads new w'.flow ∧
    w'.delivered = w.delivered ++ sent ∧
    ((∀ x ∈ new, ∀ state, x.1 ≠ .setExpectedState state) → w'.expectedState = w.expectedState)

/-- A world follows itself. -/
theorem Follows.refl (w : World) : w.Follows w :=
  ⟨[], [], by simp, Prog.leads_nil.2 rfl, by simp, fun _ => rfl⟩

/-- Following is transitive. -/
theorem Follows.trans {w'' : World} (h : w.Follows w') (h' : w'.Follows w'') : w.Follows w'' := by
  obtain ⟨new, sent, htrace, hleads, hdelivered, hstate⟩ := h
  obtain ⟨new', sent', htrace', hleads', hdelivered', hstate'⟩ := h'
  refine ⟨new ++ new', sent ++ sent', ?_, hleads.trans hleads', ?_, fun hnew => ?_⟩
  · rw [htrace', htrace, List.append_assoc]
  · rw [hdelivered', hdelivered, List.append_assoc]
  · calc w''.expectedState
        = w'.expectedState := hstate' fun x hx => hnew x (List.mem_append_right new hx)
      _ = w.expectedState := hstate fun x hx => hnew x (List.mem_append_left new' hx)

/-- A step follows. -/
theorem Follows.step (w : World) (l : Label) : w.Follows (w.step l) := by
  rcases step_cases w l with ⟨o, k, reply, r, w', hflow, hexec, hstep⟩ |
    ⟨hflow, htrace, hstate, -, sent, -, hdelivered⟩
  · have hleads : w.flow.Leads [⟨o, r⟩] (k r) := ⟨k, hflow, Prog.leads_nil.2 rfl⟩
    rw [hstep]
    rcases exec_cases hexec with ⟨state, rfl, rfl⟩ | ⟨port, rfl, rfl⟩ | ⟨rfl, rfl⟩ |
      ⟨result, rest, heq, hch, rfl⟩ |
      ⟨rfl, hnone⟩
    · exact ⟨_, [], rfl, hleads, by simp, fun h => absurd rfl
        (h _ (List.mem_singleton_self _) state)⟩
    all_goals exact ⟨_, [], rfl, hleads, by simp, fun _ => rfl⟩
  · refine ⟨[], sent, by simpa using htrace, Prog.leads_nil.2 hflow.symm, hdelivered,
      fun _ => hstate⟩

/-- The order holds in every run. -/
theorem Ordered.run (h : w.Ordered) (ls : List Label) : (w.run ls).Ordered := by
  induction ls generalizing w with
  | nil => exact h
  | cons l ls ih => exact ih (h.step l)

/-- Every run follows. -/
theorem Follows.run (w : World) (ls : List Label) : w.Follows (w.run ls) := by
  induction ls generalizing w with
  | nil => exact Follows.refl w
  | cons l ls ih => exact (Follows.step w l).trans (ih (w.step l))

/-- The callback server is at the port of the flow, and the flow starts no other. -/
def Bound (port : ℕ) (w : World) : Prop :=
  w.flow.All (fun o => ∀ p, o = .startCallbackServer p → p = port) ∧ ListensAt port w.listener

/-- A step keeps the port. -/
theorem Bound.step {port : ℕ} (h : w.Bound port) (l : Label) : (w.step l).Bound port := by
  rcases step_cases w l with ⟨o, k, reply, r, w', hflow, hexec, hstep⟩ | ⟨hflow, -, -, hlistener, -⟩
  · obtain ⟨hflow', hlistener⟩ := h
    rw [hflow] at hflow'
    rw [hstep]
    refine ⟨hflow'.2 r, ?_⟩
    rcases exec_cases hexec with ⟨state, rfl, rfl⟩ | ⟨p, rfl, rfl⟩ | ⟨rfl, rfl⟩ |
      ⟨result, rest, heq, hch, rfl⟩ |
      ⟨rfl, hnone⟩
    · exact hlistener
    · exact hflow'.1 p rfl
    · trivial
    · exact hlistener
    · exact hlistener
  · refine ⟨?_, hlistener port h.2⟩
    rw [hflow]
    exact h.1

/-- Every run keeps the port. -/
theorem Bound.run {port : ℕ} (h : w.Bound port) (ls : List Label) : (w.run ls).Bound port := by
  induction ls generalizing w with
  | nil => exact h
  | cons l ls ih => exact ih (h.step l)

end World

/-! ### Delivery -/

/-- The port of the setup. -/
theorem bound_start (s : Setup) : (World.start s).Bound s.callbackPort := by
  refine ⟨?_, trivial⟩
  apply Prog.all_bind
  · apply (all_requestAuthorization s.callbackPort).imp
    intro o ho p heq
    rw [heq] at ho
    exact ho
  · rintro (err | codeVerifier)
    · trivial
    · apply Prog.all_bind (all_perform (by simp))
      intro wakeup
      have hresume : (resume codeVerifier wakeup).All fun o => ∀ p, o = .startCallbackServer p →
          p = s.callbackPort := by
        rcases wakeup with ⟨code, state, _ | e⟩ | _
        · exact Prog.all_bind (all_perform (by simp)) fun _ => trivial
        · trivial
        · trivial
      apply Prog.all_bind hresume
      intro err
      exact Prog.all_bind (all_perform (by simp)) fun _ => trivial

namespace World

variable {s : Setup} {before after : List Label} {w : World}

/-- A flow in its wait has received nothing and asked for no exchange. -/
theorem Waiting.spec (h : ((start s).run before).Waiting) :
    ∃ codeVerifier, ((start s).run before).flow = finish codeVerifier ∧
      ((start s).run before).codeCh = ((start s).run before).delivered ∧
      ∀ x ∈ ((start s).run before).trace, Preparing s.callbackPort x.1 := by
  obtain ⟨k, hk⟩ := h
  obtain ⟨new, sent, htrace, hleads, -, -⟩ := Follows.run (start s) before
  rw [show (start s).trace = [] from rfl, List.nil_append] at htrace
  rw [hk] at hleads
  obtain ⟨codeVerifier, hdoes, hfinish⟩ := leads_wait hleads
  have hall : ∀ x ∈ ((start s).run before).trace, Preparing s.callbackPort x.1 := by
    rw [htrace]
    exact hdoes.all (all_requestAuthorization s.callbackPort)
  refine ⟨codeVerifier, hk.trans hfinish, ?_, hall⟩
  have hordered : (start s).Ordered := rfl
  have h := hordered.run before
  rw [Ordered, received_preparing hall, List.nil_append] at h
  exact h

/-- A wait that took a result after the preparations took the first that was delivered. -/
theorem took_first {port : ℕ} {old rest : List ((o : Op) × Reply o)} {result : CallbackResult}
    (hprepared : ∀ x ∈ old, Preparing port x.1)
    (htrace : w.trace = old ++ ⟨.wait, .result result⟩ :: rest) (hordered : w.Ordered) :
    w.TookResult ∧ w.delivered.head? = some result := by
  constructor
  · refine ⟨result, ?_⟩
    rw [htrace]
    exact List.mem_append_right _ (.head _)
  · rw [← hordered, htrace, List.filterMap_append, received_preparing hprepared, List.nil_append]
    rfl

/-- How a flow that was in its wait ends. -/
theorem ends_cases {err : Option Str} (hwait : ((start s).run before).Waiting)
    (hfollows : ((start s).run before).Follows w) (hordered : w.Ordered)
    (hend : w.flow = .ret err) :
    w.expectedState = ((start s).run before).expectedState ∧
    ((¬ w.TookResult ∧ ∀ code, ¬ w.Exchanged code) ∨
      ∃ result, w.TookResult ∧ w.delivered.head? = some result ∧
        ∀ code, w.Exchanged code ↔ result = { code := code, state := w.expectedState }) := by
  obtain ⟨codeVerifier, hflow, -, hprepared⟩ := hwait.spec
  obtain ⟨new, sent, htrace, hleads, -, hstate⟩ := hfollows
  rw [hflow, hend] at hleads
  -- calls before the wait receive nothing and exchange nothing
  have hmem : ∀ x : (o : Op) × Reply o, ¬ Preparing s.callbackPort x.1 →
      (x ∈ w.trace ↔ x ∈ new) := by
    intro x hx
    rw [htrace, List.mem_append]
    exact or_iff_right fun h => hx (hprepared x h)
  have hexchanged : ∀ code, w.Exchanged code ↔ ∃ codeVerifier reply,
      (⟨.processAuthorizationResponse code w.expectedState codeVerifier, reply⟩ : (o : Op) × Reply
        o) ∈ new ∧ err = exchangeOutcome reply := by
    intro code
    apply exists_congr
    intro codeVerifier
    apply exists_congr
    intro reply
    rw [hmem ⟨.processAuthorizationResponse code w.expectedState codeVerifier, reply⟩ not_false,
      hend, Prog.ret.injEq]
  rcases does_finish (Prog.leads_ret.1 hleads) with ⟨rfl, -⟩ | ⟨result, e, herr, rfl, rfl⟩ |
    ⟨result, reply, herr, rfl, rfl⟩
  · refine ⟨hstate (by simp), .inl ⟨?_, fun code => ?_⟩⟩
    · rintro ⟨result, hresult⟩
      rw [hmem ⟨.wait, .result result⟩ not_false] at hresult
      simp at hresult
    · rw [hexchanged]
      simp
  · obtain ⟨htook, hhead⟩ := took_first hprepared htrace hordered
    refine ⟨hstate (by simp), .inr ⟨result, htook, hhead, fun code => ?_⟩⟩
    rw [hexchanged]
    constructor
    · rintro ⟨codeVerifier', reply', hmem', -⟩
      simp at hmem'
    · rintro rfl
      cases herr
  · obtain ⟨htook, hhead⟩ := took_first hprepared htrace hordered
    refine ⟨hstate (by simp), .inr ⟨result, htook, hhead, fun code => ?_⟩⟩
    rw [hexchanged]
    constructor
    · rintro ⟨codeVerifier', reply', hmem', -⟩
      simp only [List.mem_cons, Sigma.mk.injEq, reduceCtorEq, false_and, List.not_mem_nil, or_false,
        false_or, Op.processAuthorizationResponse.injEq] at hmem'
      obtain ⟨⟨rfl, hst, -⟩, -⟩ := hmem'
      obtain ⟨code, state, err⟩ := result
      obtain rfl : err = none := herr
      rw [hst]
    · rintro rfl
      exact ⟨codeVerifier, reply, by simp, rfl⟩

/-- A request that reaches the callback server sends its result. -/
theorem step_visit {addr : Str} {r : Request} (hlistener : w.listener = .listening addr)
    (hpath : r.url.path = "/callback") :
    w.step (.visit addr r) =
      { w with codeCh := w.codeCh ++ [callbackResult r.query],
               delivered := w.delivered ++ [callbackResult r.query] } :=
  if_pos ⟨hlistener, hpath⟩

/-- A flow in its wait that finds a result with the expected state in its channel exchanges the code
in its next three calls, whatever is replied to it. -/
theorem exchanges {codeVerifier code : Str} {result : CallbackResult} {reply : (o : Op) → Reply o}
    {rest : List CallbackResult} (hflow : w.flow = finish codeVerifier)
    (hch : w.codeCh = { code := code, state := w.expectedState } :: rest)
    (hwait : reply .wait = .result result) :
    (w.run [.flow reply, .flow reply, .flow reply]).Exchanged code := by
  -- the wait takes the result
  have hwaits : w.exec .wait (reply .wait) =
      some (.result { code := code, state := w.expectedState }, { w with codeCh := rest }) := by
    rw [hwait, exec, hch]
  have hfirst := step_flow (show w.flow = .op .wait _ from hflow) hwaits
  -- the handler expects the state of the result
  generalize hw1 : w.step (.flow reply) = w1 at hfirst
  have hprocess :
      w1.exec (.processAuthorizationResponse code w.expectedState codeVerifier) (reply _) =
      some (reply _, w1) := by
    rw [exec, hfirst, if_pos rfl]
  have hflow1 : w1.flow = .op (.processAuthorizationResponse code w.expectedState codeVerifier)
      fun reply => do
      let () ← perform .close
      return exchangeOutcome reply := by
    rw [hfirst]
    rfl
  have hsecond := step_flow hflow1 hprocess
  generalize hw2 : w1.step (.flow reply) = w2 at hsecond
  have hflow2 : w2.flow = .op .close fun _ =>
      .ret (exchangeOutcome
        (reply (.processAuthorizationResponse code w.expectedState codeVerifier))) := by
    rw [hsecond]
    rfl
  have hclose : w2.exec .close (reply .close) = some ((), { w2 with listener := .closed }) := rfl
  have hthird := step_flow hflow2 hclose
  have hrun : w.run [.flow reply, .flow reply, .flow reply] = w2.step (.flow reply) := by
    rw [← hw2, ← hw1]
    rfl
  rw [hrun, hthird, hsecond, hfirst]
  exact ⟨codeVerifier, _, by simp, rfl⟩

end World

/-- A redirect to the configured URI during the wait decides the flow exactly when the flow receives
a result and the first request that reached the callback server carried the code and the state. If
the callback server listens where the redirect goes and nothing reached it before, only the deadline
can prevent that, and the flow can go on at once. It does listen there only if both calls of
`findFreePort` gave the same port, or the second failed. -/
theorem flow_delivery {first second : Except Str ℕ} {setup : Setup}
    (hmain : main first second = some setup) {before after : List World.Label} {w0 w : World}
    (hw0 : w0 = (World.start setup).run before) (hwait : w0.Waiting) {addr code : Str} {r : Request}
    (hredirect : Redirected setup.redirectURI code w0.expectedState addr r)
    (hw : w = w0.run (.visit addr r :: after)) {err : Option Str} (hend : w.flow = .ret err) :
    (w.Exchanged code ↔
      w.TookResult ∧ w.delivered.head? = some { code := code, state := w0.expectedState }) ∧
    (w0.listener = .listening addr → w0.delivered = [] →
      (w.Exchanged code ↔ w.TookResult) ∧
        ∀ reply result, reply .wait = .result result →
          ((w0.step (.visit addr r)).run [.flow reply, .flow reply, .flow reply]).Exchanged code) ∧
    (w0.listener = .listening addr → ∀ port, second = .ok port → port ≠ 0 → first = .ok port) := by
  obtain ⟨port, hfirst, haddr, hpath⟩ := hredirect.address hmain
  have hresult := hredirect.result
  subst hw0
  have hfollows : ((World.start setup).run before).Follows w := hw ▸ World.Follows.run _ _
  have hordered : w.Ordered := by
    have hstart : (World.start setup).Ordered := rfl
    rw [hw]
    exact (hstart.run before).run _
  obtain ⟨hstate, hcases⟩ := World.ends_cases hwait hfollows hordered hend
  have hiff : w.Exchanged code ↔ w.TookResult ∧ w.delivered.head? =
      some { code := code, state := ((World.start setup).run before).expectedState } := by
    rw [← hstate]
    rcases hcases with ⟨htook, hexchanged⟩ | ⟨result, htook, hhead, hexchanged⟩
    · exact iff_of_false (hexchanged code) fun h => htook h.1
    · rw [hexchanged, hhead, Option.some.injEq]
      exact (and_iff_right htook).symm
  refine ⟨hiff, fun hlistener hfirst => ⟨?_, fun reply result hreply => ?_⟩,
    fun hlistener port' hsecond hport' => ?_⟩
  · -- the redirect is the first that is delivered
    have hhead : w.delivered.head? =
        some { code := code, state := ((World.start setup).run before).expectedState } := by
      obtain ⟨-, sent, -, -, hdelivered, -⟩ :=
        World.Follows.run (((World.start setup).run before).step (.visit addr r)) after
      have hsame : w = (((World.start setup).run before).step (.visit addr r)).run after := hw
      rw [hsame, hdelivered, World.step_visit hlistener hpath, hfirst, hresult]
      rfl
    rw [hiff]
    exact and_iff_left hhead
  · obtain ⟨codeVerifier, hflow, hch, -⟩ := hwait.spec
    have hch' : ((World.start setup).run before).codeCh ++ [callbackResult r.query] =
        [{ code := code, state := ((World.start setup).run before).expectedState }] := by
      rw [hch, hfirst, hresult, List.nil_append]
    rw [World.step_visit hlistener hpath]
    exact World.exchanges hflow hch' hreply
  · -- the server is at the second port, the redirect goes to the first
    have hbound := ((bound_start setup).run before).2
    rw [hlistener] at hbound
    have hcallback : setup.callbackPort = port' := by
      rw [hfirst, hsecond] at hmain
      exact (congrArg Setup.callbackPort (Option.some.inj hmain)).symm
    rw [hcallback] at hbound
    rw [hfirst, callbackAddr_injective (haddr.symm.trans (hbound hport'))]

/-- The replies of an environment in which everything succeeds, with what ends the wait. -/
def succeeding (wakeup : Wakeup) : (o : Op) → Reply o
  | .getServerMetadata => none
  | .getClientID => "client"
  | .registerClient _ => none
  | .generateCodeVerifier => .ok "verifier"
  | .generateCodeChallenge _ => "challenge"
  | .generateState => .ok "state"
  | .setExpectedState _ => ()
  | .getAuthorizationURL _ _ => .ok "http://portal/authorize?client_id=client"
  | .startCallbackServer _ => ()
  | .postForm _ _ => .ok 200
  | .openBrowser _ => none
  | .wait => wakeup
  | .processAuthorizationResponse _ _ _ => none
  | .close => ()

/-- The flow up to its wait, with a callback server that binds its address. -/
def toWait : List World.Label :=
  List.replicate 10 (.flow (succeeding .done)) ++ [.listen true 0]

/-- The request that follows a redirect with the code `code` and the state of the flow. -/
def redirectRequest : Request where
  url := { path := "/callback" }
  query := [("code", ["code"]), ("state", ["state"])]

/-- A request with an error. -/
def deniedRequest : Request where
  url := { path := "/callback" }
  query := [("error", ["access_denied"])]

/-- The redirect of the sample. -/
theorem redirected_succeeding (port : ℕ) :
    Redirected ("http://127.0.0.1:" ++ formatNat port ++ "/callback")
    "code" "state" (callbackAddr port) redirectRequest := by
  obtain ⟨u, hparse, hhost, hpath⟩ := parse_redirectURI port
  exact ⟨⟨u, hparse, hhost.symm, hpath.symm⟩, by decide, by decide, by decide⟩

/-- Both calls of `findFreePort` gave the port 50001. -/
def samePort : Setup := ⟨"http://127.0.0.1:" ++ formatNat 50001 ++ "/callback", 50001⟩

/-- The redirect is the first request. -/
theorem flow_delivery_same_port :
    (((World.start samePort).run toWait).run (.visit (callbackAddr 50001) redirectRequest ::
      List.replicate 3 (.flow (succeeding (.result {}))))).Exchanged "code" := by
  have hmain : main (.ok 50001) (.ok 50001) = some samePort := rfl
  have hlistener : ((World.start samePort).run toWait).listener = .listening (callbackAddr 50001) :=
    by decide
  have hend :
      (((World.start samePort).run toWait).run (.visit (callbackAddr 50001) redirectRequest ::
      List.replicate 3 (.flow (succeeding (.result {}))))).flow = .ret none := rfl
  have hwait : ((World.start samePort).run toWait).Waiting := ⟨_, rfl⟩
  have hredirect : Redirected samePort.redirectURI "code"
      ((World.start samePort).run toWait).expectedState
      (callbackAddr 50001) redirectRequest := redirected_succeeding 50001
  exact ((flow_delivery hmain rfl hwait hredirect rfl hend).2.1 hlistener (by decide)).2 _ {} rfl

/-- The two calls of `findFreePort` give different ports: the redirect goes where nothing listens,
and the flow times out. -/
theorem flow_times_out :
    (∃ setup w, main (.ok 50001) (.ok 50002) = some setup ∧
      w = (World.start setup).run toWait ∧ w.Waiting ∧
      Redirected setup.redirectURI "code" w.expectedState (callbackAddr 50001) redirectRequest ∧
      (w.run [.visit (callbackAddr 50001) redirectRequest, .expire, .flow (succeeding .done),
        .flow (succeeding .done)]).outcome? = some (some (ascii "authorization timed out"))) ∧
    ∃ setup w, main (.ok 50001) (.ok 50001) = some setup ∧
      w = (World.start setup).run
        (toWait ++ [.visit (callbackAddr 50001) deniedRequest]) ∧ w.Waiting ∧
      Redirected setup.redirectURI "code" w.expectedState (callbackAddr 50001) redirectRequest ∧
      (w.run [.visit (callbackAddr 50001) redirectRequest, .flow (succeeding (.result {})),
        .flow (succeeding (.result {}))]).outcome? =
          some (some (ascii "callback: access_denied: ")) := by
  refine ⟨⟨_, _, rfl, rfl, ⟨_, rfl⟩, redirected_succeeding 50001, by decide⟩,
    ⟨_, _, rfl, rfl, ⟨_, rfl⟩, redirected_succeeding 50001, by decide⟩⟩

end VirePortal.VireMcp
