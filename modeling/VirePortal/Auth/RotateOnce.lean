import VirePortal.Concurrent.Turns
import VirePortal.Auth.Server

/-!
# A refresh token is rotated once

`handleRefreshTokenGrant` gets the presented token, deletes it, mints an access token and stores a
new refresh token: four steps with no atomic consume, and with error exits after the deletion. The
pool here runs any number of such requests against a store without a backend.

Two requests that both get the token before either deletes it both succeed, and a request whose UUID
fails after the deletion has burnt the token (`rotation_races_and_burns`). When the requests for one
token take turns and nothing fails after the deletion (`serial`), at most one of them succeeds, and
the token stays as it is unless one does (`refresh_once`).
-/

namespace VirePortal.Auth.RotateOnce

open Go Concurrent

/-- The pool of the refresh grants of a portal without a backend. -/
abbrev pool (codec : Codec) (secret : Str) : System Op Reply State Env ℕ Request Response :=
  server false (handleRefreshTokenGrant ⟨false, secret, codec⟩)

/-- An entry of the pool's log. -/
abbrev GrantEntry := Entry Op Reply State ℕ Request Response

/-- The refresh token that a request presents. -/
def presented (r : Request) : Str := r.form.get "refresh_token"

/-- The client that a request names. -/
def clientID (r : Request) : Str := r.form.get "client_id"

/-- The response carries a new pair of tokens. -/
def IsTokens : Response → Prop
  | .tokens _ _ _ => True
  | _ => False

/-- The request reads the map of tokens. -/
def Looks (w : Caller Request) (e : GrantEntry) : Prop :=
  ∃ r, e.event = .op w (.tokensLookup (presented w.call)) r

/-- The request finds the token `x`. -/
def FindsToken (w : Caller Request) (x : RefreshToken) (e : GrantEntry) : Prop :=
  e.event = .op w (.tokensLookup (presented w.call)) (some x)

/-- The request reads the clock before `x` expires. -/
def ReadsInTime (w : Caller Request) (x : RefreshToken) (e : GrantEntry) : Prop :=
  ∃ now, e.event = .op w .now now ∧ now ≤ x.expiresAt

/-- The request deletes the token. -/
def Deletes (w : Caller Request) (e : GrantEntry) : Prop :=
  e.event = .op w (.tokensDelete (presented w.call)) ()

/-- The request is answered. -/
def Returns (w : Caller Request) (e : GrantEntry) : Prop := ∃ r, e.event = .done w r

/-- The request succeeds with a new pair of tokens. -/
def Succeeds (w : Caller Request) (e : GrantEntry) : Prop :=
  ∃ r, e.event = .done w r ∧ IsTokens r

/-- The request ends in an error. -/
def Fails (w : Caller Request) (e : GrantEntry) : Prop :=
  ∃ r, e.event = .done w r ∧ ¬ IsTokens r

/-- The request got an unexpired token of its own client. -/
def Passed (w : Caller Request) (L : List GrantEntry) : Prop :=
  ∃ x, x.clientID = clientID w.call ∧ Has (FindsToken w x) L ∧ Has (ReadsInTime w x) L

/-- The entry is the success of a request for the token. -/
def SucceedsFor (token : Str) (e : GrantEntry) : Prop :=
  ∃ w : Caller Request, presented w.call = token ∧ Succeeds w e

/-- The turns of the requests for one token. -/
def turn : Turn Op Reply State ℕ Request Response Str where
  key w := presented w.call
  enter := Looks
  find w e := ∃ x, FindsToken w x e
  act := Deletes
  remove := Deletes
  ret := Returns
  win := Succeeds
  enter_caller := by rintro w e ⟨r, hr⟩; rw [hr]; rfl
  find_caller := by rintro w e ⟨x, hx⟩; rw [hx]; rfl
  act_caller := by intro w e hd; rw [hd]; rfl
  remove_caller := by intro w e hd; rw [hd]; rfl
  ret_caller := by rintro w e ⟨a, ha⟩; rw [ha]; rfl
  win_ret := by rintro w e ⟨r, hr, -⟩; exact ⟨r, hr⟩
  act_ret := by rintro w e hd ⟨a, ha⟩; rw [hd] at ha; cases ha

/-- What the runs assume: a new refresh token is new, neither stored nor presented before. -/
def fresh : Assumption Op Reply State Env ℕ Request Response where
  op _ o _ s L := match o with
    | .tokensPut x => s.mem.tokens.lookup x.token = none ∧
        ∀ e ∈ L, ∀ w, e.event.caller = some w → presented w.call ≠ x.token
    | _ => True
  crash _ _ := False

/-- When the requests for one token take turns, and neither minting nor the UUID fails. -/
def serial : Assumption Op Reply State Env ℕ Request Response where
  op w o e s L := fresh.op w o e s L ∧ match o with
    | .tokensLookup _ => ∀ w', turn.key w' = turn.key w → Has (turn.enter w') L →
        Has (turn.leave w') L
    | .marshalClaims => e.marshal = true
    | .generateUUID => ∃ id, e.random = .ok id
    | _ => True
  crash _ _ := False

/-- The invariant of the pool. -/
structure Inv (s : State) (L : List GrantEntry) : Prop where
  turns : turn.Ordered L
  /-- A token that was deleted is gone. -/
  absent : ∀ w, Has (Deletes w) L → s.mem.tokens.lookup (presented w.call) = none
  /-- A token that was there and was not deleted is there. -/
  kept : ∀ e ∈ L, ∀ t x, e.pre.mem.tokens.lookup t = some x →
    (∀ w, presented w.call = t → ¬ Has (Deletes w) L) → s.mem.tokens.lookup t = some x
  /-- A request that deleted the token had passed the check of its client. -/
  passed : ∀ w, Has (Deletes w) L → Passed w L
  /-- Such a request does not fail. -/
  succeeds : ∀ w, Has (Deletes w) L → ¬ Has (Fails w) L

variable {s s' : State} {L L' : List GrantEntry} {w : Caller Request}

/-- A check that was passed stays so. -/
theorem Passed.cons (h : Passed w L) (e : GrantEntry) : Passed w (e :: L) := by
  obtain ⟨x, hx, hfound, hread⟩ := h
  exact ⟨x, hx, has_cons.2 (.inr hfound), has_cons.2 (.inr hread)⟩

/-- A check that was passed stays so while the request waits. -/
theorem Passed.others (h : Passed w L) (hL : Others w.tid L L') : Passed w L' := by
  obtain ⟨x, hx, hfound, hread⟩ := h
  exact ⟨x, hx, hfound.extends hL.extends, hread.extends hL.extends⟩

/-- An entry that deletes nothing and fails for nobody who deleted keeps the invariant, when it
keeps the turns and the tokens that are there. -/
theorem Inv.advance (h : Inv s L) (e : GrantEntry) (hpre : e.pre = s)
    (hturns : turn.Ordered (e :: L)) (hdelete : ∀ w, ¬ Deletes w e)
    (hfail : ∀ w, Fails w e → ¬ Has (Deletes w) L)
    (habsent : ∀ w, Has (Deletes w) L → s'.mem.tokens.lookup (presented w.call) = none)
    (hkept : ∀ t x, s.mem.tokens.lookup t = some x → s'.mem.tokens.lookup t = some x) :
    Inv s' (e :: L) := by
  have hold : ∀ w, Has (Deletes w) (e :: L) → Has (Deletes w) L := by
    intro w hw
    exact (has_cons.1 hw).resolve_left (hdelete w)
  refine ⟨hturns, fun w hw => habsent w (hold w hw), fun e' he' t x hx hno => ?_,
    fun w hw => (h.passed w (hold w hw)).cons e, fun w hw hf => ?_⟩
  · refine hkept t x ?_
    rcases List.mem_cons.1 he' with rfl | he'
    · exact hpre ▸ hx
    · exact h.kept e' he' t x hx fun w hw hd => hno w hw (has_cons.2 (.inr hd))
  · rcases has_cons.1 hf with hf | hf
    · exact hfail w hf (hold w hw)
    · exact h.succeeds w (hold w hw) hf

/-- The operations of a turn. -/
def ofTurn : Op → Bool
  | .tokensLookup _ | .tokensDelete _ => true
  | _ => false

/-- Every other operation is silent. -/
theorem silent_op {o : Op} (ho : ofTurn o = false) (r : Reply o) :
    turn.Silent (⟨s, .op w o r⟩ : GrantEntry) := by
  intro w'
  have hdelete : ¬ Deletes w' (⟨s, .op w o r⟩ : GrantEntry) := by
    intro hw
    obtain ⟨-, rfl, -⟩ := Event.op.inj hw
    exact absurd ho (by simp [ofTurn])
  refine ⟨?_, ?_, hdelete, hdelete, ?_⟩
  · rintro ⟨r', hw⟩
    obtain ⟨-, rfl, -⟩ := Event.op.inj hw
    exact absurd ho (by simp [ofTurn])
  · rintro ⟨x, hw⟩
    obtain ⟨-, rfl, -⟩ := Event.op.inj hw
    exact absurd ho (by simp [ofTurn])
  · rintro ⟨a, ha⟩
    cases ha

/-- So is the start of a request. -/
theorem silent_call (w : Caller Request) : turn.Silent (⟨s, .call w⟩ : GrantEntry) := by
  simp [Turn.Silent, turn, Looks, FindsToken, Deletes, Returns]

/-- A failure is an answer. -/
theorem Fails.returns {e : GrantEntry} (h : Fails w e) : Returns w e := by
  obtain ⟨r, hr, -⟩ := h
  exact ⟨r, hr⟩

/-- A silent entry that leaves the tokens as they are keeps the invariant. -/
theorem Inv.quiet (h : Inv s L) (e : GrantEntry) (hpre : e.pre = s) (he : turn.Silent e)
    (hmem : s'.mem.tokens = s.mem.tokens) : Inv s' (e :: L) := by
  refine h.advance e hpre (he.ordered h.turns) he.not_remove
    (fun w hf => absurd hf.returns (he.not_ret w)) ?_ ?_
  · rw [hmem]
    exact h.absent
  · rw [hmem]
    exact fun _ _ hx => hx

/-- The lookup in the map keeps the invariant in its turn: what was deleted is not there. -/
theorem Inv.lookup (h : Inv s L)
    (hturn : ∀ w', turn.key w' = turn.key w → Has (turn.enter w') L → Has (turn.leave w') L) :
    Inv s (⟨s, .op w (.tokensLookup (presented w.call))
      (s.mem.tokens.lookup (presented w.call))⟩ :: L) := by
  refine h.advance _ rfl ?_ (by simp [Deletes]) (by simp [Fails]) h.absent fun _ _ hx => hx
  refine h.turns.own rfl (fun _ => hturn) (fun hfind => ⟨.inl ⟨_, rfl⟩, fun w' hk hw' => ?_⟩)
    (by simp [turn, Deletes]) (by simp [turn, Deletes]) (by simp [turn, Returns])
  have hnone := h.absent w' hw'
  rw [show presented w'.call = presented w.call from hk] at hnone
  simp [turn, FindsToken, hnone] at hfind

/-- Deleting the token in its turn keeps the invariant. -/
theorem Inv.delete (h : Inv s L) (hready : turn.Ready w L) (hpassed : Passed w L)
    (hmem : s'.mem.tokens = s.mem.tokens.erase (presented w.call)) :
    Inv s' (⟨s, .op w (.tokensDelete (presented w.call)) ()⟩ :: L) := by
  have hlook : ∀ t, s'.mem.tokens.lookup t =
      if t = presented w.call then none else s.mem.tokens.lookup t := by
    intro t
    rw [hmem, Table.lookup_erase]
  have hcases : ∀ w', Has (Deletes w') (⟨s, .op w (.tokensDelete (presented w.call)) ()⟩ :: L) →
      w' = w ∨ Has (Deletes w') L := by
    intro w' hw'
    rcases has_cons.1 hw' with hd | hd
    · obtain ⟨rfl, -⟩ : w = w' ∧ _ := by simpa [Deletes] using hd
      exact .inl rfl
    · exact .inr hd
  refine ⟨?_, fun w' hw' => ?_, fun e' he' t x hx hno => ?_, fun w' hw' => ?_, fun w' hw' hf => ?_⟩
  · exact h.turns.own rfl (by simp [turn, Looks]) (by simp [turn, FindsToken]) (fun _ => hready)
      (fun _ => h.turns.ready_busy hready) (by simp [turn, Returns])
  · rw [hlook]
    split_ifs with heq
    · rfl
    · rcases hcases w' hw' with rfl | hd
      · exact absurd rfl heq
      · exact h.absent w' hd
  · have hne : t ≠ presented w.call := by
      intro heq
      exact hno w heq.symm (has_cons.2 (.inl rfl))
    rw [hlook, if_neg hne]
    rcases List.mem_cons.1 he' with rfl | he'
    · exact hx
    · exact h.kept e' he' t x hx fun w' hw' hd => hno w' hw' (has_cons.2 (.inr hd))
  · rcases hcases w' hw' with rfl | hd
    · exact hpassed.cons _
    · exact (h.passed w' hd).cons _
  · have hf' : Has (Fails w') L := by simpa [Fails] using hf
    rcases hcases w' hw' with rfl | hd
    · -- The request has not returned, so it has not failed.
      obtain ⟨e, he, hfe⟩ := hf'
      exact hready.inside ⟨e, he, .inr hfe.returns⟩
    · exact h.succeeds w' hd hf'

/-- Storing a new token keeps the invariant. -/
theorem Inv.put (h : Inv s L) {x : RefreshToken} (hnew : s.mem.tokens.lookup x.token = none)
    (hunseen : ∀ e ∈ L, ∀ w, e.event.caller = some w → presented w.call ≠ x.token)
    (hmem : s'.mem.tokens = s.mem.tokens.insert x.token x) :
    Inv s' (⟨s, .op w (.tokensPut x) ()⟩ :: L) := by
  have hsilent : turn.Silent (⟨s, .op w (.tokensPut x) ()⟩ : GrantEntry) := silent_op rfl _
  refine h.advance _ rfl (hsilent.ordered h.turns) hsilent.not_remove
    (fun w hf => absurd hf.returns (hsilent.not_ret w)) (fun w' hw' => ?_) fun t y hy => ?_
  · obtain ⟨e, he, hd⟩ := hw'
    have hne := hunseen e he w' (by rw [hd]; rfl)
    rw [hmem, Table.lookup_insert, if_neg hne]
    exact h.absent w' ⟨e, he, hd⟩
  · have hne : t ≠ x.token := by
      rintro rfl
      rw [hnew] at hy
      exact absurd hy (by simp)
    rw [hmem, Table.lookup_insert, if_neg hne, hy]

/-- What a request knows when it is answered with `r`. -/
structure Answered (w : Caller Request) (r : Response) (L : List GrantEntry) : Prop where
  finished : turn.Finished w (IsTokens r) L
  /-- A request that deleted the token succeeds. -/
  succeeds : Has (Deletes w) L → IsTokens r

/-- A request that did not come to the deletion may answer with an error. -/
theorem answered_of_idle (h : turn.Idle w L) (status : ℕ) (code description : Str) :
    Answered w (writeOAuthError status code description) L :=
  ⟨h.finished fun htok => htok.elim, fun hd => absurd hd h.noAct⟩

variable (codec : Codec) (secret : Str)

/-- The answer of a request keeps the invariant. -/
theorem Answered.delivers {r : Response} (h : Answered w r L) : Delivers serial Inv w r L := by
  intro s L' hL hI _
  have hfin := h.finished.others hL
  have hsucc : Has (Deletes w) L' → IsTokens r := by
    intro hd
    have hown : ∀ e, Deletes w e → e.event.thread = some w.tid :=
      fun e he => Turn.thread_of_caller (turn.remove_caller w e he)
    exact h.succeeds ((hL.has_iff hown).1 hd)
  refine hI.advance _ rfl ?_ (by simp [Deletes]) (fun w' hf hd => ?_) hI.absent fun _ _ hx => hx
  · refine hI.turns.own rfl (by simp [turn, Looks]) (by simp [turn, FindsToken])
      (by simp [turn, Deletes]) (by simp [turn, Deletes])
      fun _ => ⟨hfin.removed, ?_, hfin.running⟩
    rintro ⟨r'', hr'', htok⟩
    obtain rfl : r = r'' := by simpa using hr''
    exact hfin.act htok
  · obtain ⟨r', hr', hno⟩ := hf
    obtain ⟨rfl, rfl⟩ : w = w' ∧ r = r' := by simpa using hr'
    exact hno (hsucc hd)

/-- An operation that is no operation of a turn and leaves the state as it is keeps the
invariant. -/
theorem keeps_op (w : Caller Request) {o : Op} (ho : ofTurn o = false)
    (hs : ∀ e s, ((pool codec secret).exec o e s).2 = s) :
    Keeps (pool codec secret) serial Inv w o :=
  Turn.keeps_of_silent (fun e _ _ he hpre hI => hI.quiet e hpre he rfl)
    (fun _ _ => silent_op ho _) hs

/-- A silent operation of a request that finished its turn changes nothing for it. -/
theorem finished_op {o : Op} (ho : ofTurn o = false) {L1 : List GrantEntry}
    (h : ∀ won, turn.Finished w won L) (hL : Others w.tid L L1) (e : Env) (s : State) (won : Prop) :
    turn.Finished w won ((pool codec secret).entry w o e s :: L1) :=
  ((h won).others hL).silent (silent_op ho _)

/-- The outline of the end of the grant: when nothing fails, it answers with new tokens. -/
theorem outline_issueTokens {userID clientID scope : Str}
    (hw : ∀ won, turn.Finished w won L) :
    Outline (pool codec secret) serial Inv w (Answered w)
      (issueTokens ⟨false, secret, codec⟩ w.call userID clientID scope) L := by
  unfold issueTokens mintAccessToken
  rw [outline_bind, outline_bind]
  refine (keeps_op codec secret w rfl fun _ _ => rfl).outline fun s1 L1 e1 hL1 _ _ => ?_
  have hw1 := finished_op codec secret (o := .now) rfl hw hL1 e1 s1
  refine (keeps_op codec secret w rfl fun _ _ => rfl).bind fun s2 L2 e2 hL2 _ hA2 => ?_
  have hw2 := finished_op codec secret (o := .marshalClaims) rfl hw1 hL2 e2 s2
  have hmarshal : ((pool codec secret).exec .marshalClaims e2 s2).1 = true := hA2.2
  rw [hmarshal, outline_pure]
  refine (keeps_op codec secret w rfl fun _ _ => rfl).bind fun s3 L3 e3 hL3 _ hA3 => ?_
  have hw3 := finished_op codec secret (o := .generateUUID) rfl hw2 hL3 e3 s3
  obtain ⟨id, hid⟩ := hA3.2
  have hrandom : ((pool codec secret).exec .generateUUID e3 s3).1 = .ok id := hid
  rw [hrandom]
  refine (keeps_op codec secret w rfl fun _ _ => rfl).bind fun s4 L4 e4 hL4 _ _ => ?_
  have hw4 := finished_op codec secret (o := .now) rfl hw3 hL4 e4 s4
  refine outline_step.2 fun s5 L5 e5 hL5 hI5 hA5 => ?_
  refine ⟨hI5.put hA5.1.1 hA5.1.2 (by simp [server, exec]), ?_⟩
  refine ⟨?_, fun _ => trivial⟩
  exact finished_op codec secret (o := .tokensPut _) rfl hw4 hL5 e5 s5 _

/-- The outline of the refresh grant. -/
theorem outline_handle (hw : turn.Idle w L) :
    Outline (pool codec secret) serial Inv w (Answered w)
      (handleRefreshTokenGrant ⟨false, secret, codec⟩ w.call) L := by
  unfold handleRefreshTokenGrant
  dsimp only
  rw [show w.call.form.get "refresh_token" = presented w.call from rfl]
  split_ifs with hempty
  · exact answered_of_idle hw _ _ _
  · unfold TokenStore.get
    rw [outline_bind, outline_bind, outline_call]
    intro s1 L1 e1 hL1 hI1 hA1
    refine ⟨hI1.lookup hA1.2, ?_⟩
    have hidle : turn.Idle w
        ((pool codec secret).entry w (.tokensLookup (presented w.call)) e1 s1 :: L1) :=
      (hw.others hL1).cons _ (by simp [turn, Deletes])
        (by simp [Turn.leave, turn, Deletes, Returns])
    rcases hr : ((pool codec secret).exec (.tokensLookup (presented w.call)) e1 s1).1 with _ | x
    · exact answered_of_idle hidle _ _ _
    · have hfound : Has (FindsToken w x)
          ((pool codec secret).entry w (.tokensLookup (presented w.call)) e1 s1 :: L1) :=
        has_cons.2 (.inl (by rw [FindsToken, System.entry, hr]))
      have hready : turn.Ready w
          ((pool codec secret).entry w (.tokensLookup (presented w.call)) e1 s1 :: L1) :=
        ⟨hidle, has_cons.2 (.inl ⟨x, by rw [FindsToken, System.entry, hr]⟩)⟩
      show Outline (pool codec secret) _ _ _ _ (TokenStore.live x) _
      unfold TokenStore.live
      refine (keeps_op codec secret w rfl fun _ _ => rfl).bind fun s2 L2 e2 hL2 _ _ => ?_
      have hready2 : turn.Ready w ((pool codec secret).entry w .now e2 s2 :: L2) :=
        (hready.others hL2).silent (silent_op rfl _)
      rw [outline_pure]
      split_ifs with hexp
      · exact answered_of_idle hready2.toIdle _ _ _
      · dsimp only
        split_ifs with hclient
        · exact answered_of_idle hready2.toIdle _ _ _
        · -- The token is live and belongs to the client, so it is deleted and replaced.
          have hpassed : Passed w ((pool codec secret).entry w .now e2 s2 :: L2) := by
            refine ⟨x, not_not.1 hclient, has_cons.2 (.inr (hfound.extends hL2.extends)), ?_⟩
            refine has_cons.2 (.inl ⟨s2.now, rfl, ?_⟩)
            simpa [after, server, exec] using hexp
          refine outline_step.2 fun s3 L3 e3 hL3 hI3 _ => ?_
          refine ⟨hI3.delete (hready2.others hL3) (hpassed.others hL3) (by simp [server, exec]), ?_⟩
          refine outline_issueTokens codec secret fun won => ?_
          exact (hready2.others hL3).removes won _ rfl rfl

/-- The pool is verified from every state. -/
theorem verified (s0 : State) : Verified (pool codec secret) serial Inv s0 where
  init := ⟨Turn.ordered_nil, by simp, by simp, by simp, by simp⟩
  call s L w h hw _ := by
    refine ⟨h.quiet _ rfl (silent_call w) rfl, ?_⟩
    have hidle : turn.Idle w (⟨s, .call w⟩ :: L) := (Turn.idle_of_fresh hw).silent (silent_call w)
    exact (outline_handle codec secret hidle).imp fun r L' _ hr => hr.delivers
  env s L d h _ := h.quiet _ rfl (Turn.silent_of_caller rfl) rfl
  crash _ _ _ h := absurd h (by simp [serial])

/-- In every run in which the requests for one token take turns, and neither minting nor a UUID
fails: at most one request for a token succeeds, and a token that was in the store and is unexpired
is still there if every request for it that passed the check of its client ended in an error. -/
theorem refresh_once {s0 : State} {c : Config Op Reply State ℕ Request Response}
    (hc : Reachable (pool codec secret) serial s0 c) (token : Str) :
    AtMostOne (SucceedsFor token) c.log ∧
      ∀ e ∈ c.log, ∀ x, e.pre.mem.tokens.lookup token = some x → c.state.now ≤ x.expiresAt →
        (∀ w, presented w.call = token → Passed w c.log → Has (Fails w) c.log) →
        c.state.mem.tokens.lookup token = some x := by
  have hI := hc.invariant (verified codec secret s0)
  refine ⟨hI.turns.oneWin token, fun e he x hx _ hfailed => ?_⟩
  refine hI.kept e he token x hx fun w hw hd => ?_
  -- A request that deleted the token had passed, and by the condition it does not fail.
  exact hI.succeeds w hd (hfailed w hw (hI.passed w hd))

/-- The functions of the standard library at the one access token of the runs below. -/
def sampleCodec : Codec where
  sha256 _ := []
  hmacSHA256 _ _ := [115, 100, 209, 236, 128, 227, 104, 57, 192, 214, 192, 5, 224, 129, 177, 66,
    184, 140, 83, 140, 108, 101, 203, 230, 198, 71, 36, 0, 204, 131, 40, 74]
  unmarshal _ := none
  marshalClaims _ :=
    ascii ("\x7b\"client_id\":\"m\",\"exp\":3600,\"iat\":0,\"iss\":\"http://p\"," ++
    "\"scope\":\"openid\",\"sub\":\"u\"\x7d")

/-- The token of the runs below. -/
def sampleToken : RefreshToken :=
  ⟨"t", "u", "m", "openid", seconds 604800⟩

/-- A store that holds it. -/
def start : State :=
  { mem := { tokens := AList.insert "t" sampleToken ∅ } }

/-- A request that presents it. -/
def request : Request :=
  { method := "POST", host := "p",
    form := [("refresh_token", ["t"]), ("client_id", ["m"])] }

/-- Two requests, one after the other. -/
def inTurn : List (Label Env ℕ Request) :=
  [.call request, .step 0 {}, .step 0 {}, .step 0 {}, .step 0 {}, .step 0 {},
    .step 0 { random := .ok "a" }, .step 0 {}, .step 0 {}, .step 0 {},
    .call request, .step 1 {}, .step 1 {}]

/-- The operation is a lookup of a token. -/
def isLookup : Op → Bool
  | .tokensLookup _ => true
  | _ => false

/-- The entry belongs to no request for the token. -/
def presentsOther (token : Str) (e : GrantEntry) : Bool :=
  match e.event.caller with
  | some w => presented w.call ≠ token
  | none => true

/-- Nobody has presented the token. -/
theorem unseen_of_all {token : Str} (h : L.all (presentsOther token) = true) :
    ∀ e ∈ L, ∀ w, e.event.caller = some w → presented w.call ≠ token := by
  intro e he w hw
  have hp := List.all_eq_true.1 h e he
  rw [presentsOther, hw] at hp
  simpa using hp

/-- Of two requests in turn, one succeeds. -/
theorem refresh_once_inTurn :
    Has (SucceedsFor "t") ((pool sampleCodec "k").run (.init start) inTurn).log ∧
      AtMostOne (SucceedsFor "t") ((pool sampleCodec "k").run (.init start) inTurn).log := by
  have hrun : Reachable (pool sampleCodec "k") serial start
      ((pool sampleCodec "k").run (.init start) inTurn) := by
    refine Reachable.init.run inTurn ?_
    repeat' first | exact trivial | exact rfl | exact ⟨_, rfl⟩ | apply And.intro
    · -- Nothing has been looked up yet.
      intro w' _ hw'
      exact absurd (caller_of_performedBy (p := isLookup) (q := fun _ => false) rfl
        hw' rfl) (by simp)
    · exact unseen_of_all rfl
    · -- The first request looked the token up, and has deleted it.
      intro w' _ hw'
      have hfirst := caller_of_performedBy (p := isLookup) (q := fun w => w = ⟨0, request⟩) rfl hw'
        rfl
      rw [decide_eq_true_eq] at hfirst
      exact hfirst ▸ ⟨_, .tail _ (.head _), .inr ⟨_, rfl⟩⟩
  refine ⟨?_, (refresh_once sampleCodec "k" hrun "t").1⟩
  exact ⟨_, .tail _ (.tail _ (.tail _ (.head _))), ⟨0, request⟩, rfl, _, rfl, trivial⟩

/-- Two requests that both get the token first. -/
def overlapping : List (Label Env ℕ Request) :=
  [.call request, .call request, .step 0 {}, .step 1 {}, .step 0 {}, .step 0 {}, .step 0 {},
    .step 0 {}, .step 0 { random := .ok "a" }, .step 0 {}, .step 0 {}, .step 1 {}, .step 1 {},
    .step 1 {}, .step 1 {}, .step 1 { random := .ok "b" }, .step 1 {}, .step 1 {},
    .step 0 {}, .step 1 {}]

/-- A request whose UUID fails. -/
def failing : List (Label Env ℕ Request) :=
  [.call request, .step 0 {}, .step 0 {}, .step 0 {}, .step 0 {}, .step 0 {}, .step 0 {},
    .step 0 {}]

/-- Two requests that both get the token before either deletes it both succeed, and a request whose
UUID fails after the deletion has burnt a token that nobody got a new one for. -/
theorem rotation_races_and_burns :
    (∃ c token, Reachable (pool sampleCodec "k") fresh start c ∧
      ¬ AtMostOne (SucceedsFor token) c.log) ∧
    ∃ c token, Reachable (pool sampleCodec "k") fresh start c ∧
      (∃ e ∈ c.log, ∃ x, e.pre.mem.tokens.lookup token = some x ∧ c.state.now ≤ x.expiresAt) ∧
      (∀ w, presented w.call = token → Passed w c.log → Has (Fails w) c.log) ∧
      c.state.mem.tokens.lookup token = none := by
  refine ⟨⟨(pool sampleCodec "k").run (.init start) overlapping, "t", ?_, fun h => ?_⟩,
    (pool sampleCodec "k").run (.init start) failing, "t", ?_, ?_, ?_, rfl⟩
  · refine Reachable.init.run overlapping ?_
    repeat' first | exact trivial | exact ⟨rfl, unseen_of_all rfl⟩ | apply And.intro
  · -- The last two entries of the log are the two answers.
    exact (atMostOne_cons.1 h).1 ⟨⟨1, request⟩, rfl, _, rfl, trivial⟩
      ⟨_, .head _, ⟨0, request⟩, rfl, _, rfl, trivial⟩
  · exact Reachable.init.run failing (by repeat' constructor)
  · -- The entry of the deletion found the token there.
    exact ⟨_, .tail _ (.tail _ (.tail _ (.tail _ (.head _)))), sampleToken, rfl, by decide⟩
  · rintro w - ⟨x, -, hfound, -⟩
    have hlook : Has (Looks w) ((pool sampleCodec "k").run (.init start) failing).log := by
      obtain ⟨e, he, hf⟩ := hfound
      exact ⟨e, he, _, hf⟩
    have hfirst := caller_of_performedBy (p := isLookup) (q := fun w => w = ⟨0, request⟩) rfl hlook
      rfl
    rw [decide_eq_true_eq] at hfirst
    exact hfirst ▸ ⟨_, .head _, _, rfl, fun h => h⟩

end VirePortal.Auth.RotateOnce
