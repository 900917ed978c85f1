import VirePortal.Concurrent.Turns
import VirePortal.Auth.Server

/-!
# A pending session is completed once

`CompleteAuthorization` reads the session, stores a code and only then deletes the session, each
under its own lock. The pool here runs any number of `CompleteAuthorization` calls, and `Put` of new
sessions, with or without a faithful backend, which may hold sessions of earlier processes; the
process may be restarted.

Two calls for one session that both read it before either deletes it both store a code and both
return a redirect (`two_codes`). When the calls for one session take turns (`serial`), and the
backend does delete what it is told to, a session yields at most one code and one redirect
(`completeAuthorization_once`).
-/

namespace VirePortal.Auth.CompleteOnce

open Go Concurrent

/-- The calls of the pool. -/
inductive Call where
  | complete (sessionID userID : Str)
  | put (session : AuthSession)
  deriving DecidableEq

/-- The session that a call names. -/
def Call.sessionID : Call → Str
  | .complete sessionID _ => sessionID
  | .put session => session.sessionID

/-- The program of a call. Only `CompleteAuthorization` returns a URL. -/
def handle (backend : Bool) : Call → M (Option Str)
  | .complete sessionID userID => do
    let r ← completeAuthorization backend sessionID userID
    return r.toOption
  | .put session => do SessionStore.put session; return none

/-- The pool. -/
abbrev pool (backend : Bool) : System Op Reply State Env ℕ Call (Option Str) :=
  server backend (handle backend)

/-- An entry of the pool's log. -/
abbrev CallEntry := Entry Op Reply State ℕ Call (Option Str)

/-- The call reads the map of sessions. -/
def Looks (w : Caller Call) (e : CallEntry) : Prop :=
  ∃ r, e.event = .op w (.sessionsLookup w.call.sessionID) r

/-- The call finds the session, in the map or in the backend. -/
def Finds (w : Caller Call) (e : CallEntry) : Prop :=
  (∃ x, e.event = .op w (.sessionsLookup w.call.sessionID) (some x)) ∨
    ∃ x, e.event = .op w (.getSession w.call.sessionID) (.found x)

/-- The call stores a code. -/
def StoresCode (w : Caller Call) (e : CallEntry) : Prop := ∃ c, e.event = .op w (.codesPut c) ()

/-- The call deletes the session. -/
def Deletes (w : Caller Call) (e : CallEntry) : Prop :=
  e.event = .op w (.sessionsDelete w.call.sessionID) ()

/-- The call returns. -/
def Returns (w : Caller Call) (e : CallEntry) : Prop := ∃ a, e.event = .done w a

/-- The call returns a URL. -/
def ReturnsURL (w : Caller Call) (e : CallEntry) : Prop := ∃ url, e.event = .done w (some url)

/-- The turns of the calls for one session. -/
def turn : Turn Op Reply State ℕ Call (Option Str) Str where
  key w := w.call.sessionID
  enter := Looks
  find := Finds
  act := StoresCode
  remove := Deletes
  ret := Returns
  win := ReturnsURL
  enter_caller := by rintro w e ⟨r, hr⟩; rw [hr]; rfl
  find_caller := by rintro w e (⟨x, hx⟩ | ⟨x, hx⟩) <;> rw [hx] <;> rfl
  act_caller := by rintro w e ⟨c, hc⟩; rw [hc]; rfl
  remove_caller := by intro w e hd; rw [hd]; rfl
  ret_caller := by rintro w e ⟨a, ha⟩; rw [ha]; rfl
  win_ret := by rintro w e ⟨url, hurl⟩; exact ⟨some url, hurl⟩
  act_ret := by rintro w e ⟨c, hc⟩ ⟨a, ha⟩; rw [hc] at ha; cases ha

/-- The entry stores a code for the session. -/
def StoresCodeFor (sessionID : Str) (e : CallEntry) : Prop :=
  ∃ w : Caller Call, w.call.sessionID = sessionID ∧ StoresCode w e

/-- The entry returns a redirect URL for the session. -/
def ReturnsURLFor (sessionID : Str) (e : CallEntry) : Prop :=
  ∃ w : Caller Call, w.call.sessionID = sessionID ∧ ReturnsURL w e

/-- What the runs assume: the backend is faithful, and a session that is `Put` has a new id. The
process may be restarted at any time. -/
def faithful : Assumption Op Reply State Env ℕ Call (Option Str) where
  op w o e s L := Faithful o e s ∧ match o with
    | .sessionsPut x => ∀ e' ∈ L, ∀ w', e'.event.caller = some w' →
        w'.call.sessionID = x.sessionID → w' = w
    | _ => True

/-- When the calls for one session take turns: none reads the session while another is between its
lookup and its end, and a deletion takes effect in the backend. -/
def serial (backend : Bool) : Assumption Op Reply State Env ℕ Call (Option Str) where
  op w o e s L := faithful.op w o e s L ∧ match o with
    | .sessionsLookup _ => ∀ w', turn.key w' = turn.key w → Has (turn.enter w') L →
        Has (turn.leave w') L
    | .sessionsDelete _ => backend = true → e.write.applied = true
    | _ => True

/-- No session has the id. -/
def Absent (backend : Bool) (s : State) (sessionID : Str) : Prop :=
  s.mem.sessions.lookup sessionID = none ∧
    (backend = true → s.db.sessions.lookup sessionID = none)

/-- Every session is stored under its own id. -/
structure Keyed (s : State) : Prop where
  mem : KeyedBy (fun _ => True) AuthSession.sessionID s.mem.sessions
  db : KeyedBy (fun _ => True) AuthSession.sessionID s.db.sessions

/-- The invariant of the pool. -/
structure Inv (backend : Bool) (s : State) (L : List CallEntry) : Prop where
  keyed : Keyed s
  turns : turn.Ordered L
  /-- A session that was deleted is gone. -/
  absent : ∀ w, Has (Deletes w) L → Absent backend s w.call.sessionID

variable {backend : Bool} {s s' : State} {L : List CallEntry}

/-- The invariant after an entry that deletes nothing, from the turns and what it says of the new
state. -/
theorem inv_cons (e : CallEntry) (hturns : turn.Ordered (e :: L))
    (hdelete : ∀ w, ¬ Deletes w e) (hkeyed : Keyed s')
    (habsent : ∀ w, Has (Deletes w) L → Absent backend s' w.call.sessionID) :
    Inv backend s' (e :: L) := by
  refine ⟨hkeyed, hturns, fun w hw => habsent w ?_⟩
  rw [has_cons] at hw
  exact hw.resolve_left (hdelete w)

/-- The operations of a turn. -/
def ofTurn : Op → Bool
  | .sessionsLookup _ | .getSession _ | .codesPut _ | .sessionsDelete _ => true
  | _ => false

variable {w : Caller Call} {x : AuthSession}

/-- Every other operation is silent. -/
theorem silent_op {o : Op} (ho : ofTurn o = false) (r : Reply o) :
    turn.Silent ⟨s, .op w o r⟩ := by
  intro w'
  refine ⟨?_, ?_, ?_, fun hw => ?_, fun hw => ?_⟩
  · rintro ⟨r', hw⟩
    obtain ⟨-, rfl, -⟩ := Event.op.inj hw
    exact absurd ho (by simp [ofTurn])
  · rintro (⟨x, hw⟩ | ⟨x, hw⟩) <;> obtain ⟨-, rfl, -⟩ := Event.op.inj hw <;>
      exact absurd ho (by simp [ofTurn])
  · rintro ⟨c, hw⟩
    obtain ⟨-, rfl, -⟩ := Event.op.inj hw
    exact absurd ho (by simp [ofTurn])
  · obtain ⟨-, rfl, -⟩ := Event.op.inj hw
    exact absurd ho (by simp [ofTurn])
  · obtain ⟨a, ha⟩ := hw
    cases ha

/-- So is the start of a call. -/
theorem silent_call (w : Caller Call) : turn.Silent ⟨s, .call w⟩ := by
  simp [Turn.Silent, turn, Looks, Finds, StoresCode, Deletes, Returns]

/-- A silent entry that leaves the sessions as they are keeps the invariant. -/
theorem Inv.quiet (h : Inv backend s L) (e : CallEntry) (he : turn.Silent e)
    (hmem : s'.mem.sessions = s.mem.sessions) (hdb : s'.db.sessions = s.db.sessions) :
    Inv backend s' (e :: L) := by
  refine inv_cons e (he.ordered h.turns) he.not_remove ⟨hmem ▸ h.keyed.mem, hdb ▸ h.keyed.db⟩ ?_
  unfold Absent
  rw [hmem, hdb]
  exact h.absent

/-- The lookup in the map keeps the invariant in its turn: what was deleted is not there. -/
theorem Inv.lookup (h : Inv backend s L)
    (hturn : ∀ w', turn.key w' = turn.key w → Has (turn.enter w') L → Has (turn.leave w') L) :
    Inv backend s (⟨s, .op w (.sessionsLookup w.call.sessionID)
      (s.mem.sessions.lookup w.call.sessionID)⟩ :: L) := by
  refine inv_cons _ ?_ (by simp [Deletes]) h.keyed h.absent
  refine h.turns.own rfl (fun _ => hturn) (fun hfind => ⟨.inl ⟨_, rfl⟩, fun w' hk hw' => ?_⟩)
    (by simp [turn, StoresCode]) (by simp [turn, Deletes]) (by simp [turn, Returns])
  have hnone := (h.absent w' hw').1
  rw [show w'.call.sessionID = w.call.sessionID from hk] at hnone
  simp [turn, Finds, hnone] at hfind

/-- A session that the backend returned was not deleted. -/
theorem Inv.fetch (h : Inv true s L) {r : ReadReply AuthSession} (hin : Has (Looks w) L)
    (hr : r = .failed ∨ r = .of (s.db.sessions.lookup w.call.sessionID)) :
    Inv true s (⟨s, .op w (.getSession w.call.sessionID) r⟩ :: L) := by
  refine inv_cons _ ?_ (by simp [Deletes]) h.keyed h.absent
  refine h.turns.own rfl (by simp [turn, Looks]) (fun hfind => ⟨.inr hin, fun w' hk hw' => ?_⟩)
    (by simp [turn, StoresCode]) (by simp [turn, Deletes]) (by simp [turn, Returns])
  have hnone := (h.absent w' hw').2 rfl
  rw [show w'.call.sessionID = w.call.sessionID from hk] at hnone
  obtain ⟨x, hx⟩ : ∃ x, r = .found x := by simpa [turn, Finds] using hfind
  rw [ReadReply.found_of hr hx] at hnone
  exact absurd hnone (by simp)

/-- Storing a session under its own id keeps the invariant when nobody deleted one of that id. -/
theorem Inv.insert (h : Inv backend s L) (e : CallEntry) (he : turn.Silent e) (x : AuthSession)
    (hnew : ∀ w, Has (Deletes w) L → w.call.sessionID ≠ x.sessionID)
    (hmem : s'.mem.sessions = s.mem.sessions.insert x.sessionID x)
    (hdb : s'.db.sessions = s.db.sessions.insert x.sessionID x ∨
      s'.db.sessions = s.db.sessions) : Inv backend s' (e :: L) := by
  have hkeyed : Keyed s' := by
    refine ⟨hmem ▸ h.keyed.mem.insert fun _ => rfl, ?_⟩
    rcases hdb with hdb | hdb
    · exact hdb ▸ h.keyed.db.insert fun _ => rfl
    · exact hdb ▸ h.keyed.db
  refine inv_cons e (he.ordered h.turns) he.not_remove hkeyed fun w hw => ?_
  have hne := hnew w hw
  obtain ⟨hnone, hnone'⟩ := h.absent w hw
  refine ⟨by rw [hmem, Table.lookup_insert, if_neg hne, hnone], fun hb => ?_⟩
  rcases hdb with hdb | hdb
  · rw [hdb, Table.lookup_insert, if_neg hne, hnone' hb]
  · rw [hdb, hnone' hb]

/-- Storing the code keeps the invariant when the call is ready. -/
theorem Inv.storeCode (h : Inv backend s L) (hw : turn.Ready w L) (c : AuthCode)
    (hmem : s'.mem.sessions = s.mem.sessions) (hdb : s'.db.sessions = s.db.sessions) :
    Inv backend s' (⟨s, .op w (.codesPut c) ()⟩ :: L) := by
  have hturns : turn.Ordered (⟨s, .op w (.codesPut c) ()⟩ :: L) :=
    h.turns.own rfl (by simp [turn, Looks]) (by simp [turn, Finds]) (fun _ => hw)
      (by simp [turn, Deletes]) (by simp [turn, Returns])
  refine inv_cons _ hturns (by simp [Deletes]) ⟨hmem ▸ h.keyed.mem, hdb ▸ h.keyed.db⟩ ?_
  unfold Absent
  rw [hmem, hdb]
  exact h.absent

/-- Deleting the session keeps the invariant. -/
theorem Inv.delete (h : Inv backend s L) (hw : turn.Acted w L)
    (hmem : s'.mem.sessions = s.mem.sessions.erase w.call.sessionID)
    (hdb : s'.db.sessions = s.db.sessions.erase w.call.sessionID ∨ backend = false ∧
      s'.db.sessions = s.db.sessions) :
    Inv backend s' (⟨s, .op w (.sessionsDelete w.call.sessionID) ()⟩ :: L) := by
  refine ⟨?_, ?_, fun w' hw' => ?_⟩
  · refine ⟨hmem ▸ h.keyed.mem.erase _, ?_⟩
    rcases hdb with hdb | ⟨-, hdb⟩
    · exact hdb ▸ h.keyed.db.erase _
    · exact hdb ▸ h.keyed.db
  · exact h.turns.own rfl (by simp [turn, Looks]) (by simp [turn, Finds])
      (by simp [turn, StoresCode]) (fun _ => ⟨h.turns.entered w hw.found, hw.inside⟩)
      (by simp [turn, Returns])
  · have hdb' : backend = true → ∀ id, s'.db.sessions.lookup id =
        if id = w.call.sessionID then none else s.db.sessions.lookup id := by
      intro hb id
      rcases hdb with hdb | ⟨hb', -⟩
      · rw [hdb, Table.lookup_erase]
      · rw [hb'] at hb
        exact absurd hb (by simp)
    have hmem' : ∀ id, s'.mem.sessions.lookup id =
        if id = w.call.sessionID then none else s.mem.sessions.lookup id := by
      intro id
      rw [hmem, Table.lookup_erase]
    -- What was deleted before stays deleted, and this session is deleted now.
    by_cases hid : w'.call.sessionID = w.call.sessionID
    · exact ⟨by rw [hmem', if_pos hid], fun hb => by rw [hdb' hb, if_pos hid]⟩
    · rcases has_cons.1 hw' with hd | hd
      · obtain ⟨rfl, -⟩ : w = w' ∧ _ := by simpa [Deletes] using hd
        exact absurd rfl hid
      · obtain ⟨hnone, hnone'⟩ := h.absent w' hd
        exact ⟨by rw [hmem', if_neg hid, hnone], fun hb => by rw [hdb' hb, if_neg hid, hnone' hb]⟩

variable (backend)

/-- An operation that is no operation of a turn and leaves the state as it is keeps the
invariant. -/
theorem keeps_op (w : Caller Call) {o : Op} (ho : ofTurn o = false)
    (hs : ∀ e s, ((pool backend).exec o e s).2 = s) :
    Keeps (pool backend) (serial backend) (Inv backend) w o :=
  Turn.keeps_of_silent (fun e _ _ he _ hI => hI.quiet e he rfl rfl) (fun _ _ => silent_op ho _) hs

/-- The outline of the end of `SessionStore.Get`. -/
theorem outline_live (hw : turn.Ready w L) :
    Outline (pool backend) (serial backend) (Inv backend) w (fun _ L' => turn.Ready w L')
      (SessionStore.live x) L := by
  unfold SessionStore.live
  refine (keeps_op backend w rfl fun _ _ => rfl).bind fun s L' e hL _ _ => ?_
  exact (hw.others hL).silent (silent_op rfl _)

/-- The outline of `SessionStore.Get`: a call that gets a session is ready. -/
theorem outline_get (hw : turn.Idle w L) :
    Outline (pool backend) (serial backend) (Inv backend) w
      (fun r L' => turn.Idle w L' ∧ (r ≠ none → turn.Ready w L'))
      (SessionStore.get backend w.call.sessionID) L := by
  have hlive : ∀ {L x}, turn.Ready w L → Outline (pool backend) (serial backend) (Inv backend) w
      (fun r L' => turn.Idle w L' ∧ (r ≠ none → turn.Ready w L')) (SessionStore.live x) L := by
    intro L x hready
    exact (outline_live backend hready).imp fun r L' _ hr => ⟨hr.toIdle, fun _ => hr⟩
  unfold SessionStore.get
  rw [outline_bind, outline_call]
  intro s L1 e hL hI hA
  refine ⟨hI.lookup hA.2, ?_⟩
  have hidle : turn.Idle w ((pool backend).entry w (.sessionsLookup w.call.sessionID) e s :: L1) :=
    (hw.others hL).cons _ (by simp [turn, StoresCode])
      (by simp [Turn.leave, turn, Deletes, Returns])
  have hlooked : Has (Looks w)
      ((pool backend).entry w (.sessionsLookup w.call.sessionID) e s :: L1) :=
    has_cons.2 (.inl ⟨_, rfl⟩)
  generalize hE : (pool backend).entry w (.sessionsLookup w.call.sessionID) e s = E
    at hidle hlooked ⊢
  rcases hr : ((pool backend).exec (.sessionsLookup w.call.sessionID) e s).1 with _ | x
  · cases backend with
    | false => exact ⟨hidle, fun h => absurd rfl h⟩
    | true =>
      -- The map has no such session, so the backend is asked.
      show Outline (pool true) _ _ _ _ (perform (.getSession w.call.sessionID) >>= _) _
      rw [outline_bind, outline_call]
      intro s2 L2 e2 hL2 hI2 hA2
      refine ⟨hI2.fetch (hlooked.extends hL2.extends) hA2.1.1, ?_⟩
      have hidle2 : turn.Idle w ((pool true).entry w (.getSession w.call.sessionID) e2 s2 :: L2) :=
        (hidle.others hL2).cons _ (by simp [turn, StoresCode])
          (by simp [Turn.leave, turn, Deletes, Returns])
      rcases hr2 : ((pool true).exec (.getSession w.call.sessionID) e2 s2).1 with _ | _ | x
      · exact ⟨hidle2, fun h => absurd rfl h⟩
      · exact ⟨hidle2, fun h => absurd rfl h⟩
      · have hready : turn.Ready w
            ((pool true).entry w (.getSession w.call.sessionID) e2 s2 :: L2) := by
          refine ⟨hidle2, has_cons.2 (.inl (.inr ⟨x, ?_⟩))⟩
          rw [System.entry, hr2]
        have hkey : x.sessionID = w.call.sessionID :=
          hI2.keyed.db _ x trivial (ReadReply.found_of hA2.1.1 hr2)
        show Outline (pool true) _ _ _ _ (perform (.sessionsCache x) >>= _) _
        rw [outline_bind, outline_call]
        intro s3 L3 e3 hL3 hI3 _
        -- The call is in its turn, so nobody deleted the session since it was fetched.
        have hready3 := hready.others hL3
        refine ⟨hI3.insert _ (silent_op rfl _) x (fun w' hw' heq => ?_) rfl (.inr rfl),
          hlive (hready3.silent (silent_op rfl _))⟩
        exact hI3.turns.not_removed hready3.found hready3.inside (heq.trans hkey) hw'
  · refine hlive ⟨hidle, has_cons.2 (.inl (.inl ⟨x, ?_⟩))⟩
    rw [← hE, System.entry, hr]

/-- The outline of the end of `CompleteAuthorization`: the code is stored, and then the session is
deleted. -/
theorem outline_completeSession {userID : Str} (hw : turn.Ready w L) :
    Outline (pool backend) (serial backend) (Inv backend) w
      (fun r L' => turn.Finished w (r.toOption ≠ none) L')
      (completeSession w.call.sessionID userID x) L := by
  unfold completeSession
  refine (keeps_op backend w rfl fun _ _ => rfl).bind fun s L1 e hL _ _ => ?_
  have hready : turn.Ready w ((pool backend).entry w (.generateRandomHex 16) e s :: L1) :=
    (hw.others hL).silent (silent_op rfl _)
  rcases ((pool backend).exec (.generateRandomHex 16) e s).1 with err | code
  · exact hready.toIdle.finished (by simp [Except.toOption])
  · refine (keeps_op backend w rfl fun _ _ => rfl).bind fun s2 L2 e2 hL2 _ _ => ?_
    have hready2 : turn.Ready w ((pool backend).entry w .now e2 s2 :: L2) :=
      (hready.others hL2).silent (silent_op rfl _)
    refine outline_step.2 fun s3 L3 e3 hL3 hI3 _ => ?_
    have hready3 := hready2.others hL3
    generalize issueCode x userID code ((pool backend).exec .now e2 s2).1 = c
    have hdb : ((pool backend).exec (.codesPut c) e3 s3).2.db.sessions = s3.db.sessions := by
      simp only [server, exec, State.updateDb_db]
      split_ifs <;> rfl
    refine ⟨hI3.storeCode hready3 c (by simp [server, exec]) hdb, ?_⟩
    -- The code is stored here, and the deletion below ends the turn.
    have hacted : turn.Acted w ((pool backend).entry w (.codesPut c) e3 s3 :: L3) :=
      hready3.acts _ ⟨c, rfl⟩ (by simp [Turn.leave, turn, Deletes, Returns])
    refine outline_step.2 fun s4 L4 e4 hL4 hI4 hA4 => ?_
    have hacted4 := hacted.others hL4
    refine ⟨hI4.delete hacted4 (by simp [server, exec]) ?_, ?_⟩
    · cases backend with
      | false => exact .inr ⟨rfl, by simp [server, exec, State.updateDb_db]⟩
      | true =>
        have happlied : e4.write.applied = true := hA4.2 rfl
        exact .inl (by simp [server, exec, State.updateDb_db, happlied])
    · have hfinished : ∀ won, turn.Finished w won
          ((pool backend).entry w (.sessionsDelete w.call.sessionID) e4 s4 :: L4) :=
        fun won => hacted4.removes won _ rfl (by simp [turn, Returns])
      rcases URL.parse x.redirectURI with _ | u
      · exact hfinished _
      · exact hfinished _

/-- The outline of `CompleteAuthorization`. -/
theorem outline_completeAuthorization {userID : Str} (hw : turn.Idle w L) :
    Outline (pool backend) (serial backend) (Inv backend) w
      (fun r L' => turn.Finished w (r.toOption ≠ none) L')
      (completeAuthorization backend w.call.sessionID userID) L := by
  unfold completeAuthorization
  refine (keeps_op backend w rfl fun _ _ => rfl).bind fun s L1 e hL _ _ => ?_
  have hidle : turn.Idle w
      ((pool backend).entry w (.completing w.call.sessionID userID) e s :: L1) :=
    (hw.others hL).silent (silent_op rfl _)
  refine (outline_get backend hidle).bind fun r L2 _ hr => ?_
  rcases r with _ | x
  · exact hr.1.finished (by simp [Except.toOption])
  · exact outline_completeSession backend (hr.2 (by simp))

/-- The outline of `Put` of a session with a new id. -/
theorem outline_put (hw : turn.Idle w L) :
    Outline (pool backend) (serial backend) (Inv backend) w (fun _ L' => turn.Idle w L')
      (SessionStore.put x) L := by
  refine outline_call.2 fun s L1 e hL hI hA => ?_
  have hidle := hw.others hL
  refine ⟨hI.insert _ (silent_op rfl _) x (fun w' hw' hkey => ?_) (by simp [server, exec]) ?_,
    hidle.silent (silent_op rfl _)⟩
  · -- A call that deleted a session of this id would be another one that named it.
    obtain ⟨e', he', hd⟩ := hw'
    have hsame : w' = w := hA.1.2 e' he' w' (by rw [hd]; rfl) hkey
    exact hidle.inside ⟨e', he', .inl (hsame ▸ hd)⟩
  · simp only [server, exec, State.updateDb_db]
    split_ifs
    · exact .inl rfl
    · exact .inr rfl

/-- The result of a finished call keeps the invariant. -/
theorem delivers_of_finished {a : Option Str} (h : turn.Finished w (a ≠ none) L) :
    Delivers (serial backend) (Inv backend) w a L := by
  intro s L' hL hI _
  refine inv_cons _ ?_ (by simp [Deletes]) hI.keyed hI.absent
  have hfin := h.others hL
  refine hI.turns.own rfl (by simp [turn, Looks]) (by simp [turn, Finds])
    (by simp [turn, StoresCode]) (by simp [turn, Deletes]) fun _ => ⟨hfin.removed, ?_, hfin.running⟩
  rintro ⟨url, hurl⟩
  obtain rfl : a = some url := by simpa using hurl
  exact hfin.act (by simp)

/-- The pool is verified from every state whose sessions are stored under their own ids. -/
theorem verified {s0 : State} (hs0 : Keyed s0) :
    Verified (pool backend) (serial backend) (Inv backend) s0 where
  init := ⟨hs0, Turn.ordered_nil, by simp⟩
  call s L w h hw _ := by
    refine ⟨h.quiet _ (silent_call w) rfl rfl, ?_⟩
    have hidle : turn.Idle w (⟨s, .call w⟩ :: L) := (Turn.idle_of_fresh hw).silent (silent_call w)
    obtain ⟨tid, q⟩ := w
    cases q with
    | complete sessionID userID =>
      show Outline _ _ _ _ _ (completeAuthorization backend sessionID userID >>= _) _
      exact (outline_completeAuthorization backend hidle).bind
        fun r L' _ hr => delivers_of_finished backend hr
    | put x =>
      show Outline _ _ _ _ _ (SessionStore.put x >>= _) _
      exact (outline_put backend hidle).bind
        fun _ L' _ hr => delivers_of_finished backend (hr.finished (by simp))
  env s L d h _ := h.quiet _ (Turn.silent_of_caller rfl) rfl rfl
  crash s L h _ := by
    -- The maps are empty after a restart, and the backend keeps what it holds.
    have hsilent : turn.Silent (⟨s, .crash⟩ : CallEntry) := Turn.silent_of_caller rfl
    exact inv_cons _ (hsilent.ordered h.turns) hsilent.not_remove ⟨.empty, h.keyed.db⟩
      fun w hw => ⟨rfl, (h.absent w hw).2⟩

/-- In every run in which the calls for one session take turns, from a process and a backend that
may hold any sessions under their own ids, a session yields at most one redirect and at most one
stored code. -/
theorem completeAuthorization_once {s0 : State} (hs0 : Keyed s0)
    {c : Config Op Reply State ℕ Call (Option Str)}
    (hc : Reachable (pool backend) (serial backend) s0 c) (sessionID : Str) :
    AtMostOne (ReturnsURLFor sessionID) c.log ∧ AtMostOne (StoresCodeFor sessionID) c.log := by
  have hI := hc.invariant (verified backend hs0)
  exact ⟨hI.turns.oneWin sessionID, hI.turns.oneAct sessionID⟩

/-- A pending session of the client `m`. -/
def pending : AuthSession :=
  { sessionID := "s", clientID := "m", redirectURI := "https://m/cb",
    state := "x" }

/-- Two calls for one session, one after the other. -/
def inTurn : List (Label Env ℕ Call) :=
  [.call (.complete "s" "alice"), .step 0 {}, .step 0 {},
    .step 0 { session := .found pending }, .step 0 {}, .step 0 {},
    .step 0 { random := .ok "k1" }, .step 0 {}, .step 0 {}, .step 0 {}, .step 0 {},
    .call (.complete "s" "bob"), .step 1 {}, .step 1 {},
    .step 1 { session := .notFound }, .step 1 {}]

/-- A process that has just started, over a backend that holds the pending session. -/
def restarted : State := { db := { sessions := AList.insert "s" pending ∅ } }

/-- The operation is a lookup of a session. -/
def isLookup : Op → Bool
  | .sessionsLookup _ => true
  | _ => false

/-- Alice's call finds the session in the backend and redirects, and Bob's later one does not. -/
theorem completeAuthorization_once_inTurn :
    let c := (pool true).run (.init restarted) inTurn
    Has (ReturnsURLFor "s") c.log ∧ AtMostOne (ReturnsURLFor "s") c.log ∧
      AtMostOne (StoresCodeFor "s") c.log := by
  have hkeyed : Keyed restarted := ⟨.empty, KeyedBy.empty.insert fun _ => rfl⟩
  have hrun : Reachable (pool true) (serial true) restarted
      ((pool true).run (.init restarted) inTurn) := by
    refine Reachable.init.run inTurn ?_
    repeat' first | exact trivial | exact .inr rfl | exact fun _ => rfl | apply And.intro
    · -- Nothing has been looked up yet.
      intro w' _ hw'
      exact absurd (caller_of_performedBy (p := isLookup) (q := fun _ => false) rfl
        hw' rfl) (by simp)
    · -- The first call looked the session up, and has deleted it.
      intro w' _ hw'
      have hfirst := caller_of_performedBy (p := isLookup)
        (q := fun w => w = ⟨0, .complete "s" "alice"⟩) rfl hw' rfl
      rw [decide_eq_true_eq] at hfirst
      exact hfirst ▸ ⟨_, .tail _ (.tail _ (.tail _ (.head _))), .inl rfl⟩
  refine ⟨?_, completeAuthorization_once true hkeyed hrun "s"⟩
  exact ⟨_, .tail _ (.tail _ (.tail _ (.tail _ (.tail _ (.head _))))),
    ⟨0, .complete "s" "alice"⟩, rfl, _, rfl⟩

/-- Two calls for one session that both read it first. -/
def overlapping : List (Label Env ℕ Call) :=
  [.call (.put pending), .step 0 {}, .step 0 {},
    .call (.complete "s" "alice"), .call (.complete "s" "bob"),
    .step 1 {}, .step 1 {}, .step 2 {}, .step 2 {},
    .step 1 {}, .step 1 { random := .ok "k1" }, .step 1 {}, .step 1 {}, .step 1 {}, .step 2 {},
    .step 2 { random := .ok "k2" }, .step 2 {}, .step 2 {}, .step 2 {}, .step 1 {}, .step 2 {}]

/-- Two calls that both read the session before either deletes it both return a redirect, and each
of them stored a code. -/
theorem two_codes : ∃ c sessionID, Reachable (pool false) faithful {} c ∧
    ¬ AtMostOne (ReturnsURLFor sessionID) c.log ∧ ¬ AtMostOne (StoresCodeFor sessionID) c.log := by
  refine ⟨(pool false).run (.init {}) overlapping, "s", ?_, fun h => ?_, fun h => ?_⟩
  · refine Reachable.init.run overlapping ?_
    repeat' first | exact trivial | apply And.intro
    intro e he w' hw' _
    obtain rfl := List.mem_singleton.1 he
    exact (Option.some.inj hw').symm
  · -- The last two entries of the log are the two returns.
    exact (atMostOne_cons.1 h).1 ⟨⟨2, .complete "s" "bob"⟩, rfl, _, rfl⟩
      ⟨_, .head _, ⟨1, .complete "s" "alice"⟩, rfl, _, rfl⟩
  · have h2 := (atMostOne_cons.1 (atMostOne_cons.1 (atMostOne_cons.1 h).2).2).2
    exact (atMostOne_cons.1 h2).1 ⟨⟨2, .complete "s" "bob"⟩, rfl, _, rfl⟩
      ⟨_, .tail _ (.tail _ (.tail _ (.tail _ (.head _)))), ⟨1, .complete "s" "alice"⟩, rfl, _, rfl⟩

end VirePortal.Auth.CompleteOnce
