import VirePortal.Concurrent.Doings
import VirePortal.Seed.Admin

/-!
# Admin sync is additive and converges

Any number of portals run `SyncAdmins` with the same list of emails, their requests interleave in
any way and fail in any way, and users join meanwhile. From each state to every later one users keep
their data, but that users on the list may have become admins (`Grown`). That is the whole effect of
the portals, since an update goes to a user that some listing had, and a user keeps id and email.

An attempt that returns `nil` has seen each listed user of its listing as an admin, or has had its
update acknowledged (`Secures`). Both are facts about the log, and by `Grown` they stay true of the
table. A portal that starts later finds these users as admins in its own listing, so it does not
update them.
-/

namespace VirePortal.Seed

open Go Auth Concurrent

/-- What happened, the last event first. -/
abbrev SeedLog := Log SeedOp SeedReply (List AdminUser) AdminUser Str SyncResult

/-- What vire-server guarantees of its users. -/
structure WellFormed (toLower : Str → Str) (users : List AdminUser) : Prop where
  ids : (users.map AdminUser.id).Nodup
  plain : ∀ u ∈ users, PlainSegment u.id
  emails : (users.map fun u => toLower u.email).Nodup

/-- A user who joins has an id and an email of their own. -/
def joining (toLower : Str → Str) :
    Assumption SeedOp SeedReply (List AdminUser) Exchange AdminUser Str SyncResult where
  env u users _ := WellFormed toLower (users ++ [u])

/-- The email is on the list, but for its case. -/
def Listed (toLower : Str → Str) (adminEmails : List Str) (email : Str) : Prop :=
  toLower email ∈ adminEmails.map toLower

/-- The user is the same, or is on the list and has become an admin. -/
def Promoted (toLower : Str → Str) (adminEmails : List Str) (u u' : AdminUser) : Prop :=
  u' = u ∨ (Listed toLower adminEmails u.email ∧ u' = { u with role := "admin" })

/-- The table later on: every user is at their place, those on the list may have become admins, and
others may have joined. -/
def Grown (toLower : Str → Str) (adminEmails : List Str) (users users' : List AdminUser) : Prop :=
  ∀ (i : ℕ) u, users[i]? = some u → ∃ u', users'[i]? = some u' ∧ Promoted toLower adminEmails u u'

/-- There is an admin with the id. -/
def Admin (id : Str) (users : List AdminUser) : Prop :=
  ∃ u ∈ users, u.id = id ∧ u.role = "admin"

/-- `us` is what program `w` listed last. -/
def LastListing (w : Caller Str) (us : List AdminUser) (L : SeedLog) : Prop :=
  Latest (fun e => e.event = .op w (.adminListUsers w.call) (.ok us))
    (fun e => ∃ sid r, e.event = .op w (.adminListUsers sid) r) L

variable {b : Base} {toLower : Str → Str} {adminEmails : List Str}
  {users users' users'' : List AdminUser}
variable {u u' u'' : AdminUser} {id : Str}

/-! ### The table -/

section

variable (h : Promoted toLower adminEmails u u')
include h

/-- A promotion keeps the id. -/
theorem Promoted.id_eq : u'.id = u.id := by
  rcases h with rfl | ⟨-, rfl⟩
  · rfl
  · rfl

/-- A promotion keeps the address. -/
theorem Promoted.email_eq : u'.email = u.email := by
  rcases h with rfl | ⟨-, rfl⟩
  · rfl
  · rfl

/-- An admin stays one. -/
theorem Promoted.admin (hrole : u.role = "admin") :
    u'.role = "admin" := by
  rcases h with rfl | ⟨-, rfl⟩
  · exact hrole
  · rfl

/-- Two promotions in a row. -/
theorem Promoted.trans (h' : Promoted toLower adminEmails u' u'') :
    Promoted toLower adminEmails u u'' := by
  rcases h with rfl | ⟨hlisted, rfl⟩
  · exact h'
  · rcases h' with rfl | ⟨-, rfl⟩
    · exact .inr ⟨hlisted, rfl⟩
    · exact .inr ⟨hlisted, rfl⟩

end

/-- The users as they are. -/
theorem Grown.refl (users : List AdminUser) : Grown toLower adminEmails users users :=
  fun _ u hu => ⟨u, hu, .inl rfl⟩

/-- Users grow in steps. -/
theorem Grown.trans (h : Grown toLower adminEmails users users')
    (h' : Grown toLower adminEmails users' users'') : Grown toLower adminEmails users users'' := by
  intro i u hu
  obtain ⟨u', hu', hpromoted⟩ := h i u hu
  obtain ⟨u'', hu'', hpromoted'⟩ := h' i u' hu'
  exact ⟨u'', hu'', hpromoted.trans hpromoted'⟩

/-- A user joins. -/
theorem Grown.join (users : List AdminUser) (u : AdminUser) :
    Grown toLower adminEmails users (users ++ [u]) := by
  intro i v hv
  have hlt := (List.getElem?_eq_some_iff.1 hv).1
  exact ⟨v, by rw [List.getElem?_append_left hlt, hv], .inl rfl⟩

/-- Users who all are on the list become admins. -/
theorem Grown.setRole (hlisted : ∀ u ∈ users, u.id = id → Listed toLower adminEmails u.email) :
    Grown toLower adminEmails users (setRole id "admin" users) := by
  intro i u hu
  refine ⟨_, by rw [Seed.setRole, List.getElem?_map, hu, Option.map_some], ?_⟩
  split_ifs with hid
  · exact .inr ⟨hlisted u (List.mem_of_getElem? hu) hid, rfl⟩
  · exact .inl rfl

/-- The user later on. -/
theorem Grown.of_mem (h : Grown toLower adminEmails users users') (hu : u ∈ users) :
    ∃ u' ∈ users', Promoted toLower adminEmails u u' := by
  obtain ⟨i, hi⟩ := List.mem_iff_getElem?.1 hu
  obtain ⟨u', hu', hpromoted⟩ := h i u hi
  exact ⟨u', List.mem_of_getElem? hu', hpromoted⟩

/-- An admin stays one among more users. -/
theorem Grown.admin (h : Grown toLower adminEmails users users') (hadmin : Admin id users) :
    Admin id users' := by
  obtain ⟨u, hu, hid, hrole⟩ := hadmin
  obtain ⟨u', hu', hpromoted⟩ := h.of_mem hu
  exact ⟨u', hu', hpromoted.id_eq.trans hid, hpromoted.admin hrole⟩

/-- The update makes an admin. -/
theorem admin_setRole (hmem : id ∈ users.map AdminUser.id) :
    Admin id (setRole id "admin" users) := by
  obtain ⟨u, hu, rfl⟩ := List.mem_map.1 hmem
  exact ⟨_, List.mem_map_of_mem hu, by simp, by simp⟩

/-- The update keeps the ids. -/
theorem map_id_setRole (id role : Str) (users : List AdminUser) :
    (setRole id role users).map AdminUser.id = users.map AdminUser.id := by
  rw [setRole, List.map_map]
  refine List.map_congr_left fun u _ => ?_
  show (if u.id = id then { u with role := role } else u).id = u.id
  split_ifs
  · rfl
  · rfl

/-- The update keeps the addresses. -/
theorem map_email_setRole (f : Str → Str) (id role : Str) (users : List AdminUser) :
    ((setRole id role users).map fun u => f u.email) = users.map fun u => f u.email := by
  rw [setRole, List.map_map]
  refine List.map_congr_left fun u _ => ?_
  show f (if u.id = id then { u with role := role } else u).email = f u.email
  split_ifs
  · rfl
  · rfl

/-- The update keeps the users well formed. -/
theorem WellFormed.setRole (h : WellFormed toLower users) (id role : Str) :
    WellFormed toLower (setRole id role users) := by
  refine ⟨?_, fun u hu => ?_, ?_⟩
  · rw [map_id_setRole]
    exact h.ids
  · have hid : u.id ∈ users.map AdminUser.id := by
      rw [← map_id_setRole id role]
      exact List.mem_map_of_mem hu
    obtain ⟨u', hu', hid'⟩ := List.mem_map.1 hid
    rw [← hid']
    exact h.plain u' hu'
  · rw [map_email_setRole]
    exact h.emails

/-- An id is the id of one user. -/
theorem WellFormed.eq_of_id (h : WellFormed toLower users) (hu : u ∈ users) (hu' : u' ∈ users)
    (hid : u.id = u'.id) : u = u' :=
  List.inj_on_of_nodup_map h.ids hu hu' hid

/-- An admin's id is not that of a user with another role. -/
theorem WellFormed.role_of_admin (h : WellFormed toLower users) (hu : u ∈ users)
    (hadmin : Admin u.id users) : u.role = "admin" := by
  obtain ⟨u', hu', hid, hrole⟩ := hadmin
  rw [← h.eq_of_id hu' hu hid]
  exact hrole

/-- The map finds the user of an address. -/
theorem WellFormed.lookup_emailToUser (h : WellFormed toLower users) {email : Str} :
    (emailToUser toLower users).lookup email = some u ↔ u ∈ users ∧ toLower u.email = email :=
  Table.lookup_foldl_insert h.emails

/-! ### A role update -/

/-- The URL of an update fills a path. -/
theorem apiURL_append_role (b : Base) (userID : Str) :
    b.apiURL ++ "/api/admin/users/" ++ userID ++ "/role" = (roleTemplate b).fill
      userID := by
  have hbefore : ascii "/api/admin/users/" =
      slashed [ascii "api", ascii "admin", ascii "users"] ++ [47] := rfl
  have hafter : "/role" = slashed ["role"] := rfl
  rw [hbefore, hafter]
  simp [Base.apiURL, PathTemplate.fill, PathTemplate.lead, roleTemplate, slashed]

/-- The request for a plain id is about the user with that id. -/
theorem roleKey_plain (b : Base) (hid : PlainSegment id) : roleKey b id = some id := by
  rw [roleKey, roleURL, apiURL_append_role]
  cases hu : URL.parse ((roleTemplate b).fill id) with
  | none => exact absurd (((roleTemplate b).parse_eq_none_iff id).1 hu) hid.not_refused
  | some u => exact (roleTemplate b).key_of_oneSegment hu hid.1

/-- An update of a user does nothing or sets the role, and is acknowledged only if it set the
role. -/
theorem seedExec_update (hid : PlainSegment id) (hmem : id ∈ users.map AdminUser.id)
    (sid role : Str) (x : Exchange) :
    let result := seedExec b (.adminUpdateUserRole sid id role) x users
    (result.2 = setRole id role users ∨ result.2 = users) ∧
      (result.1 = none → result.2 = setRole id role users) := by
  simp only [seedExec, roleKey_plain b hid, hmem, if_true]
  cases x.arrives with
  | false => exact ⟨.inr rfl, nofun⟩
  | true => exact ⟨.inl rfl, fun _ => rfl⟩

/-! ### What the log says of an admin -/

/-- The update of the user with the id was acknowledged. -/
def Updates (id : Str) (e : Entry SeedOp SeedReply (List AdminUser) AdminUser Str
    SyncResult) : Prop :=
  ∃ w sid, e.event = .op w (.adminUpdateUserRole sid id "admin") none

/-- The user was an admin when the event happened, or the event is an update that was
acknowledged. -/
def Secures (id : Str) (e : Entry SeedOp SeedReply (List AdminUser) AdminUser Str
    SyncResult) : Prop :=
  Admin id e.pre ∨ Updates id e

/-- The program started when the user was secured. -/
def Late (tid : ℕ) (id : Str) (L : SeedLog) : Prop :=
  After (Secures id) (fun e => ∃ w : Caller Str, w.tid = tid ∧ e.event = .call w) L

/-- The users of the last listing of the program that are on the list are secured. -/
def Synced (toLower : Str → Str) (adminEmails : List Str) (w : Caller Str) (L : SeedLog) : Prop :=
  ∃ us, LastListing w us L ∧ (∃ e ∈ L, e.pre = us) ∧
    ∀ u ∈ us, Listed toLower adminEmails u.email → Has (Secures u.id) L

/-- The invariant, for runs that start with `users0`. -/
structure Inv (toLower : Str → Str) (adminEmails : List Str) (users0 users : List AdminUser)
    (L : SeedLog) : Prop where
  wellFormed : WellFormed toLower users
  start : Grown toLower adminEmails users0 users
  grown : ∀ e ∈ L, Grown toLower adminEmails e.pre users
  updated : ∀ id, Has (Updates id) L → Admin id users
  synced : Each (fun e earlier => ∀ w, e.event = .done w .synced →
    Synced toLower adminEmails w earlier) L
  aimed : ∀ tid sid id role, .adminUpdateUserRole sid id role ∈ opsOf tid L →
    ¬ Late tid id L ∧ ∃ v ∈ users, v.id = id ∧ Listed toLower adminEmails v.email

/-- What the invariant asks of an event after the log `L`: an update is of a user on the list who
was not secured before the program started, a portal that returns is done, and one that starts is
new. -/
structure Justified (toLower : Str → Str) (adminEmails : List Str)
    (e : Entry SeedOp SeedReply (List AdminUser) AdminUser Str SyncResult) (L : SeedLog) :
    Prop where
  update : ∀ w sid id role r, e.event = .op w (.adminUpdateUserRole sid id role) r →
    ¬ Late w.tid id L ∧ ∃ v ∈ e.pre, v.id = id ∧ Listed toLower adminEmails v.email
  done : ∀ w, e.event = .done w .synced → Synced toLower adminEmails w L
  call : ∀ w, e.event = .call w → opsOf w.tid L = []

variable {users0 us : List AdminUser} {w : Caller Str} {L L' : SeedLog}
variable {e : Entry SeedOp SeedReply (List AdminUser) AdminUser Str SyncResult}

/-- A user whose update succeeded is an admin. -/
theorem Inv.admin (h : Inv toLower adminEmails users0 users L) (hid : Has (Secures id) L) :
    Admin id users := by
  obtain ⟨e, he, hadmin | hupdates⟩ := hid
  · exact (h.grown e he).admin hadmin
  · exact h.updated id ⟨e, he, hupdates⟩

/-- One more event. -/
theorem Inv.cons (h : Inv toLower adminEmails users0 e.pre L)
    (he : Justified toLower adminEmails e L) (hgrown : Grown toLower adminEmails e.pre users')
    (hwf : WellFormed toLower users') (hupdates : ∀ id, Updates id e → Admin id users') :
    Inv toLower adminEmails users0 users' (e :: L) := by
  refine ⟨hwf, h.start.trans hgrown, fun e' he' => ?_, fun id hid => ?_, ⟨he.done, h.synced⟩, ?_⟩
  · rcases List.mem_cons.1 he' with rfl | he'
    · exact hgrown
    · exact (h.grown e' he').trans hgrown
  · rcases has_cons.1 hid with hid | hid
    · exact hupdates id hid
    · exact hgrown.admin (h.updated id hid)
  · intro tid sid id role hop
    -- The update is this event or an earlier one, and no call of the program comes after it.
    have haimed : ¬ Late tid id L ∧ ∃ v ∈ e.pre, v.id = id ∧
        Listed toLower adminEmails v.email := by
      rcases mem_opsOf_cons.1 hop with hop | hop
      · obtain ⟨w, r, rfl, hev⟩ := Event.opOf_eq_some.1 hop
        exact he.update w sid id role r hev
      · exact h.aimed tid sid id role hop
    have hcall : ∀ w, w.tid = tid → e.event ≠ .call w := by
      rintro w rfl hev
      rcases mem_opsOf_cons.1 hop with hop | hop
      · rw [hev] at hop
        cases hop
      · rw [he.call w hev] at hop
        cases hop
    refine ⟨fun hlate => ?_, ?_⟩
    · rcases after_cons.1 hlate with ⟨⟨w, hw, hev⟩, -⟩ | hlate
      · exact hcall w hw hev
      · exact haimed.1 hlate
    · obtain ⟨v, hv, hid, hlisted⟩ := haimed.2
      obtain ⟨v', hv', hpromoted⟩ := hgrown.of_mem hv
      exact ⟨v', hv', hpromoted.id_eq.trans hid, hpromoted.email_eq ▸ hlisted⟩

/-- An operation makes nobody late. -/
theorem late_op {s : List AdminUser} {o : SeedOp} {r : SeedReply o} {tid : ℕ} :
    Late tid id (⟨s, .op w o r⟩ :: L) ↔ Late tid id L := by
  rw [Late, after_cons]
  simp [Late]

/-! ### What a portal knows -/

/-- What program `w` knows of its listing: the users that were not admins had not been secured
before the program started. -/
structure Known (toLower : Str → Str) (w : Caller Str) (us : List AdminUser)
    (L : SeedLog) : Prop where
  listing : LastListing w us L
  found : ∃ e ∈ L, e.pre = us
  wellFormed : WellFormed toLower us
  fresh : ∀ u ∈ us, u.role ≠ "admin" → ¬ Late w.tid u.id L

/-- The last listing stays while the portal waits. -/
theorem LastListing.others (h : LastListing w us L) (hL : Others w.tid L L') :
    LastListing w us L' := by
  refine hL.latest ?_ h
  rintro e ⟨sid, r, he⟩
  rw [he]
  rfl

/-- Nobody becomes late while the portal waits. -/
theorem late_others {tid : ℕ} (hL : Others tid L L') : Late tid id L' ↔ Late tid id L := by
  refine hL.after_iff ?_
  rintro e ⟨w, rfl, he⟩
  rw [he]
  rfl

/-- What is known stays while the portal waits. -/
theorem Known.others (h : Known toLower w us L) (hL : Others w.tid L L') :
    Known toLower w us L' := by
  obtain ⟨e, he, hpre⟩ := h.found
  refine ⟨h.listing.others hL, ⟨e, hL.mem he, hpre⟩, h.wellFormed, fun u hu hrole => ?_⟩
  rw [late_others hL]
  exact h.fresh u hu hrole

/-- An update does not change the listing. -/
theorem Known.update (h : Known toLower w us L) {s : List AdminUser} {sid id role : Str}
    {r : Option Str} :
    Known toLower w us (⟨s, .op w (.adminUpdateUserRole sid id role) r⟩ :: L) := by
  obtain ⟨e, he, hpre⟩ := h.found
  refine ⟨.inr ⟨?_, h.listing⟩, ⟨e, .tail _ he, hpre⟩, h.wellFormed,
    fun u hu hrole => ?_⟩
  · rintro ⟨sid', r', heq⟩
    cases heq
  · rw [late_op]
    exact h.fresh u hu hrole

/-- A portal is synced while it waits. -/
theorem Synced.others (h : Synced toLower adminEmails w L) (hL : Others w.tid L L') :
    Synced toLower adminEmails w L' := by
  obtain ⟨us, hlisting, ⟨e, he, hpre⟩, hsecured⟩ := h
  refine ⟨us, hlisting.others hL, ⟨e, hL.mem he, hpre⟩, fun u hu hlisted => ?_⟩
  obtain ⟨e, he, hsecures⟩ := hsecured u hu hlisted
  exact ⟨e, hL.mem he, hsecures⟩

/-- A listing changes nothing. -/
theorem seedExec_list (sid : Str) (x : Exchange) (users : List AdminUser) :
    (seedExec b (.adminListUsers sid) x users).2 = users := by
  simp only [seedExec]
  split_ifs
  · rfl
  · rfl

/-- A listing lists the users. -/
theorem seedExec_list_ok {sid : Str} {x : Exchange}
    (h : (seedExec b (.adminListUsers sid) x users).1 = .ok us) : us = users := by
  simp only [seedExec] at h
  split_ifs at h
  exact (Except.ok.inj h).symm

/-- A listing keeps the invariant. -/
theorem Inv.list (h : Inv toLower adminEmails users0 users L) {sid : Str}
    {r : Except Str (List AdminUser)} :
    Inv toLower adminEmails users0 users (⟨users, .op w (.adminListUsers sid) r⟩ :: L) := by
  refine h.cons ⟨?_, ?_, ?_⟩ (.refl users) h.wellFormed ?_
  · exact nofun
  · exact nofun
  · exact nofun
  · rintro id ⟨w', sid', heq⟩
    cases heq

/-- A portal knows what it listed. -/
theorem Inv.known (h : Inv toLower adminEmails users0 users L) :
    Known toLower w users (⟨users, .op w (.adminListUsers w.call) (.ok users)⟩ :: L) := by
  refine ⟨.inl rfl, ⟨_, .head _, rfl⟩, h.wellFormed, fun u hu hrole hlate => ?_⟩
  rw [late_op] at hlate
  exact hrole (h.wellFormed.role_of_admin hu (h.admin hlate.has_first))

/-- The update of a user of the listing who is on the list. -/
theorem Inv.update (h : Inv toLower adminEmails users0 users L) (hknown : Known toLower w us L)
    (hu : u ∈ us) (hlisted : Listed toLower adminEmails u.email) (hrole : u.role ≠ "admin")
    (sid : Str) (x : Exchange) :
    let result := seedExec b (.adminUpdateUserRole sid u.id "admin") x users
    Inv toLower adminEmails users0 result.2
      (⟨users, .op w (.adminUpdateUserRole sid u.id "admin") result.1⟩ :: L) := by
  intro result
  -- The user is still in the table, and the only one with the id.
  obtain ⟨e, he, hpre⟩ := hknown.found
  obtain ⟨u', hu', hpromoted⟩ := (h.grown e he).of_mem (hpre ▸ hu)
  have hid : u.id ∈ users.map AdminUser.id := by
    rw [← hpromoted.id_eq]
    exact List.mem_map_of_mem hu'
  have honly : ∀ v ∈ users, v.id = u.id → Listed toLower adminEmails v.email := by
    intro v hv hvid
    rw [h.wellFormed.eq_of_id hv hu' (hvid.trans hpromoted.id_eq.symm), hpromoted.email_eq]
    exact hlisted
  obtain ⟨heffect, hacknowledged⟩ :=
    seedExec_update (b := b) (hknown.wellFormed.plain u hu) hid sid "admin" x
  refine h.cons ⟨?_, ?_, ?_⟩ ?_ ?_ ?_
  · intro w' sid' id role r heq
    obtain ⟨rfl, hop, -⟩ := Event.op.inj heq
    obtain ⟨-, rfl, -⟩ := SeedOp.adminUpdateUserRole.inj hop
    exact ⟨hknown.fresh u hu hrole, u', hu', hpromoted.id_eq, honly u' hu' hpromoted.id_eq⟩
  · exact nofun
  · exact nofun
  · rcases heffect with hset | hsame
    · rw [hset]
      exact .setRole honly
    · rw [hsame]
      exact .refl users
  · rcases heffect with hset | hsame
    · rw [hset]
      exact h.wellFormed.setRole _ _
    · rw [hsame]
      exact h.wellFormed
  · rintro id ⟨w', sid', heq⟩
    obtain ⟨-, hop, hreply⟩ := Event.op.inj heq
    obtain ⟨-, rfl, -⟩ := SeedOp.adminUpdateUserRole.inj hop
    rw [hacknowledged (eq_of_heq hreply)]
    exact admin_setRole hid

/-! ### The outlines -/

/-- The users of the map that the emails find are secured. -/
def Done (toLower : Str → Str) (us : List AdminUser) (emails : List Str) (L : SeedLog) : Prop :=
  ∀ email ∈ emails, ∀ u, (emailToUser toLower us).lookup (toLower email) = some u →
    Has (Secures u.id) L

/-- One email is done, and then the rest. -/
theorem Done.cons {email : Str} {rest : List Str}
    (hemail : ∀ u, (emailToUser toLower us).lookup (toLower email) = some u → Has (Secures u.id) L)
    (hrest : Done toLower us rest L) : Done toLower us (email :: rest) L := by
  intro email' hemail'
  rcases List.mem_cons.1 hemail' with rfl | hemail'
  · exact hemail
  · exact hrest email' hemail'

/-- What happened is in every later log. -/
theorem has_extends {P : Entry SeedOp SeedReply (List AdminUser) AdminUser Str SyncResult → Prop}
    (hL : Extends L L') (h : Has P L) : Has P L' := by
  obtain ⟨e, he, hP⟩ := h
  exact ⟨e, hL.mem he, hP⟩

/-- The outline of an update: without an error the user is secured. -/
theorem outline_adminUpdateUserRole (hknown : Known toLower w us L) (hu : u ∈ us)
    (hlisted : Listed toLower adminEmails u.email) (hrole : u.role ≠ "admin") :
    Outline (seedSystem b toLower adminEmails) (joining toLower) (Inv toLower adminEmails users0) w
      (fun err L' => Known toLower w us L' ∧ (err = none → Has (Secures u.id) L'))
      (adminUpdateUserRole w.call u.id "admin") L := by
  intro users1 L1 x hL1 hI1 _
  have hknown1 := hknown.others hL1
  refine ⟨hI1.update hknown1 hu hlisted hrole w.call x, hknown1.update, fun hnone => ?_⟩
  refine has_cons.2 (.inl (.inr ⟨w, w.call, ?_⟩))
  rw [← hnone]

/-- The outline of the loop: it goes on past errors, and without one every email has been seen
to. -/
theorem outline_updateLoop (emails : List Str) (hemails : ∀ email ∈ emails, email ∈ adminEmails)
    (t : Tally) (hknown : Known toLower w us L) :
    Outline (seedSystem b toLower adminEmails) (joining toLower) (Inv toLower adminEmails users0) w
      (fun t' L' => Known toLower w us L' ∧
        (t'.lastErr = none → t.lastErr = none ∧ Done toLower us emails L'))
      (updateLoop toLower w.call (emailToUser toLower us) emails t) L := by
  induction emails generalizing t L with
  | nil => exact ⟨hknown, fun h => ⟨h, nofun⟩⟩
  | cons email rest ih =>
    have hrest : ∀ email ∈ rest, email ∈ adminEmails :=
      fun e he => hemails e (.tail _ he)
    rw [updateLoop]
    cases hlookup : (emailToUser toLower us).lookup (toLower email) with
    | none =>
      refine (ih hrest _ hknown).imp fun t' L' _ ⟨hknown', hdone⟩ => ⟨hknown', fun h => ?_⟩
      obtain ⟨ht, hdone⟩ := hdone h
      refine ⟨ht, hdone.cons fun u hu => ?_⟩
      rw [hlookup] at hu
      cases hu
    | some u =>
      obtain ⟨hu, hemail⟩ := hknown.wellFormed.lookup_emailToUser.1 hlookup
      by_cases hrole : u.role = "admin"
      · -- The listing found an admin.
        obtain ⟨e, he, hpre⟩ := hknown.found
        have hsecured : Has (Secures u.id) L := by
          refine ⟨e, he, .inl ?_⟩
          rw [hpre]
          exact ⟨u, hu, rfl, hrole⟩
        simp only [if_pos hrole]
        refine (ih hrest _ hknown).imp fun t' L' hL' ⟨hknown', hdone⟩ => ⟨hknown', fun h => ?_⟩
        obtain ⟨ht, hdone⟩ := hdone h
        refine ⟨ht, hdone.cons fun v hv => ?_⟩
        rw [← Option.some.inj (hlookup.symm.trans hv)]
        exact has_extends hL' hsecured
      · simp only [if_neg hrole]
        have hlisted : Listed toLower adminEmails u.email := by
          rw [Listed, hemail]
          exact List.mem_map_of_mem (hemails email (.head _))
        refine outline_bind.2 ((outline_adminUpdateUserRole hknown hu hlisted hrole).imp ?_)
        rintro err L1 - ⟨hknown1, hsecured⟩
        cases err with
        | some err =>
          -- An error stays until the end of the loop.
          refine (ih hrest _ hknown1).imp fun t' L' _ ⟨hknown', hdone⟩ => ⟨hknown', fun h => ?_⟩
          cases (hdone h).1
        | none =>
          refine (ih hrest _ hknown1).imp fun t' L' hL' ⟨hknown', hdone⟩ => ⟨hknown', fun h => ?_⟩
          obtain ⟨ht, hdone⟩ := hdone h
          refine ⟨ht, hdone.cons fun v hv => ?_⟩
          rw [← Option.some.inj (hlookup.symm.trans hv)]
          exact has_extends hL' (hsecured rfl)

/-- The outline of an attempt: without an error the listed users of its listing are secured. -/
theorem outline_syncAdminsOnce :
    Outline (seedSystem b toLower adminEmails) (joining toLower) (Inv toLower adminEmails users0) w
      (fun err L' => err = none → Synced toLower adminEmails w L')
      (syncAdminsOnce toLower adminEmails w.call) L := by
  -- The listing tells the attempt what every user was at that moment.
  have hlist : Outline (seedSystem b toLower adminEmails) (joining toLower)
      (Inv toLower adminEmails users0) w
      (fun reply L' => ∀ us, reply = .ok us → Known toLower w us L') (adminListUsers w.call) L := by
    intro users1 L1 x _ hI1 _
    refine ⟨?_, fun us hreply => ?_⟩
    · show Inv toLower adminEmails users0 (seedExec b (.adminListUsers w.call) x users1).2 _
      rw [seedExec_list]
      exact hI1.list
    · rw [System.entry, hreply, seedExec_list_ok (b := b) hreply]
      exact hI1.known
  refine outline_bind.2 (hlist.imp fun reply L1 _ hknown => ?_)
  cases reply with
  | error err => exact nofun
  | ok us =>
    refine outline_bind.2
      ((outline_updateLoop adminEmails (fun _ h => h) {} (hknown us rfl)).imp ?_)
    rintro t L2 - ⟨hknown2, hdone⟩ hresult
    refine ⟨us, hknown2.listing, hknown2.found, fun u hu hlisted => ?_⟩
    have hnone : t.lastErr = none := Option.map_eq_none_iff.1 hresult
    obtain ⟨email, hemail, heq⟩ := List.mem_map.1 hlisted
    exact (hdone hnone).2 email hemail u (hknown2.wellFormed.lookup_emailToUser.2 ⟨hu, heq.symm⟩)

/-- The outline of the retries. -/
theorem outline_retryLoop (attempts : ℕ) (err : Str) :
    Outline (seedSystem b toLower adminEmails) (joining toLower) (Inv toLower adminEmails users0) w
      (fun a L' => a = .synced → Synced toLower adminEmails w L')
      (retryLoop toLower adminEmails w.call attempts err) L := by
  induction attempts generalizing err L with
  | zero => exact nofun
  | succ attempts ih =>
    refine outline_bind.2 (outline_syncAdminsOnce.imp fun err' L1 _ hsynced => ?_)
    cases err' with
    | none => exact fun _ => hsynced rfl
    | some err' => exact ih err'

/-- The outline of `SyncAdmins`. -/
theorem outline_syncAdmins :
    Outline (seedSystem b toLower adminEmails) (joining toLower) (Inv toLower adminEmails users0) w
      (fun a L' => a = .synced → Synced toLower adminEmails w L')
      (syncAdmins toLower adminEmails w.call) L := by
  unfold syncAdmins
  split_ifs
  · exact nofun
  · exact outline_retryLoop seedRetryAttempts []

/-- An event that is no operation, justified as a return or as a call. -/
theorem Inv.other (h : Inv toLower adminEmails users0 e.pre L) (hop : ∀ w o r, e.event ≠ .op w o r)
    (hdone : ∀ w, e.event = .done w .synced → Synced toLower adminEmails w L)
    (hcall : ∀ w, e.event = .call w → opsOf w.tid L = [])
    (hgrown : Grown toLower adminEmails e.pre users') (hwf : WellFormed toLower users') :
    Inv toLower adminEmails users0 users' (e :: L) := by
  refine h.cons ⟨fun w sid id role r heq => ?_, hdone, hcall⟩ hgrown hwf ?_
  · exact absurd heq (hop _ _ _)
  · rintro id ⟨w, sid, heq⟩
    exact absurd heq (hop _ _ _)

/-- The portals are verified from well-formed users. -/
theorem verified (hstart : WellFormed toLower users0) :
    Verified (seedSystem b toLower adminEmails) (joining toLower) (Inv toLower adminEmails users0)
      users0 where
  init := by
    refine ⟨hstart, .refl users0, nofun, fun id hid => ?_,
      trivial, ?_⟩
    · exact absurd hid (has_nil _)
    · exact nofun
  call users L w h hfresh _ := by
    refine ⟨h.other (by simp) (by simp) ?_ (.refl users) h.wellFormed, ?_⟩
    · intro w' heq
      rw [← Event.call.inj heq]
      exact opsOf_fresh hfresh
    · refine outline_syncAdmins.imp fun a L1 _ hsynced users2 L2 hL2 hI2 _ => ?_
      refine hI2.other (by simp) ?_ (by simp) (.refl users2) hI2.wellFormed
      intro w' heq
      obtain ⟨rfl, ha⟩ := Event.done.inj heq
      exact (hsynced ha).others hL2
  env users L u h hjoin := h.other (by simp) (by simp) (by simp) (.join users u) hjoin
  crash users L h _ := h.other (by simp) (by simp) (by simp) (.refl users) h.wellFormed

/-- In every run of any number of portals, from each state to every later one users on the list may
become admins and nothing else happens to a user. After an attempt that returned `nil` the listed
users of its listing are admins, now and at any later time, and a portal that starts after it
updates nobody of that listing. So it updates nobody at all if nobody has joined since. -/
theorem adminSync_converges (b : Base) (toLower : Str → Str) (adminEmails : List Str)
    {users0 : List AdminUser} (hstart : WellFormed toLower users0)
    {c : Config SeedOp SeedReply (List AdminUser) AdminUser Str SyncResult}
    (hc : Reachable (seedSystem b toLower adminEmails) (joining toLower) users0 c) :
    Grown toLower adminEmails users0 c.state ∧
    (∀ e ∈ c.log, Grown toLower adminEmails e.pre c.state) ∧
    ∀ later earlier users w, c.log = later ++ ⟨users, .done w .synced⟩ :: earlier →
      ∃ us, LastListing w us earlier ∧
        (∀ u ∈ us, Listed toLower adminEmails u.email → Admin u.id c.state) ∧
        ∀ users' w', ⟨users', .call w'⟩ ∈ later →
          (∀ u ∈ us, ∀ sid role, .adminUpdateUserRole sid u.id role ∉ opsOf w'.tid c.log) ∧
          ((∀ v ∈ c.state, ∃ u ∈ us, u.id = v.id) →
            ∀ sid id role, .adminUpdateUserRole sid id role ∉ opsOf w'.tid c.log) := by
  have hI := hc.invariant (verified hstart)
  refine ⟨hI.start, hI.grown, fun later earlier users w hlog => ?_⟩
  obtain ⟨us, hlisting, ⟨e, he, hpre⟩, hsecured⟩ : Synced toLower adminEmails w earlier := by
    have heach := hI.synced
    rw [hlog] at heach
    exact heach.append.1 w rfl
  have hmem : ∀ e ∈ earlier, e ∈ c.log := by
    intro e he
    rw [hlog]
    simp [he]
  have hsecured' : ∀ u ∈ us, Listed toLower adminEmails u.email → Has (Secures u.id) c.log := by
    intro u hu hlisted
    obtain ⟨e, he, hsecures⟩ := hsecured u hu hlisted
    exact ⟨e, hmem e he, hsecures⟩
  refine ⟨us, hlisting, fun u hu hlisted => hI.admin (hsecured' u hu hlisted), ?_⟩
  intro users' w' hcall
  have hnone : ∀ u ∈ us, ∀ sid role, .adminUpdateUserRole sid u.id role ∉ opsOf w'.tid c.log := ?_
  · refine ⟨hnone, fun hall sid id role hop => ?_⟩
    obtain ⟨-, v, hv, rfl, -⟩ := hI.aimed _ _ _ _ hop
    obtain ⟨u, hu, hid⟩ := hall v hv
    exact hnone u hu sid role (hid ▸ hop)
  intro u hu sid role hop
  obtain ⟨hlate, v, hv, hid, hlisted⟩ := hI.aimed _ _ _ _ hop
  -- The user that is updated is the one of the listing, so they were secured before the call.
  obtain ⟨u', hu', hpromoted⟩ := (hI.grown e (hmem e he)).of_mem (hpre ▸ hu)
  have hsame : v = u' := hI.wellFormed.eq_of_id hv hu' (hid.trans hpromoted.id_eq.symm)
  rw [hsame, hpromoted.email_eq] at hlisted
  obtain ⟨last, first, rfl⟩ := List.append_of_mem hcall
  obtain ⟨e', he', hsecures⟩ := hsecured u hu hlisted
  refine hlate ⟨last, ⟨users', .call w'⟩, first ++ ⟨users, .done w .synced⟩ :: earlier, ?_,
    ⟨w', rfl, rfl⟩, e', ?_, hsecures⟩
  · rw [hlog]
    simp
  · simp [he']

/-! ### Two portals, one after the other -/

/-- The authority of the sample is plain. -/
theorem sampleAuthority_plain : 35 ∉ ascii "v" ∧ 47 ∉ ascii "v" ∧ 63 ∉ ascii "v" ∧
    containsCTL (ascii "v") = false := by decide

/-- vire-server at `http://v`. -/
def sampleBase : Base where
  origin := ⟨"http", "v", none, "v", http_head, http_bytes, sampleAuthority_plain, rfl⟩
  segments := []
  plain := plainSegment_nil

/-- A user whose email is on the list but for its case. -/
def sampleUser : AdminUser := ⟨"u1", "A@x", "user"⟩

/-- A request that succeeds. -/
def succeeds : Exchange := ⟨true, true, []⟩

/-- The update is carried out and its reply is lost. -/
def replyLost : Exchange := ⟨true, false, "failed to reach vire-server: EOF"⟩

/-- The first portal's update seems to fail and it tries again; then a second portal starts. -/
def twoPortals : Config SeedOp SeedReply (List AdminUser) AdminUser Str SyncResult :=
  (seedSystem sampleBase foldKey ["a@X"]).run (.init [sampleUser])
    [.call "p1", .step 0 succeeds, .step 0 replyLost, .step 0 succeeds, .step 0 succeeds,
      .call "p2", .step 1 succeeds, .step 1 succeeds]

/-- The user of the sample is well formed. -/
theorem sampleUser_wellFormed : WellFormed foldKey [sampleUser] := by
  refine ⟨List.nodup_singleton _, fun u hu => ?_, List.nodup_singleton _⟩
  rw [List.mem_singleton.1 hu]
  decide

/-- The run of two portals. -/
theorem twoPortals_reachable :
    Reachable (seedSystem sampleBase foldKey ["a@X"]) (joining foldKey)
    [sampleUser] twoPortals :=
  Reachable.init.run _ (by repeat' constructor)

/-- The user is an admin, and the second portal updates nobody. -/
theorem adminSync_converges_twoPortals : Admin "u1" twoPortals.state ∧
    ∀ sid id role, .adminUpdateUserRole sid id role ∉ opsOf 1 twoPortals.log := by
  obtain ⟨us, hlisting, hadmin, hlater⟩ :=
    (adminSync_converges sampleBase foldKey ["a@X"] sampleUser_wellFormed twoPortals_reachable).2.2
      (twoPortals.log.take 3) (twoPortals.log.drop 4) _ ⟨0, "p1"⟩ rfl
  -- The second attempt listed the user as the first one's update had left them.
  have hus : us = [{ sampleUser with role := "admin" }] := by
    rcases hlisting with hlisted | ⟨hnone, -⟩
    · exact (Except.ok.inj (eq_of_heq (Event.op.inj hlisted).2.2)).symm
    · exact absurd ⟨_, _, rfl⟩ hnone
  subst hus
  refine ⟨hadmin _ (.head _) (List.mem_singleton.2 rfl), ?_⟩
  refine (hlater _ ⟨1, "p2"⟩ (.tail _ (.tail _ (.head _)))).2 fun v hv =>
    ⟨_, .head _, ?_⟩
  obtain rfl : v = { sampleUser with role := "admin" } := List.mem_singleton.1 hv
  rfl

end VirePortal.Seed
