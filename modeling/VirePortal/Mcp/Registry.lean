import VirePortal.Concurrent.Doings
import VirePortal.Mcp.Freshness
import VirePortal.Mcp.Validation

/-!
# The registered tools and the catalog

`RefreshCatalog` replaces the registered tools and assigns `Handler.catalog` in two steps, and
nothing keeps two calls apart. When the calls take turns in between, the tools of the one stay with
the catalog of the other (`registry_torn`).

`registry_agrees` says that there is no other way. When no call that set other tools has its
assignment still before it while the catalog of the registered tools is assigned, then the tools are
those of the catalog once no call runs. It also says that a failed call changes neither, and that
`NewHandler` and `RefreshCatalog` register the same tools for the same catalog.
-/

namespace VirePortal.Mcp.Registry

open Go Auth Concurrent Freshness

/-- The calls of `RefreshCatalog`. vire-server goes on to a later build at any time. -/
def registry (up : Upstream) : System HandlerOp HandlerReply HandlerState Bool ℕ Unit Bool where
  exec := handlerExec up
  handle _ := refreshCatalog
  env n s := { s with release := s.release + n }
  crash s := s

/-- A log of the calls. -/
abbrev RegistryLog := Log HandlerOp HandlerReply HandlerState ℕ Unit Bool

/-- The tools are those of the catalog and the two of the portal, which win for their names. -/
def Registers (catalog : List CatalogTool) (tools : Table ServerTool) : Prop :=
  ∀ name t, tools.lookup name = some t ↔ (name = "get_version" ∧ t = versionTool) ∨
    (name = "portal_get_page" ∧ t = getPageTool) ∨
    (name ≠ "get_version" ∧ name ≠ "portal_get_page" ∧
      ∃ ct ∈ catalog, ct.name = name ∧ t = catalogServerTool ct)

/-- A call that runs has replaced the tools by `ts` and not assigned the catalog yet. -/
def Pending (tid : ℕ) (ts : List ServerTool) (L : RegistryLog) : Prop :=
  (opsOf tid L).head? = some (.setTools ts)

/-- Where a call assigns the catalog of the registered tools, the calls between their two steps have
set the same tools. -/
def inOrder : Assumption HandlerOp HandlerReply HandlerState Bool ℕ Unit Bool where
  op w o _ s L := ∀ cat, o = .setCatalog cat → s.tools = setTools (catalogServerTools cat) →
    ∀ tid ts, tid ≠ w.tid → Pending tid ts L → ts = catalogServerTools cat
  crash _ _ := False

variable {up : Upstream} {catalog : List CatalogTool} {tools : Table ServerTool}

/-! ### The tools of a catalog -/

/-- The tools of entries with distinct names. -/
theorem lookup_foldl_addTool (hnodup : (catalog.map CatalogTool.name).Nodup) {name : Str}
    {t : ServerTool} :
    ((catalog.map catalogServerTool).foldl addTool ∅).lookup name = some t ↔
      ∃ ct ∈ catalog, ct.name = name ∧ t = catalogServerTool ct := by
  have hnodup' : ((catalog.map catalogServerTool).map fun t => t.tool.name).Nodup := by
    rw [List.map_map]
    exact hnodup
  refine (Table.lookup_foldl_insert hnodup').trans ⟨?_, ?_⟩
  · rintro ⟨ht, hname⟩
    obtain ⟨ct, hct, rfl⟩ := List.mem_map.1 ht
    exact ⟨ct, hct, hname, rfl⟩
  · rintro ⟨ct, hct, hname, rfl⟩
    exact ⟨List.mem_map_of_mem hct, hname⟩

/-- What `RefreshCatalog` and `NewHandler` register for validated entries. -/
theorem registers_setTools (hnodup : (catalog.map CatalogTool.name).Nodup) :
    Registers catalog (setTools (catalogServerTools catalog)) := by
  intro name t
  have hsteps : setTools (catalogServerTools catalog) =
      (((catalog.map catalogServerTool).foldl addTool ∅).insert (ascii "get_version")
        versionTool).insert
        (ascii "portal_get_page") getPageTool := by
    rw [setTools, catalogServerTools, List.foldl_append]
    rfl
  have hne : ascii "portal_get_page" ≠ ascii "get_version" := by decide
  rw [hsteps, Table.lookup_insert, Table.lookup_insert, ← lookup_foldl_addTool hnodup]
  split_ifs with hpage hversion
  · simp [hpage, hne, eq_comm]
  · simp [hversion, hne.symm, eq_comm]
  · simp [hpage, hversion]

/-- A valid catalog has distinct names. -/
theorem nodup_validateCatalog (catalog : List CatalogTool) :
    ((validateCatalog catalog).map CatalogTool.name).Nodup := by
  rw [validateCatalog_eq]
  exact Collections.nodup_map_firstWins

/-! ### The start and one refresh -/

variable {allows : HandlerOp → Bool → HandlerState → Prop} {s s' : HandlerState}
variable {ops : List ((o : HandlerOp) × HandlerReply o)}

/-- The loop returns the catalog that it fetched, if it fetched one. -/
theorem fetchLoop_fetched {attempts : ℕ} {last result : List CatalogTool × Bool}
    (h : (setting up allows).Runs (fetchLoop attempts last) s ops result s')
    {raw : List CatalogTool} (hraw : ⟨.fetchCatalog, some raw⟩ ∈ ops) : result = (raw, false) := by
  induction attempts generalizing s ops last with
  | zero =>
    obtain ⟨rfl, -⟩ := h
    cases hraw
  | succ attempts ih =>
    obtain ⟨s1, ok, rest, -, -, rfl, hrest⟩ := h
    cases ok with
    | false =>
      rcases List.mem_cons.1 hraw with heq | hraw
      · cases heq
      · exact ih hrest hraw
    | true =>
      obtain ⟨rfl, rfl, -⟩ := hrest
      rcases List.mem_cons.1 hraw with heq | hraw
      · cases heq
        rfl
      · cases hraw

/-- The registration adds tools. -/
theorem registerToolsFromCatalog_ops {u : Unit}
    (h : (setting up allows).Runs (registerToolsFromCatalog catalog) s ops u s') :
    ∀ op ∈ ops, ∃ t, op.1 = .addTool t := by
  induction catalog generalizing s ops with
  | nil =>
    obtain ⟨rfl, -⟩ := h
    simp
  | cons ct catalog ih =>
    obtain ⟨s1, ok, rest, -, -, rfl, hrest⟩ := h
    exact List.forall_mem_cons.2 ⟨⟨_, rfl⟩, ih hrest⟩

/-- After `NewHandler` the tools are those of its catalog, which is what is left of the one it
fetched. -/
theorem newHandler_registers {catalogRetries : ℤ} {u : Unit}
    (h : (setting up allows).Runs (newHandler catalogRetries) {} ops u s') :
    (s'.catalog.map CatalogTool.name).Nodup ∧ s'.tools = setTools (catalogServerTools s'.catalog) ∧
      ∀ raw, ⟨.fetchCatalog, some raw⟩ ∈ ops → s'.catalog = validateCatalog raw := by
  obtain ⟨⟨raw, failed⟩, s1, ops1, ops2, rfl, hfetch, hrest⟩ := h.bind
  obtain ⟨-, htools1, -, -⟩ := fetchLoop_spec hfetch
  obtain ⟨u, s2, ops3, ops4, rfl, hregister, hlast⟩ := hrest.bind
  obtain ⟨-, htools2, -, -⟩ := registerToolsFromCatalog_spec hregister
  -- The two tools of the portal, and the field of the handler.
  obtain ⟨s3, ok3, rest3, ⟨n3, -, rfl⟩, -, rfl, hlast⟩ := hlast
  obtain ⟨s4, ok4, rest4, ⟨n4, -, rfl⟩, -, rfl, hlast⟩ := hlast
  obtain ⟨s5, ok5, rest5, ⟨n5, -, rfl⟩, -, rfl, hlast⟩ := hlast
  obtain ⟨rfl, -, n6, -, rfl⟩ := hlast
  refine ⟨?_, ?_, fun raw' hraw' => ?_⟩
  · show ((if failed = true then [] else validateCatalog raw).map CatalogTool.name).Nodup
    split_ifs
    · exact List.nodup_nil
    · exact nodup_validateCatalog raw
  · show addTool (addTool s2.tools versionTool) getPageTool = _
    rw [htools2, htools1, setTools, catalogServerTools, List.foldl_append]
    rfl
  · -- Only the loop fetches.
    have hmem : ⟨.fetchCatalog, some raw'⟩ ∈ ops1 := by
      rcases List.mem_append.1 hraw' with hmem | hmem
      · exact hmem
      rcases List.mem_append.1 hmem with hmem | hmem
      · obtain ⟨t, ht⟩ := registerToolsFromCatalog_ops hregister _ hmem
        cases ht
      · simp at hmem
    obtain ⟨rfl, rfl⟩ := Prod.mk.inj (fetchLoop_fetched hfetch hmem)
    rfl

/-- A refresh on its own. -/
theorem refreshCatalog_registers {ok : Bool}
    (h : (setting up allows).Runs refreshCatalog s ops ok s') {raw : List CatalogTool}
    (hraw : ⟨.fetchCatalog, some raw⟩ ∈ ops) :
    s'.tools = setTools (catalogServerTools (validateCatalog raw)) ∧
      s'.catalog = validateCatalog raw := by
  obtain ⟨s1, fetched, rest, -, -, rfl, hrest⟩ := h
  cases fetched with
  | false =>
    obtain ⟨rfl, -⟩ := hrest
    simp [setting, handlerExec] at hraw
  | true =>
    obtain ⟨s2, ok2, rest2, ⟨n2, -, rfl⟩, -, rfl, hrest⟩ := hrest
    obtain ⟨s3, ok3, rest3, ⟨n3, -, rfl⟩, -, rfl, hrest⟩ := hrest
    obtain ⟨rfl, -, n4, -, rfl⟩ := hrest
    have hfetched : up.catalog (up.builds s1.release) = raw := by
      simpa [setting, handlerExec, eq_comm] using hraw
    rw [← hfetched]
    exact ⟨rfl, rfl⟩

/-! ### Calls that overlap -/

/-- The tools are those of `cat`. A call that set them is between its two steps, or `cat` is the
catalog and no call with other tools is. -/
structure Agrees (cat : List CatalogTool) (s : HandlerState) (L : RegistryLog) : Prop where
  nodup : (cat.map CatalogTool.name).Nodup
  tools : s.tools = setTools (catalogServerTools cat)
  owed : (∃ tid, Pending tid (catalogServerTools cat) L) ∨
    (s.catalog = cat ∧ ∀ tid ts, Pending tid ts L → ts = catalogServerTools cat)

/-- What is known of a call that returned: it is not between its two steps, and if it failed it only
fetched. -/
def Ended (L : RegistryLog) : Prop :=
  ∀ w a, Returned w a L → (∀ ts, ¬ Pending w.tid ts L) ∧
    (a = false → opsOf w.tid L = [.fetchCatalog])

/-- The invariant. -/
structure Inv (s : HandlerState) (L : RegistryLog) : Prop where
  agrees : ∃ cat, Agrees cat s L
  ended : Ended L

/-- A call that has performed `ops` and not returned. -/
structure Running (w : Caller Unit) (ops : List HandlerOp) (L : RegistryLog) : Prop where
  ops : opsOf w.tid L = ops
  running : ∀ a, ¬ Returned w a L

variable {cat : List CatalogTool} {w : Caller Unit} {o : HandlerOp} {r : HandlerReply o}
  {L L' : RegistryLog}
variable {tid : ℕ} {ts : List ServerTool} {ops : List HandlerOp}

/-- The tools that are to be set. -/
theorem pending_op : Pending w.tid ts (⟨s, .op w o r⟩ :: L) ↔ o = .setTools ts := by
  rw [Pending, opsOf_cons_op, List.head?_cons, Option.some_inj]

/-- Another refresh changes nothing that is to be set. -/
theorem pending_op_of_ne (h : tid ≠ w.tid) :
    Pending tid ts (⟨s, .op w o r⟩ :: L) ↔ Pending tid ts L := by
  rw [Pending, opsOf_cons_op_of_ne h, Pending]

/-- A refresh runs on while it waits. -/
theorem Running.others (h : Running w ops L) (hL : Others w.tid L L') : Running w ops L' :=
  ⟨(opsOf_others hL).trans h.ops, fun a => mt hL.returned_iff.1 (h.running a)⟩

/-- A refresh takes a step. -/
theorem Running.op (h : Running w ops L) : Running w (o :: ops) (⟨s, .op w o r⟩ :: L) := by
  refine ⟨by rw [opsOf_cons_op, h.ops], fun a hdone => ?_⟩
  rcases has_cons.1 hdone with heq | hdone
  · cases heq
  · exact h.running a hdone

/-- A call that runs does not touch what is known of those that returned. -/
theorem Ended.op (h : Ended L) (hw : Running w ops L) : Ended (⟨s, .op w o r⟩ :: L) := by
  intro w' a hdone
  have hdone' : Returned w' a L := (has_cons.1 hdone).resolve_left (by simp)
  have hne : w'.tid ≠ w.tid := by
    intro htid
    obtain rfl : w' = w := by
      cases w
      cases w'
      cases htid
      rfl
    exact hw.running a hdone'
  obtain ⟨hpending, hfailed⟩ := h w' a hdone'
  refine ⟨fun ts hts => hpending ts ((pending_op_of_ne hne).1 hts), fun ha => ?_⟩
  rw [opsOf_cons_op_of_ne hne]
  exact hfailed ha

/-- Nothing that the agreement is about changes. -/
theorem Agrees.same (h : Agrees cat s L) (htools : s'.tools = s.tools)
    (hcatalog : s'.catalog = s.catalog)
    (hpending : ∀ tid ts, Pending tid ts L' ↔ Pending tid ts L) : Agrees cat s' L' := by
  refine ⟨h.nodup, htools.trans h.tools, ?_⟩
  rcases h.owed with ⟨tid, htid⟩ | ⟨hcat, hall⟩
  · exact .inl ⟨tid, (hpending _ _).2 htid⟩
  · exact .inr ⟨hcatalog.trans hcat, fun tid ts hts => hall tid ts ((hpending _ _).1 hts)⟩

/-- The first operation of a call fetches, and changes neither the tools nor the catalog. -/
theorem Inv.fetch (h : Inv s L) (hw : Running w [] L) (ok : Bool) :
    Inv (handlerExec up .fetchCatalog ok s).2
      (⟨s, .op w .fetchCatalog (handlerExec up .fetchCatalog ok s).1⟩ :: L) := by
  obtain ⟨⟨cat, hcat⟩, hended⟩ := h
  refine ⟨⟨cat, hcat.same ?_ ?_ fun tid ts => ?_⟩, hended.op hw⟩
  · cases ok
    · rfl
    · rfl
  · cases ok
    · rfl
    · rfl
  · -- The call is not between its two steps, neither before nor after.
    by_cases htid : tid = w.tid
    · rw [htid, pending_op, Pending, hw.ops]
      simp
    · exact pending_op_of_ne htid

/-- A call replaces the tools, and owes the catalog. -/
theorem Inv.setTools (h : Inv s L) (hw : Running w ops L)
    (hnodup : (cat.map CatalogTool.name).Nodup) :
    Inv { s with tools := Mcp.setTools (catalogServerTools cat) }
      (⟨s, .op w (.setTools (catalogServerTools cat)) ()⟩ :: L) :=
  ⟨⟨cat, hnodup, rfl, .inl ⟨w.tid, pending_op.2 rfl⟩⟩, h.ended.op hw⟩

/-- A call assigns the catalog whose tools it set. -/
theorem Inv.setCatalog (h : Inv s L) (hw : Running w (.setTools (catalogServerTools cat) :: ops) L)
    (hnodup : (cat.map CatalogTool.name).Nodup)
    (horder : s.tools = Mcp.setTools (catalogServerTools cat) →
      ∀ tid ts, tid ≠ w.tid → Pending tid ts L → ts = catalogServerTools cat) :
    Inv { s with catalog := cat } (⟨s, .op w (.setCatalog cat) ()⟩ :: L) := by
  obtain ⟨⟨cat', hcat'⟩, hended⟩ := h
  refine ⟨?_, hended.op hw⟩
  have hnot : ∀ ts, ¬ Pending w.tid ts (⟨s, .op w (.setCatalog cat) ()⟩ :: L) := by
    intro ts hts
    cases pending_op.1 hts
  by_cases htools : s.tools = Mcp.setTools (catalogServerTools cat)
  · -- The catalog of the registered tools: nobody is left to assign another one.
    refine ⟨cat, hnodup, htools, .inr ⟨rfl, fun tid ts hts => ?_⟩⟩
    have htid : tid ≠ w.tid := by
      rintro rfl
      exact hnot ts hts
    exact horder htools tid ts htid ((pending_op_of_ne htid).1 hts)
  · -- The tools are another call's, which is still to assign its catalog.
    have hne : catalogServerTools cat ≠ catalogServerTools cat' := by
      intro heq
      rw [heq] at htools
      exact htools hcat'.tools
    have hown : Pending w.tid (catalogServerTools cat) L := by rw [Pending, hw.ops, List.head?_cons]
    rcases hcat'.owed with ⟨tid, htid⟩ | ⟨-, hall⟩
    · have hother : tid ≠ w.tid := by
        rintro rfl
        exact hne (HandlerOp.setTools.inj (Option.some.inj (hown.symm.trans htid)))
      exact ⟨cat', hcat'.nodup, hcat'.tools, .inl ⟨tid, (pending_op_of_ne hother).2 htid⟩⟩
    · exact absurd (hall w.tid _ hown) hne

/-- A call returns. -/
theorem Inv.done (h : Inv s L) {a : Bool} (hpending : ∀ ts, ¬ Pending w.tid ts L)
    (hfailed : a = false → opsOf w.tid L = [.fetchCatalog]) : Inv s (⟨s, .done w a⟩ :: L) := by
  obtain ⟨⟨cat, hcat⟩, hended⟩ := h
  refine ⟨⟨cat, hcat.same rfl rfl fun _ _ => Iff.rfl⟩, fun w' a' hdone => ?_⟩
  rcases has_cons.1 hdone with heq | hdone
  · obtain ⟨rfl, rfl⟩ := Event.done.inj heq
    exact ⟨hpending, hfailed⟩
  · exact hended w' a' hdone

/-- The outline of `RefreshCatalog`. -/
theorem outline_refreshCatalog (hw : Running w [] L) :
    Outline (registry up) inOrder Inv w (Delivers inOrder Inv w) refreshCatalog L := by
  intro s1 L1 ok hL1 hI1 _
  have hw1 := hw.others hL1
  refine ⟨hI1.fetch hw1 ok, ?_⟩
  cases ok with
  | false =>
    -- The fetch fails, and the call returns.
    intro s2 L2 hL2 hI2 _
    have hw2 := hw1.op.others hL2
    refine hI2.done (fun ts hts => ?_) fun _ => hw2.ops
    rw [Pending, hw2.ops] at hts
    cases hts
  | true =>
    intro s2 L2 _ hL2 hI2 _
    have hw2 := hw1.op.others hL2
    refine ⟨hI2.setTools hw2 (nodup_validateCatalog _), ?_⟩
    intro s3 L3 _ hL3 hI3 horder
    have hw3 := hw2.op.others hL3
    refine ⟨hI3.setCatalog hw3 (nodup_validateCatalog _) (horder _ rfl), ?_⟩
    intro s4 L4 hL4 hI4 _
    have hw4 := hw3.op.others hL4
    refine hI4.done (fun ts hts => ?_) nofun
    rw [Pending, hw4.ops] at hts
    cases hts

/-- The registry is verified from a catalog with its tools. -/
theorem verified {s0 : HandlerState} (hnodup : (s0.catalog.map CatalogTool.name).Nodup)
    (htools : s0.tools = setTools (catalogServerTools s0.catalog)) :
    Verified (registry up) inOrder Inv s0 where
  init := by
    refine ⟨⟨s0.catalog, hnodup, htools, .inr ⟨rfl, fun tid ts hts => ?_⟩⟩, fun w a hdone => ?_⟩
    · cases hts
    · exact absurd hdone (has_nil _)
  call s L w h hfresh _ := by
    obtain ⟨⟨cat, hcat⟩, hended⟩ := h
    refine ⟨⟨⟨cat, hcat.same rfl rfl fun _ _ => Iff.rfl⟩, fun w' a hdone => ?_⟩, ?_⟩
    · exact hended w' a ((has_cons.1 hdone).resolve_left (by simp))
    · refine outline_refreshCatalog ⟨(opsOf_cons_of_none rfl).trans (opsOf_fresh hfresh),
        fun a hdone => ?_⟩
      exact hfresh.not_returned a ((has_cons.1 hdone).resolve_left (by simp))
  env s L n h _ := by
    obtain ⟨⟨cat, hcat⟩, hended⟩ := h
    refine ⟨⟨cat, hcat.same rfl rfl fun _ _ => Iff.rfl⟩, fun w' a hdone => ?_⟩
    exact hended w' a ((has_cons.1 hdone).resolve_left (by simp))
  crash s L _ hcrash := hcrash.elim

/-- Nothing runs. -/
def Quiescent (c : Config HandlerOp HandlerReply HandlerState ℕ Unit Bool) : Prop :=
  ∀ tid, c.threads tid = none

/-- After `NewHandler` and any calls of `RefreshCatalog`, in any interleaving and with any failures,
in which the catalog of the registered tools is assigned while no call with other tools is to assign
its own: once nothing runs, the tools are those of the catalog and the two of the portal. A call
that fails has only fetched, which changes nothing. A start and a refresh that fetch the same
catalog leave the same tools and the same catalog. -/
theorem registry_agrees (up : Upstream) (catalogRetries : ℤ) {s0 : HandlerState}
    {ops0 : List ((o : HandlerOp) × HandlerReply o)}
    (hstart : (setting up fun _ _ _ => True).Runs (newHandler catalogRetries) {} ops0 () s0) :
    (∀ c, Reachable (registry up) inOrder s0 c →
      (Quiescent c → Registers c.state.catalog c.state.tools) ∧
      ∀ w, Returned w false c.log → opsOf w.tid c.log = [.fetchCatalog]) ∧
    (∀ ok s, (handlerExec up .fetchCatalog ok s).2.tools = s.tools ∧
      (handlerExec up .fetchCatalog ok s).2.catalog = s.catalog) ∧
    ∀ s ops ok s' raw, (setting up fun _ _ _ => True).Runs refreshCatalog s ops ok s' →
      ⟨.fetchCatalog, some raw⟩ ∈ ops0 → ⟨.fetchCatalog, some raw⟩ ∈ ops →
      s'.tools = s0.tools ∧ s'.catalog = s0.catalog := by
  obtain ⟨hnodup, htools, hfetched⟩ := newHandler_registers hstart
  refine ⟨fun c hc => ?_, fun ok s => ?_, fun s ops ok s' raw hrun hraw0 hraw => ?_⟩
  · obtain ⟨⟨cat, hcat⟩, hended⟩ := hc.invariant (verified hnodup htools)
    refine ⟨fun hquiet => ?_, fun w hdone => (hended w false hdone).2 rfl⟩
    -- Every call has returned, so none is between its two steps.
    have hnone : ∀ tid ts, ¬ Pending tid ts c.log := by
      intro tid ts hts
      have hop : HandlerOp.setTools ts ∈ opsOf tid c.log := List.mem_of_mem_head? hts
      obtain ⟨e, he, hev⟩ := List.mem_filterMap.1 hop
      have hthread : e.event.thread = some tid := by
        by_contra hne
        rw [Event.opOf_of_thread hne] at hev
        cases hev
      rcases hc.running_or_done (fun _ _ h => h) he hthread with hrun | ⟨w, a, rfl, hdone⟩
      · exact hrun (hquiet tid)
      · exact (hended w a hdone).1 ts hts
    rcases hcat.owed with ⟨tid, htid⟩ | ⟨hcatalog, -⟩
    · exact absurd htid (hnone tid _)
    · rw [hcatalog, hcat.tools]
      exact registers_setTools hcat.nodup
  · cases ok
    · exact ⟨rfl, rfl⟩
    · exact ⟨rfl, rfl⟩
  · obtain ⟨htools', hcatalog'⟩ := refreshCatalog_registers hrun hraw
    rw [htools', hcatalog', htools, hfetched raw hraw0]
    exact ⟨rfl, rfl⟩

/-! ### Two calls that take turns -/

/-- The handler after a start that fetched the catalog of the first build. -/
def sampleStart : HandlerState := { tools := setTools (catalogServerTools []), catalogs := [0] }

/-- The start of the sample. -/
theorem sampleStart_started : (setting sampleUpstream fun _ _ _ => True).Runs (newHandler 1) {}
    [⟨.fetchCatalog, some []⟩, ⟨.addTool versionTool, ()⟩, ⟨.addTool getPageTool, ()⟩,
      ⟨.setCatalog [], ()⟩] () sampleStart := by
  have hrun : (setting sampleUpstream fun _ _ _ => True).run (newHandler 1) [true, true,
      true, true] {} =
      some ([⟨.fetchCatalog, some []⟩, ⟨.addTool versionTool, ()⟩, ⟨.addTool getPageTool, ()⟩,
        ⟨.setCatalog [], ()⟩], (), sampleStart) := rfl
  exact .of_run (fun _ _ _ => trivial) hrun

/-- Two calls, the first of which fetches before the build changes and the second after it. The
labels are those of the two calls' further steps. -/
def twoCalls (rest : List (Label Bool ℕ Unit)) :
    Config HandlerOp HandlerReply HandlerState ℕ Unit Bool :=
  (registry sampleUpstream).run (.init sampleStart)
    ([.call (), .call (), .step 0 true, .env 1, .step 1 true] ++ rest)

/-- The first call makes its two steps, and then the second one. -/
def inTurn : Config HandlerOp HandlerReply HandlerState ℕ Unit Bool :=
  twoCalls [.step 0 true, .step 0 true, .step 1 true, .step 1 true, .step 0 true, .step 1 true]

/-- The second call makes its two steps between those of the first. -/
def torn : Config HandlerOp HandlerReply HandlerState ℕ Unit Bool :=
  twoCalls [.step 0 true, .step 1 true, .step 1 true, .step 0 true, .step 0 true, .step 1 true]

/-- Both refreshes have returned. -/
theorem inTurn_quiescent : Quiescent inTurn
  | 0 => rfl
  | 1 => rfl
  | _ + 2 => rfl

/-- At no step is a catalog assigned while another call is between its two steps. -/
theorem inTurn_reachable : Reachable (registry sampleUpstream) inOrder sampleStart inTurn := by
  refine Reachable.init.run _ ?_
  repeat' first | exact trivial | apply And.intro
  · rintro cat ⟨⟩
  · rintro cat ⟨⟩
  · rintro cat ⟨⟩
  · rintro cat - - (_ | _ | tid) ts htid hts
    · exact absurd rfl htid
    · cases hts
    · cases hts
  · rintro cat ⟨⟩
  · rintro cat - - (_ | _ | tid) ts htid hts
    · cases hts
    · exact absurd rfl htid
    · cases hts

/-- The tools are those of the second build when the second call assigns its catalog last. -/
theorem registry_agrees_inTurn : Registers [sampleTool] inTurn.state.tools := by
  have hagrees := (registry_agrees sampleUpstream 1 sampleStart_started).1 inTurn inTurn_reachable
  exact hagrees.1 inTurn_quiescent

/-- Both refreshes have returned. -/
theorem torn_quiescent : Quiescent torn
  | 0 => rfl
  | 1 => rfl
  | _ + 2 => rfl

/-- The first call fetches at the first build and the second at the next one. The second replaces
the tools last, and the first assigns its catalog last: the tool of the second build is registered,
and the catalog does not have it. -/
theorem registry_torn : ∃ s0 ops0 c,
    (setting sampleUpstream fun _ _ _ => True).Runs (newHandler 1) {} ops0 () s0 ∧
    Reachable (registry sampleUpstream) {} s0 c ∧ Quiescent c ∧ c.state.catalog = [] ∧
    c.state.tools.lookup (ascii "get_prices") = some (catalogServerTool sampleTool) ∧
    ¬ Registers c.state.catalog c.state.tools := by
  have hlookup : torn.state.tools.lookup (ascii "get_prices") =
      some (catalogServerTool sampleTool) := rfl
  refine ⟨sampleStart, _, torn, sampleStart_started, Reachable.of_run .., torn_quiescent, rfl,
    hlookup, fun hregisters => ?_⟩
  rcases (hregisters "get_prices" (catalogServerTool sampleTool)).1 hlookup with
    ⟨hname, -⟩ | ⟨hname, -⟩ | ⟨-, -, ct, hct, -⟩
  · exact absurd hname (by decide)
  · exact absurd hname (by decide)
  · cases hct

end VirePortal.Mcp.Registry
