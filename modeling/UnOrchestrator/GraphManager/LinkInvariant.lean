import UnOrchestrator.GraphManager.Requests

/-!
# Links follow rules

The virtual links of a deployed graph are made by one algorithm when the graph is new and by
another one in an update, and they are given up rule by rule. After every request the four
maps of the tenant LSI have exactly the targets that the stored rules need a link for, and
every link serves at least one target and at most one in each direction
(`run_linksMatchRules`).

The invariant is `Linked`, for every record and the counter of link identifiers. It holds of
a new record (`createTenant_spec`), `Linked.added` and `Linked.reduced` carry it over the two
halves of an update, and everything else leaves graphs and links alone.
-/

namespace UnOrchestrator

open Call

open Highlevel

/-- A rule from a physical port or an internal endpoint. -/
def Highlevel.Rule.fromBelow (r : Rule) : Bool :=
  r.match.matchOnPort || r.match.matchOnEndPointInternal

/-- A rule from a port of a network function or a GRE endpoint. -/
def Highlevel.Rule.fromAbove (r : Rule) : Bool := r.match.matchOnNF || r.match.matchOnEndPointGre

/-- The four maps of a tenant LSI have the targets of the stored rules that cross between the
switches, and the links are shared only between the two directions. -/
structure LinksMatchRules (info : GraphInfo) : Prop where
  nfs : ∀ k, k ∈ info.lsi.nfsVlinks ↔ ∃ r ∈ info.graph.rules, r.fromBelow = true ∧
    ∃ nfId port, r.action.type = .networkFunction nfId port ∧ nfPortName nfId port = k
  endpointsGre : ∀ k, k ∈ info.lsi.endpointsGreVlinks ↔
    ∃ r ∈ info.graph.rules, r.fromBelow = true ∧ r.action.type = .endPointGre k
  ports : ∀ k, k ∈ info.lsi.portsVlinks ↔
    ∃ r ∈ info.graph.rules, r.fromAbove = true ∧ r.action.type = .port k
  endpoints : ∀ k, k ∈ info.lsi.endpointsVlinks ↔
    ∃ r ∈ info.graph.rules, r.fromAbove = true ∧ r.action.type = .endPointInternal k
  attached : ∀ target ID, info.lsi.vlinkOf target = some ID →
    ∃ l ∈ info.lsi.virtualLinks, l.ID = ID
  used : ∀ l ∈ info.lsi.virtualLinks, ∃ target, info.lsi.vlinkOf target = some l.ID
  exclusive : ∀ target target' ID, info.lsi.vlinkOf target = some ID →
    info.lsi.vlinkOf target' = some ID → VLinks.isUp target = VLinks.isUp target' →
    target = target'

/-- The links of a record are in order and serve what its rules need. -/
structure Linked (nextID : Nat) (info : GraphInfo) : Prop where
  inOrder : info.lsi.InOrder nextID
  served : ∀ target, (info.lsi.vlinkOf target).isSome ↔
    ∃ r ∈ info.graph.rules, r.requiredVlink = some target
  resolved : ∀ r ∈ info.graph.rules, r.match.type ≠ .generic

namespace Linked

variable {nextID nextID' : Nat} {info info' : GraphInfo}

variable (h : Linked nextID info)

include h

theorem mono (hle : nextID ≤ nextID') : Linked nextID' info :=
  ⟨h.inOrder.mono hle, h.served, h.resolved⟩

/-- Only the stored graph and the links matter. -/
theorem congr (hgraph : info'.graph = info.graph)
    (hlinks : info'.lsi.toVLinks = info.lsi.toVLinks) : Linked nextID info' := by
  refine ⟨?_, ?_, ?_⟩
  · rw [hlinks]
    exact h.inOrder
  · rw [hgraph, hlinks]
    exact h.served
  · rw [hgraph]
    exact h.resolved

/-- The target of a stored rule has its link. -/
theorem linkOf {r : Rule} (hr : r ∈ info.graph.rules)
    {target : RuleRemovedInfo} (htarget : r.requiredVlink = some target) :
    ∃ l, info.lsi.linkOf target = some l :=
  Option.isSome_iff_exists.mp
    ((Wiring.resolve_isSome h.inOrder.wired).mpr ((h.served target).mpr ⟨r, hr, htarget⟩))

/-- The bookkeeping in the words of the four maps. -/
theorem linksMatchRules : LinksMatchRules info := by
  have hkeys (target : RuleRemovedInfo) : (info.lsi.vlinkOf target).isSome ↔
      ∃ r ∈ info.graph.rules, r.keepsVlink target = true := by
    rw [h.served]
    constructor <;> rintro ⟨r, hr, hrequired⟩
    · exact ⟨r, hr, (Rule.keepsVlink_iff (h.resolved r hr)).mpr hrequired⟩
    · exact ⟨r, hr, (Rule.keepsVlink_iff (h.resolved r hr)).mp hrequired⟩
  refine ⟨fun k => ?_, fun k => ?_, fun k => ?_, fun k => ?_, fun target ID ht => ?_,
    h.inOrder.wired.used, fun _ _ _ => h.inOrder.wired.exclusive⟩
  · refine (Std.ExtTreeMap.mem_iff_isSome_getElem?.trans (hkeys (.nfPort k))).trans
      (exists_congr fun r => and_congr_right fun _ => ?_)
    unfold Rule.keepsVlink Action.removedInfo Rule.fromBelow
    cases r.action.type <;> simp [VLinks.isUp, or_comm, and_comm]
  · refine (Std.ExtTreeMap.mem_iff_isSome_getElem?.trans (hkeys (.endpointGre k))).trans
      (exists_congr fun r => and_congr_right fun _ => ?_)
    unfold Rule.keepsVlink Action.removedInfo Rule.fromBelow
    cases r.action.type <;> simp [VLinks.isUp, or_comm, and_comm]
  · refine (Std.ExtTreeMap.mem_iff_isSome_getElem?.trans (hkeys (.port k))).trans
      (exists_congr fun r => and_congr_right fun _ => ?_)
    unfold Rule.keepsVlink Action.removedInfo Rule.fromAbove
    cases r.action.type <;> simp [VLinks.isUp, or_comm, and_comm]
  · refine (Std.ExtTreeMap.mem_iff_isSome_getElem?.trans (hkeys (.endpointInternal k))).trans
      (exists_congr fun r => and_congr_right fun _ => ?_)
    unfold Rule.keepsVlink Action.removedInfo Rule.fromAbove
    cases r.action.type <;> simp [VLinks.isUp, or_comm, and_comm]
  · exact List.mem_map.mp (h.inOrder.wired.attached ht)

/-- The first half of an update: the graph grows, and so do the links. -/
theorem added {newGraph : Highlevel.Graph} {graphID : String}
    (hnew : ∀ r ∈ (info.graph.calculateDiff newGraph graphID).rules, r.match.type ≠ .generic)
    {t : Nat × GraphInfo}
    (hadded : Added nextID info (info.graph.calculateDiff newGraph graphID) t) :
    Linked t.1 t.2 ∧ nextID ≤ t.1 := by
  obtain ⟨hinOrder, hle, hserved, -⟩ := hadded.links h.inOrder
  have hrules := (Highlevel.Graph.addGraphToGraph_diff info.graph newGraph graphID).2.1
  rw [← hadded.graph] at hrules
  refine ⟨⟨hinOrder, fun target => ?_, fun r hr => ?_⟩, hle⟩
  · rw [hserved, h.served, hrules]
    simp only [List.mem_append, or_and_right, exists_or]
  · rw [hrules] at hr
    rcases List.mem_append.mp hr with hr | hr
    · exact h.resolved r hr
    · exact hnew r hr

/-- The second half: rules go, and with each of them the link that no other rule needs. -/
theorem reduced {rofl : Lowlevel.Rofl} {diff graph : Highlevel.Graph}
    {removeRuleInfo : List RuleRemovedInfo}
    (hremove : info.graph.removeGraphFromGraph diff = .ok (graph, removeRuleInfo))
    (hreduced : Reduced rofl nextID { info with graph := graph } diff removeRuleInfo info') :
    Linked nextID info' := by
  obtain ⟨⟨g₁, hrules⟩, hremoved⟩ := Highlevel.Graph.removeGraphFromGraph_erased hremove
  have herase := hremoved.rules
  obtain ⟨rules, herase', rfl⟩ := Highlevel.Graph.removeRules_ok hrules
  obtain rfl : rules = graph.rules := Option.mem_unique herase' herase
  obtain ⟨hsub, hkept⟩ := Highlevel.Graph.removeRules_infos hrules
  obtain ⟨hinOrder, hserved, -⟩ := hreduced.links h.inOrder
  have hresolved : ∀ r ∈ graph.rules, r.match.type ≠ .generic :=
    fun r hr => h.resolved r (hsub r hr)
  refine ⟨hinOrder, fun target => ?_, ?_⟩
  · rw [hreduced.graph, hserved target]
    constructor
    · rintro ⟨hsome, hkeep⟩
      obtain ⟨r, hr, hrequired⟩ := (h.served target).mp hsome
      rcases hkept r hr with hr' | hinfo
      · exact ⟨r, hr', hrequired⟩
      · rw [Rule.removedInfo_of_requiredVlink hrequired] at hinfo
        obtain ⟨r', hr', hkeeps⟩ := List.any_eq_true.mp (hkeep hinfo)
        exact ⟨r', hr', (Rule.keepsVlink_iff (hresolved r' hr')).mp hkeeps⟩
    · rintro ⟨r, hr, hrequired⟩
      exact ⟨(h.served target).mpr ⟨r, hsub r hr, hrequired⟩, fun _ =>
        List.any_eq_true.mpr ⟨r, hr, (Rule.keepsVlink_iff (hresolved r hr)).mpr hrequired⟩⟩
  · rw [hreduced.graph]
    exact hresolved

end Linked

/-! ## The requests -/

namespace GraphManager

/-- Every record of the manager is `Linked`. -/
def AllLinked (s : GraphManager) : Prop :=
  ∀ (graphID : String) info, s.tenantLSIs[graphID]? = some info → Linked s.nextVLinkID info

variable {s : GraphManager}

theorem AllLinked.same {s' : GraphManager} (h : s.AllLinked) (hsame : s.SameRecords s') :
    s'.AllLinked := by
  intro graphID info hinfo
  rw [hsame.1] at hinfo
  exact (h graphID info hinfo).mono hsame.2

variable {graphID : String}

/-- A state whose records are those of a linked state, but for a new one that is linked too. -/
theorem AllLinked.put (h : s.AllLinked) (s₁ : GraphManager)
    (hsame : ∀ graphID', graphID ≠ graphID' → s₁.tenantLSIs[graphID']? = s.tenantLSIs[graphID']?)
    {t : Nat × GraphInfo} (ht : Linked t.1 t.2) (hle : s.nextVLinkID ≤ t.1) :
    (s₁.putTenant graphID t).AllLinked := by
  intro graphID' info hinfo
  simp only [putTenant, StringMap.getElem?_insert] at hinfo
  split at hinfo
  · cases hinfo
    exact ht
  · next hne =>
    rw [hsame graphID' hne] at hinfo
    exact (h graphID' info hinfo).mono hle

variable {rofl : Lowlevel.Rofl} {env : Environment}

/-- The record of a deployed graph. -/
theorem Deployment.linked {graph : Highlevel.Graph} (d : Deployment rofl env s graph)
    (hresolved : ∀ r ∈ graph.rules, r.match.type ≠ .generic) : Linked d.nextID d.record := by
  have hstored : d.record.graph = graph := d.stored
  refine ⟨d.inOrder, ?_, ?_⟩
  · rw [hstored]
    exact d.served
  · rw [hstored]
    exact hresolved

theorem newGraph_allLinked {graph : Highlevel.Graph} (h : s.AllLinked)
    (hresolved : ∀ r ∈ graph.rules, r.match.type ≠ .generic) :
    wp (newGraph rofl env graph) (fun _ s' => s'.AllLinked) AllLinked s := by
  refine wp_mono newGraph_spec ?_ (fun _ hsame => h.same hsame)
  rintro done s' (⟨-, hsame⟩ | ⟨-, d, rfl⟩)
  · exact h.same hsame
  · obtain ⟨hgrows, hle⟩ := d.grows
    exact (h.same hgrows.sameRecords).put d.connected (fun _ _ => rfl)
      (t := (d.connected.nextVLinkID, d.record)) ((d.linked hresolved).mono hle) (Nat.le_refl _)

theorem updateGraph_allLinked (hsucceeds : env.Succeeds) {newGraph : Highlevel.Graph} (h : s.AllLinked)
    (hresolved : ∀ r ∈ newGraph.rules, r.match.type ≠ .generic) :
    wp (updateGraph rofl env graphID newGraph) (fun _ s' => s'.AllLinked) AllLinked s := by
  refine wp_updateGraph fun info hinfo => ?_
  have hlinked := h graphID info hinfo
  have hnew : ∀ r ∈ (info.graph.calculateDiff newGraph graphID).rules, r.match.type ≠ .generic :=
    fun r hr => hresolved r ((Graph.calculateDiff_rules_fresh info.graph newGraph graphID).2 r hr).1
  refine wp_mono addPieces_spec ?_ ?_
  · rintro _ t ⟨rfl, -, hadded⟩ old graph removeRuleInfo hremove after
    obtain ⟨ht, hle⟩ := hlinked.added hnew hadded
    refine wp_mono (removePieces_spec t.1) (fun _ info' hreduced => ?_)
      (fun _ hfails => absurd hsucceeds hfails)
    -- the stored graph has lost its rules already, the links have followed
    have hlinked' : Linked t.1 info' := ht.reduced hremove hreduced
    exact ⟨fun _ _ => ⟨fun _ _ => h.put s (fun _ _ => rfl) (t := (t.1, _)) (hlinked'.congr rfl rfl) hle,
      fun _ => h.put s (fun _ _ => rfl) (t := (t.1, info')) hlinked' hle⟩,
      fun _ => h.put s (fun _ _ => rfl) (t := (t.1, info')) hlinked' hle⟩
  · rintro t hthrow
    rcases hthrow hsucceeds with ⟨hnext, hcore⟩ | hadded
    · simp only [GraphInfo.core, Prod.mk.injEq] at hcore
      exact h.put s (fun _ _ => rfl) (hnext ▸ hlinked.congr hcore.1 hcore.2.1)
        (hnext ▸ Nat.le_refl _)
    · obtain ⟨ht, hle⟩ := hlinked.added hnew hadded
      exact h.put s (fun _ _ => rfl) ht hle

theorem AllLinked.erase {s' : GraphManager} (h : s.AllLinked)
    (herase : s'.tenantLSIs = s.tenantLSIs.erase graphID) (hnext : s'.nextVLinkID = s.nextVLinkID) :
    s'.AllLinked := by
  intro graphID' info hinfo
  rw [herase, StringMap.getElem?_erase] at hinfo
  split at hinfo
  · cases hinfo
  · rw [hnext]
    exact h graphID' info hinfo

theorem deleteGraph_allLinked (h : s.AllLinked) :
    wp (deleteGraph rofl env graphID) (fun _ s' => s'.AllLinked) AllLinked s := by
  apply deleteGraph_keeps h
  intro d s' hd
  rcases hd.records with hsame | herase
  · exact h.same ⟨hsame, hd.counter.symm.le⟩
  · exact h.erase herase hd.counter

/-! ## Runs -/

theorem create_allLinked {runNFs : Bool} {physicalPorts : StringMap Nat} {inBand : Option (String × String)}
    (h : create rofl runNFs physicalPorts inBand = .ok s) : s.AllLinked := by
  intro graphID info hinfo
  rw [create_tenantLSIs h, Std.ExtTreeMap.getElem?_empty] at hinfo
  cases hinfo

/-- The requests of runs without failures outside the orchestrator and without unresolved
rules. -/
def Operation.Regular : Operation → Prop
  | .newGraph env graph => env.Succeeds ∧ ∀ r ∈ graph.rules, r.match.type ≠ .generic
  | .updateGraph env _ graph => env.Succeeds ∧ ∀ r ∈ graph.rules, r.match.type ≠ .generic
  | _ => True

theorem onController_allLinked {f : Controller → Controller} (h : s.AllLinked) :
    (s.onController graphID f).AllLinked := by
  unfold onController
  cases hinfo : s.tenantLSIs[graphID]? with
  | none => exact h
  | some info => exact h.put s (fun _ _ => rfl) ((h graphID info hinfo).congr rfl rfl) (Nat.le_refl _)

theorem call_allLinked {op : Operation} (h : s.AllLinked) (hop : op.Regular) :
    wp (call rofl op) (fun _ s' => s'.AllLinked) AllLinked s := by
  cases op with
  | newGraph env graph => exact newGraph_allLinked h hop.2
  | updateGraph env graphID graph => exact updateGraph_allLinked hop.1 h hop.2
  | deleteGraph env graphID => exact deleteGraph_allLinked h
  | lsi0DptOpen | lsi0DptClose => exact h
  | tenantDptOpen graphID | tenantDptClose graphID => exact onController_allLinked h

/-- The links of every deployed graph follow its rules, after every operation of every run. -/
theorem run_linksMatchRules {rofl : Lowlevel.Rofl} {runNFs : Bool} {physicalPorts : StringMap Nat}
    {inBand : Option (String × String)} {s : GraphManager}
    (hcreate : create rofl runNFs physicalPorts inBand = .ok s) {ops : List Operation}
    (hregular : ∀ op ∈ ops, op.Regular) :
    Run.Always (step rofl)
      (fun s => ∀ (graphID : String) info, s.tenantLSIs[graphID]? = some info →
        LinksMatchRules info) s ops := by
  refine Run.always_of_invariant (I := AllLinked) (Q := fun _ op => op.Regular) ?_ ?_
    (create_allLinked hcreate) (Run.everyStep_of_forall hregular)
  · exact fun s op s' h hop hstep => step_keeps (call_allLinked h hop) hstep
  · exact fun s h graphID info hinfo => (h graphID info hinfo).linksMatchRules

/-- LSI-0 with two physical ports. -/
def twoPorts : StringMap Nat := .ofList [("eth0", 1), ("eth1", 2)] compare

/-- A firewall between `eth0` and `eth1`, with the given rules. -/
def firewallGraph (rules : List Rule) (distinct : (rules.map Rule.key).Nodup) : ParsedGraph where
  ID := "g"
  rules := rules
  vnfs := [{ id := "fw", name := "firewall", ports := [{ id := "inout:0" }, { id := "inout:1" }] }]
  distinct := distinct

/-- The switch gives the ports of the firewall and the first link these numbers. -/
def firewallEnvironment : Environment :=
  .obliging { dpid := 1, networkFunctionsPorts := [("fw", [("fw_1", 11), ("fw_2", 12)])],
              virtualLinks := [(1, 101)] }

def toFirewall : Rule where
  «match» := { type := .port "eth0" }
  action := { type := .networkFunction "fw" 1 }
  ruleID := "1"
  priority := 1

def fromFirewall : Rule where
  «match» := { type := .nf "fw" 2 }
  action := { type := .port "eth1" }
  ruleID := "2"
  priority := 1

/-- The rule towards the firewall is replaced by the one from it, and the link with it. -/
theorem run_linksMatchRules_replaced :
    let s : GraphManager := { lsi0 := { physicalPorts := twoPorts } }
    let ops := [.newGraph firewallEnvironment (firewallGraph [toFirewall] (by decide)),
      .updateGraph firewallEnvironment "g" (firewallGraph [fromFirewall] (by decide))]
    ((Run.exec (step default) s ops).toOption.bind fun s =>
        (s.tenantLSIs["g"]?).map fun info => (info.lsi.virtualLinks, info.lsi.portsVlinks.toList)) =
      some ([{ ID := 1, localID := 2, remoteID := 102 }], [("eth1", 1)]) ∧
    Run.Always (step default)
      (fun s => ∀ (graphID : String) info, s.tenantLSIs[graphID]? = some info →
        LinksMatchRules info) s ops :=
  ⟨by decide +kernel, run_linksMatchRules (show create default false twoPorts none = .ok _ from rfl) (by
    simp only [List.forall_mem_cons, List.not_mem_nil, false_implies, implies_true, and_true]
    exact ⟨⟨Environment.obliging_succeeds _, by decide⟩,
      ⟨Environment.obliging_succeeds _, by decide⟩⟩)⟩

end GraphManager

end UnOrchestrator
