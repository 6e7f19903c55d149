import UnOrchestrator.GraphManager.DeleteFrame
import UnOrchestrator.GraphManager.Records

/-!
# Installed rules and the stored graph

An update lowers the rules it adds and leaves the rules that stay as they were lowered once.
Nothing lowers those again, so that lowering the stored graph anew gives the installed rules
only as long as the numbers a rule was lowered with are still the ones on the LSI.

On LSI-0 this is always so (`Consistent`). On the tenant LSI a rule depends on the ports of
network functions and GRE endpoints as well, and an update that replaces one of these under
its identifier gives it another number while the rule stays (`updateGraph_keeps_old_port`).
Updates that do not touch the ports of the rules that stay keep the two in step
(`run_installed`), provided that they do not throw half-way. Where the calls to the outside succeed,
a request that names only ports which there are does not (`Undisturbed.orderly`).
-/

namespace UnOrchestrator

open GraphTranslator (endpointPort lowerGraphToTenantLSI lowerGraphToTenantLSI_eq_ok
  lowerRuleToTenantLSI_flowID)

open Call

open Highlevel

namespace GraphManager

/-- The rules installed for a graph on the two switches are what its stored rules lower to. -/
structure Installed (s : GraphManager) (graphID : String) (info : GraphInfo) : Prop where
  lsi0 : ∃ l, GraphTranslator.lowerGraphToLSI0 info.graph info.lsi s.lsi0
    s.internalLSIsConnections = .ok l ∧
      s.graphLSI0lowLevel.rules.filter (createdFor graphID) = l.rules
  tenant : ∃ l, GraphTranslator.lowerGraphToTenantLSI info.graph info.lsi = .ok l ∧
    info.controller.graph.rules = l.rules

/-- The rules of the tenant LSI of a graph are what its stored rules lower to. -/
def TenantInstalled (info : GraphInfo) : Prop :=
  ∃ l, lowerGraphToTenantLSI info.graph info.lsi = .ok l ∧ info.controller.graph.rules = l.rules

variable {s : GraphManager} {rofl : Lowlevel.Rofl}

/-! ## The condition -/

/-- An update leaves the ports of the rules that stay alone: no function or endpoint that it adds
asks for one of them, and no function that goes has one. -/
structure KeepsPorts (graphID : String) (newGraph graph : Highlevel.Graph) : Prop where
  notAsked : ∀ r ∈ graph.rules, r.key ∉ (stale graphID newGraph graph).rules.map Rule.key →
    ∀ p ∈ r.nfPorts, ∀ nf ∈ (news graphID newGraph graph).vnfs, nf.id = p.1 →
      ∀ ports, nf.getPortsId = .ok ports → ∀ q ∈ ports, nfPortName p.1 p.2 ≠ nfPortName p.1 (q : Nat)
  notRemoved : ∀ r ∈ graph.rules, r.key ∉ (stale graphID newGraph graph).rules.map Rule.key →
    ∀ p ∈ r.nfPorts, p.1 ∉ (stale graphID newGraph graph).vnfs.map VNFs.id
  gre : ∀ r ∈ graph.rules, r.key ∉ (stale graphID newGraph graph).rules.map Rule.key →
    ∀ e ∈ r.greEndpoints, e ∉ (news graphID newGraph graph).endPointsGre.map EndPointGre.id

instance (graphID : String) (newGraph graph : Highlevel.Graph) :
    Decidable (KeepsPorts graphID newGraph graph) :=
  decidable_of_iff (_ ∧ _ ∧ _) ⟨fun h => ⟨h.1, h.2.1, h.2.2⟩, fun h => ⟨h.1, h.2, h.3⟩⟩

/-- An update asks for ports that the descriptions have, and no rule that stays loses its
ports. -/
def LeavesPorts (s : GraphManager) : Operation → Prop
  | .updateGraph env graphID newGraph => ∀ info ∈ s.tenantLSIs[graphID]?,
    AllTyped env (news graphID newGraph.toGraph info.graph).vnfs info ∧
      KeepsPorts graphID newGraph.toGraph info.graph
  | _ => True

/-- The switch manager answers about what it was asked. An LSI for internal endpoints has links
only. -/
def Operation.Answered : Operation → Prop
  | .newGraph env _ => ∀ group, ∀ clo ∈ env.createInternalLsi group,
    clo.physicalPorts = [] ∧ clo.networkFunctionsPorts = [] ∧ clo.endpointsPorts = []
  | .updateGraph env _ _ => env.Answers
  | _ => True

/-- One of the functions has the port. -/
def Asked (vnfs : List VNFs) (p : String × Int) : Prop :=
  ∃ nf ∈ vnfs, nf.id = p.1 ∧ ∃ n ∈ (nf.getPortsId.toOption).getD [], p.2 = (n : Nat)

instance (vnfs : List VNFs) (p : String × Int) : Decidable (Asked vnfs p) :=
  inferInstanceAs (Decidable (∃ _ ∈ _, _ ∧ ∃ _ ∈ _, _))

theorem Asked.asksPort {vnfs : List VNFs} {p : String × Int} (h : Asked vnfs p) :
    ∃ n : Nat, AsksPort vnfs p.1 n ∧ nfPortName p.1 p.2 = nfPortName p.1 n := by
  obtain ⟨nf, hnf, hid, n, hn, hp⟩ := h
  cases hports : nf.getPortsId with
  | error why => simp [hports] at hn
  | ok ports =>
    rw [hports] at hn
    exact ⟨n, ⟨nf, hnf, hid, ports, hports, hn⟩, by rw [hp]⟩

/-- The new rules of a request name physical ports that LSI-0 has, and ports of functions that the
graph has then. -/
def KnowsPorts (s : GraphManager) : Operation → Prop
  | .newGraph _ graph => ∀ r ∈ graph.rules,
    (∀ port ∈ r.physicalPorts, s.lsi0.physicalPorts[port]? ≠ none) ∧
      ∀ p ∈ r.nfPorts, Asked graph.vnfs p
  | .updateGraph _ graphID newGraph => ∀ info ∈ s.tenantLSIs[graphID]?,
    ∀ r ∈ (news graphID newGraph.toGraph info.graph).rules,
      (∀ port ∈ r.physicalPorts, s.lsi0.physicalPorts[port]? ≠ none) ∧
        ∀ p ∈ r.nfPorts, p.1 ∉ (stale graphID newGraph.toGraph info.graph).vnfs.map VNFs.id ∧
          ((info.lsi.nfPort p.1 (nfPortName p.1 p.2)).isSome ∨
            Asked (news graphID newGraph.toGraph info.graph).vnfs p)
  | _ => True

/-! ## Requests that do not throw half-way -/

section Whole

variable {env : Environment} {graphID : String}

theorem handleInternalEndpoint_of_succeeds (hsucceeds : env.Succeeds)
    (hanswers : ∀ group, ∀ clo ∈ env.createInternalLsi group,
      clo.physicalPorts = [] ∧ clo.networkFunctionsPorts = [] ∧ clo.endpointsPorts = [])
    (iep : EndPointInternal) :
    wp (handleInternalEndpoint rofl env graphID iep) (fun _ _ => True) (fun _ => False) s := by
  simp only [handleInternalEndpoint, wp_bind, wp_get, wp_modify]
  split
  · split
    · trivial
    · simp only [wp_bind, wp_modify]
      split
      · next hnone => exact absurd hnone (Option.isSome_iff_ne_none.mp (hsucceeds.addVirtualLink _))
      · simp only [wp_bind, wp_eval_ofAbort, wp_modify, implies_true]
  · split
    · next hnone => exact absurd hnone (Option.isSome_iff_ne_none.mp (hsucceeds.createInternalLsi _))
    · next clo hclo =>
      obtain ⟨hphysical, hnfs, hgre⟩ := hanswers _ clo hclo
      simp [hphysical, hnfs, hgre, Failure.orElse_eq_error, Failure.ofAbort_ne_thrown]

/-- The graphs that lower without an exception. -/
theorem lowerGraph_ne_thrown {graph : Highlevel.Graph} {tenantLSI lsi0 : LSI}
    {connections : InternalConnections}
    (hphysical : ∀ r ∈ graph.rules, ∀ port ∈ r.physicalPorts, lsi0.physicalPorts[port]? ≠ none)
    (hnf : ∀ r ∈ graph.rules, ∀ p ∈ r.nfPorts, tenantLSI.nfPort p.1 (nfPortName p.1 p.2) ≠ none) :
    GraphTranslator.lowerGraphToLSI0 graph tenantLSI lsi0 connections ≠ .error .thrown ∧
      lowerGraphToTenantLSI graph tenantLSI ≠ .error .thrown := by
  have hcollect {f : Rule → Except Failure (Option Lowlevel.Rule)}
      (h : ∀ r ∈ graph.rules, f r ≠ .error .thrown) :
      (do let rules ← Failure.collect f graph.rules; pure ({ rules := rules } : Lowlevel.Graph)) ≠
        .error .thrown := by
    simp only [ne_eq, Failure.bind_eq_error, Failure.pure_ne_error, and_false, exists_false, or_false]
    intro hthrown
    obtain ⟨before, r, after, hrules, -, hr⟩ := Failure.collect_eq_error.mp hthrown
    exact h r (by rw [hrules]; simp) hr
  exact ⟨hcollect fun r hr => GraphTranslator.lowerRuleToLSI0_ne_thrown (hphysical r hr),
    hcollect fun r hr => GraphTranslator.lowerRuleToTenantLSI_ne_thrown (hnf r hr)⟩

/-- The request changed nothing but the counter of the links. -/
def OnlyCounts (s s' : GraphManager) : Prop :=
  ∃ nextID, s.nextVLinkID ≤ nextID ∧ s' = { s with nextVLinkID := nextID }

/-- A new LSI has a number for every port that a function of the graph asks for. -/
theorem nfPort_of_creation {physicalPorts : StringMap Nat} {graph : Highlevel.Graph}
    {nextID nextID' : Nat} {info : GraphInfo}
    (creation : Creation env physicalPorts graph nextID info nextID') {p : String × Int}
    (h : Asked graph.vnfs p) : info.lsi.nfPort p.1 (nfPortName p.1 p.2) ≠ none := by
  obtain ⟨c, asked, clo, lsi, -, hdescribed, hasks, -, hmade, -, rfl⟩ := creation
  have htyped := portsTyped_of_portsDescribed hdescribed
  obtain ⟨hadded, -⟩ := new_added hasks fun nf hnf ports hports => by
    simpa only [portsTyped, hports] using htyped nf hnf
  have hboth := hadded.trans (created_added hmade).1
  rw [List.append_nil] at hboth
  have hsome := hboth.onSwitch p.1 (nfPortName p.1 p.2) (.inr h.asksPort)
  exact Option.isSome_iff_ne_none.mp hsome

theorem newGraph_whole {graph : ParsedGraph} (hsucceeds : env.Succeeds)
    (hanswers : (Operation.newGraph env graph).Answered) (hports : KnowsPorts s (.newGraph env graph)) :
    wp (newGraph rofl env graph.toGraph) (fun done s' => done = true ∨ s.OnlyCounts s')
      s.OnlyCounts s := by
  simp only [newGraph, wp_bind, wp_get, wp_assert, wp_focus]
  intro _
  refine wp_mono (wp_and createTenant_spec createTenant_steps)
    (fun created nextID hcreated => ?_) fun nextID h => ⟨nextID, h.1, rfl⟩
  cases created with
  | none => exact .inr ⟨nextID, hcreated.1.1, rfl⟩
  | some info =>
    obtain ⟨creation⟩ := hcreated.2.2 info rfl
    simp only [wp_bind, wp_modify]
    refine wp_mono (wp_and (connectAll_grows rofl env graph.toGraph _)
      (wp_each (I := fun _ _ => True) (fun iep _ s₁ _ =>
        handleInternalEndpoint_of_succeeds hsucceeds hanswers iep) _ _ trivial))
      (fun _ s₁ h₁ => ?_) fun _ h => h.2.elim
    have hlsi0 : s₁.lsi0 = s.lsi0 := (core_eq.mp h₁.1.1).1
    have hthrows : GraphTranslator.lowerGraphToLSI0 graph.toGraph info.lsi s₁.lsi0
        s₁.internalLSIsConnections ≠ .error .thrown ∧
        lowerGraphToTenantLSI graph.toGraph info.lsi ≠ .error .thrown := by
      rw [hlsi0]
      exact lowerGraph_ne_thrown (fun r hr => (hports r hr).1)
        fun r hr p hp => nfPort_of_creation creation ((hports r hr).2 p hp)
    simp only [wp_get, wp_eval, wp_pure]
    exact ⟨fun _ _ => ⟨fun _ _ => .inl trivial, fun h => absurd h hthrows.2⟩, fun h => absurd h hthrows.1⟩

theorem updateGraph_whole {graph : ParsedGraph} (hsucceeds : env.Succeeds) (hanswers : env.Answers)
    (hleaves : LeavesPorts s (.updateGraph env graphID graph))
    (hports : KnowsPorts s (.updateGraph env graphID graph)) :
    wp (updateGraph rofl env graphID graph.toGraph) (fun done s' => done = true ∨ s' = s)
      (fun _ => False) s := by
  refine wp_updateGraph fun info hinfo => ?_
  refine wp_mono (wp_and (wp_and addPieces_spec
    (addPieces_added hanswers (hleaves info hinfo).1)) (addPieces_throws hsucceeds)) ?_
    (fun t ht => .inr ?_)
  · rintro _ t ⟨⟨⟨rfl, -, hadded⟩, c, c', -, -, hportsAdded⟩, -⟩ old reducedGraph removeRuleInfo hremoved after
    refine wp_mono (wp_and removePieces_removed (removePieces_spec 0))
      (fun _ reduced hreduced => ?_) fun _ hthrown => hthrown.2 hsucceeds
    have hnf : ∀ r ∈ (news graphID graph.toGraph info.graph).rules, ∀ p ∈ r.nfPorts,
        reduced.lsi.nfPort p.1 (nfPortName p.1 p.2) ≠ none := by
      intro r hr p hp
      obtain ⟨hstays, hknown⟩ := (hports info hinfo r hr).2 p hp
      have hold : old = stale graphID graph.toGraph info.graph := by
        rw [stale, news, ← hadded.graph]
      rw [hold] at hreduced
      rw [LSI.nfPort, hreduced.1.functions, if_neg hstays]
      exact Option.isSome_iff_ne_none.mp (hportsAdded.onSwitch p.1 _ (hknown.imp_right Asked.asksPort))
    have hthrows : GraphTranslator.lowerGraphToLSI0 (news graphID graph.toGraph info.graph) reduced.lsi
        s.lsi0 s.internalLSIsConnections ≠ .error .thrown ∧
        lowerGraphToTenantLSI (news graphID graph.toGraph info.graph) reduced.lsi ≠ .error .thrown :=
      lowerGraph_ne_thrown (fun r hr => (hports info hinfo r hr).1) hnf
    exact ⟨fun _ _ => ⟨fun _ _ => .inl rfl, fun h => absurd h hthrows.2⟩, fun h => absurd h hthrows.1⟩
  · rw [ht.2]
    have hsame : s.tenantLSIs.insert graphID info = s.tenantLSIs := by
      refine Std.ExtTreeMap.ext_getElem? fun k => ?_
      rw [StringMap.getElem?_insert]
      split
      · next hk => rw [← hk, hinfo]
      · rfl
    simp only [putTenant, hsame]

theorem deleteGraph_whole (hsucceeds : env.Succeeds) :
    wp (deleteGraph rofl env graphID) (fun done s' => done = true ∨ s' = s) (fun s' => s' = s) s := by
  have hnever {α : Type} {why : Abort} {o : Option α} :
      Failure.orElse (.abort why) o ≠ .error .thrown := by
    simp [Failure.orElse_eq_error]
  have hreleases (iep : EndPointInternal) (s : GraphManager) :
      wp (releaseInternalEndpoint rofl env graphID iep) (fun _ _ => True) (fun _ => False) s := by
    simp only [releaseInternalEndpoint, leaveGroup, wp_bind, wp_get, wp_eval,
      wp_assert, wp_modify]
    refine ⟨fun internal _ => ⟨fun lsi _ _ => ?_, hnever⟩, hnever⟩
    split
    · simp [destroyGroup, hsucceeds.destroyLsi]
    · simp only [disconnect, wp_bind, wp_modify, wp_get, wp_eval,
        hsucceeds.destroyVirtualLink, if_true]
      exact ⟨fun _ _ => ⟨fun vl _ => ⟨fun _ _ => trivial, Failure.ofAbort_ne_thrown⟩, hnever⟩, hnever⟩
  simp only [deleteGraph, wp_bind, wp_get]
  split
  · exact .inr rfl
  · simp only [wp_bind]
    refine wp_mono (removeFromLSI0_spec rofl _ s) (fun _ s₁ _ => ?_) fun _ h => h.2
    simp only [wp_eval_ofAbort, hsucceeds.destroyLsi, if_true, wp_bind, wp_update,
      wp_pure]
    refine fun _ _ s₂ _ => wp_mono (wp_each (I := fun _ _ => True)
      (fun iep _ s _ => hreleases iep s) _ s₂ trivial) (fun _ _ _ => .inl trivial) fun _ h => h.elim

end Whole

namespace Update

variable {rofl : Lowlevel.Rofl} {env : Environment} {s : GraphManager} {graphID : String}
  {newGraph : Highlevel.Graph}

variable (u : Update rofl env s graphID newGraph)

/-- A rule that stays finds its ports where they were. -/
theorem ports_kept (hanswers : env.Answers)
    (htyped : AllTyped env (news graphID newGraph u.info.graph).vnfs u.info)
    (hkeeps : KeepsPorts graphID newGraph u.info.graph) {r : Rule} (hr : r ∈ u.info.graph.rules)
    (hstays : r.key ∉ u.staleKeys) :
    (∀ p ∈ r.nfPorts, u.reduced.lsi.nfPort p.1 (nfPortName p.1 p.2) =
      u.info.lsi.nfPort p.1 (nfPortName p.1 p.2)) ∧
    ∀ e ∈ r.greEndpoints, endpointPort u.reduced.lsi e =
      endpointPort u.info.lsi e := by
  obtain ⟨c, c', -, -, hadded⟩ := u.portsAdded hanswers htyped
  have hremoved := u.portsRemoved
  rw [Update.staleKeys, u.stale_eq] at hstays
  constructor
  · intro p hp
    have hfunction : u.reduced.lsi.networkFunctions[p.1]? = u.grown.2.lsi.networkFunctions[p.1]? := by
      rw [hremoved.functions, if_neg (hkeeps.notRemoved r hr hstays p hp)]
    rw [LSI.nfPort, hfunction]
    refine hadded.numbers p.1 _ fun q hq heq => ?_
    obtain ⟨nf, hnf, hid, ports, hports, hmem⟩ := hq
    exact hkeeps.notAsked r hr hstays p hp nf hnf hid ports hports q hmem heq
  · intro e he
    rw [endpointPort, hremoved.gre, hadded.gre e (hkeeps.gre r hr hstays e he)]
    rfl

/-- The stored rules lower to the old rules that stay and the new ones. -/
theorem loweredToTenant (h : Owns s graphID u.info)
    (hports : ∀ r ∈ u.info.graph.rules, r.key ∉ u.staleKeys →
      (∀ p ∈ r.nfPorts, u.reduced.lsi.nfPort p.1 (nfPortName p.1 p.2) =
        u.info.lsi.nfPort p.1 (nfPortName p.1 p.2)) ∧
      ∀ e ∈ r.greEndpoints, endpointPort u.reduced.lsi e =
        endpointPort u.info.lsi e)
    {l : Lowlevel.Graph}
    (hl : lowerGraphToTenantLSI u.info.graph u.info.lsi = .ok l) :
    lowerGraphToTenantLSI u.reduced.graph u.reduced.lsi =
      .ok { rules := l.rules.filter (fun r => r.flowID ∉ u.staleKeys) ++ u.graphTenant.rules } := by
  have hgraph : u.reduced.graph = u.graph := u.pieces.graph
  have hrules := u.graph_rules h.distinct
  rw [lowerGraphToTenantLSI_eq_ok] at hl
  rw [lowerGraphToTenantLSI_eq_ok, hgraph, hrules]
  refine Failure.collect_append.mpr
    ⟨_, _, ?_, lowerGraphToTenantLSI_eq_ok.mp u.loweredTenant, rfl⟩
  rw [Failure.collect_congr fun r hr => ?_]
  · refine Failure.collect_filter hl fun r hr low hlow => ?_
    rw [lowerRuleToTenantLSI_flowID hlow]
    rfl
  · obtain ⟨hold, hstays⟩ := List.mem_filter.mp hr
    obtain ⟨hnfPorts, hgre⟩ := hports r hold (of_decide_eq_true hstays)
    have hmem : r ∈ u.graph.rules := by
      rw [hrules]
      exact List.mem_append_left _ hr
    exact GraphTranslator.lowerRuleToTenantLSI_congr
      (fun target htarget => u.linkOf_kept h.linked hold hmem htarget) hnfPorts hgre

/-- The rules of the tenant LSI change as the stored rules do. -/
theorem record_rules (hdistinct : (u.info.graph.rules.map Rule.key).Nodup) {l : Lowlevel.Graph}
    (hl : lowerGraphToTenantLSI u.info.graph u.info.lsi = .ok l)
    (hinstalled : u.info.controller.graph.rules = l.rules) :
    u.record.controller.graph.rules =
      l.rules.filter (fun r => r.flowID ∉ u.staleKeys) ++ u.graphTenant.rules := by
  have hsub := Failure.map_sublist_of_collect (φ := Lowlevel.Rule.flowID) (ψ := Rule.key)
    (lowerGraphToTenantLSI_eq_ok.mp hl)
    (fun r _ low hlow => lowerRuleToTenantLSI_flowID hlow)
  have hnodup : (l.rules.map Lowlevel.Rule.flowID).Nodup := hdistinct.sublist hsub
  have hown := Lowlevel.Graph.filter_foldl_removeRuleFromID_own (p := fun _ => true) u.staleKeys
    u.info.controller.graph (fun _ _ _ _ => rfl)
    (by rwa [List.filter_true, hinstalled])
  rw [List.filter_true, List.filter_true, hinstalled] at hown
  rw [record, Controller.installNewRules_graph, Lowlevel.Graph.addRules_rules, u.pieces.controller,
    u.added.controller, ← List.foldl_map, Controller.foldl_removeRuleFromID_graph]
  exact congrArg (· ++ u.graphTenant.rules) hown

end Update

/-! ## Steps and runs -/

theorem Deployment.tenantsInstalled {env : Environment} {graph : Highlevel.Graph}
    (d : Deployment rofl env s graph) (h : s.EveryRecord TenantInstalled) :
    d.result.EveryRecord TenantInstalled := by
  have hempty : d.info.controller = {} :=
    ((of_wp createTenant_spec d.creates).1 _ rfl).2 d.info rfl |>.2.1
  refine h.insert d.result_tenantLSIs ⟨d.graphTenant, ?_, ?_⟩
  · rw [← d.loweredTenant, Deployment.record, d.stored]
  · rw [Deployment.record, Controller.installNewRules_graph, Lowlevel.Graph.addRules_rules, hempty]
    rfl

theorem Update.tenantsInstalled {env : Environment} {graphID : String} {newGraph : Highlevel.Graph}
    (u : Update rofl env s graphID newGraph) (h : s.EveryRecord TenantInstalled) (hs : s.Consistent)
    (hanswers : env.Answers)
    (htyped : AllTyped env (news graphID newGraph u.info.graph).vnfs u.info)
    (hkeeps : KeepsPorts graphID newGraph u.info.graph) :
    u.result.EveryRecord TenantInstalled := by
  have howns := hs.owns graphID u.info u.deployed
  obtain ⟨l, hl, hinstalled⟩ := h graphID u.info u.deployed
  exact h.insert rfl ⟨_, u.loweredToTenant howns
    (fun r hr hstays => u.ports_kept hanswers htyped hkeeps hr hstays) hl,
    u.record_rules howns.distinct hl hinstalled⟩

/-- The condition on a step, in terms of the request, the answers to its calls and the state before. -/
structure Undisturbed (rofl : Lowlevel.Rofl) (s : GraphManager) (op : Operation) : Prop where
  succeeds : op.Succeeds
  answered : op.Answered
  apart : Apart rofl s op
  knowsPorts : KnowsPorts s op
  leavesPorts : LeavesPorts s op

/-- Such a request is done, or has changed nothing but the counter of the links. -/
theorem Undisturbed.orderly {op : Operation} (h : Undisturbed rofl s op) : Orderly rofl s op := by
  refine ⟨fun o s' ho => ?_, h.apart⟩
  have hsame {s' : GraphManager} (h : s' = s) : s.OnlyCounts s' := by
    subst h
    exact ⟨_, Nat.le_refl _, rfl⟩
  have hwp : wp (call rofl op) (fun done s' => done = true ∨ s.OnlyCounts s') s.OnlyCounts s := by
    cases op with
    | newGraph env graph => exact newGraph_whole h.succeeds h.answered h.knowsPorts
    | updateGraph env graphID graph =>
      exact wp_mono (updateGraph_whole h.succeeds h.answered h.leavesPorts h.knowsPorts)
        (fun _ _ hdone => hdone.imp_right hsame) fun _ hfalse => hfalse.elim
    | deleteGraph env graphID =>
      exact wp_mono (deleteGraph_whole h.succeeds)
        (fun _ _ hdone => hdone.imp_right hsame) fun _ => hsame
    | lsi0DptOpen | lsi0DptClose | tenantDptOpen graphID | tenantDptClose graphID => exact .inl rfl
  obtain ⟨hreturned, hthrown⟩ := of_wp hwp ho
  cases o with
  | none => exact .inr (hthrown rfl)
  | some done => exact (hreturned done rfl).imp_left (congrArg some)

theorem onController_tenantsInstalled (h : s.EveryRecord TenantInstalled) (graphID : String)
    {f : Controller → Controller} (hf : ∀ c, (f c).graph = c.graph) :
    (s.onController graphID f).EveryRecord TenantInstalled := by
  unfold GraphManager.onController
  cases hinfo : s.tenantLSIs[graphID]? with
  | none => exact h
  | some info =>
    obtain ⟨l, hl, hrules⟩ := h graphID info hinfo
    exact h.insert rfl ⟨l, hl, (congrArg Lowlevel.Graph.rules (hf info.controller)).trans hrules⟩

theorem step_installed {s' : GraphManager} {op : Operation} (hs : s.Consistent)
    (h : s.EveryRecord TenantInstalled) (hop : Undisturbed rofl s op)
    (hstep : step rofl s op = .ok s') : s'.EveryRecord TenantInstalled := by
  obtain ⟨o, ho⟩ := step_ok.mp hstep
  rcases hop.orderly.whole o s' ho with rfl | ⟨nextID, -, rfl⟩
  · cases op with
    | newGraph env graph =>
      obtain ⟨d, rfl⟩ := newGraph_done ho
      exact d.tenantsInstalled h
    | updateGraph env graphID graph =>
      obtain ⟨u, rfl⟩ := updateGraph_done ho
      obtain ⟨htyped, hkeeps⟩ := hop.leavesPorts u.info u.deployed
      exact u.tenantsInstalled h hs hop.answered htyped hkeeps
    | deleteGraph env graphID =>
      obtain ⟨d, -, herase, -⟩ := deleteGraph_done ho
      exact h.erase herase
    | lsi0DptOpen | lsi0DptClose =>
      cases ho
      exact h
    | tenantDptOpen graphID =>
      cases ho
      exact onController_tenantsInstalled h graphID fun c => Controller.installNewRulesIntoLSI_graph rofl _ _
    | tenantDptClose graphID =>
      cases ho
      exact onController_tenantsInstalled h graphID fun c => rfl
  · exact h

/-- In every state of a run of undisturbed steps, lowering a stored graph anew gives the rules
that are installed for it on the two switches. -/
theorem run_installed {rofl : Lowlevel.Rofl} {runNFs : Bool} {physicalPorts : StringMap Nat}
    {inBand : Option (String × String)} {s : GraphManager}
    (hcreate : create rofl runNFs physicalPorts inBand = .ok s) {ops : List Operation}
    (hsteps : Run.EveryStep (step rofl) (Undisturbed rofl) s ops) :
    Run.Always (step rofl) (fun s => ∀ (graphID : String) info,
      s.tenantLSIs[graphID]? = some info → Installed s graphID info) s ops := by
  refine Run.always_of_invariant (I := fun s => s.Consistent ∧ s.EveryRecord TenantInstalled)
    (fun s op s' h hop hstep => ?_) (fun s h graphID info hinfo => ?_)
    ⟨create_consistent hcreate, everyRecord_of_create hcreate⟩ hsteps
  · exact ⟨step_consistent h.1 hop.orderly hstep, step_installed h.1 h.2 hop hstep⟩
  · exact ⟨(h.1.owns graphID info hinfo).rules, h.2 graphID info hinfo⟩

instance (s : GraphManager) : (op : Operation) → Decidable (LeavesPorts s op)
  | .newGraph _ _ => .isTrue trivial
  | .updateGraph _ _ _ => inferInstanceAs (Decidable (∀ _ ∈ _, _ ∧ _))
  | .deleteGraph _ _ | .lsi0DptOpen | .lsi0DptClose | .tenantDptOpen _ | .tenantDptClose _ =>
    .isTrue trivial

instance (s : GraphManager) : (op : Operation) → Decidable (KnowsPorts s op)
  | .newGraph _ _ => inferInstanceAs (Decidable (∀ _ ∈ _, _ ∧ ∀ _ ∈ _, _))
  | .updateGraph _ _ _ => inferInstanceAs (Decidable (∀ _ ∈ _, ∀ _ ∈ _, _ ∧ ∀ _ ∈ _, _))
  | .deleteGraph _ _ | .lsi0DptOpen | .lsi0DptClose | .tenantDptOpen _ | .tenantDptClose _ =>
    .isTrue trivial

/-- A graph with a firewall gets a second rule and then loses the first one. -/
theorem run_installed_firewall :
    let s : GraphManager := { lsi0 := { physicalPorts := twoPorts } }
    let ops := [.lsi0DptOpen,
      .newGraph firewallEnvironment (firewallGraph [toFirewall] (by decide)),
      .updateGraph firewallEnvironment "g"
        (firewallGraph [toFirewall, fromFirewall] (by decide)),
      .updateGraph firewallEnvironment "g" (firewallGraph [fromFirewall] (by decide))]
    Run.EveryStep (step default) (Undisturbed default) s ops ∧
    Run.Always (step default) (fun s => ∀ (graphID : String) info,
      s.tenantLSIs[graphID]? = some info → Installed s graphID info) s ops := by
  intro s ops
  have hdecided : Run.EveryStep (step default) (fun s op =>
      Apart default s op ∧ KnowsPorts s op ∧ LeavesPorts s op) s ops := by
    decide +kernel
  have hanswered : ∀ op ∈ ops, op.Succeeds ∧ op.Answered := by
    have hinternal (clo : CreateLsiOut) (group : String) :
        ∀ answer ∈ (Environment.obliging clo).createInternalLsi group,
          answer.physicalPorts = [] ∧ answer.networkFunctionsPorts = [] ∧ answer.endpointsPorts = [] := by
      rintro _ ⟨⟩
      exact ⟨rfl, rfl, rfl⟩
    simp only [ops, List.forall_mem_cons, Operation.Succeeds, Operation.Answered, firewallEnvironment,
      Environment.obliging_succeeds, Environment.obliging_answers, true_and, and_true]
    exact ⟨hinternal _, by simp⟩
  have hsteps : Run.EveryStep (step default) (Undisturbed default) s ops :=
    (hdecided.and (Run.everyStep_of_forall hanswered)).mono fun _ _ h =>
      ⟨h.2.1, h.2.2, h.1.1, h.1.2.1, h.1.2.2⟩
  exact ⟨hsteps, run_installed (show create default false twoPorts none = .ok _ from rfl) hsteps⟩

/-- A tunnel to a remote address, with one rule into it. -/
def tunnelled (remoteIp : String) : ParsedGraph where
  ID := "g"
  rules := [{ «match» := { type := .port "eth0" }, action := { type := .endPointGre "t" },
              ruleID := "1", priority := 1 }]
  endPointsGre := [{ id := "t", name := "tunnel", localIp := "10.0.0.1", remoteIp := remoteIp,
                     greKey := "1" }]
  distinct := List.nodup_singleton _

/-- An update moves the tunnel to another remote address under its identifier. All calls of the
request succeed, and the tunnel has the port 201 then. The rule into it stays, with the port
200 that is gone. -/
theorem updateGraph_keeps_old_port :
    ∃ s, Run.exec (step default) ({ lsi0 := { physicalPorts := twoPorts } } : GraphManager)
        [.newGraph (.obliging { dpid := 1, endpointsPorts := [("t", 200)], virtualLinks := [(1, 101)] })
           (tunnelled "10.0.0.2"),
         .updateGraph { Environment.obliging { dpid := 1 } with
             addEndpoint := fun id => some (id, 201) } "g" (tunnelled "10.0.0.3")] = .ok s ∧
      (s.tenantLSIs["g"]?).map (fun info => (info.graph.rules, info.controller.graph.rules)) =
        some ((tunnelled "10.0.0.3").rules, [singleLSI0Rule "1" 1 200]) ∧
      (s.tenantLSIs["g"]?).map (fun info =>
          (GraphTranslator.lowerGraphToTenantLSI info.graph info.lsi).map Lowlevel.Graph.rules) =
        some (.ok [singleLSI0Rule "1" 1 201]) := by
  decide +kernel

end GraphManager

end UnOrchestrator
