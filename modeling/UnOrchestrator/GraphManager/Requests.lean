import UnOrchestrator.GraphManager.Rounds

/-!
# What the requests do

For every request, what it has done when it ends. A new graph that is deployed leaves a
`Deployment`, an update that is done an `Update`, and a deletion has taken the rules off
LSI-0 before anything else (`Deleted`); these name the values that the steps of the request
computed. Requests that are refused or throw leave the records of the graphs alone, except
for updates, which may leave any of their steps behind.
-/

namespace UnOrchestrator

open Call

open Highlevel

namespace GraphManager

/-! ## Internal endpoints -/

variable {s : GraphManager} {env : Environment} {graphID : String} {rofl : Lowlevel.Rofl}

/-- The records are as before, and the counter of the links has not gone back. -/
def Grows (s s' : GraphManager) : Prop :=
  s'.core = s.core ∧ s.nextVLinkID ≤ s'.nextVLinkID

/-- Connecting a graph to internal endpoints uses up identifiers of links and nothing else. -/
theorem handleInternalEndpoint_grows {iep : EndPointInternal} :
    wp (handleInternalEndpoint rofl env graphID iep) (fun _ s' => s.Grows s')
      (fun s' => s.Grows s') s := by
  refine wp_mono handleInternalEndpoint_joins ?_ (fun _ h => ⟨h.core, h.counter ▸ Nat.le_succ _⟩)
  rintro _ s' ⟨link, port, h⟩
  exact ⟨h.core, h.counter ▸ Nat.le_succ _⟩

theorem handleControllerForInternalEndpoint_grows (graph : Highlevel.Graph) (s : GraphManager) :
    s.Grows (handleControllerForInternalEndpoint graph s) := by
  unfold handleControllerForInternalEndpoint
  refine List.foldlRecOn (motive := fun s' => s.Grows s') _ _ ⟨rfl, Nat.le_refl _⟩ ?_
  intro s' hs' iep _
  split <;> exact hs'

/-- The two loops of a deployment over the internal endpoints. -/
theorem connectAll_grows (rofl : Lowlevel.Rofl) (env : Environment) (graph : Highlevel.Graph)
    (s : GraphManager) :
    wp (each (handleInternalEndpoint rofl env graph.ID) graph.endPointsInternal)
      (fun _ s' => s.Grows s') (fun s' => s.Grows s')
      (handleControllerForInternalEndpoint graph s) := by
  refine wp_each (I := fun _ s' => s.Grows s') (fun iep _ s₁ hgrows => ?_) _ _
    (handleControllerForInternalEndpoint_grows graph s)
  have htrans {s₂ : GraphManager} (h₂ : s₁.Grows s₂) : s.Grows s₂ :=
    ⟨h₂.1.trans hgrows.1, Nat.le_trans hgrows.2 h₂.2⟩
  exact wp_mono handleInternalEndpoint_grows (fun _ _ h₂ => htrans h₂) (fun _ h₂ => htrans h₂)

/-- The loop of a deletion over the internal endpoints. -/
theorem releaseAll_quiet (rofl : Lowlevel.Rofl) (env : Environment) (graphID : String)
    (eps : List EndPointInternal) (s : GraphManager) :
    let Kept := fun s' : GraphManager =>
      s'.core = s.core ∧ s'.nextVLinkID = s.nextVLinkID ∧ Quiet s s'
    wp (each (releaseInternalEndpoint rofl env graphID) eps) (fun _ => Kept) Kept s := by
  intro Kept
  refine wp_each (I := fun _ => Kept) (fun iep _ s₁ h₁ => ?_) eps s ⟨rfl, rfl, .refl s⟩
  obtain ⟨hcore, hnext, hquiet⟩ := h₁
  refine wp_mono releaseInternalEndpoint_left (fun _ s₂ h₂ => ?_) fun s₂ h₂ => ?_
  · exact ⟨h₂.core.trans hcore, h₂.counter.trans hnext, hquiet.trans h₂.quiet⟩
  · exact ⟨h₂.core.trans hcore, h₂.counter.trans hnext, hquiet.trans h₂.quiet⟩

variable {runNFs : Bool} {physicalPorts : StringMap Nat} {inBand : Option (String × String)}

section

variable (h : create rofl runNFs physicalPorts inBand = .ok s)

include h

theorem create_tenantLSIs :
    s.tenantLSIs = ∅ := by
  cases inBand with
  | none =>
    cases h
    rfl
  | some inBand =>
    obtain ⟨port, -, hs⟩ := Failure.bind_eq_ok.mp h
    cases hs
    rfl

theorem create_connectionsOf
    (group : String) :
    s.connectionsOf group = ∅ := by
  cases inBand with
  | none =>
    cases h
    rfl
  | some inBand =>
    obtain ⟨port, -, hs⟩ := Failure.bind_eq_ok.mp h
    cases hs
    rfl

/-- At the beginning there are only the rules for control in band, in both copies. -/
theorem create_rules :
    s.lsi0Controller.graph = s.graphLSI0lowLevel ∧ ∀ r ∈ s.graphLSI0lowLevel.rules,
      ∃ i, r.flowID = GraphTranslator.lsi0RuleID inBandGraph i := by
  cases inBand with
  | none =>
    cases h
    exact ⟨rfl, fun r hr => by cases hr⟩
  | some inBand =>
    obtain ⟨port, -, hs⟩ := Failure.bind_eq_ok.mp h
    cases hs
    refine ⟨Controller.installNewRules_graph rofl _ _, fun r hr => ?_⟩
    have hr : r ∈ inBandRules port inBand.2 := by
      rwa [Lowlevel.Graph.addRules_rules, List.nil_append] at hr
    simp only [inBandRules, List.mem_cons, List.not_mem_nil, or_false] at hr
    rcases hr with rfl | rfl | rfl <;> exact ⟨_, rfl⟩

end

/-! ## New graphs -/

/-- The steps of a deployment: the record made for the graph (and the counter), the state with
the graph connected to its internal endpoints, and what its rules became on the two
switches. -/
structure Deployment (rofl : Lowlevel.Rofl) (env : Environment) (s : GraphManager)
    (graph : Highlevel.Graph) where
  info : GraphInfo
  nextID : Nat
  connected : GraphManager
  graphLSI0 : Lowlevel.Graph
  graphTenant : Lowlevel.Graph
  fresh : s.tenantLSIs[graph.ID]? = none
  creates : createTenant env s.lsi0.physicalPorts s.runNFs graph s.nextVLinkID =
    .ok (some (some info), nextID)
  counter : s.nextVLinkID ≤ nextID
  stored : info.graph = graph
  inOrder : info.lsi.InOrder nextID
  served : ∀ target, (info.lsi.vlinkOf target).isSome ↔
    ∃ r ∈ graph.rules, r.requiredVlink = some target
  connects : Call.each (handleInternalEndpoint rofl env graph.ID) graph.endPointsInternal
    (handleControllerForInternalEndpoint graph { s with nextVLinkID := nextID }) =
      .ok (some (), connected)
  loweredLSI0 : GraphTranslator.lowerGraphToLSI0 graph info.lsi connected.lsi0
    connected.internalLSIsConnections = .ok graphLSI0
  loweredTenant : GraphTranslator.lowerGraphToTenantLSI graph info.lsi = .ok graphTenant

namespace Deployment

variable {rofl : Lowlevel.Rofl} {env : Environment} {s : GraphManager} {graph : Highlevel.Graph}

variable (d : Deployment rofl env s graph)

/-- The record of the deployed graph. -/
def record : GraphInfo :=
  { d.info with controller := d.info.controller.installNewRules rofl d.graphTenant.rules }

/-- The state after the deployment. -/
def result : GraphManager :=
  { d.connected with
    graphLSI0lowLevel := d.connected.graphLSI0lowLevel.addRules d.graphLSI0.rules
    lsi0Controller := d.connected.lsi0Controller.installNewRules rofl d.graphLSI0.rules
    tenantLSIs := d.connected.tenantLSIs.insert graph.ID d.record }

/-- Connecting the graph has used up identifiers of links and changed groups only. -/
theorem grows :
    s.Grows d.connected ∧ d.nextID ≤ d.connected.nextVLinkID := by
  have hloop := connectAll_grows rofl env graph { s with nextVLinkID := d.nextID }
  obtain ⟨hcore, hle⟩ := (of_wp hloop d.connects).1 () rfl
  exact ⟨⟨hcore, Nat.le_trans d.counter hle⟩, hle⟩

theorem result_tenantLSIs :
    d.result.tenantLSIs = s.tenantLSIs.insert graph.ID d.record := by
  have htenants : d.connected.tenantLSIs = s.tenantLSIs := (core_eq.mp d.grows.1.1).2.2.2
  rw [result, htenants]

end Deployment

/-- The records are as before, and the counter of the links has not gone back. -/
def SameRecords (s s' : GraphManager) : Prop :=
  s'.tenantLSIs = s.tenantLSIs ∧ s.nextVLinkID ≤ s'.nextVLinkID

theorem Grows.sameRecords {s' : GraphManager} (h : s.Grows s') : s.SameRecords s' :=
  ⟨(core_eq.mp h.1).2.2.2, h.2⟩

/-- A request for a new graph is refused, or throws, or deploys the graph. -/
theorem newGraph_spec {graph : Highlevel.Graph} :
    wp (newGraph rofl env graph)
      (fun done s' => done = false ∧ s.SameRecords s' ∨
        done = true ∧ ∃ d : Deployment rofl env s graph, s' = d.result)
      s.SameRecords s := by
  simp only [newGraph, wp_bind, wp_get, wp_assert, wp_focus]
  intro hnew
  refine wp_mono (wp_and wp_self createTenant_spec) ?_ (fun nextID h => ⟨rfl, h.2⟩)
  rintro created nextID ⟨hcreates, hle, hcreated⟩
  cases created with
  | none => exact .inl ⟨rfl, rfl, hle⟩
  | some info =>
    obtain ⟨hstored, -, hinOrder, hserved⟩ := hcreated info rfl
    have hfresh : s.tenantLSIs[graph.ID]? = none := by
      rw [Bool.not_eq_true_eq_eq_false] at hnew
      exact Std.ExtTreeMap.getElem?_eq_none_of_contains_eq_false hnew
    have hsame {s₁ : GraphManager} (h₁ : ({ s with nextVLinkID := nextID } : GraphManager).Grows s₁) :
        s.SameRecords s₁ := ⟨h₁.sameRecords.1, Nat.le_trans hle h₁.2⟩
    simp only [wp_bind, wp_modify]
    refine wp_mono (wp_and wp_self (connectAll_grows rofl env graph _)) ?_
      (fun _ h₁ => hsame h₁.2)
    rintro _ s₁ ⟨hconnects, hgrows⟩
    have hsame₁ : s.SameRecords s₁ := hsame hgrows
    simp only [wp_get, wp_eval, wp_pure]
    refine ⟨fun graphLSI0 hLSI0 => ⟨fun graphTenant hTenant => ?_, fun _ => hsame₁⟩, fun _ => hsame₁⟩
    exact .inr ⟨trivial, ⟨info, nextID, s₁, graphLSI0, graphTenant, hfresh, hcreates, hle,
      hstored, hinOrder, hserved, hconnects, hLSI0, hTenant⟩, rfl⟩

/-- A request for a new graph that returns true has deployed it. -/
theorem newGraph_done {graph : Highlevel.Graph} {s' : GraphManager}
    (h : newGraph rofl env graph s = .ok (some true, s')) :
    ∃ d : Deployment rofl env s graph, s' = d.result := by
  rcases (of_wp newGraph_spec h).1 true rfl with ⟨hfalse, -⟩ | ⟨-, hd⟩
  · cases hfalse
  · exact hd

/-! ## Updates -/

/-- An update whose old pieces have gone: the rules with the given identifiers are off LSI-0, and
the record of the graph is the given one. -/
def exchanged (rofl : Lowlevel.Rofl) (s : GraphManager) (graphID : String) (stale : List String)
    (t : Nat × GraphInfo) : GraphManager :=
  { s with
    graphLSI0lowLevel := stale.foldl (fun g ID => (g.removeRuleFromID ID).1) s.graphLSI0lowLevel
    lsi0Controller := stale.foldl (fun c ID => c.removeRuleFromID rofl ID) s.lsi0Controller
    nextVLinkID := t.1
    tenantLSIs := s.tenantLSIs.insert graphID t.2 }

/-- The steps of an update: the new pieces are added to the record, the old ones taken out of the
stored graph and of the record, and the new rules are lowered for the two switches. -/
theorem wp_updateGraph {newGraph : Highlevel.Graph} {Q : Bool → GraphManager → Prop}
    {E : GraphManager → Prop}
    (h : ∀ info, s.tenantLSIs[graphID]? = some info →
      wp (addPieces env s.lsi0.physicalPorts s.runNFs graphID newGraph) (fun diff grown =>
        let old := newGraph.calculateDiff grown.2.graph graphID
        ∀ graph removeRuleInfo, grown.2.graph.removeGraphFromGraph old = .ok (graph, removeRuleInfo) →
        let after := fun reduced => s.exchanged rofl graphID
          (old.rules.map fun rule => GraphTranslator.lsi0RuleID graph.ID rule.ruleID) (grown.1, reduced)
        wp (removePieces rofl env s.runNFs old removeRuleInfo) (fun _ reduced =>
          let toLSI0 := GraphTranslator.lowerGraphToLSI0 diff reduced.lsi s.lsi0
            s.internalLSIsConnections
          let toTenant := GraphTranslator.lowerGraphToTenantLSI diff reduced.lsi
          (∀ graphLSI0, toLSI0 = .ok graphLSI0 →
            let lowLevel := (after reduced).graphLSI0lowLevel.addRules graphLSI0.rules
            (∀ graphTenant, toTenant = .ok graphTenant → Q true { after { reduced with
                controller := reduced.controller.installNewRules rofl graphTenant.rules } with
              graphLSI0lowLevel := lowLevel
              lsi0Controller := (after reduced).lsi0Controller.installNewRules rofl graphLSI0.rules }) ∧
            (toTenant = .error .thrown → E { after reduced with graphLSI0lowLevel := lowLevel })) ∧
          (toLSI0 = .error .thrown → E (after reduced)))
          (fun reduced => E (after reduced)) { grown.2 with graph := graph })
        (fun grown => Q false (s.putTenant graphID grown)) (s.nextVLinkID, info)) :
    wp (updateGraph rofl env graphID newGraph) Q E s := by
  simp only [updateGraph, wp_bind, wp_get, wp_tryCatch, wp_onTenant, wp_pure]
  intro info hinfo
  refine wp_weaken (h info hinfo) (fun diff grown hadded => ?_)
  simp only [updateGraphRemove, wp_bind, wp_onTenant, GraphInfo.lift, wp_focus,
    removeFromGraph, wp_get, wp_eval_ofAbort, wp_modify, wp_pure, removeLSI0Rules_eq]
  rintro info₁ hinfo₁ ⟨graph, removeRuleInfo⟩ hremove info₂ hinfo₂
  -- each step finds the record that the one before has left
  obtain rfl : grown.2 = info₁ := by simpa [putTenant, StringMap.getElem?_insert] using hinfo₁
  obtain rfl : { grown.2 with graph := graph } = info₂ := by
    simpa [putTenant, StringMap.getElem?_insert] using hinfo₂
  simpa only [updateGraphAddRules, wp_bind, wp_get, putTenant, StringMap.getElem?_insert,
    if_true, wp_eval, wp_modify, StringMap.insert_insert, exchanged] using
    hadded graph removeRuleInfo hremove

/-- The steps of an update that was done: the record it found, the record with the new pieces
(and the counter), the stored graph without the old ones, the record without them, and what
the new rules became on the two switches. -/
structure Update (rofl : Lowlevel.Rofl) (env : Environment) (s : GraphManager) (graphID : String)
    (newGraph : Highlevel.Graph) where
  info : GraphInfo
  grown : Nat × GraphInfo
  graph : Highlevel.Graph
  removeRuleInfo : List RuleRemovedInfo
  reduced : GraphInfo
  graphLSI0 : Lowlevel.Graph
  graphTenant : Lowlevel.Graph
  deployed : s.tenantLSIs[graphID]? = some info
  adds : addPieces env s.lsi0.physicalPorts s.runNFs graphID newGraph (s.nextVLinkID, info) =
    .ok (some (info.graph.calculateDiff newGraph graphID), grown)
  noInternal : (info.graph.calculateDiff newGraph graphID).endPointsInternal = []
  added : Added s.nextVLinkID info (info.graph.calculateDiff newGraph graphID) grown
  removed : grown.2.graph.removeGraphFromGraph (newGraph.calculateDiff grown.2.graph graphID) =
    .ok (graph, removeRuleInfo)
  removes : removePieces rofl env s.runNFs (newGraph.calculateDiff grown.2.graph graphID)
    removeRuleInfo { grown.2 with graph := graph } = .ok (some (), reduced)
  pieces : Reduced rofl grown.1 { grown.2 with graph := graph }
    (newGraph.calculateDiff grown.2.graph graphID) removeRuleInfo reduced
  loweredLSI0 : GraphTranslator.lowerGraphToLSI0 (info.graph.calculateDiff newGraph graphID)
    reduced.lsi s.lsi0 s.internalLSIsConnections = .ok graphLSI0
  loweredTenant : GraphTranslator.lowerGraphToTenantLSI
    (info.graph.calculateDiff newGraph graphID) reduced.lsi = .ok graphTenant

namespace Update

variable {rofl : Lowlevel.Rofl} {env : Environment} {s : GraphManager} {graphID : String}
  {newGraph : Highlevel.Graph}

variable (u : Update rofl env s graphID newGraph)

/-- The identifiers on LSI-0 of the rules that go. -/
def staleIDs : List String :=
  (newGraph.calculateDiff u.grown.2.graph graphID).rules.map
    (fun rule => GraphTranslator.lsi0RuleID u.graph.ID rule.ruleID)

/-- The record of the updated graph. -/
def record : GraphInfo :=
  { u.reduced with controller := u.reduced.controller.installNewRules rofl u.graphTenant.rules }

/-- What the update makes of a copy of the rules of LSI-0. -/
def changed (g : Lowlevel.Graph) : Lowlevel.Graph :=
  (u.staleIDs.foldl (fun g ID => (g.removeRuleFromID ID).1) g).addRules u.graphLSI0.rules

/-- The state after the update. -/
def result : GraphManager :=
  { s with
    graphLSI0lowLevel := u.changed s.graphLSI0lowLevel
    lsi0Controller := (u.staleIDs.foldl (fun c ID => c.removeRuleFromID rofl ID)
      s.lsi0Controller).installNewRules rofl u.graphLSI0.rules
    nextVLinkID := u.grown.1
    tenantLSIs := s.tenantLSIs.insert graphID u.record }

theorem result_controller :
    u.result.lsi0Controller.graph = u.changed s.lsi0Controller.graph := by
  simp only [result, changed, Controller.installNewRules_graph,
    Controller.foldl_removeRuleFromID_graph]

end Update

/-- An update that returns true has taken all its steps. -/
theorem updateGraph_done {newGraph : Highlevel.Graph} {s' : GraphManager}
    (h : updateGraph rofl env graphID newGraph s = .ok (some true, s')) :
    ∃ u : Update rofl env s graphID newGraph, s' = u.result := by
  refine (of_wp (E := fun _ => True) (Q := fun b s' => b = true →
    ∃ u : Update rofl env s graphID newGraph, s' = u.result) ?_ h).1 true rfl rfl
  refine wp_updateGraph fun info hinfo => ?_
  refine wp_mono (wp_and wp_self addPieces_spec) ?_ (fun _ _ hfalse => by cases hfalse)
  rintro _ grown ⟨hadds, rfl, hinternal, hadded⟩ old graph removeRuleInfo hremove after
  refine wp_mono (wp_and wp_self (removePieces_spec grown.1))
    (fun _ reduced hreduced => ?_) (fun _ _ => trivial)
  refine ⟨fun graphLSI0 hLSI0 => ⟨fun graphTenant hTenant _ => ?_, fun _ => trivial⟩, fun _ => trivial⟩
  exact ⟨⟨info, grown, graph, removeRuleInfo, reduced, graphLSI0, graphTenant, hinfo, hadds, hinternal,
    hadded, hremove, hreduced.1, hreduced.2, hLSI0, hTenant⟩, rfl⟩

/-! ## Deleted graphs -/

/-- Taking the rules off LSI-0 changes their two copies only, and throws before it starts. -/
theorem removeFromLSI0_spec (rofl : Lowlevel.Rofl) (info : GraphInfo) (s : GraphManager) :
    wp (removeFromLSI0 rofl info)
      (fun _ s₁ => removeFromLSI0 rofl info s = .ok (some (), s₁) ∧ ∃ lowLevel controller,
        s₁ = { s with graphLSI0lowLevel := lowLevel, lsi0Controller := controller })
      (fun s₁ => removeFromLSI0 rofl info s = .ok (none, s₁) ∧ s₁ = s) s := by
  have hparts : wp (removeFromLSI0 rofl info) (fun _ s₁ => ∃ lowLevel controller,
      s₁ = { s with graphLSI0lowLevel := lowLevel, lsi0Controller := controller })
      (fun s₁ => s₁ = s) s := by
    simp only [removeFromLSI0, wp_bind, wp_get, wp_eval, wp_update,
      Abort.bind_eq_ok, Abort.pure_eq_ok]
    refine ⟨?_, fun _ => trivial⟩
    rintro graphLSI0 - s₁ ⟨lowLevel, -, controller, -, rfl⟩
    exact ⟨lowLevel, controller, rfl⟩
  exact wp_weaken (wp_and wp_self hparts) (fun _ _ h => h)

/-- The first step of a deletion: the record of the graph, and the state without its rules on
LSI-0. -/
structure Deletion (rofl : Lowlevel.Rofl) (s : GraphManager) (graphID : String) where
  info : GraphInfo
  onLSI0 : GraphManager
  deployed : s.tenantLSIs[graphID]? = some info
  removed : removeFromLSI0 rofl info s = .ok (some (), onLSI0)

theorem Deletion.onLSI0_eq (d : Deletion rofl s graphID) : ∃ lowLevel controller,
      d.onLSI0 = { s with graphLSI0lowLevel := lowLevel, lsi0Controller := controller } :=
  ((of_wp (removeFromLSI0_spec rofl d.info s) d.removed).1 () rfl).2

/-- The rest of a deletion concerns the record of the graph and its groups. -/
structure Deletion.Leaves {rofl : Lowlevel.Rofl} {s : GraphManager} {graphID : String}
    (d : Deletion rofl s graphID) (s' : GraphManager) : Prop where
  lsi0 : s'.lsi0 = s.lsi0
  lowLevel : s'.graphLSI0lowLevel = d.onLSI0.graphLSI0lowLevel
  controller : s'.lsi0Controller = d.onLSI0.lsi0Controller
  counter : s'.nextVLinkID = s.nextVLinkID
  records : s'.tenantLSIs = s.tenantLSIs ∨ s'.tenantLSIs = s.tenantLSIs.erase d.info.graph.ID
  quiet : Quiet s s'

/-- A deletion is refused, or throws, or gives up the record and leaves the groups. -/
theorem deleteGraph_spec :
    wp (deleteGraph rofl env graphID)
      (fun done s' => done = false ∧ s.tenantLSIs[graphID]? = none ∧ s' = s ∨
        done = true ∧ ∃ d : Deletion rofl s graphID, d.Leaves s' ∧
          s'.tenantLSIs = s.tenantLSIs.erase d.info.graph.ID ∧
          each (releaseInternalEndpoint rofl env graphID) d.info.graph.endPointsInternal
            { d.onLSI0 with tenantLSIs := s.tenantLSIs.erase d.info.graph.ID } = .ok (some (), s'))
      (fun s' => (∃ info, s.tenantLSIs[graphID]? = some info ∧
          removeFromLSI0 rofl info s = .ok (none, s') ∧ s' = s) ∨
        ∃ d : Deletion rofl s graphID, d.Leaves s') s := by
  simp only [deleteGraph, wp_bind, wp_get]
  cases hinfo : s.tenantLSIs[graphID]? with
  | none => exact .inl ⟨rfl, rfl, rfl⟩
  | some info =>
    dsimp only
    rw [wp_bind]
    refine wp_mono (removeFromLSI0_spec rofl info s) ?_
      (fun s₁ h₁ => .inl ⟨info, rfl, h₁⟩)
    rintro _ s₁ ⟨hremoved, lowLevel, controller, rfl⟩
    let d : Deletion rofl s graphID := ⟨info, _, hinfo, hremoved⟩
    have hkept : d.Leaves d.onLSI0 :=
      ⟨rfl, rfl, rfl, rfl, .inl rfl, .of_eq rfl rfl (Nat.le_refl _)⟩
    simp only [wp_bind, wp_eval_ofAbort]
    intro _ _
    split
    · simp only [wp_bind, wp_update, wp_pure]
      intro s₂ hs₂
      split at hs₂
      · cases hs₂
        let without : GraphManager := { d.onLSI0 with tenantLSIs := s.tenantLSIs.erase info.graph.ID }
        have hleaves {s₃ : GraphManager} (h₃ : s₃.core = without.core ∧
            s₃.nextVLinkID = s.nextVLinkID ∧ Quiet without s₃) :
            d.Leaves s₃ ∧ s₃.tenantLSIs = s.tenantLSIs.erase info.graph.ID := by
          obtain ⟨hcore, hnext, hquiet⟩ := h₃
          obtain ⟨hlsi0, hlowLevel, hcontroller, htenants⟩ := core_eq.mp hcore
          have hstart : Quiet s without := .of_eq rfl rfl (Nat.le_refl _)
          exact ⟨⟨hlsi0, hlowLevel, hcontroller, hnext, .inr htenants, hstart.trans hquiet⟩, htenants⟩
        refine wp_mono (wp_and wp_self (releaseAll_quiet rofl env graphID _ _)) ?_ ?_
        · rintro _ s₃ ⟨hreleased, h₃⟩
          exact .inr ⟨trivial, d, (hleaves h₃).1, (hleaves h₃).2, hreleased⟩
        · rintro s₃ ⟨-, h₃⟩
          exact .inr ⟨d, (hleaves h₃).1⟩
      · cases hs₂
    · exact .inr ⟨d, hkept⟩

/-- What holds before a deletion and behind its first step holds after it. -/
theorem deleteGraph_keeps {I : GraphManager → Prop} (h : I s)
    (hleaves : ∀ (d : Deletion rofl s graphID) s', d.Leaves s' → I s') :
    wp (deleteGraph rofl env graphID) (fun _ s' => I s') I s := by
  refine wp_mono deleteGraph_spec (fun done s' hdone => ?_) (fun s' hthrown => ?_)
  · rcases hdone with ⟨-, -, rfl⟩ | ⟨-, d, hd, -⟩
    · exact h
    · exact hleaves d s' hd
  · rcases hthrown with ⟨-, -, -, rfl⟩ | ⟨d, hd⟩
    · exact h
    · exact hleaves d s' hd

/-- A deletion that returns true has given up the record and left the groups. -/
theorem deleteGraph_done {s' : GraphManager}
    (h : deleteGraph rofl env graphID s = .ok (some true, s')) :
    ∃ d : Deletion rofl s graphID, d.Leaves s' ∧
      s'.tenantLSIs = s.tenantLSIs.erase d.info.graph.ID ∧
      each (releaseInternalEndpoint rofl env graphID) d.info.graph.endPointsInternal
        { d.onLSI0 with tenantLSIs := s.tenantLSIs.erase d.info.graph.ID } = .ok (some (), s') := by
  rcases (of_wp deleteGraph_spec h).1 true rfl with ⟨hfalse, -⟩ | ⟨-, hd⟩
  · cases hfalse
  · exact hd

end GraphManager

end UnOrchestrator
