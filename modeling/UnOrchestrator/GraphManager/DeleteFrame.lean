import UnOrchestrator.GraphManager.Groups
import UnOrchestrator.GraphManager.Ownership

/-!
# Deleting a graph

A deletion lowers the stored rules of the graph once more and removes what comes out from
the two copies of the rules of LSI-0, by contents, and from the switch. Neither looks at whose
rule it is. So a deletion is safe for the other graphs when no rule of the graph shares its
entry on the switch with a rule of another graph (`Unshared`), and when what comes out is
what was once put in.

The latter is the invariant of this module (`Consistent`): for every deployed graph the rules
on LSI-0 under its name are, in order, what its stored rules lower to now. It is kept by
requests that are done completely, among graphs with separated identifiers
(`run_deletesOwnRules`).
-/

namespace UnOrchestrator

open Call

open StringMap (getElem?_erase getElem?_insert mem_iff mem_insert)

open GraphTranslator (lowerGraphToLSI0 lowerGraphToLSI0_eq_ok lowerRuleToLSI0_congr lowerRuleToLSI0_flowID
  lsi0RuleID mem_lowerGraphToLSI0 resolved_of_lowerGraphToLSI0)

open Highlevel

namespace GraphManager

/-! ## The property -/

/-- The rules created for a graph are gone from both copies, all other rules are still there,
and on the switch their entries are as before. -/
structure DeleteFrame (rofl : Lowlevel.Rofl) (s : GraphManager) (graphID : String)
    (s' : GraphManager) : Prop where
  lowLevel : s'.graphLSI0lowLevel.rules =
    s.graphLSI0lowLevel.rules.filter (fun r => !createdFor graphID r)
  controller : s'.lsi0Controller.graph.rules =
    s.lsi0Controller.graph.rules.filter (fun r => !createdFor graphID r)
  entries : ∀ r ∈ s.lsi0Controller.graph.rules, createdFor graphID r = false →
    s'.lsi0Controller.flowTable (r.flowKey rofl) = s.lsi0Controller.flowTable (r.flowKey rofl)

/-- The deletion of a graph takes its rules off LSI-0, and however it ends then, nothing else
has happened there. -/
structure DeletesOwnRules (rofl : Lowlevel.Rofl) (s : GraphManager) (graphID : String) : Prop where
  removes : ∃ info s₁, s.tenantLSIs[graphID]? = some info ∧
    removeFromLSI0 rofl info s = .ok (some (), s₁) ∧ DeleteFrame rofl s graphID s₁
  ends : ∀ env o s', deleteGraph rofl env graphID s = .ok (o, s') → DeleteFrame rofl s graphID s'

/-- No rule created for the graph shares its entry on the switch with another rule. -/
def Unshared (rofl : Lowlevel.Rofl) (s : GraphManager) (graphID : String) : Prop :=
  ∀ r ∈ s.graphLSI0lowLevel.rules, ∀ other ∈ s.graphLSI0lowLevel.rules,
    createdFor graphID r = true → createdFor graphID other = false →
      r.flowKey rofl ≠ other.flowKey rofl

/-! ## The invariant -/

/-- The number of endpoints that the stored graphs have in each group. -/
def demand (s : GraphManager) (graphID group : String) : Nat :=
  ((s.tenantLSIs[graphID]?).map fun info => endpointsIn info.graph.endPointsInternal group).getD 0

/-- The record of a graph is in order, and the rules on LSI-0 under the name of the graph are
what its stored rules lower to. -/
structure Owns (s : GraphManager) (graphID : String) (info : GraphInfo) : Prop where
  ID : info.graph.ID = graphID
  linked : Linked s.nextVLinkID info
  distinct : (info.graph.rules.map Rule.key).Nodup
  rules : ∃ l, GraphTranslator.lowerGraphToLSI0 info.graph info.lsi s.lsi0
    s.internalLSIsConnections = .ok l ∧ s.graphLSI0lowLevel.rules.filter (createdFor graphID) = l.rules

/-- The records, the rules of LSI-0 and the groups fit together, and the names of the graphs
keep their rules apart. -/
structure Consistent (s : GraphManager) : Prop where
  copies : s.lsi0Controller.graph = s.graphLSI0lowLevel
  owns : ∀ (graphID : String) info, s.tenantLSIs[graphID]? = some info → Owns s graphID info
  separated : ∀ g h : String, g ∈ s.tenantLSIs → h ∈ s.tenantLSIs → g ≠ h → Separated g h
  inBand : ∀ g ∈ s.tenantLSIs, Separated g inBandGraph
  known : ∀ r ∈ s.graphLSI0lowLevel.rules, ∃ g ruleID, (g ∈ s.tenantLSIs ∨ g = inBandGraph) ∧
    r.flowID = GraphTranslator.lsi0RuleID g ruleID
  covered : s.Covered s.demand

variable {s s' : GraphManager} {graphID : String} {info : GraphInfo} {rofl : Lowlevel.Rofl}

theorem Consistent.named (h : s.Consistent) : s.Named :=
  fun graphID info hinfo => (h.owns graphID info hinfo).ID

theorem mem_tenantLSIs (h : s.tenantLSIs[graphID]? = some info) : graphID ∈ s.tenantLSIs := by
  rw [mem_iff, h]
  exact Option.some_ne_none info

/-! ## Taking the rules off LSI-0 -/

section Removal

variable {rofl : Lowlevel.Rofl} {s : GraphManager} {graphID : String} {info : GraphInfo}

variable (h : s.Consistent) (hinfo : s.tenantLSIs[graphID]? = some info) (hunshared : Unshared rofl s graphID)

include h hinfo hunshared

/-- The removal succeeds and drops exactly the rules of the graph. -/
theorem removeFromLSI0_frame :
    ∃ s₁, removeFromLSI0 rofl info s = .ok (some (), s₁) ∧ DeleteFrame rofl s graphID s₁ := by
  obtain ⟨l, hlowered, hfilter⟩ := (h.owns graphID info hinfo).rules
  have hown : ∀ r ∈ l.rules, r ∈ s.graphLSI0lowLevel.rules ∧ createdFor graphID r = true :=
    fun r hr => List.mem_filter.mp (hfilter ▸ hr)
  -- a rule with the contents of a rule of the graph shares its entry, so it is one
  have herase : KeyedList.eraseKeys Lowlevel.Rule.compared
      (l.rules.map Lowlevel.Rule.compared) s.graphLSI0lowLevel.rules =
        some (s.graphLSI0lowLevel.rules.filter (fun r => !createdFor graphID r)) := by
    refine KeyedList.eraseKeys_of_perm (by rw [hfilter]) fun x hx hmem => ?_
    obtain ⟨r, hr, heq⟩ := List.mem_map.mp hmem
    by_contra hother
    exact hunshared r (hown r hr).1 x hx (hown r hr).2 (Bool.eq_false_iff.mpr hother)
      (Lowlevel.Rule.flowKey_eq_of_isEqual (Lowlevel.Rule.isEqual_iff.mpr heq))
  have hlowLevel := Lowlevel.Graph.removeRules_of_eraseKeys herase
  let rest : Lowlevel.Graph :=
    { rules := s.graphLSI0lowLevel.rules.filter (fun r => !createdFor graphID r) }
  let controller := Controller.removeRulesFromLSI rofl { s.lsi0Controller with graph := rest } l.rules
  have hcontroller : s.lsi0Controller.removeRules rofl l.rules = .ok controller := by
    rw [Controller.removeRules, h.copies, hlowLevel]
    rfl
  refine ⟨{ s with graphLSI0lowLevel := rest, lsi0Controller := controller }, ?_, rfl, ?_,
    fun r hr hother => ?_⟩
  · simp only [removeFromLSI0, bind_apply, Call.get, eval, update, hlowered, hlowLevel,
      hcontroller]
    rfl
  · rw [h.copies]
    exact congrArg Lowlevel.Graph.rules (Controller.removeRulesFromLSI_graph rofl _ _)
  · rw [h.copies] at hr
    refine Controller.removeRulesFromLSI_flowTable rofl _ fun hmem => ?_
    obtain ⟨own, hl, heq⟩ := List.mem_map.mp hmem
    exact hunshared own (hown own hl).1 r hr (hown own hl).2 hother heq

/-- However the deletion ends, LSI-0 is as the removal left it. -/
theorem Consistent.deletesOwnRules : DeletesOwnRules rofl s graphID := by
  obtain ⟨s₁, hremoved, hframe⟩ := removeFromLSI0_frame h hinfo hunshared
  refine ⟨⟨info, s₁, hinfo, hremoved, hframe⟩, fun env o s' hdelete => ?_⟩
  have hleaves (d : Deletion rofl s graphID) (hd : d.Leaves s') : DeleteFrame rofl s graphID s' := by
    obtain rfl : info = d.info := Option.mem_unique hinfo d.deployed
    obtain rfl : s₁ = d.onLSI0 := by simpa using hremoved.symm.trans d.removed
    refine ⟨?_, ?_, ?_⟩
    · rw [hd.lowLevel]
      exact hframe.lowLevel
    · rw [hd.controller]
      exact hframe.controller
    · rw [hd.controller]
      exact hframe.entries
  obtain ⟨hreturned, hthrown⟩ := of_wp deleteGraph_spec hdelete
  cases o with
  | none =>
    rcases hthrown rfl with ⟨info', hinfo', hthrow, -⟩ | ⟨d, hd⟩
    · obtain rfl : info = info' := Option.mem_unique hinfo hinfo'
      rw [hremoved] at hthrow
      cases hthrow
    · exact hleaves d hd
  | some done =>
    rcases hreturned done rfl with ⟨-, hnone, -⟩ | ⟨-, d, hd, -⟩
    · rw [hinfo] at hnone
      cases hnone
    · exact hleaves d hd

end Removal

/-! ## The other graphs -/

/-- What a request on one graph leaves alone. -/
structure ChangesOnly (graphID : String) (s s' : GraphManager) : Prop where
  lsi0 : s'.lsi0 = s.lsi0
  counter : s.nextVLinkID ≤ s'.nextVLinkID
  records : ∀ k : String, k ≠ graphID → s'.tenantLSIs[k]? = s.tenantLSIs[k]?
  connections : SameConnections graphID s s'
  rules : ∀ k, Separated graphID k → s'.graphLSI0lowLevel.rules.filter (createdFor k) =
    s.graphLSI0lowLevel.rules.filter (createdFor k)

/-- The rules of another graph lower to what they did before. -/
theorem lowerGraphToLSI0_other {nextID : Nat} (hlinked : Linked nextID info)
    (hne : info.graph.ID ≠ graphID) (hlsi0 : s'.lsi0 = s.lsi0)
    (hsame : SameConnections graphID s s') :
    lowerGraphToLSI0 info.graph info.lsi s'.lsi0 s'.internalLSIsConnections =
      lowerGraphToLSI0 info.graph info.lsi s.lsi0 s.internalLSIsConnections := by
  unfold lowerGraphToLSI0
  rw [hlsi0, Failure.collect_congr fun r hr => ?_]
  refine lowerRuleToLSI0_congr (fun target htarget => ?_) fun group => ?_
  · obtain ⟨l, hl⟩ := hlinked.linkOf hr htarget
    exact ⟨l, hl, hl⟩
  · exact congrArg (fun port => Option.getD port 0) (hsame group info.graph.ID hne)

theorem Owns.other {k : String} (h : Owns s k info) (hchange : ChangesOnly graphID s s')
    (hsep : Separated graphID k) (hne : k ≠ graphID) : Owns s' k info := by
  obtain ⟨l, hlowered, hfilter⟩ := h.rules
  refine ⟨h.ID, h.linked.mono hchange.counter, h.distinct, l, ?_, ?_⟩
  · rw [lowerGraphToLSI0_other h.linked (h.ID ▸ hne) hchange.lsi0 hchange.connections, hlowered]
  · rw [hchange.rules k hsep, hfilter]

/-- Consistency after a request on one graph is a matter of this graph. -/
theorem Consistent.change (h : s.Consistent) (hchange : ChangesOnly graphID s s')
    (hsep : ∀ k ∈ s.tenantLSIs, k ≠ graphID → Separated graphID k)
    (hinBand : graphID ∈ s'.tenantLSIs → Separated graphID inBandGraph)
    (hcopies : s'.lsi0Controller.graph = s'.graphLSI0lowLevel)
    (howns : ∀ info, s'.tenantLSIs[graphID]? = some info → Owns s' graphID info)
    (hrules : ∀ r ∈ s'.graphLSI0lowLevel.rules, r ∈ s.graphLSI0lowLevel.rules ∧
      (createdFor graphID r = true → graphID ∈ s'.tenantLSIs) ∨
      graphID ∈ s'.tenantLSIs ∧ ∃ ruleID, r.flowID = lsi0RuleID graphID ruleID)
    (hcovered : s'.Covered s'.demand) : s'.Consistent := by
  have hmem {k : String} (hk : k ≠ graphID) : k ∈ s'.tenantLSIs ↔ k ∈ s.tenantLSIs := by
    rw [mem_iff, mem_iff, hchange.records k hk]
  refine ⟨hcopies, fun k info hinfo => ?_, fun g k hg hk hne => ?_, fun g hg => ?_, fun r hr => ?_,
    hcovered⟩
  · by_cases hk : k = graphID
    · subst hk
      exact howns info hinfo
    · rw [hchange.records k hk] at hinfo
      exact (h.owns k info hinfo).other hchange (hsep k (mem_tenantLSIs hinfo) hk) hk
  · by_cases hg' : g = graphID
    · subst hg'
      exact hsep k ((hmem (Ne.symm hne)).mp hk) (Ne.symm hne)
    · by_cases hk' : k = graphID
      · subst hk'
        exact (hsep g ((hmem hne).mp hg) hne).symm
      · exact h.separated g k ((hmem hg').mp hg) ((hmem hk').mp hk) hne
  · by_cases hg' : g = graphID
    · exact hg' ▸ hinBand (hg' ▸ hg)
    · exact h.inBand g ((hmem hg').mp hg)
  · rcases hrules r hr with ⟨hold, hstays⟩ | ⟨hdeployed, ruleID, hID⟩
    · obtain ⟨g, ruleID, hg, hID⟩ := h.known r hold
      refine ⟨g, ruleID, hg.imp_left fun hg => ?_, hID⟩
      by_cases hg' : g = graphID
      · subst hg'
        exact hstays (createdFor_of_flowID hID)
      · exact (hmem hg').mpr hg
    · exact ⟨graphID, ruleID, .inl hdeployed, hID⟩

/-! ## New graphs -/

section Deploy

variable {rofl : Lowlevel.Rofl} {env : Environment} {s : GraphManager} {graph : Highlevel.Graph}

/-- No rule carries a name that is separated from all names in use. -/
theorem Consistent.filter_new (h : s.Consistent) {graphID : String}
    (hsep : ∀ k ∈ s.tenantLSIs, Separated graphID k) (hinBand : Separated graphID inBandGraph) :
    s.graphLSI0lowLevel.rules.filter (createdFor graphID) = [] := by
  refine List.filter_eq_nil_iff.mpr fun r hr => ?_
  obtain ⟨g, ruleID, hg, hID⟩ := h.known r hr
  have hother : Separated g graphID := by
    rcases hg with hg | rfl
    · exact (hsep g hg).symm
    · exact hinBand.symm
  rw [hother.not_createdFor (createdFor_of_flowID hID)]
  exact Bool.false_ne_true

theorem demand_insert {s' : GraphManager} {graphID : String} {info : GraphInfo}
    (h : s'.tenantLSIs = s.tenantLSIs.insert graphID info) :
    s'.demand = Function.update s.demand graphID (endpointsIn info.graph.endPointsInternal) := by
  funext k group
  by_cases hk : k = graphID
  · subst hk
    simp [demand, h]
  · simp [demand, h, getElem?_insert, hk, Ne.symm hk]

theorem Consistent.deployed (h : s.Consistent) (d : Deployment rofl env s graph)
    (hdistinct : (graph.rules.map Rule.key).Nodup)
    (hsep : ∀ k ∈ s.tenantLSIs, Separated graph.ID k) (hinBand : Separated graph.ID inBandGraph) :
    d.result.Consistent := by
  obtain ⟨hgrows, hle⟩ := d.grows
  obtain ⟨hlsi0, hlowLevel, hcontroller, htenants⟩ := core_eq.mp hgrows.1
  obtain ⟨hsame, hcovered⟩ := d.connected_covered h.covered
  have hrules : d.result.graphLSI0lowLevel.rules =
      s.graphLSI0lowLevel.rules ++ d.graphLSI0.rules := by
    simp only [Deployment.result, Lowlevel.Graph.addRules_rules, hlowLevel]
  have hrecord := d.result_tenantLSIs
  have hdeployed : graph.ID ∈ d.result.tenantLSIs := by
    rw [hrecord, mem_insert]
    exact .inl rfl
  have hchange : ChangesOnly graph.ID s d.result := by
    refine ⟨hlsi0, hgrows.2, fun k hk => ?_, hsame, fun k hk => ?_⟩
    · rw [hrecord, getElem?_insert, if_neg (Ne.symm hk)]
    · rw [hrules, List.filter_append, lowered_filter_other d.loweredLSI0 hk, List.append_nil]
  refine h.change hchange (fun k hk _ => hsep k hk) (fun _ => hinBand) ?_ (fun info hinfo => ?_)
    (fun r hr => ?_) ?_
  · simp only [Deployment.result, Controller.installNewRules_graph, hcontroller, hlowLevel, h.copies]
  · obtain rfl : d.record = info := by simpa [hrecord, getElem?_insert] using hinfo
    have hstored : d.record.graph = graph := d.stored
    refine ⟨by rw [hstored], ?_, by rw [hstored]; exact hdistinct, d.graphLSI0, ?_, ?_⟩
    · exact (d.linked (resolved_of_lowerGraphToLSI0 d.loweredLSI0)).mono hle
    · rw [hstored]
      exact d.loweredLSI0
    · rw [hrules, List.filter_append, h.filter_new hsep hinBand, List.nil_append,
        lowered_filter_own d.loweredLSI0]
  · rw [hrules] at hr
    rcases List.mem_append.mp hr with hr | hr
    · exact .inl ⟨hr, fun _ => hdeployed⟩
    · obtain ⟨hlr, -, hlowered⟩ := mem_lowerGraphToLSI0 d.loweredLSI0 hr
      exact .inr ⟨hdeployed, hlr.ruleID, lowerRuleToLSI0_flowID hlowered⟩
  · rw [demand_insert hrecord, show d.record.graph = graph from d.stored]
    exact hcovered.mono (fun _ _ => Nat.le_refl _) rfl rfl rfl

end Deploy

/-! ## Updates -/

namespace Update

variable {rofl : Lowlevel.Rofl} {env : Environment} {s : GraphManager} {graphID : String}
  {newGraph : Highlevel.Graph}

variable (u : Update rofl env s graphID newGraph)

/-- The keys of the rules that go. -/
def staleKeys : List String :=
  (newGraph.calculateDiff u.grown.2.graph graphID).rules.map Rule.key

theorem mem_staleIDs (hID : u.info.graph.ID = graphID)
    {ruleID : String} :
    lsi0RuleID graphID ruleID ∈ u.staleIDs ↔ ruleID ∈ u.staleKeys := by
  simp only [staleIDs, staleKeys, List.mem_map, u.graph_ID, hID, lsi0RuleID_inj]
  rfl

theorem grown_rules : u.grown.2.graph.rules =
    u.info.graph.rules ++ (u.info.graph.calculateDiff newGraph graphID).rules := by
  rw [u.added.graph]
  exact (Graph.addGraphToGraph_diff u.info.graph newGraph graphID).2.1

theorem grown_distinct (hdistinct : (u.info.graph.rules.map Rule.key).Nodup) :
    (u.grown.2.graph.rules.map Rule.key).Nodup := by
  obtain ⟨hnodup, hfresh⟩ := Graph.calculateDiff_rules_fresh u.info.graph newGraph graphID
  rw [u.grown_rules, List.map_append]
  refine List.Nodup.append hdistinct hnodup fun k hk hmem => ?_
  obtain ⟨r, hr, rfl⟩ := List.mem_map.mp hmem
  exact (hfresh r hr).2 hk

/-- The stored rules after the update: the old ones that stay, then the new ones. -/
theorem graph_rules (hdistinct : (u.info.graph.rules.map Rule.key).Nodup) :
    u.graph.rules = u.info.graph.rules.filter (fun r => r.key ∉ u.staleKeys) ++
      (u.info.graph.calculateDiff newGraph graphID).rules := by
  have herase := (Graph.removeGraphFromGraph_erased u.removed).2.rules
  rw [KeyedList.eraseKeys_eq_filter (u.grown_distinct hdistinct) herase, u.grown_rules,
    List.filter_append]
  congr 1
  -- a new rule is in the requested graph, a stale one is not
  refine List.filter_eq_self.mpr fun r hr => ?_
  have hrequested := ((Graph.calculateDiff_rules_fresh u.info.graph newGraph graphID).2 r hr).1
  simp only [decide_eq_true_eq]
  intro hmem
  obtain ⟨stale, hstale, hkey⟩ := List.mem_map.mp hmem
  exact ((Graph.calculateDiff_rules_fresh newGraph u.grown.2.graph graphID).2 stale hstale).2
    (hkey ▸ List.mem_map_of_mem hrequested)

/-- Links follow the rules through both halves of the update. -/
theorem linked (h : Linked s.nextVLinkID u.info) :
    Linked u.grown.1 u.reduced ∧ s.nextVLinkID ≤ u.grown.1 := by
  obtain ⟨hgrown, hle⟩ :=
    h.added (resolved_of_lowerGraphToLSI0 u.loweredLSI0) u.added
  exact ⟨hgrown.reduced u.removed u.pieces, hle⟩

/-- A rule that stays finds its link where it was. -/
theorem linkOf_kept (h : Linked s.nextVLinkID u.info)
    {r : Rule} (hold : r ∈ u.info.graph.rules) (hstays : r ∈ u.graph.rules)
    {target : RuleRemovedInfo} (htarget : r.requiredVlink = some target) :
    ∃ l, u.reduced.lsi.linkOf target = some l ∧ u.info.lsi.linkOf target = some l := by
  have hgrown := (h.added (resolved_of_lowerGraphToLSI0 u.loweredLSI0) u.added).1
  obtain ⟨l, hl⟩ := h.linkOf hold htarget
  have hadded : u.grown.2.lsi.linkOf target = some l := by
    rw [(u.added.links h.inOrder).2.2.2 target ((h.served target).mpr ⟨r, hold, htarget⟩), hl]
  have hserved : (u.reduced.lsi.vlinkOf target).isSome :=
    ((u.linked h).1.served target).mpr ⟨r, by rw [u.pieces.graph]; exact hstays, htarget⟩
  refine ⟨l, ?_, hl⟩
  rw [(u.pieces.links hgrown.inOrder).2.2 target hserved]
  exact hadded

/-- The stored rules lower to the old rules that stay and the new ones. -/
theorem lowered (h : Owns s graphID u.info)
    {l : Lowlevel.Graph} (hl : lowerGraphToLSI0 u.info.graph u.info.lsi s.lsi0
      s.internalLSIsConnections = .ok l) :
    lowerGraphToLSI0 u.reduced.graph u.reduced.lsi s.lsi0
      s.internalLSIsConnections =
        .ok { rules := l.rules.filter (fun r => r.flowID ∉ u.staleIDs) ++ u.graphLSI0.rules } := by
  have hgraph : u.reduced.graph = u.graph := u.pieces.graph
  have hID : u.graph.ID = graphID := u.graph_ID.trans h.ID
  have hrules := u.graph_rules h.distinct
  rw [lowerGraphToLSI0_eq_ok, h.ID] at hl
  rw [lowerGraphToLSI0_eq_ok, hgraph, hrules, hID]
  refine Failure.collect_append.mpr ⟨_, _, ?_, lowerGraphToLSI0_eq_ok.mp u.loweredLSI0,
    rfl⟩
  rw [Failure.collect_congr fun r hr => ?_]
  · refine Failure.collect_filter hl fun r hr low hlow => ?_
    rw [lowerRuleToLSI0_flowID hlow]
    exact decide_eq_decide.mpr (not_congr (u.mem_staleIDs h.ID))
  · obtain ⟨hold, -⟩ := List.mem_filter.mp hr
    have hstays : r ∈ u.graph.rules := by
      rw [hrules]
      exact List.mem_append_left _ hr
    exact lowerRuleToLSI0_congr
      (fun target htarget => u.linkOf_kept h.linked hold hstays htarget) (fun _ => rfl)

/-- The rules of the graph on LSI-0 change as its stored rules do. -/
theorem changed_filter_own (hs : s.Named)
    (h : Owns s graphID u.info) {l : Lowlevel.Graph}
    (hl : lowerGraphToLSI0 u.info.graph u.info.lsi s.lsi0
      s.internalLSIsConnections = .ok l)
    (hfilter : s.graphLSI0lowLevel.rules.filter (createdFor graphID) = l.rules) :
    (u.changed s.graphLSI0lowLevel).rules.filter (createdFor graphID) =
      l.rules.filter (fun r => r.flowID ∉ u.staleIDs) ++ u.graphLSI0.rules := by
  have hsub := Failure.map_sublist_of_collect (φ := Lowlevel.Rule.flowID)
    (ψ := fun r : Rule => lsi0RuleID u.info.graph.ID r.key)
    (lowerGraphToLSI0_eq_ok.mp hl)
    (fun r _ low hlow => lowerRuleToLSI0_flowID hlow)
  have hnodup : (l.rules.map Lowlevel.Rule.flowID).Nodup := by
    refine List.Nodup.sublist hsub ?_
    rw [← Function.comp_def, ← List.map_map]
    exact h.distinct.map fun a b hab => lsi0RuleID_inj.mp hab
  rw [changed, Lowlevel.Graph.addRules_rules, List.filter_append,
    show u.graphLSI0.rules.filter (createdFor graphID) = _ from lowered_filter_own u.loweredLSI0,
    Lowlevel.Graph.filter_foldl_removeRuleFromID_own _ _ (u.stale_createdFor hs) (by rwa [hfilter]),
    hfilter]

theorem grown_endPointsInternal :
    u.grown.2.graph.endPointsInternal = u.info.graph.endPointsInternal := by
  rw [u.added.graph]
  exact Graph.addGraphToGraph_endPointsInternal u.noInternal

theorem endPointsInternal_sublist :
    u.reduced.graph.endPointsInternal.Sublist u.info.graph.endPointsInternal := by
  rw [u.pieces.graph, ← u.grown_endPointsInternal]
  exact KeyedList.eraseKeys_sublist (Graph.removeGraphFromGraph_erased u.removed).2.internal

/-- Internal endpoints that are all requested again stay as they are. -/
theorem endPointsInternal_eq (hkeeps : ∀ e ∈ u.info.graph.endPointsInternal, e ∈ newGraph.endPointsInternal) :
    u.graph.endPointsInternal = u.info.graph.endPointsInternal := by
  have herase := (Graph.removeGraphFromGraph_erased u.removed).2.internal
  have hnone : KeyedList.missing id newGraph.endPointsInternal u.grown.2.graph.endPointsInternal = [] := by
    refine List.eq_nil_iff_forall_not_mem.mpr fun e he => ?_
    obtain ⟨hmem, hmissing⟩ := KeyedList.mem_missing.mp he
    rw [u.grown_endPointsInternal] at hmem
    rw [List.map_id] at hmissing
    exact hmissing (hkeeps e hmem)
  simp only [Graph.calculateDiff, hnone] at herase
  rw [← u.grown_endPointsInternal]
  exact (Option.some.inj herase).symm

end Update

theorem Consistent.updated {env : Environment} {newGraph : Highlevel.Graph} (h : s.Consistent)
    (u : Update rofl env s graphID newGraph) :
    u.result.Consistent := by
  have howns := h.owns graphID u.info u.deployed
  have hmem : graphID ∈ s.tenantLSIs := mem_tenantLSIs u.deployed
  have hdeployed : graphID ∈ u.result.tenantLSIs := by
    rw [Update.result, mem_insert]
    exact .inl rfl
  obtain ⟨hlinked, hle⟩ := u.linked howns.linked
  have hchange : ChangesOnly graphID s u.result := by
    refine ⟨rfl, hle, fun k hk => ?_, fun _ _ _ => rfl, fun k hk => ?_⟩
    · simp only [Update.result, getElem?_insert, if_neg (Ne.symm hk)]
    · exact u.changed_filter_other h.named hk _
  refine h.change hchange (fun k hk hne => h.separated graphID k hmem hk (Ne.symm hne))
    (fun _ => h.inBand graphID hmem) ?_ (fun info hinfo => ?_) (fun r hr => ?_) ?_
  · rw [u.result_controller, h.copies]
    rfl
  · obtain ⟨l, hl, hfilter⟩ := howns.rules
    obtain rfl : u.record = info := by
      simpa [Update.result, getElem?_insert] using hinfo
    have hgraph : u.record.graph = u.graph := u.pieces.graph
    refine ⟨?_, hlinked.congr rfl rfl, ?_, _, u.lowered howns hl,
      u.changed_filter_own h.named howns hl hfilter⟩
    · rw [hgraph]
      exact u.graph_ID.trans howns.ID
    · rw [hgraph]
      exact KeyedList.eraseKeys_keys_nodup (u.grown_distinct howns.distinct)
        (Graph.removeGraphFromGraph_erased u.removed).2.rules
  · rw [show u.result.graphLSI0lowLevel = u.changed s.graphLSI0lowLevel from rfl, Update.changed,
      Lowlevel.Graph.addRules_rules] at hr
    rcases List.mem_append.mp hr with hr | hr
    · exact .inl ⟨Lowlevel.Graph.mem_of_foldl_removeRuleFromID hr, fun _ => hdeployed⟩
    · obtain ⟨hlr, -, hlowered⟩ := mem_lowerGraphToLSI0 u.loweredLSI0 hr
      exact .inr ⟨hdeployed, hlr.ruleID, lowerRuleToLSI0_flowID hlowered⟩
  · rw [demand_insert (show u.result.tenantLSIs = s.tenantLSIs.insert graphID u.record from rfl)]
    refine h.covered.mono (fun k group => ?_) rfl rfl rfl
    by_cases hk : k = graphID
    · subst hk
      rw [Function.update_self, demand, u.deployed]
      exact u.endPointsInternal_sublist.countP_le
    · rw [Function.update_of_ne hk]

/-! ## Deletions -/

theorem demand_erase (h : s'.tenantLSIs = s.tenantLSIs.erase graphID) :
    s'.demand = Function.update s.demand graphID (fun _ => 0) := by
  funext k group
  by_cases hk : k = graphID
  · subst hk
    simp [demand, h]
  · simp [demand, h, getElem?_erase, hk, Ne.symm hk]

theorem Consistent.deleted {env : Environment} (h : s.Consistent)
    (hunshared : Unshared rofl s graphID)
    (hdelete : deleteGraph rofl env graphID s = .ok (some true, s')) : s'.Consistent := by
  obtain ⟨d, hd, herase, hrelease⟩ := deleteGraph_done hdelete
  have hframe := (h.deletesOwnRules d.deployed hunshared).ends env _ s' hdelete
  have hmem : graphID ∈ s.tenantLSIs := mem_tenantLSIs d.deployed
  have hID : d.info.graph.ID = graphID := (h.owns graphID d.info d.deployed).ID
  rw [hID] at herase hrelease
  obtain ⟨lowLevel, controller, honLSI0⟩ := d.onLSI0_eq
  -- the groups are left with the demand of the deleted graph still open
  have hcovered : ({ d.onLSI0 with tenantLSIs := s.tenantLSIs.erase graphID } :
      GraphManager).Covered (Function.update s.demand graphID
        (endpointsIn d.info.graph.endPointsInternal)) := by
    rw [honLSI0]
    refine h.covered.mono (fun k group => ?_) rfl rfl rfl
    by_cases hk : k = graphID
    · subst hk
      rw [Function.update_self, demand, d.deployed]
      exact Nat.le_refl _
    · rw [Function.update_of_ne hk]
  obtain ⟨hsame, hreleased⟩ :=
    (of_wp (releaseAll_covered _ hcovered) hrelease).1 () rfl
  rw [honLSI0] at hsame
  have hgone : s'.tenantLSIs[graphID]? = none := by
    rw [herase, getElem?_erase, if_pos rfl]
  have hnot : graphID ∉ s'.tenantLSIs := fun hin => mem_iff.mp hin hgone
  have hchange : ChangesOnly graphID s s' := by
    refine ⟨hd.lsi0, hd.counter.symm.le, fun k hk => ?_, hsame, fun k hk => ?_⟩
    · rw [herase, getElem?_erase, if_neg (Ne.symm hk)]
    · rw [hframe.lowLevel, List.filter_filter]
      refine List.filter_congr fun r _ => ?_
      cases hr : createdFor k r with
      | false => rfl
      | true => simp [hk.symm.not_createdFor hr]
  refine h.change hchange (fun k hk hne => h.separated graphID k hmem hk (Ne.symm hne))
    (fun hin => absurd hin hnot) ?_ (fun info hinfo => ?_) (fun r hr => ?_) ?_
  · refine Lowlevel.Graph.ext ?_
    rw [hframe.controller, hframe.lowLevel, h.copies]
  · rw [hgone] at hinfo
    cases hinfo
  · rw [hframe.lowLevel] at hr
    obtain ⟨hr, hother⟩ := List.mem_filter.mp hr
    exact .inl ⟨hr, fun hown => by simp [hown] at hother⟩
  · rw [demand_erase herase]
    exact hreleased

/-! ## Runs -/

/-- Controllers and the counter of the links do not matter. -/
theorem Consistent.congr (h : s.Consistent) (hlsi0 : s'.lsi0 = s.lsi0)
    (hlowLevel : s'.graphLSI0lowLevel = s.graphLSI0lowLevel)
    (hcopies : s'.lsi0Controller.graph = s.lsi0Controller.graph)
    (hcounter : s.nextVLinkID ≤ s'.nextVLinkID)
    (hconnections : s'.internalLSIsConnections = s.internalLSIsConnections)
    (hcreated : s'.isCreated = s.isCreated) (htimes : s'.timesUsed = s.timesUsed)
    (hrecords : ∀ k : String, (s'.tenantLSIs[k]?).map (fun info => (info.graph, info.lsi)) =
      (s.tenantLSIs[k]?).map (fun info => (info.graph, info.lsi))) : s'.Consistent := by
  have hmem {k : String} : k ∈ s'.tenantLSIs ↔ k ∈ s.tenantLSIs := by
    rw [mem_iff, mem_iff, ← Option.isSome_iff_ne_none, ← Option.isSome_iff_ne_none,
      ← Option.isSome_map (f := fun info : GraphInfo => (info.graph, info.lsi)), hrecords,
      Option.isSome_map]
  refine ⟨by rw [hcopies, hlowLevel, h.copies], fun k info hinfo => ?_,
    fun g k hg hk => h.separated g k (hmem.mp hg) (hmem.mp hk), fun g hg => h.inBand g (hmem.mp hg),
    fun r hr => ?_, ?_⟩
  · have hview := hrecords k
    rw [hinfo, Option.map_some, eq_comm, Option.map_eq_some_iff] at hview
    obtain ⟨old, hold, heq⟩ := hview
    obtain ⟨hgraph, hlsi⟩ := Prod.mk.inj heq
    have howns := h.owns k old hold
    obtain ⟨l, hl, hfilter⟩ := howns.rules
    refine ⟨hgraph ▸ howns.ID, (howns.linked.mono hcounter).congr hgraph.symm (by rw [hlsi]),
      hgraph ▸ howns.distinct, l, ?_, by rw [hlowLevel, hfilter]⟩
    rw [hlsi0, hconnections, ← hgraph, ← hlsi, hl]
  · rw [hlowLevel] at hr
    obtain ⟨g, ruleID, hg, hID⟩ := h.known r hr
    exact ⟨g, ruleID, hg.imp_left hmem.mpr, hID⟩
  · refine h.covered.mono (fun k group => ?_) htimes ?_ hcreated
    · have hview := congrArg (Option.map fun view : Highlevel.Graph × LSI =>
        endpointsIn view.1.endPointsInternal group) (hrecords k)
      simp only [Option.map_map, Function.comp_def] at hview
      rw [demand, demand, hview]
    · funext group
      rw [connectionsOf, connectionsOf, hconnections]

theorem create_consistent {runNFs : Bool} {physicalPorts : StringMap Nat}
    {inBand : Option (String × String)} (h : create rofl runNFs physicalPorts inBand = .ok s) :
    s.Consistent := by
  have hempty (g : String) : g ∉ s.tenantLSIs := by
    rw [create_tenantLSIs h]
    exact Std.ExtTreeMap.not_mem_empty
  have hunused : s.Covered s.demand := by
    intro group
    refine ⟨[], Nat.zero_le _, fun k => ?_, fun k hk => ?_, fun _ => rfl⟩
    · simp [demand, create_tenantLSIs h]
    · rw [create_connectionsOf h] at hk
      exact absurd hk Std.ExtTreeMap.not_mem_empty
  obtain ⟨hcopies, hinBand⟩ := create_rules h
  refine ⟨hcopies, fun g info hinfo => absurd (mem_tenantLSIs hinfo) (hempty g),
    fun g _ hg => absurd hg (hempty g), fun g hg => absurd hg (hempty g), fun r hr => ?_, hunused⟩
  obtain ⟨i, hi⟩ := hinBand r hr
  exact ⟨inBandGraph, i, .inr rfl, hi⟩

theorem onController_consistent (h : s.Consistent) (graphID : String)
    (f : Controller → Controller) : (s.onController graphID f).Consistent := by
  unfold onController
  cases hinfo : s.tenantLSIs[graphID]? with
  | none => exact h
  | some info =>
    refine h.congr rfl rfl rfl (Nat.le_refl _) rfl rfl rfl fun k => ?_
    simp only [putTenant, getElem?_insert]
    split
    · next heq =>
      rw [← heq, hinfo]
      rfl
    · rfl

/-- A new graph has a name separated from those in use, and a deleted graph shares no entry on
the switch. -/
def Apart (rofl : Lowlevel.Rofl) (s : GraphManager) : Operation → Prop
  | .newGraph _ graph =>
    (∀ k ∈ s.tenantLSIs.keys, Separated graph.ID k) ∧ Separated graph.ID inBandGraph
  | .deleteGraph _ graphID => graphID ∈ s.tenantLSIs → Unshared rofl s graphID
  | _ => True

/-- The condition on a step: the request was done or changed nothing (but used up identifiers
of links), and the graphs are kept apart. -/
structure Orderly (rofl : Lowlevel.Rofl) (s : GraphManager) (op : Operation) : Prop where
  whole : ∀ o s', call rofl op s = .ok (o, s') → o = some true ∨
    ∃ nextID, s.nextVLinkID ≤ nextID ∧ s' = { s with nextVLinkID := nextID }
  apart : Apart rofl s op

theorem step_consistent {op : Operation} (h : s.Consistent) (hop : Orderly rofl s op)
    (hstep : step rofl s op = .ok s') :
    s'.Consistent := by
  obtain ⟨o, ho⟩ := step_ok.mp hstep
  rcases hop.whole o s' ho with rfl | ⟨nextID, hle, rfl⟩
  · cases op with
    | newGraph env graph =>
      obtain ⟨d, rfl⟩ := newGraph_done ho
      exact h.deployed d graph.distinct
        (fun k hk => hop.apart.1 k (Std.ExtTreeMap.mem_keys.mpr hk)) hop.apart.2
    | updateGraph env graphID graph =>
      obtain ⟨u, rfl⟩ := updateGraph_done ho
      exact h.updated u
    | deleteGraph env graphID =>
      obtain ⟨d, -⟩ := deleteGraph_done ho
      exact h.deleted (hop.apart (mem_tenantLSIs d.deployed)) ho
    | lsi0DptOpen =>
      cases ho
      exact h.congr rfl rfl (Controller.installNewRulesIntoLSI_graph rofl _ _) (Nat.le_refl _)
        rfl rfl rfl fun _ => rfl
    | lsi0DptClose =>
      cases ho
      exact h.congr rfl rfl rfl (Nat.le_refl _) rfl rfl rfl fun _ => rfl
    | tenantDptOpen graphID | tenantDptClose graphID =>
      cases ho
      exact onController_consistent h graphID _
  · exact h.congr rfl rfl rfl hle rfl rfl rfl fun _ => rfl

/-- In every state of a run of orderly steps, the deletion of a graph that shares no entry takes
exactly its own rules off LSI-0 and leaves the entries of the others. -/
theorem run_deletesOwnRules {rofl : Lowlevel.Rofl} {runNFs : Bool} {physicalPorts : StringMap Nat}
    {inBand : Option (String × String)} {s : GraphManager}
    (hcreate : create rofl runNFs physicalPorts inBand = .ok s) {ops : List Operation}
    (hsteps : Run.EveryStep (step rofl) (Orderly rofl) s ops) :
    Run.Always (step rofl)
      (fun s => ∀ g ∈ s.tenantLSIs, Unshared rofl s g → DeletesOwnRules rofl s g) s ops := by
  refine Run.always_of_invariant (I := Consistent) (fun s op s' => step_consistent) ?_
    (create_consistent hcreate) hsteps
  intro s h g hg hunshared
  obtain ⟨info, hinfo⟩ := Option.ne_none_iff_exists'.mp (StringMap.mem_iff.mp hg)
  exact h.deletesOwnRules hinfo hunshared

/-- Where the requests are done, only the second half of the condition is left. -/
theorem orderly_of_done {op : Operation} (hdone : (call rofl op s).map Prod.fst = .ok (some true))
    (happart : Apart rofl s op) :
    Orderly rofl s op := by
  refine ⟨fun o s' ho => .inl ?_, happart⟩
  rw [ho] at hdone
  cases hdone
  rfl

instance (rofl : Lowlevel.Rofl) (s : GraphManager) (graphID : String) :
    Decidable (Unshared rofl s graphID) :=
  inferInstanceAs (Decidable (∀ _ ∈ _, ∀ _ ∈ _, _ → _ → _))

instance (rofl : Lowlevel.Rofl) (s : GraphManager) : (op : Operation) → Decidable (Apart rofl s op)
  | .newGraph _ _ => inferInstanceAs (Decidable (_ ∧ _))
  | .updateGraph _ _ _ => .isTrue trivial
  | .deleteGraph _ _ => inferInstanceAs (Decidable (_ → _))
  | .lsi0DptOpen | .lsi0DptClose | .tenantDptOpen _ | .tenantDptClose _ => .isTrue trivial

/-- Two graphs in opposite directions, the first of which is updated and then deleted. -/
theorem run_deletesOwnRules_opposite :
    let s : GraphManager := { lsi0 := { physicalPorts := twoPorts } }
    let ops := [.lsi0DptOpen,
      .newGraph (.obliging { dpid := 1 }) (singleRule "a" "1" "eth0" "eth1"),
      .newGraph (.obliging { dpid := 2 }) (singleRule "b" "1" "eth1" "eth0"),
      .updateGraph (.obliging { dpid := 1 }) "a" (singleRule "a" "2" "eth0" "eth1"),
      .deleteGraph (.obliging { dpid := 1 }) "a"]
    Run.EveryStep (step default) (Orderly default) s ops ∧
    Run.Always (step default)
      (fun s => ∀ g ∈ s.tenantLSIs, Unshared default s g → DeletesOwnRules default s g) s ops := by
  intro s ops
  have hdone : Run.EveryStep (step default) (fun s op =>
      (call default op s).map Prod.fst = .ok (some true) ∧ Apart default s op) s ops := by
    decide +kernel
  have hsteps : Run.EveryStep (step default) (Orderly default) s ops :=
    hdone.mono fun _ _ h => orderly_of_done h.1 h.2
  exact ⟨hsteps, run_deletesOwnRules (show create default false twoPorts none = .ok _ from rfl) hsteps⟩

/-- Two graphs send the same traffic the same way. Deleting the second one removes the rule of
the first one, which comes first, and the entry that both have on the switch. -/
theorem deleteGraph_removes_foreign_rule :
    ∃ s, Run.exec (step default) ({ lsi0 := { physicalPorts := twoPorts } } : GraphManager)
        [.lsi0DptOpen,
         .newGraph (.obliging { dpid := 1 }) (singleRule "a" "1" "eth0" "eth1"),
         .newGraph (.obliging { dpid := 2 }) (singleRule "b" "1" "eth0" "eth1")] = .ok s ∧
      "a" ∈ s.tenantLSIs ∧ "b" ∈ s.tenantLSIs ∧
      s.graphLSI0lowLevel.rules = [singleLSI0Rule "a_1" 1 2, singleLSI0Rule "b_1" 1 2] ∧
      (s.lsi0Controller.flowTable ((singleLSI0Rule "a_1" 1 2).flowKey default)).isSome = true ∧
      (deleteGraph default (.obliging { dpid := 2 }) "b" s).map
          (fun r => (r.1, r.2.graphLSI0lowLevel.rules, r.2.lsi0Controller.graph.rules,
            (r.2.lsi0Controller.flowTable ((singleLSI0Rule "a_1" 1 2).flowKey default)).isSome)) =
        .ok (some true, [singleLSI0Rule "b_1" 1 2], [singleLSI0Rule "b_1" 1 2], false) := by
  decide +kernel

end GraphManager

end UnOrchestrator
