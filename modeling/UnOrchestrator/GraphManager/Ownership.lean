import UnOrchestrator.GraphManager.LinkInvariant

/-!
# The rules of LSI-0 and their graphs

All deployed graphs share the rule list of LSI-0, and a rule belongs to a graph through its
identifier, `graphID_ruleID`. Two graphs whose identifiers, each with the underscore behind
it, are no prefixes of one another are `Separated`: no identifier of the one is an
identifier of the other (`separated_iff`). Such graphs do not touch each other's rules in an
update, and others can (`run_updateFrame_iff`).
-/

namespace UnOrchestrator

open GraphTranslator (lowerGraphToLSI0 lsi0RuleID)

open Call

open Highlevel

namespace GraphManager

/-! ## Whose rule it is -/

/-- How the identifiers of the rules of a graph begin. -/
def ownerMark (graphID : String) : List Char := graphID.toList ++ ['_']

/-- The rule has an identifier made for the graph. -/
def createdFor (graphID : String) (r : Lowlevel.Rule) : Bool :=
  (ownerMark graphID).isPrefixOf r.flowID.toList

/-- Neither identifier, with the underscore behind it, starts with the other one. -/
def Separated (g h : String) : Prop :=
  ¬ ownerMark g <+: ownerMark h ∧ ¬ ownerMark h <+: ownerMark g

instance (g h : String) : Decidable (Separated g h) := inferInstanceAs (Decidable (_ ∧ _))

theorem toList_lsi0RuleID (graphID ruleID : String) :
    (lsi0RuleID graphID ruleID).toList = ownerMark graphID ++ ruleID.toList := by
  simp [lsi0RuleID, ownerMark]

variable {graphID : String} {rofl : Lowlevel.Rofl} {s : GraphManager} {α : Type} {env : Environment}

theorem lsi0RuleID_inj {a b : String} : lsi0RuleID graphID a =
    lsi0RuleID graphID b ↔ a = b := by
  rw [← String.toList_inj, toList_lsi0RuleID, toList_lsi0RuleID, List.append_right_inj,
    String.toList_inj]

theorem createdFor_of_flowID {ruleID : String} {r : Lowlevel.Rule}
    (h : r.flowID = lsi0RuleID graphID ruleID) : createdFor graphID r = true := by
  rw [createdFor, h, toList_lsi0RuleID, List.isPrefixOf_iff_prefix]
  exact List.prefix_append _ _

/-- Separation is what keeps the identifiers of two graphs apart. -/
theorem separated_iff {g h : String} : Separated g h ↔ ∀ a b,
    lsi0RuleID g a ≠ lsi0RuleID h b := by
  constructor
  · rintro ⟨hg, hh⟩ a b heq
    have hjoin : g.toList ++ '_' :: a.toList = h.toList ++ '_' :: b.toList := by
      simpa [ownerMark] using
        (toList_lsi0RuleID g a).symm.trans ((congrArg String.toList heq).trans (toList_lsi0RuleID h b))
    exact (CString.join_eq_prefix hjoin).elim hg hh
  · intro hne
    -- an identifier that continues the other one is met by an empty rule identifier
    refine ⟨fun hprefix => ?_, fun hprefix => ?_⟩
    · obtain ⟨rest, hrest⟩ := hprefix
      refine hne (String.ofList rest) "" (String.toList_injective ?_)
      simp [toList_lsi0RuleID, hrest]
    · obtain ⟨rest, hrest⟩ := hprefix
      refine hne "" (String.ofList rest) (String.toList_injective ?_)
      simp [toList_lsi0RuleID, hrest]

theorem Separated.symm {g h : String} (hsep : Separated g h) : Separated h g := ⟨hsep.2, hsep.1⟩

/-- A rule made for one of two separated graphs is not made for the other. -/
theorem Separated.not_createdFor {g h : String} (hsep : Separated g h) {r : Lowlevel.Rule}
    (hr : createdFor g r = true) : createdFor h r = false := by
  rw [createdFor, List.isPrefixOf_iff_prefix] at hr
  rw [Bool.eq_false_iff, createdFor, ne_eq, List.isPrefixOf_iff_prefix]
  intro hprefix
  exact (List.prefix_or_prefix_of_prefix hr hprefix).elim hsep.1 hsep.2

section Lowered

variable {graph : Highlevel.Graph} {tenantLSI lsi0 : LSI}
  {internalLSIsConnections : InternalConnections} {l : Lowlevel.Graph}

variable (h : lowerGraphToLSI0 graph tenantLSI lsi0 internalLSIsConnections = .ok l)

include h

/-- What the rules of a graph become on LSI-0 was created for it. -/
theorem createdFor_lowered
    {r : Lowlevel.Rule} (hr : r ∈ l.rules) : createdFor graph.ID r = true := by
  obtain ⟨hlr, -, hlowered⟩ := GraphTranslator.mem_lowerGraphToLSI0 h hr
  exact createdFor_of_flowID (GraphTranslator.lowerRuleToLSI0_flowID hlowered)

theorem lowered_filter_own :
    l.rules.filter (createdFor graph.ID) = l.rules :=
  List.filter_eq_self.mpr fun _ hr => createdFor_lowered h hr

theorem lowered_filter_other
    {other : String} (hsep : Separated graph.ID other) :
    l.rules.filter (createdFor other) = [] := by
  refine List.filter_eq_nil_iff.mpr fun r hr => ?_
  rw [hsep.not_createdFor (createdFor_lowered h hr)]
  exact Bool.false_ne_true

end Lowered

/-! ## The frame of an update -/

/-- Every record is filed under the identifier of its graph. -/
def Named (s : GraphManager) : Prop :=
  ∀ (graphID : String) info, s.tenantLSIs[graphID]? = some info → info.graph.ID = graphID

/-- The property of two deployed graphs: no update of the first one changes the rules on LSI-0
that were created for the second one, and no identifier of theirs is the same. -/
structure UpdateFrame (rofl : Lowlevel.Rofl) (s : GraphManager) (g h : String) : Prop where
  lowLevel : ∀ env newGraph s', updateGraph rofl env g newGraph s = .ok (some true, s') →
    s'.graphLSI0lowLevel.rules.filter (createdFor h) =
      s.graphLSI0lowLevel.rules.filter (createdFor h)
  controller : ∀ env newGraph s', updateGraph rofl env g newGraph s = .ok (some true, s') →
    s'.lsi0Controller.graph.rules.filter (createdFor h) =
      s.lsi0Controller.graph.rules.filter (createdFor h)
  distinct : ∀ a b, GraphTranslator.lsi0RuleID g a ≠ GraphTranslator.lsi0RuleID h b

namespace Update

variable {rofl : Lowlevel.Rofl} {env : Environment} {s : GraphManager} {graphID : String}
  {newGraph : Highlevel.Graph}

variable (u : Update rofl env s graphID newGraph)

theorem graph_ID : u.graph.ID = u.info.graph.ID := by
  rw [(Highlevel.Graph.removeGraphFromGraph_erased u.removed).2.ID, u.added.graph]
  exact (Highlevel.Graph.addGraphToGraph_diff u.info.graph newGraph graphID).2.2.2.1

/-- The rules that go carry the identifier of the graph. -/
theorem stale_createdFor (hs : s.Named) :
    ∀ ID ∈ u.staleIDs, ∀ r : Lowlevel.Rule, r.flowID = ID → createdFor graphID r = true := by
  intro ID hID r hr
  obtain ⟨rule, -, rfl⟩ := List.mem_map.mp hID
  rw [u.graph_ID, hs graphID u.info u.deployed] at hr
  exact createdFor_of_flowID hr

/-- The rules of another graph are neither removed nor added. -/
theorem changed_filter_other (hs : s.Named) {h : String}
    (hsep : Separated graphID h) (g : Lowlevel.Graph) :
    (u.changed g).rules.filter (createdFor h) = g.rules.filter (createdFor h) := by
  rw [changed, Lowlevel.Graph.addRules_rules, List.filter_append,
    lowered_filter_other u.loweredLSI0 hsep, List.append_nil]
  exact Lowlevel.Graph.filter_foldl_removeRuleFromID _ fun ID hID r hr =>
    hsep.not_createdFor (u.stale_createdFor hs ID hID r hr)

end Update

theorem updateFrame_of_separated (hs : s.Named) {g h : String} (hsep : Separated g h) :
    UpdateFrame rofl s g h := by
  refine ⟨fun env newGraph s' hupdate => ?_, fun env newGraph s' hupdate => ?_,
    separated_iff.mp hsep⟩
  · obtain ⟨u, rfl⟩ := updateGraph_done hupdate
    exact u.changed_filter_other hs hsep s.graphLSI0lowLevel
  · obtain ⟨u, rfl⟩ := updateGraph_done hupdate
    rw [u.result_controller]
    exact u.changed_filter_other hs hsep s.lsi0Controller.graph

/-! ## Records keep their names -/

/-- The identifier of the stored graph. -/
def storedID (t : Nat × GraphInfo) : String := t.2.graph.ID

theorem lift_storedID {x : Call GraphInfo α} (h : Preserves (fun info => info.graph.ID) x) :
    Preserves storedID (GraphInfo.lift x) := fun t => by
  rw [GraphInfo.lift, wp_focus]
  exact h.wp (fun _ _ h' => h') (fun _ h' => h')

/-- The steps on network functions and endpoints do not touch the stored graph. -/
theorem ID_of_core {x : Call GraphInfo α} (h : Preserves GraphInfo.core x) :
    Preserves (fun info => info.graph.ID) x :=
  h.map (fun core => core.1.ID)

theorem onLinks_storedID (x : Call (Nat × VLinks) α) :
    Preserves storedID (GraphInfo.onLinks x) := fun t => by
  rw [GraphInfo.onLinks, wp_focus]
  exact wp_of_forall (fun _ _ => rfl) (fun _ => rfl)

theorem addPieces_storedID (env : Environment) (physicalPorts : StringMap Nat) (runNFs : Bool)
    (graphID : String) (newGraph : Highlevel.Graph) :
    Preserves storedID (addPieces env physicalPorts runNFs graphID newGraph) := by
  unfold addPieces
  refine .bind .get fun t => .bind (lift_storedID (ID_of_core checkGraphValidity_preserves))
    fun valid => ?_
  split
  · exact .throw
  · refine .bind (lift_storedID (.modify fun info => Graph.addGraphToGraph_ID _ _)) fun _ =>
      .bind (lift_storedID (ID_of_core (GraphInfo.onCompute_preserves _))) fun selected => ?_
    split
    · exact .bind (lift_storedID (.modify fun _ => rfl)) fun _ => .throw
    · exact .bind (onLinks_storedID _) fun _ =>
        .bind (lift_storedID (ID_of_core (addPorts_preserves env runNFs _))) fun _ => .pure _

theorem removePieces_ID (rofl : Lowlevel.Rofl) (env : Environment) (runNFs : Bool)
    (diff : Highlevel.Graph) (removeRuleInfo : List RuleRemovedInfo) :
    Preserves (fun info : GraphInfo => info.graph.ID)
      (removePieces rofl env runNFs diff removeRuleInfo) := by
  have hlinks (x : Call VLinks Unit) : Preserves (fun info : GraphInfo => info.graph.ID)
      (focus (fun info => info.lsi.toVLinks)
        (fun links info => { info with lsi := { info.lsi with toVLinks := links } }) x) := fun info => by
    rw [wp_focus]
    exact wp_of_forall (fun _ _ => rfl) (fun _ => rfl)
  exact .bind (.modify fun _ => rfl) fun _ => .bind .get fun _ => .bind (hlinks _) fun _ =>
    .bind (ID_of_core (.each (removeEndpointPieces_preserves env) _)) fun _ =>
      ID_of_core (.each (removeNFPieces_preserves env runNFs) _)

/-- A new record under the identifier of its graph. -/
theorem Named.put (h : s.Named) {t : Nat × GraphInfo} (ht : storedID t = graphID) :
    (s.putTenant graphID t).Named := by
  intro graphID' info hinfo
  simp only [putTenant, StringMap.getElem?_insert] at hinfo
  split at hinfo
  · next heq =>
    cases hinfo
    exact ht.trans heq
  · exact h graphID' info hinfo

theorem updateGraph_named {newGraph : Highlevel.Graph} (h : s.Named) :
    wp (updateGraph rofl env graphID newGraph) (fun _ s' => s'.Named) Named s := by
  refine wp_updateGraph fun info hinfo => ?_
  have hnamed := h graphID info hinfo
  refine (addPieces_storedID _ _ _ _ _).wp (fun diff t ht => ?_) fun t ht => h.put (ht.trans hnamed)
  intro old graph removeRuleInfo hremove after
  have hput (t' : Nat × GraphInfo) (h' : t'.2.graph.ID = graph.ID) : (s.putTenant graphID t').Named :=
    h.put (h'.trans ((Graph.removeGraphFromGraph_erased hremove).2.ID.trans (ht.trans hnamed)))
  exact (removePieces_ID _ _ _ _ _).wp (fun _ reduced h' => ⟨fun _ _ => ⟨fun _ _ => hput (_, _) h',
    fun _ => hput (_, reduced) h'⟩, fun _ => hput (_, reduced) h'⟩) fun reduced h' => hput (_, reduced) h'

theorem newGraph_named {graph : Highlevel.Graph} (h : s.Named) :
    wp (newGraph rofl env graph) (fun _ s' => s'.Named) Named s := by
  have hsame {s' : GraphManager} (hs : s.SameRecords s') : s'.Named := by
    intro graphID info hinfo
    rw [hs.1] at hinfo
    exact h graphID info hinfo
  refine wp_mono newGraph_spec ?_ (fun _ hs => hsame hs)
  rintro done s' (⟨-, hs⟩ | ⟨-, d, rfl⟩)
  · exact hsame hs
  · exact (hsame d.grows.1.sameRecords).put (t := (d.connected.nextVLinkID, d.record))
      (congrArg Graph.ID d.stored)

theorem deleteGraph_named (h : s.Named) :
    wp (deleteGraph rofl env graphID) (fun _ s' => s'.Named) Named s := by
  apply deleteGraph_keeps h
  intro d s' hd graphID' info hinfo
  apply h graphID' info
  rcases hd.records with hsame | herase
  · rwa [hsame] at hinfo
  · rw [herase, StringMap.getElem?_erase] at hinfo
    split at hinfo
    · cases hinfo
    · exact hinfo

theorem onController_named {f : Controller → Controller} (h : s.Named) :
    (s.onController graphID f).Named := by
  unfold onController
  cases hinfo : s.tenantLSIs[graphID]? with
  | none => exact h
  | some info => exact h.put (h graphID info hinfo)

theorem call_named {op : Operation} (h : s.Named) :
    wp (call rofl op) (fun _ s' => s'.Named) Named s := by
  cases op with
  | newGraph env graph => exact newGraph_named h
  | updateGraph env graphID graph => exact updateGraph_named h
  | deleteGraph env graphID => exact deleteGraph_named h
  | lsi0DptOpen | lsi0DptClose => exact h
  | tenantDptOpen graphID | tenantDptClose graphID => exact onController_named h

/-- In every state of every run, two graphs keep out of each other's rules on LSI-0 exactly when
their identifiers are separated. -/
theorem run_updateFrame_iff {rofl : Lowlevel.Rofl} {runNFs : Bool} {physicalPorts : StringMap Nat}
    {inBand : Option (String × String)} {s : GraphManager}
    (hcreate : create rofl runNFs physicalPorts inBand = .ok s) (ops : List Operation) :
    Run.Always (step rofl)
      (fun s => ∀ g h : String, g ∈ s.tenantLSIs → h ∈ s.tenantLSIs →
        (UpdateFrame rofl s g h ↔ Separated g h)) s ops := by
  refine Run.always_of_invariant (I := Named) (Q := fun _ _ => True) ?_ ?_ ?_
    (Run.everyStep_of_forall fun _ _ => trivial)
  · exact fun s op s' h _ hstep => step_keeps (call_named h) hstep
  · intro s hs g h _ _
    exact ⟨fun hframe => separated_iff.mpr hframe.distinct, updateFrame_of_separated hs⟩
  · intro graphID info hinfo
    rw [create_tenantLSIs hcreate, Std.ExtTreeMap.getElem?_empty] at hinfo
    cases hinfo

/-- A graph with a single rule between two physical ports. -/
def singleRule (graphID ruleID input output : String) : ParsedGraph where
  ID := graphID
  rules := [{ «match» := { type := .port input }, action := { type := .port output },
              ruleID := ruleID, priority := 1 }]
  distinct := List.nodup_singleton _

/-- The rule of such a graph on LSI-0. -/
def singleLSI0Rule (flowID : String) (input output : Nat) : Lowlevel.Rule where
  «match» := { inPort := .port input }
  action := { output := .port output }
  flowID := flowID
  priority := 1

/-- Two graphs whose identifiers are separated. -/
theorem run_updateFrame_separated :
    let s : GraphManager := { lsi0 := { physicalPorts := twoPorts } }
    let ops := [.newGraph (.obliging { dpid := 1 }) (singleRule "a" "1" "eth0" "eth1"),
      .newGraph (.obliging { dpid := 2 }) (singleRule "b" "1" "eth1" "eth0")]
    (∃ s', Run.exec (step default) s ops = .ok s' ∧ "a" ∈ s'.tenantLSIs ∧ "b" ∈ s'.tenantLSIs ∧
      Separated "a" "b") ∧
    Run.Always (step default)
      (fun s => ∀ g h : String, g ∈ s.tenantLSIs → h ∈ s.tenantLSIs →
        (UpdateFrame default s g h ↔ Separated g h)) s ops :=
  ⟨by decide +kernel,
    run_updateFrame_iff (show create default false twoPorts none = .ok _ from rfl) _⟩

/-- The graph `a` gives up its rule `b_1`, and the graph `a_b` loses its rule `1`: both have the
identifier `a_b_1` on LSI-0. -/
theorem updateGraph_removes_foreign_rule :
    ∃ s, Run.exec (step default) ({ lsi0 := { physicalPorts := twoPorts } } : GraphManager)
        [.newGraph (.obliging { dpid := 1 }) (singleRule "a_b" "1" "eth0" "eth1"),
         .newGraph (.obliging { dpid := 2 }) (singleRule "a" "b_1" "eth1" "eth0")] = .ok s ∧
      "a" ∈ s.tenantLSIs ∧ "a_b" ∈ s.tenantLSIs ∧
      s.graphLSI0lowLevel.rules = [singleLSI0Rule "a_b_1" 1 2, singleLSI0Rule "a_b_1" 2 1] ∧
      (updateGraph default (.obliging { dpid := 2 }) "a" { ID := "a" } s).map
          (fun r => (r.1, r.2.graphLSI0lowLevel.rules, r.2.lsi0Controller.graph.rules)) =
        .ok (some true, [singleLSI0Rule "a_b_1" 2 1], [singleLSI0Rule "a_b_1" 2 1]) := by
  decide +kernel

end GraphManager

end UnOrchestrator
