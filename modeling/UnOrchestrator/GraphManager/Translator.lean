import UnOrchestrator.GraphManager.Vlinks
import UnOrchestrator.Lowlevel.Graph

/-!
# Lowering a graph to the two switches

The rules of a graph are split over LSI-0, which holds the physical ports and the
connections to the internal endpoints, and the tenant LSI, which holds the ports of the
network functions and the GRE endpoints. A rule whose two ends are on one switch becomes
one rule there. The others become two rules, joined by the virtual link of the target of
the action: the first switch keeps the match and the tag operations and sends the packet
over the link, the second one forwards whatever comes out of the link.

`lowerRuleToLSI0` and `lowerRuleToTenantLSI` are the bodies of the two loops of the
translator. A translation can throw, when a rule names a port that the switch does not
have, and it can end the process. What a rule becomes on LSI-0 depends on the tenant LSI
through the link of its target only (`lowerRuleToLSI0_congr`).
-/

namespace UnOrchestrator

open Highlevel

/-- For each group of internal endpoints, the ports of LSI-0 that lead to its LSI, by the
graph that uses them. -/
abbrev InternalConnections := StringMap (StringMap Nat)

namespace GraphTranslator

/-- The search for the virtual link of a target. The source treats a target without a link
differently from case to case; a link that is not in the list fails an assertion. -/
def vlinkFor (tenantLSI : LSI) (target : RuleRemovedInfo) (missing : Failure) :
    Except Failure VLink := do
  let vlinkID ← Failure.orElse missing (tenantLSI.vlinkOf target)
  Failure.orElse (.abort .assertion) (tenantLSI.virtualLinks.find? (fun l => l.ID = vlinkID))

/-- The port towards an internal endpoint; the maps are read with `operator[]`. -/
def portToBeUsed (internalLSIsConnections : InternalConnections) (group graphID : String) : Nat :=
  (((internalLSIsConnections[group]?).getD ∅)[graphID]?).getD 0

/-- The port of a GRE endpoint on the tenant LSI; an unknown endpoint counts as port 0. -/
def endpointPort (tenantLSI : LSI) (endpoint : String) : Nat :=
  (tenantLSI.endpointsPortsId[endpoint]?).getD 0

/-- A new match on an input port with the header fields of a high-level match. -/
def copiedMatch (inPort : Lowlevel.InPort) (m : Highlevel.Match) : Except Failure Lowlevel.Match :=
  Failure.ofAbort (({ inPort := inPort } : Lowlevel.Match).setAllCommonFields m.toMatch)

/-! ## LSI-0 -/

/-- The identifier of a rule on LSI-0. -/
def lsi0RuleID (graphID ruleID : String) : String := graphID ++ "_" ++ ruleID

/-- The match of a rule from a GRE endpoint to a physical port. A port without a virtual link
leaves it empty, so that it applies to packets from everywhere. -/
def greToPortMatch (tenantLSI : LSI) (portName : String) (m : Highlevel.Match) :
    Except Failure Lowlevel.Match :=
  if (tenantLSI.vlinkOf (.port portName)).isNone then pure { inPort := .any }
  else do
    let vlink ← vlinkFor tenantLSI (.port portName) (.abort .undefinedBehaviour)
    copiedMatch (.port vlink.remoteID) m

/-- The body of the loop of `lowerGraphToLSI0`; `none` for a rule that is not inserted. -/
def lowerRuleToLSI0 (graphID : String) (tenantLSI lsi0 : LSI)
    (internalLSIsConnections : InternalConnections) (hlr : Highlevel.Rule) :
    Except Failure (Option Lowlevel.Rule) :=
  let genericActions := hlr.action.genericActions
  let lsi0Rule (lsi0Match : Lowlevel.Match) (lsi0Action : Lowlevel.Action) :
      Option Lowlevel.Rule :=
    some { «match» := lsi0Match, action := lsi0Action,
           flowID := lsi0RuleID graphID hlr.ruleID, priority := hlr.priority }
  match hlr.match.type, hlr.action.type with
  | .nf _ _, .networkFunction _ _ | .nf _ _, .endPointGre _
  | .endPointGre _, .endPointGre _ | .endPointGre _, .networkFunction _ _ => pure none
  | .nf _ _, .endPointInternal group | .endPointGre _, .endPointInternal group => do
    let vlink ← vlinkFor tenantLSI (.endpointInternal group) (.abort .undefinedBehaviour)
    let portForAction := portToBeUsed internalLSIsConnections group graphID
    pure (lsi0Rule { inPort := .port vlink.remoteID } { output := .port portForAction })
  | .port port, type => do
    let inputPort ← Failure.orElse .thrown lsi0.physicalPorts[port]?
    let lsi0Match ← copiedMatch (.port inputPort) hlr.match
    match type with
    | .port portName =>
      let portForAction ← Failure.orElse .thrown lsi0.physicalPorts[portName]?
      pure (lsi0Rule lsi0Match { output := .port portForAction, genericActions })
    | .endPointGre _ | .networkFunction _ _ =>
      let vlink ← vlinkFor tenantLSI hlr.action.removedInfo (.abort .assertion)
      pure (lsi0Rule lsi0Match { output := .port vlink.remoteID, genericActions })
    | .endPointInternal _ => pure none
  | .endPointGre _, .port portName => do
    let lsi0Match ← greToPortMatch tenantLSI portName hlr.match
    let portForAction ← Failure.orElse .thrown lsi0.physicalPorts[portName]?
    pure (lsi0Rule lsi0Match { output := .port portForAction, genericActions })
  | .endPointInternal group, .networkFunction _ _ | .endPointInternal group, .endPointGre _ => do
    let inputPort := portToBeUsed internalLSIsConnections (toString group) graphID
    let lsi0Match ← copiedMatch (.port inputPort) hlr.match
    let vlink ← vlinkFor tenantLSI hlr.action.removedInfo (.abort .assertion)
    pure (lsi0Rule lsi0Match { output := .port vlink.remoteID, genericActions })
  | .endPointInternal _, .port _ | .endPointInternal _, .endPointInternal _ =>
    .error (.abort .assertion)
  | .nf _ _, .port portName => do
    let portForAction ← Failure.orElse .thrown lsi0.physicalPorts[portName]?
    let vlink ← vlinkFor tenantLSI (.port portName) (.abort .undefinedBehaviour)
    pure (lsi0Rule { inPort := .port vlink.remoteID } { output := .port portForAction })
  | .generic, _ => .error (.abort .assertion)

/-- `GraphTranslator::lowerGraphToLSI0`. -/
def lowerGraphToLSI0 (graph : Highlevel.Graph) (tenantLSI lsi0 : LSI)
    (internalLSIsConnections : InternalConnections) : Except Failure Lowlevel.Graph := do
  let rules ← Failure.collect
    (lowerRuleToLSI0 graph.ID tenantLSI lsi0 internalLSIsConnections) graph.rules
  pure { rules := rules }

/-! ## The tenant LSI -/

/-- The port that the action of a rule from a network function becomes. -/
def nfOutput (tenantLSI : LSI) : ActionType → Except Failure Nat
  | .networkFunction nfId port =>
    Failure.orElse .thrown (tenantLSI.nfPort nfId (nfPortName nfId port))
  | .port portName => do
    let vlink ← vlinkFor tenantLSI (.port portName) (.abort .undefinedBehaviour)
    pure vlink.localID
  | .endPointInternal group => do
    let vlink ← vlinkFor tenantLSI (.endpointInternal group) (.abort .assertion)
    pure vlink.localID
  | .endPointGre endpointID => pure (endpointPort tenantLSI endpointID)

/-- The body of the loop of `lowerGraphToTenantLSI`. -/
def lowerRuleToTenantLSI (tenantLSI : LSI) (hlr : Highlevel.Rule) :
    Except Failure (Option Lowlevel.Rule) :=
  let genericActions := hlr.action.genericActions
  let tenantRule (tenantMatch : Lowlevel.Match) (tenantAction : Lowlevel.Action) :
      Option Lowlevel.Rule :=
    some { «match» := tenantMatch, action := tenantAction, flowID := hlr.ruleID,
           priority := hlr.priority }
  match hlr.match.type, hlr.action.type with
  | .port _, .port _ | .endPointInternal _, .endPointInternal _
  | .endPointInternal _, .port _ | .port _, .endPointInternal _ => pure none
  | .port _, .endPointGre endpointID | .endPointInternal _, .endPointGre endpointID => do
    let vlink ← vlinkFor tenantLSI (.endpointGre endpointID) (.abort .undefinedBehaviour)
    pure (tenantRule { inPort := .port vlink.localID }
      { output := .port (endpointPort tenantLSI endpointID) })
  | .port _, .networkFunction nfId port | .endPointInternal _, .networkFunction nfId port => do
    let nfPort ← Failure.orElse .thrown (tenantLSI.nfPort nfId (nfPortName nfId port))
    let vlink ← vlinkFor tenantLSI (.nfPort (nfPortName nfId port)) (.abort .undefinedBehaviour)
    pure (tenantRule { inPort := .port vlink.localID } { output := .port nfPort })
  | .endPointGre _, .endPointGre _ => .error (.abort .assertion)
  | .endPointGre _, type => do
    let inputPort := endpointPort tenantLSI hlr.match.getInputEndpoint
    let tenantMatch ← copiedMatch (.port inputPort) hlr.match
    match type with
    | .networkFunction nfId port =>
      let nfPort ← Failure.orElse (.abort .undefinedBehaviour)
        (tenantLSI.nfPort nfId (nfPortName nfId port))
      pure (tenantRule tenantMatch { output := .port nfPort, genericActions })
    | _ =>
      let vlink ← vlinkFor tenantLSI hlr.action.removedInfo (.abort .assertion)
      pure (tenantRule tenantMatch { output := .port vlink.localID, genericActions })
  | .nf nf nfPort, type => do
    let inputPort ← Failure.orElse .thrown (tenantLSI.nfPort nf (nfPortName nf nfPort))
    let tenantMatch ← copiedMatch (.port inputPort) hlr.match
    let outputPort ← nfOutput tenantLSI type
    pure (tenantRule tenantMatch { output := .port outputPort, genericActions })
  | .generic, _ => .error (.abort .assertion)

/-- `GraphTranslator::lowerGraphToTenantLSI`. -/
def lowerGraphToTenantLSI (graph : Highlevel.Graph) (tenantLSI : LSI) :
    Except Failure Lowlevel.Graph := do
  let rules ← Failure.collect (lowerRuleToTenantLSI tenantLSI) graph.rules
  pure { rules := rules }

variable {graph : Highlevel.Graph}

theorem lowerGraphToLSI0_nil {tenantLSI lsi0 : LSI} {internalLSIsConnections : InternalConnections}
    (h : graph.rules = []) :
    lowerGraphToLSI0 graph tenantLSI lsi0 internalLSIsConnections = .ok {} := by
  rw [lowerGraphToLSI0, h]
  rfl

theorem lowerGraphToTenantLSI_nil {tenantLSI : LSI} (h : graph.rules = []) :
    lowerGraphToTenantLSI graph tenantLSI = .ok {} := by
  rw [lowerGraphToTenantLSI, h]
  rfl

/-! ## What a lowered rule depends on -/

variable {graphID : String} {tenantLSI tenantLSI' lsi0 : LSI}
  {internalLSIsConnections internalLSIsConnections' : InternalConnections} {hlr : Highlevel.Rule}

@[simp] theorem vlinkFor_of_linkOf {target : RuleRemovedInfo} {missing : Failure} {l : VLink}
    (h : tenantLSI.linkOf target = some l) : vlinkFor tenantLSI target missing = .ok l := by
  unfold VLinks.linkOf at h
  unfold vlinkFor
  cases hID : tenantLSI.vlinkOf target with
  | none => simp [hID] at h
  | some ID => simpa [hID] using h

theorem vlinkOf_of_linkOf {target : RuleRemovedInfo} {l : VLink}
    (h : tenantLSI.linkOf target = some l) : (tenantLSI.vlinkOf target).isNone = false := by
  unfold VLinks.linkOf at h
  cases hID : tenantLSI.vlinkOf target with
  | none => simp [hID] at h
  | some ID => rfl

variable {g : Lowlevel.Graph}

theorem lowerGraphToLSI0_eq_ok :
    lowerGraphToLSI0 graph tenantLSI lsi0 internalLSIsConnections = .ok g ↔
      Failure.collect (lowerRuleToLSI0 graph.ID tenantLSI lsi0 internalLSIsConnections)
        graph.rules = .ok g.rules := by
  simp only [lowerGraphToLSI0, Failure.bind_eq_ok, Failure.pure_eq_ok]
  constructor
  · rintro ⟨rules, hrules, rfl⟩
    exact hrules
  · exact fun hrules => ⟨g.rules, hrules, rfl⟩

variable {r : Lowlevel.Rule}

/-- Every rule on LSI-0 comes from a rule of the graph. -/
theorem mem_lowerGraphToLSI0 (h : lowerGraphToLSI0 graph tenantLSI lsi0 internalLSIsConnections = .ok g)
    (hr : r ∈ g.rules) : ∃ hlr ∈ graph.rules,
      lowerRuleToLSI0 graph.ID tenantLSI lsi0 internalLSIsConnections hlr = .ok (some r) := by
  exact (Failure.mem_collect (lowerGraphToLSI0_eq_ok.mp h)).mp hr

/-- A graph that is lowered has no rule with an unresolved match. -/
theorem resolved_of_lowerGraphToLSI0
    (h : lowerGraphToLSI0 graph tenantLSI lsi0 internalLSIsConnections = .ok g) :
    ∀ hlr ∈ graph.rules, hlr.match.type ≠ .generic := by
  intro hlr hmem hgeneric
  obtain ⟨o, ho⟩ := Failure.ok_of_collect (lowerGraphToLSI0_eq_ok.mp h) hmem
  simp [lowerRuleToLSI0, hgeneric] at ho

/-- A rule on LSI-0 carries the identifier made for it. -/
theorem lowerRuleToLSI0_flowID
    (h : lowerRuleToLSI0 graphID tenantLSI lsi0 internalLSIsConnections hlr = .ok (some r)) :
    r.flowID = lsi0RuleID graphID hlr.ruleID := by
  unfold lowerRuleToLSI0 at h
  cases htype : hlr.match.type <;> cases haction : hlr.action.type <;>
    simp only [htype, haction, Failure.bind_eq_ok, Failure.pure_eq_ok, Option.some.injEq,
      reduceCtorEq] at h <;> grind

/-- What a rule becomes on LSI-0 depends on the tenant LSI through the link of its target
only, and on the connections through the ports made for the graph. -/
theorem lowerRuleToLSI0_congr
    (hlinks : ∀ t, hlr.requiredVlink = some t →
      ∃ l, tenantLSI.linkOf t = some l ∧ tenantLSI'.linkOf t = some l)
    (hconnections : ∀ group, portToBeUsed internalLSIsConnections group graphID =
      portToBeUsed internalLSIsConnections' group graphID) :
    lowerRuleToLSI0 graphID tenantLSI lsi0 internalLSIsConnections hlr =
      lowerRuleToLSI0 graphID tenantLSI' lsi0 internalLSIsConnections' hlr := by
  unfold Highlevel.Rule.requiredVlink at hlinks
  unfold lowerRuleToLSI0 Action.removedInfo greToPortMatch
  cases htype : hlr.match.type <;> cases haction : hlr.action.type <;>
    simp only [htype, haction, Match.matchOnPort, Match.matchOnEndPointInternal, Match.matchOnNF,
      Match.matchOnEndPointGre] at hlinks ⊢ <;>
    (obtain ⟨l, hl, hl'⟩ := hlinks _ rfl
     simp only [vlinkFor_of_linkOf hl, vlinkFor_of_linkOf hl', vlinkOf_of_linkOf hl,
       vlinkOf_of_linkOf hl', hconnections])

/-! ### On the tenant LSI -/

theorem lowerGraphToTenantLSI_eq_ok :
    lowerGraphToTenantLSI graph tenantLSI = .ok g ↔
      Failure.collect (lowerRuleToTenantLSI tenantLSI) graph.rules = .ok g.rules := by
  simp only [lowerGraphToTenantLSI, Failure.bind_eq_ok, Failure.pure_eq_ok]
  constructor
  · rintro ⟨rules, hrules, rfl⟩
    exact hrules
  · exact fun hrules => ⟨g.rules, hrules, rfl⟩

/-- A rule on the tenant LSI keeps its identifier. -/
theorem lowerRuleToTenantLSI_flowID (h : lowerRuleToTenantLSI tenantLSI hlr = .ok (some r)) :
    r.flowID = hlr.ruleID := by
  unfold lowerRuleToTenantLSI at h
  cases htype : hlr.match.type <;> cases haction : hlr.action.type <;>
    simp only [htype, haction, Failure.bind_eq_ok, Failure.pure_eq_ok, Option.some.injEq,
      reduceCtorEq] at h <;> grind

end GraphTranslator

/-- The ports of network functions that a rule names. -/
def Highlevel.Rule.nfPorts (r : Highlevel.Rule) : List (String × Int) :=
  (match r.match.type with
    | .nf nf port => [(nf, port)]
    | _ => []) ++
  match r.action.type with
  | .networkFunction nf port => [(nf, port)]
  | _ => []

/-- The physical ports that a rule names. -/
def Highlevel.Rule.physicalPorts (r : Highlevel.Rule) : List String :=
  (match r.match.type with
    | .port port => [port]
    | _ => []) ++
  match r.action.type with
  | .port portName => [portName]
  | _ => []

/-- The GRE endpoints that a rule names. -/
def Highlevel.Rule.greEndpoints (r : Highlevel.Rule) : List String :=
  (match r.match.type with
    | .endPointGre _ => [r.match.getInputEndpoint]
    | _ => []) ++
  match r.action.type with
  | .endPointGre endpoint => [endpoint]
  | _ => []

namespace GraphTranslator

/-- What a rule becomes on the tenant LSI depends on it through the link of its target and the
ports that the rule names. -/
theorem lowerRuleToTenantLSI_congr
    (hlinks : ∀ t, hlr.requiredVlink = some t →
      ∃ l, tenantLSI.linkOf t = some l ∧ tenantLSI'.linkOf t = some l)
    (hports : ∀ p ∈ hlr.nfPorts,
      tenantLSI.nfPort p.1 (nfPortName p.1 p.2) = tenantLSI'.nfPort p.1 (nfPortName p.1 p.2))
    (hgre : ∀ e ∈ hlr.greEndpoints, endpointPort tenantLSI e = endpointPort tenantLSI' e) :
    lowerRuleToTenantLSI tenantLSI hlr = lowerRuleToTenantLSI tenantLSI' hlr := by
  have hvlinks : ∀ t, hlr.requiredVlink = some t →
      ∀ missing, vlinkFor tenantLSI t missing = vlinkFor tenantLSI' t missing := by
    intro t ht missing
    obtain ⟨l, hl, hl'⟩ := hlinks t ht
    rw [vlinkFor_of_linkOf hl, vlinkFor_of_linkOf hl']
  clear hlinks
  unfold Highlevel.Rule.requiredVlink at hvlinks
  unfold Highlevel.Rule.nfPorts at hports
  unfold Highlevel.Rule.greEndpoints at hgre
  unfold lowerRuleToTenantLSI Action.removedInfo nfOutput
  cases htype : hlr.match.type <;> cases haction : hlr.action.type <;>
    simp_all [Match.matchOnPort, Match.matchOnEndPointInternal, Match.matchOnNF,
      Match.matchOnEndPointGre]

theorem vlinkFor_ne_thrown {target : RuleRemovedInfo} {why : Abort} :
    vlinkFor tenantLSI target (.abort why) ≠ .error .thrown := by
  simp [vlinkFor, Failure.bind_eq_error, Failure.orElse_eq_error]

theorem copiedMatch_ne_thrown {inPort : Lowlevel.InPort} {m : Highlevel.Match} :
    copiedMatch inPort m ≠ .error .thrown :=
  Failure.ofAbort_ne_thrown

/-- A rule whose physical ports are known is lowered to LSI-0 without an exception. -/
theorem lowerRuleToLSI0_ne_thrown (h : ∀ port ∈ hlr.physicalPorts, lsi0.physicalPorts[port]? ≠ none) :
    lowerRuleToLSI0 graphID tenantLSI lsi0 internalLSIsConnections hlr ≠ .error .thrown := by
  unfold Highlevel.Rule.physicalPorts at h
  unfold lowerRuleToLSI0 greToPortMatch
  cases htype : hlr.match.type <;> cases haction : hlr.action.type <;>
    simp only [htype, haction] at h ⊢ <;>
    simp_all [Failure.bind_eq_error, Failure.pure_ne_error, vlinkFor_ne_thrown,
      copiedMatch_ne_thrown, -bind_pure_comp]
  split <;> simp [Failure.bind_eq_error, Failure.pure_ne_error, vlinkFor_ne_thrown, copiedMatch_ne_thrown]

/-- A rule whose ports of network functions are known is lowered to the tenant LSI without an
exception. -/
theorem lowerRuleToTenantLSI_ne_thrown
    (h : ∀ p ∈ hlr.nfPorts, tenantLSI.nfPort p.1 (nfPortName p.1 p.2) ≠ none) :
    lowerRuleToTenantLSI tenantLSI hlr ≠ .error .thrown := by
  unfold Highlevel.Rule.nfPorts at h
  unfold lowerRuleToTenantLSI nfOutput
  cases htype : hlr.match.type <;> cases haction : hlr.action.type <;>
    simp only [htype, haction] at h ⊢ <;>
    simp_all [Failure.bind_eq_error, Failure.orElse_eq_error, Failure.pure_ne_error,
      vlinkFor_ne_thrown, copiedMatch_ne_thrown, -bind_pure_comp]

end GraphTranslator

end UnOrchestrator
