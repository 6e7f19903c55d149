import UnOrchestrator.GraphManager.Tenant
import UnOrchestrator.GraphManager.Translator

/-!
# The graph manager

The state of the orchestrator: LSI-0 with its rules and its controller, the record of every
deployed graph, and for each group of internal endpoints an LSI of its own. The requests are
`newGraph`, `updateGraph` and `deleteGraph`, as calls over this state: they return whether
they were done, or throw, or end the process, and what they have written by then stays.
`Operation` adds the datapaths that connect and disconnect on their own, and `step` is what
an operation makes of a state.

The manager keeps the rules of LSI-0 twice, in `graphLSI0lowLevel` and in the controller.
-/

namespace UnOrchestrator

open Highlevel

/-- The record of a group of internal endpoints, with the port on which its controller listens; the
LSI is there once it was created. -/
structure InternalLSI where
  controllerPort : Nat
  controller : Controller := {}
  lsi : Option LSI := none

/-- `GraphManager`, with the static counters of the virtual links and of the ports for controllers. The
ports of the controllers of LSI-0 and of the tenant LSIs are left out. -/
structure GraphManager where
  runNFs : Bool := false
  lsi0 : LSI := {}
  graphLSI0lowLevel : Lowlevel.Graph := {}
  lsi0Controller : Controller := {}
  tenantLSIs : StringMap GraphInfo := ∅
  internalLSIs : StringMap InternalLSI := ∅
  internalLSIsCreated : StringMap Bool := ∅
  internalLSIsConnections : InternalConnections := ∅
  timesUsedEndPointsInternal : StringMap Nat := ∅
  nextVLinkID : Nat := 0
  nextControllerPort : Nat := 6653

/-- A graph as the parser builds it, through `Graph::addRule`. -/
structure ParsedGraph extends Highlevel.Graph where
  distinct : (rules.map Rule.key).Nodup

namespace GraphManager

/-- The state with the record of a graph and the counter replaced. -/
def putTenant (s : GraphManager) (graphID : String) (t : Nat × GraphInfo) : GraphManager :=
  { s with nextVLinkID := t.1, tenantLSIs := s.tenantLSIs.insert graphID t.2 }

/-- A call on the record of a deployed graph. -/
def onTenant {α : Type} (graphID : String) (x : Call (Nat × GraphInfo) α) :
    Call GraphManager α := do
  let s ← Call.get
  match s.tenantLSIs[graphID]? with
  | none => Call.abort .assertion
  | some info =>
    Call.focus (fun s => (s.nextVLinkID, info)) (fun t s => s.putTenant graphID t) x

theorem wp_onTenant {α : Type} {graphID : String} {x : Call (Nat × GraphInfo) α}
    {Q : α → GraphManager → Prop} {E : GraphManager → Prop} {s : GraphManager} :
    Call.wp (onTenant graphID x) Q E s ↔ ∀ info, s.tenantLSIs[graphID]? = some info →
      Call.wp x (fun a t => Q a (s.putTenant graphID t)) (fun t => E (s.putTenant graphID t))
        (s.nextVLinkID, info) := by
  simp only [onTenant, Call.wp_bind, Call.wp_get]
  cases h : s.tenantLSIs[graphID]? with
  | none => simp
  | some info => simp

/-! ## Internal endpoints -/

/-- The rule of an internal LSI for one graph: everything that comes in is switched normally. -/
def internalRule (group graphID : String) (localID : Nat) : Lowlevel.Rule where
  «match» := { inPort := .port localID }
  action := { output := .normal }
  flowID := "INTERNAL-GRAPH-" ++ group ++ "_" ++ graphID
  priority := 65535

def isCreated (s : GraphManager) (group : String) : Bool :=
  (s.internalLSIsCreated[group]?).getD false

def timesUsed (s : GraphManager) (group : String) : Nat :=
  (s.timesUsedEndPointsInternal[group]?).getD 0

/-- The ports of LSI-0 towards the LSI of a group, by graph. -/
def connectionsOf (s : GraphManager) (group : String) : StringMap Nat :=
  (s.internalLSIsConnections[group]?).getD ∅

/-- `handleControllerForInternalEndpoint`: a group without an LSI gets a new controller. -/
def handleControllerForInternalEndpoint (graph : Highlevel.Graph) (s : GraphManager) :
    GraphManager :=
  graph.endPointsInternal.foldl (fun s iep =>
    if s.isCreated iep.group then s
    else { s with
      internalLSIs := s.internalLSIs.insert iep.group { controllerPort := s.nextControllerPort }
      nextControllerPort := s.nextControllerPort + 1 }) s

/-- The end of a round of `handleGraphForInternalEndpoint`: the graph is connected through the
link, and the rule for it is installed. -/
def connect (rofl : Lowlevel.Rofl) (graphID group : String) (internal : InternalLSI) (lsi : LSI)
    (vlink : VLink) (times : Nat) (s : GraphManager) : GraphManager :=
  let controller := internal.controller.installNewRules rofl
    [internalRule group graphID vlink.localID]
  { s with
    internalLSIsCreated := s.internalLSIsCreated.insert group true
    timesUsedEndPointsInternal := s.timesUsedEndPointsInternal.insert group times
    internalLSIsConnections := s.internalLSIsConnections.insert group
      ((s.connectionsOf group).insert graphID vlink.remoteID)
    internalLSIs := s.internalLSIs.insert group
      { internal with controller := controller, lsi := some lsi } }

/-- One round of `handleGraphForInternalEndpoint`: the LSI of the group is created with one
virtual link, or the existing one gets another link. -/
def handleInternalEndpoint (rofl : Lowlevel.Rofl) (env : Environment) (graphID : String)
    (iep : EndPointInternal) : Call GraphManager Unit := do
  let s ← Call.get
  let group := iep.group
  let internal := (s.internalLSIs[group]?).getD { controllerPort := 0 }
  let newLink : VLink := { ID := s.nextVLinkID }
  Call.modify (fun s => { s with nextVLinkID := s.nextVLinkID + 1 })
  if s.isCreated group then
    match internal.lsi with
    | none => Call.abort .undefinedBehaviour
    | some lsi => do
      let grown : LSI := { lsi with toVLinks := lsi.toVLinks.addVlink newLink }
      Call.modify (fun s => { s with
        internalLSIs := s.internalLSIs.insert group { internal with lsi := some grown } })
      match env.addVirtualLink newLink.ID with
      | none => Call.throw
      | some (idA, idB) => do
        let links ← Call.eval (Failure.ofAbort
          (grown.toVLinks.setVLinkIDs lsi.virtualLinks.length idA idB))
        let vlink ← Call.eval (Failure.ofAbort (links.getVirtualLink newLink.ID))
        Call.modify (connect rofl graphID group internal { lsi with toVLinks := links } vlink
          (s.timesUsed group + 1))
  else
    match env.createInternalLsi group with
    | none => Call.throw
    | some clo =>
      if clo.physicalPorts.length > 0 || clo.networkFunctionsPorts.length > 0 ||
          clo.endpointsPorts.length > 0 then Call.throw
      else do
        let links ← Call.eval (Failure.ofAbort
          (({ virtualLinks := [newLink] } : VLinks).setAllVLinkIDs 0 clo.virtualLinks))
        let vlink ← Call.eval (Failure.orElse (.abort .assertion) links.virtualLinks.head?)
        let lsi : LSI := { links with
          dpid := clo.dpid
          endpointsVlinks := VLinks.setVLinks links.endpointsVlinks (.ofList [(group, vlink.ID)] compare) }
        Call.modify (connect rofl graphID group internal lsi vlink 1)

/-! ## Requests -/

/-- `GraphManager::newGraph`. -/
def newGraph (rofl : Lowlevel.Rofl) (env : Environment) (graph : Highlevel.Graph) :
    Call GraphManager Bool := do
  let s ← Call.get
  Call.assert (!s.tenantLSIs.contains graph.ID)
  let created ← Call.focus nextVLinkID (fun nextID s => { s with nextVLinkID := nextID })
    (createTenant env s.lsi0.physicalPorts s.runNFs graph)
  match created with
  | none => pure false
  | some info => do
    Call.modify (handleControllerForInternalEndpoint graph)
    Call.each (handleInternalEndpoint rofl env graph.ID) graph.endPointsInternal
    let s ← Call.get
    let graphLSI0 ← Call.eval
      (GraphTranslator.lowerGraphToLSI0 graph info.lsi s.lsi0 s.internalLSIsConnections)
    Call.modify (fun s => { s with
      graphLSI0lowLevel := s.graphLSI0lowLevel.addRules graphLSI0.rules })
    let graphTenant ← Call.eval (GraphTranslator.lowerGraphToTenantLSI graph info.lsi)
    Call.modify (fun s => { s with
      tenantLSIs := s.tenantLSIs.insert graph.ID { info with
        controller := info.controller.installNewRules rofl graphTenant.rules }
      lsi0Controller := s.lsi0Controller.installNewRules rofl graphLSI0.rules })
    pure true

/-- The removal of one rule from both copies of the rules of LSI-0. -/
def removeLSI0Rule (rofl : Lowlevel.Rofl) (ID : String) (s : GraphManager) : GraphManager :=
  { s with
    lsi0Controller := s.lsi0Controller.removeRuleFromID rofl ID
    graphLSI0lowLevel := (s.graphLSI0lowLevel.removeRuleFromID ID).1 }

/-- The removal of a list of rules, one after the other. -/
def removeLSI0Rules (rofl : Lowlevel.Rofl) (IDs : List String) (s : GraphManager) : GraphManager :=
  IDs.foldl (fun s ID => s.removeLSI0Rule rofl ID) s

/-- Only the two copies of the rules change. -/
theorem removeLSI0Rules_eq (rofl : Lowlevel.Rofl) (IDs : List String) (s : GraphManager) :
    removeLSI0Rules rofl IDs s = { s with
      lsi0Controller := IDs.foldl (fun c ID => c.removeRuleFromID rofl ID) s.lsi0Controller
      graphLSI0lowLevel := IDs.foldl (fun g ID => (g.removeRuleFromID ID).1) s.graphLSI0lowLevel } := by
  induction IDs generalizing s with
  | nil => rfl
  | cons ID IDs ih =>
    rw [removeLSI0Rules, List.foldl_cons, ← removeLSI0Rules, ih]
    rfl

/-- `updateGraph_remove`. The rules of LSI-0 and those of the tenant LSI are removed in one loop
in the source. -/
def updateGraphRemove (rofl : Lowlevel.Rofl) (env : Environment) (graphID : String)
    (newGraph : Highlevel.Graph) : Call GraphManager Unit := do
  let (ID, diff, removeRuleInfo) ← onTenant graphID
    (GraphInfo.lift (removeFromGraph graphID newGraph))
  Call.modify (removeLSI0Rules rofl
    (diff.rules.map (fun rule => GraphTranslator.lsi0RuleID ID rule.ruleID)))
  let s ← Call.get
  onTenant graphID (GraphInfo.lift (removePieces rofl env s.runNFs diff removeRuleInfo))

/-- `updateGraph_add_rules`. -/
def updateGraphAddRules (rofl : Lowlevel.Rofl) (graphID : String) (diff : Highlevel.Graph) :
    Call GraphManager Unit := do
  let s ← Call.get
  match s.tenantLSIs[graphID]? with
  | none => Call.abort .undefinedBehaviour
  | some info => do
    let graphLSI0 ← Call.eval
      (GraphTranslator.lowerGraphToLSI0 diff info.lsi s.lsi0 s.internalLSIsConnections)
    Call.modify (fun s => { s with
      graphLSI0lowLevel := s.graphLSI0lowLevel.addRules graphLSI0.rules })
    let graphTenant ← Call.eval (GraphTranslator.lowerGraphToTenantLSI diff info.lsi)
    Call.modify (fun s => { s with
      lsi0Controller := s.lsi0Controller.installNewRules rofl graphLSI0.rules
      tenantLSIs := s.tenantLSIs.insert graphID { info with
        controller := info.controller.installNewRules rofl graphTenant.rules } })

/-- `GraphManager::updateGraph`: an exception while the new pieces are added makes it return
false, a later one is passed on. -/
def updateGraph (rofl : Lowlevel.Rofl) (env : Environment) (graphID : String)
    (newGraph : Highlevel.Graph) : Call GraphManager Bool := do
  let s ← Call.get
  let added ← Call.tryCatch
    (do
      let diff ← onTenant graphID
        (addPieces env s.lsi0.physicalPorts s.runNFs graphID newGraph)
      pure (some diff))
    (pure none)
  match added with
  | none => pure false
  | some diff => do
    updateGraphRemove rofl env graphID newGraph
    updateGraphAddRules rofl graphID diff
    pure true

/-- The first step of `deleteGraph`: the rules of the graph are lowered once more, and what
comes out is removed from both copies of the rules of LSI-0. -/
def removeFromLSI0 (rofl : Lowlevel.Rofl) (info : GraphInfo) : Call GraphManager Unit := do
  let s ← Call.get
  let graphLSI0 ← Call.eval
    (GraphTranslator.lowerGraphToLSI0 info.graph info.lsi s.lsi0 s.internalLSIsConnections)
  Call.update (fun s => do
    let lowLevel ← s.graphLSI0lowLevel.removeRules graphLSI0.rules
    let controller ← s.lsi0Controller.removeRules rofl graphLSI0.rules
    pure { s with graphLSI0lowLevel := lowLevel, lsi0Controller := controller })

/-- What a group loses when one of several graphs leaves it: the rule, the virtual link and the
connection of the graph. -/
def disconnect (rofl : Lowlevel.Rofl) (env : Environment) (graphID group : String)
    (internal : InternalLSI) (lsi : LSI) : Call GraphManager Unit := do
  let controller := internal.controller.removeRuleFromID rofl
    ("INTERNAL-GRAPH-" ++ group ++ "_" ++ graphID)
  Call.modify (fun s => { s with
    internalLSIs := s.internalLSIs.insert group { internal with controller := controller } })
  let s ← Call.get
  let vlinkPort ← Call.eval (Failure.orElse (.abort .assertion) (s.connectionsOf group)[graphID]?)
  let vl ← Call.eval (Failure.orElse (.abort .assertion)
    (lsi.virtualLinks.find? (fun vl => vl.remoteID = vlinkPort)))
  if env.destroyVirtualLink vl.ID then do
    let links ← Call.eval (Failure.ofAbort (lsi.toVLinks.removeVlink vl.ID))
    Call.modify (fun s => { s with
      internalLSIs := s.internalLSIs.insert group
        { internal with controller := controller, lsi := some { lsi with toVLinks := links } }
      internalLSIsConnections := s.internalLSIsConnections.insert group
        ((s.connectionsOf group).erase graphID) })
  else Call.throw

/-- The end of a group whose last graph leaves. -/
def destroyGroup (env : Environment) (group : String) (lsi : LSI) : Call GraphManager Unit :=
  if env.destroyLsi lsi.dpid then
    Call.update (fun s =>
      if s.internalLSIsConnections.contains group then
        .ok { s with
          internalLSIs := s.internalLSIs.erase group
          internalLSIsConnections := s.internalLSIsConnections.erase group
          internalLSIsCreated := s.internalLSIsCreated.insert group false }
      else .error .undefinedBehaviour)
  else Call.throw

/-- What is left of a group of internal endpoints when a graph leaves it. -/
def leaveGroup (rofl : Lowlevel.Rofl) (env : Environment) (graphID group : String)
    (internal : InternalLSI) (lsi : LSI) (times : Nat) : Call GraphManager Unit :=
  if times = 1 then destroyGroup env group lsi
  else disconnect rofl env graphID group internal lsi

/-- One round of the loop of `deleteGraph` over the internal endpoints. -/
def releaseInternalEndpoint (rofl : Lowlevel.Rofl) (env : Environment) (graphID : String)
    (iep : EndPointInternal) : Call GraphManager Unit := do
  let s ← Call.get
  let group := iep.group
  let internal ← Call.eval
    (Failure.orElse (.abort .undefinedBehaviour) s.internalLSIs[group]?)
  let lsi ← Call.eval (Failure.orElse (.abort .undefinedBehaviour) internal.lsi)
  Call.assert (lsi.virtualLinks.length == s.timesUsed group)
  leaveGroup rofl env graphID group internal lsi (s.timesUsed group)
  Call.modify (fun s => { s with
    timesUsedEndPointsInternal :=
      s.timesUsedEndPointsInternal.insert group (s.timesUsed group - 1) })

/-- The network functions of a graph are stopped in builds that run them. -/
def stopFunctions (env : Environment) (runNFs : Bool) (info : GraphInfo) : Except Abort Unit :=
  match runNFs, info.computeController with
  | false, _ => .ok ()
  | true, none => .error .undefinedBehaviour
  | true, some c => c.stopAll env.stopNF

/-- `GraphManager::deleteGraph`. The objects of the graph are deleted on the way; a compute
controller that was deleted before must not be deleted again. -/
def deleteGraph (rofl : Lowlevel.Rofl) (env : Environment) (graphID : String) :
    Call GraphManager Bool := do
  let s ← Call.get
  match s.tenantLSIs[graphID]? with
  | none => pure false
  | some info => do
    removeFromLSI0 rofl info
    Call.eval (Failure.ofAbort (stopFunctions env s.runNFs info))
    if env.destroyLsi info.lsi.dpid then do
      Call.update (fun s =>
        if s.tenantLSIs.contains info.graph.ID && info.computeController.isSome then
          .ok { s with tenantLSIs := s.tenantLSIs.erase info.graph.ID }
        else .error .undefinedBehaviour)
      Call.each (releaseInternalEndpoint rofl env graphID) info.graph.endPointsInternal
      pure true
    else Call.throw

/-! ## Runs -/

/-- The name in the identifiers of the rules that keep the orchestrator itself reachable. -/
def inBandGraph : String := "IN-BAND-GRAPH"

/-- The rules of `handleInBandController`, for the port and the address of the orchestrator. -/
def inBandRules (port : Nat) (unAddress : String) : List Lowlevel.Rule :=
  let rule (i : String) (m : Lowlevel.Match) (output : Lowlevel.Output) : Lowlevel.Rule :=
    { «match» := m, action := { output := output },
      flowID := GraphTranslator.lsi0RuleID inBandGraph i, priority := 65535 }
  [ rule "0" { arpTpa := some unAddress, ethType := some 2054, inPort := .port port } .localPort,
    rule "1" { ipv4Dst := some unAddress, ethType := some 2048, inPort := .port port } .localPort,
    rule "2" { inPort := .localPort } (.port port) ]

/-- The constructor, for the physical ports that the switch manager attached to LSI-0, and with
the interface and the address of the orchestrator when it is controlled in band. -/
def create (rofl : Lowlevel.Rofl) (runNFs : Bool) (physicalPorts : StringMap Nat) :
    Option (String × String) → Except Failure GraphManager
  | none => .ok { runNFs := runNFs, lsi0 := { physicalPorts := physicalPorts } }
  | some (unInterface, unAddress) => do
    let port ← Failure.orElse .thrown physicalPorts[unInterface]?
    let rules := inBandRules port unAddress
    pure { runNFs := runNFs
           lsi0 := { physicalPorts := physicalPorts }
           graphLSI0lowLevel := ({} : Lowlevel.Graph).addRules rules
           lsi0Controller := ({} : Controller).installNewRules rofl rules }

/-- A change to the controller of a deployed graph. -/
def onController (graphID : String) (f : Controller → Controller) (s : GraphManager) : GraphManager :=
  match s.tenantLSIs[graphID]? with
  | none => s
  | some info => s.putTenant graphID (s.nextVLinkID, { info with controller := f info.controller })

/-- What can happen to a graph manager: requests, and datapaths that connect or disconnect. -/
inductive Operation where
  | newGraph (env : Environment) (graph : ParsedGraph)
  | updateGraph (env : Environment) (graphID : String) (newGraph : ParsedGraph)
  | deleteGraph (env : Environment) (graphID : String)
  | lsi0DptOpen
  | lsi0DptClose
  | tenantDptOpen (graphID : String)
  | tenantDptClose (graphID : String)

/-- An operation as a call; only requests report something. -/
def call (rofl : Lowlevel.Rofl) : Operation → Call GraphManager Bool
  | .newGraph env graph => newGraph rofl env graph.toGraph
  | .updateGraph env graphID graph => updateGraph rofl env graphID graph.toGraph
  | .deleteGraph env graphID => deleteGraph rofl env graphID
  | .lsi0DptOpen => do
    Call.modify (fun s => { s with lsi0Controller := s.lsi0Controller.handleDptOpen rofl })
    pure true
  | .lsi0DptClose => do
    Call.modify (fun s => { s with lsi0Controller := s.lsi0Controller.handleDptClose })
    pure true
  | .tenantDptOpen graphID => do
    Call.modify (onController graphID (Controller.handleDptOpen rofl))
    pure true
  | .tenantDptClose graphID => do
    Call.modify (onController graphID Controller.handleDptClose)
    pure true

/-- The state an operation leads to, whether it returns or throws. -/
def step (rofl : Lowlevel.Rofl) (s : GraphManager) (op : Operation) : Except Abort GraphManager :=
  (call rofl op s).map Prod.snd

theorem step_ok {rofl : Lowlevel.Rofl} {s s' : GraphManager} {op : Operation} :
    step rofl s op = .ok s' ↔ ∃ o, call rofl op s = .ok (o, s') := by
  unfold step
  rcases call rofl op s with why | ⟨o, s₁⟩ <;> simp [Except.map]

/-- A property that an operation leaves behind, whether it returns or throws, holds after the
step. -/
theorem step_keeps {rofl : Lowlevel.Rofl} {s s' : GraphManager} {op : Operation}
    {I : GraphManager → Prop} (h : Call.wp (call rofl op) (fun _ s' => I s') I s)
    (hstep : step rofl s op = .ok s') : I s' := by
  obtain ⟨o, ho⟩ := step_ok.mp hstep
  obtain ⟨hreturned, hthrown⟩ := Call.of_wp h ho
  cases o with
  | none => exact hthrown rfl
  | some b => exact hreturned b rfl

end GraphManager

end UnOrchestrator
