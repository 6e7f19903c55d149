import UnOrchestrator.Parser.Match

/-!
# Parsing a graph

`GraphParser::parseGraph` reads a document into a graph: the network functions, the
endpoints, and once these are known the flow rules. Every value that is not as expected
makes it return false (`thrown`); an action object with more than one key, and an output to
an unknown endpoint, fail an assertion.

The members of an object are met in the order of their names. So the actions of a rule
come before its match, and in an endpoint the tunnel comes before the identifier, which is
looked up ahead, and before the name, which is not. The variables for the attributes of an
endpoint are declared outside the loop over the array and keep their values from one
element to the next.

The optional parts for the monitoring controller and the port configuration are left out,
as in the default build.
-/

namespace UnOrchestrator.Parser

open Highlevel CString

/-! ## Network functions -/

def parseVnfPortKey (portDescr : VnfPort) (name : String) (value : Json) :
    Except Failure VnfPort :=
  if name = "id" then do
    let id ← value.getString
    pure { portDescr with id := id }
  else if name = "name" then do
    let portName ← value.getString
    pure { portDescr with name := portName }
  else if name = "mac" then do
    let mac ← value.getString
    if ¬ validateMac mac then .error .thrown
    else if ¬ isUnicastMac mac then .error .thrown
    else pure { portDescr with configuration := { macAddress := mac } }
  else if name = "unify-ip" then pure portDescr
  else .error .thrown

def parseVnfPort (value : Json) : Except Failure VnfPort := do
  let port ← value.getObject
  Json.forEach port { id := "" } parseVnfPortKey

/-- The variables for one element of `VNFs`. -/
structure VnfState where
  id : String := ""
  name : String := ""
  vnfTemplate : String := ""
  groups : List String := []
  ports : List VnfPort := []
  foundName : Bool := false
  usedVNFID : StringSet

def parseVnfKey (st : VnfState) (name : String) (value : Json) : Except Failure VnfState :=
  if name = "name" then do
    let s ← value.getString
    pure { st with name := s, foundName := true }
  else if name = "vnf_template" then do
    let s ← value.getString
    pure { st with vnfTemplate := s }
  else if name = "id" then do
    let s ← value.getString
    if s ∈ st.usedVNFID then .error .thrown
    else pure { st with id := s, usedVNFID := st.usedVNFID.insert s }
  else if name = "unify-control" then pure st
  else if name = "unify-env-variables" then pure st
  else if name = "ports" then do
    let ports ← value.mapArray parseVnfPort
    pure { st with ports := st.ports ++ ports }
  else if name = "groups" then do
    let groups ← value.mapArray Json.getString
    pure { st with groups := st.groups ++ groups }
  else .error .thrown

/-- One element of `VNFs`. -/
def parseVnf (st : StringSet × Graph) (value : Json) : Except Failure (StringSet × Graph) := do
  let networkFunction ← value.getObject
  let vnf ← Json.forEach networkFunction { usedVNFID := st.1 } parseVnfKey
  if vnf.foundName then
    pure (vnf.usedVNFID, st.2.addVNF
      { id := vnf.id, name := vnf.name, groups := vnf.groups, vnfTemplate := vnf.vnfTemplate,
        ports := vnf.ports })
  else .error .thrown

def parseVnfs (graph : Graph) (value : Json) : Except Failure Graph := do
  let vnfsArray ← value.getArray
  let st ← vnfsArray.foldlM parseVnf (∅, graph)
  pure st.2

/-! ## Endpoints -/

/-- The object `interface` of an endpoint, for its `if-name`. -/
def parseInterface (value : Json) : Except Failure (Option String) := do
  let epIface ← value.getObject
  Json.forEach epIface none fun ifName name value =>
    if name = "node-id" then do
      let _ ← value.getString
      pure ifName
    else if name = "if-name" then do
      let s ← value.getString
      pure (some s)
    else .error .thrown

/-- The object `internal` of an endpoint, for its `internal-group`; other members are not looked
at. -/
def parseInternal (value : Json) : Except Failure (Option String) := do
  let epInternal ← value.getObject
  Json.forEach epInternal none fun inGroup name value =>
    if name = "internal-group" then do
      let s ← value.getString
      pure (some s)
    else pure inGroup

/-- The attributes of a VLAN endpoint that are given. -/
structure VlanAttributes where
  vlanId : Option String := none
  ifName : Option String := none
  deriving DecidableEq

/-- The object `vlan` of an endpoint; members with other names are not looked at. -/
def parseVlan (value : Json) : Except Failure VlanAttributes := do
  let epVlan ← value.getObject
  Json.forEach epVlan {} fun vlan name value =>
    if name = "vlan-id" then do
      let s ← value.getString
      pure { vlan with vlanId := some s }
    else if name = "if-name" then do
      let s ← value.getString
      pure { vlan with ifName := some s }
    else if name = "node-id" then do
      let _ ← value.getString
      pure vlan
    else pure vlan

/-- The attributes of a tunnel while they are read; three of them are mandatory. -/
structure GreAttributes where
  localIp : Option String := none
  remoteIp : Option String := none
  greKey : Option String := none
  ttl : String := ""
  safe : Bool := false
  deriving DecidableEq

def parseGreKey (gre : GreAttributes) (name : String) (value : Json) :
    Except Failure GreAttributes :=
  if name = "local-ip" then do
    let s ← value.getString
    pure { gre with localIp := some s }
  else if name = "remote-ip" then do
    let s ← value.getString
    pure { gre with remoteIp := some s }
  else if name = "ttl" then do
    let s ← value.getString
    pure { gre with ttl := s }
  else if name = "gre-key" then do
    let s ← value.getString
    pure { gre with greKey := some s }
  else if name = "secure" then do
    let b ← value.getBool
    pure { gre with safe := b }
  else .error .thrown

/-- The object `gre-tunnel` of an endpoint, as the endpoint with an identifier and a name. -/
def parseGre (id eName : String) (value : Json) : Except Failure EndPointGre := do
  let epGre ← value.getObject
  let gre ← Json.forEach epGre {} parseGreKey
  match gre.localIp, gre.remoteIp, gre.greKey with
  | some localIp, some remoteIp, some greKey =>
    pure { id := id, name := eName, localIp := localIp, remoteIp := remoteIp, greKey := greKey,
           ttl := gre.ttl, isSafe := gre.safe }
  | _, _, _ => .error .thrown

/-- The variables that the loop over `end-points` keeps from one element to the next. -/
structure EndPointVars where
  id : String := ""
  vId : String := ""
  eName : String := ""
  interface : String := ""
  inGroup : String := ""
  eIf : Bool := false
  eInternal : Bool := false
  eVlan : Bool := false
  deriving DecidableEq

/-- What the loop over `end-points` changes. -/
structure EndPointState where
  vars : EndPointVars := {}
  usedEndpointID : StringSet := ∅
  tables : EndPointTables := {}
  graph : Graph

/-- The identifier for a tunnel, looked up among the members that follow it; `id` does. -/
def idAhead (endPoint : Json.Object) (id : String) : Except Failure String :=
  match endPoint["id"]? with
  | some later => later.getString
  | none => pure id

/-- One member of an endpoint. -/
def parseEndPointKey (endPoint : Json.Object) (st : EndPointState) (name : String)
    (value : Json) : Except Failure EndPointState :=
  if name = "id" then do
    let id ← value.getString
    if id ∈ st.usedEndpointID then .error .thrown
    else pure { st with vars := { st.vars with id := id },
                        usedEndpointID := st.usedEndpointID.insert id }
  else if name = "name" then do
    let eName ← value.getString
    pure { st with vars := { st.vars with eName := eName } }
  else if name = "type" then do
    let _ ← value.getString
    pure st
  else if name = "interface" then do
    match ← parseInterface value with
    | some ifName =>
      pure { st with vars := { st.vars with eIf := true, interface := ifName },
                     tables := { st.tables with
                       ifaceId := st.tables.ifaceId.insert st.vars.id ifName } }
    | none => pure { st with vars := { st.vars with eIf := true } }
  else if name = "internal" then do
    let inGroup := (← parseInternal value).getD st.vars.inGroup
    pure { st with vars := { st.vars with eInternal := true, inGroup := inGroup },
                   tables := { st.tables with
                     internalId := st.tables.internalId.insert st.vars.id inGroup } }
  else if name = "interface-out" then pure st
  else if name = "vlan" then do
    let vlan ← parseVlan value
    let vId := vlan.vlanId.getD st.vars.vId
    let interface := vlan.ifName.getD st.vars.interface
    pure { st with vars := { st.vars with eVlan := true, vId := vId, interface := interface },
                   tables := { st.tables with
                     vlanId := st.tables.vlanId.insert st.vars.id (vId, interface) } }
  else if name = "gre-tunnel" then do
    let id ← idAhead endPoint st.vars.id
    let gre ← parseGre id st.vars.eName value
    pure { st with vars := { st.vars with id := id },
                   tables := { st.tables with greId := st.tables.greId.insert id gre.localIp },
                   graph := st.graph.addEndPointGre gre }
  else do
    let _ ← value.getString
    pure st

/-- What is added after the members of an endpoint. The flag of a kind that is not added stays
set. -/
def EndPointState.addEndPoint (st : EndPointState) : EndPointState :=
  let vars := st.vars
  if vars.eIf then
    { st with vars := { vars with eIf := false },
              graph := st.graph.addEndPointInterface
                { id := vars.id, name := vars.eName, interface := vars.interface } }
  else if vars.eInternal then
    { st with vars := { vars with eInternal := false },
              graph := st.graph.addEndPointInternal
                { id := vars.id, name := vars.eName, group := vars.inGroup } }
  else if vars.eVlan then
    { st with vars := { vars with eVlan := false },
              graph := st.graph.addEndPointVlan
                { id := vars.id, name := vars.eName, vlanId := vars.vId,
                  interface := vars.interface } }
  else st

/-- One element of `end-points`. -/
def parseEndPoint (st : EndPointState) (value : Json) : Except Failure EndPointState := do
  let endPoint ← value.getObject
  let st ← Json.forEach endPoint st (parseEndPointKey endPoint)
  pure st.addEndPoint

def parseEndPoints (graph : Graph) (value : Json) : Except Failure EndPointState := do
  let endPointsArray ← value.getArray
  endPointsArray.foldlM parseEndPoint { graph := graph }

/-! ## Flow rules -/

/-- The action `output_to_port`. An endpoint that no table knows gives no action. -/
def outputToPort (tables : EndPointTables) (reference : String) :
    Except Failure (Option Action) :=
  if isEndPointReference reference then
    match tables.find (epName reference) with
    | none => .ok none
    | some (.interface realName) => .ok (some { type := .port realName, endpointName := reference })
    | some (.internal group) =>
      if group = "" then .error .thrown
      else .ok (some { type := .endPointInternal group, endpointName := reference })
    | some (.vlan vId interface) =>
      let vlanID := (scanUnsigned 10 vId).getD 0
      .ok (some { type := .port interface, endpointName := reference,
                  genericActions := [⟨.endpointVlanPush, vlanID.toUInt16⟩] })
    | some .gre =>
      .ok (some { type := .endPointGre (epName reference), endpointName := reference })
  else do
    let (id, port) ← vnfPort reference
    pure (some { type := .networkFunction id port, endpointName := reference })

/-- The label of an explicit `push_vlan`, as `strtol` reads it and 16 bits keep it. -/
def pushLabel (s : String) : UInt16 := UInt16.ofInt ((scanSigned none s).getD 0)

/-- The actions that are known and ignored. -/
def ignoredActions : List String :=
  ["set_vlan_id", "set_vlan_priority", "set_ethernet_src_address", "set_ethernet_dst_address",
    "set_ip_src_address", "set_ip_dst_address", "set_ip_tos", "set_l4_src_port",
    "set_l4_dst_port", "output_to_queue", "drop", "output_to_controller"]

/-- What the loop over `actions` changes. -/
structure ActionsState where
  action : Option Action := none
  genericActions : List GenericAction := []
  foundOneOutputToPort : Bool := false

def parseActionKey (tables : EndPointTables) (st : ActionsState) (name : String) (value : Json) :
    Except Failure ActionsState :=
  if name = "output_to_port" then do
    let reference ← value.getString
    if st.foundOneOutputToPort then .error .thrown
    else do
      let action ← outputToPort tables reference
      pure { st with action := action, foundOneOutputToPort := true }
  else if name = "push_vlan" then do
    let s ← value.getString
    pure { st with genericActions := st.genericActions ++ [⟨.vlanPush, pushLabel s⟩] }
  else if name = "pop_vlan" then do
    let isVlanPop ← value.getBool
    if isVlanPop then pure { st with genericActions := st.genericActions ++ [⟨.vlanPop, 0⟩] }
    else pure st
  else if name ∈ ignoredActions then do
    let _ ← value.getString
    pure st
  else .error .thrown

/-- One element of `actions`, which must have a single member. -/
def parseAction (tables : EndPointTables) (st : ActionsState) (value : Json) :
    Except Failure ActionsState := do
  let theAction ← value.getObject
  if theAction.size ≠ 1 then .error (.abort .assertion)
  else Json.forEach theAction st (parseActionKey tables)

/-- The member `actions` of a rule: the output with its own tag operation, then the explicit
ones. -/
def parseActions (tables : EndPointTables) (value : Json) : Except Failure Action := do
  let actionsArray ← value.getArray
  let st ← actionsArray.foldlM (parseAction tables) {}
  if ¬ st.foundOneOutputToPort then .error .thrown
  else do
    let action ← Failure.orElse (.abort .assertion) st.action
    pure (st.genericActions.foldl Action.addGenericAction action)

/-- What the loop over the members of a rule changes: the parts that were found. -/
structure RuleState where
  action : Option Action := none
  «match» : Option Highlevel.Match := none
  ruleID : Option String := none
  priority : Nat := 0

def parseRuleKey (inet : InetPton) (tables : EndPointTables) (st : RuleState) (name : String)
    (value : Json) : Except Failure RuleState :=
  if name = "id" then do
    let ruleID ← value.getString
    pure { st with ruleID := some ruleID }
  else if name = "description" then do
    let _ ← value.getString
    pure st
  else if name = "priority" then do
    let priority ← value.getInt
    pure { st with priority := (priority % 2 ^ 64).toNat }
  else if name = "match" then do
    let object ← value.getObject
    let (m, action) ← parseMatch inet tables object st.action
    pure { st with «match» := some m, action := action }
  else if name = "actions" then do
    let action ← parseActions tables value
    pure { st with action := some action }
  else .error .thrown

/-- `Match::checkVlanPresence`. -/
def checkVlanPresence (m : Graph.Match) : Bool := m.isVlanID || m.isAnyVlan || m.vlanPCP.isSome

/-- One element of `flow-rules`. -/
def parseRule (inet : InetPton) (tables : EndPointTables) (graph : Graph) (value : Json) :
    Except Failure Graph := do
  let flowRule ← value.getObject
  let st ← Json.forEach flowRule {} (parseRuleKey inet tables)
  match st.action, st.match, st.ruleID with
  | some action, some m, some ruleID =>
    if graph.ruleExists ruleID then .error .thrown
    else if action.genericActions.any (fun ga => ga.type == .vlanPop) ∧ ¬ checkVlanPresence m.toMatch
    then .error .thrown
    else pure (graph.addRule { «match» := m, action := action, ruleID := ruleID,
                               priority := st.priority })
  | _, _, _ => .error .thrown

def parseFlowRules (inet : InetPton) (tables : EndPointTables) (graph : Graph) (value : Json) :
    Except Failure Graph := do
  let flowRulesArray ← value.getArray
  flowRulesArray.foldlM (parseRule inet tables) graph

/-- The object `big-switch`, of which `flow-rules` is the one member. -/
def parseBigSwitch (inet : InetPton) (tables : EndPointTables) (graph : Graph)
    (bigSwitch : Json.Object) : Except Failure Graph := do
  let st ← Json.forEach bigSwitch (graph, false) fun st name value =>
    if name = "flow-rules" then do
      let graph ← parseFlowRules inet tables st.1 value
      pure (graph, true)
    else .error .thrown
  if st.2 then pure st.1 else .error .thrown

/-! ## The document -/

/-- What the loop over the members of `forwarding-graph` changes. -/
structure ForwardingGraphState where
  graph : Graph
  tables : EndPointTables := {}
  bigSwitch : Option Json.Object := none

def parseForwardingGraphKey (st : ForwardingGraphState) (name : String) (value : Json) :
    Except Failure ForwardingGraphState :=
  if name = "id" then do
    let _ ← value.getString
    pure st
  else if name = "name" then do
    let s ← value.getString
    pure { st with graph := { st.graph with name := s } }
  else if name = "description" then do
    let _ ← value.getString
    pure st
  else if name = "unify-monitoring" then pure st
  else if name = "VNFs" then do
    let graph ← parseVnfs st.graph value
    pure { st with graph := graph }
  else if name = "end-points" then do
    let endPoints ← parseEndPoints st.graph value
    pure { st with graph := endPoints.graph, tables := endPoints.tables }
  else if name = "big-switch" then do
    let bigSwitch ← value.getObject
    pure { st with bigSwitch := some bigSwitch }
  else .error .thrown

/-- The object `forwarding-graph`. The rules are read last, when the tables are filled. -/
def parseForwardingGraph (inet : InetPton) (graph : Graph) (forwardingGraph : Json.Object) :
    Except Failure Graph := do
  let st ← Json.forEach forwardingGraph { graph := graph } parseForwardingGraphKey
  match st.bigSwitch with
  | none => pure st.graph
  | some bigSwitch => parseBigSwitch inet st.tables st.graph bigSwitch

/-- `GraphParser::parseGraph`, into a graph that has an identifier only. -/
def parseGraph (inet : InetPton) (ID : String) (value : Json) : Except Failure Graph := do
  let obj ← value.getObject
  let st ← Json.forEach obj ({ ID := ID }, false) fun st name value =>
    if name = "forwarding-graph" then do
      let graph ← value.getObject >>= parseForwardingGraph inet st.1
      pure (graph, true)
    else .error .thrown
  if st.2 then pure st.1 else .error .thrown

end UnOrchestrator.Parser
