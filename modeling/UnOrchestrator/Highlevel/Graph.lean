import UnOrchestrator.Lib.KeyedList
import UnOrchestrator.Lib.CString
import UnOrchestrator.Graph.Match

/-!
# The high-level graph

A forwarding graph as the clients of the orchestrator describe it: flow rules
between physical ports, ports of network functions and endpoints, with the
network functions and the endpoints they mention.

Every class of the graph compares by part of its contents (`operator==`): a rule
by its identifier alone, a network function by identifier and name, a GRE
endpoint by everything but its `ttl` and `safe` attributes. These comparisons are
the `key` functions below, and the operations of the graph are keyed list
operations over them.
-/

namespace UnOrchestrator.Highlevel

/-! ## Matches and actions -/

/-- The second `:`-separated token of a port reference such as `endpoint:00000001`; this is
`MatchParser::epName`, and `Match::getInputEndpoint` cuts its string the same way. -/
def epName (reference : String) : String := ((CString.strtok ':' reference).drop 1).headD ""

/-- `match_t`, with the data that each kind of match stores. -/
inductive MatchType where
  | generic
  | port (input : String)
  | nf (input : String) (nfPort : Int)
  | endPointInternal (endpointInternalGroup : Nat)
  | endPointGre (endpointGreID : String)
  deriving DecidableEq, Repr

theorem MatchType.port_ne_gre {input reference : String} :
    ∀ id, MatchType.port input = .endPointGre id → epName reference = id := by
  simp

/-- `highlevel::Match`. The parser stores the identifier of a GRE endpoint twice, on its own
and inside the port reference it was cut from; `greInput` is that agreement. -/
structure Match extends Graph.Match where
  type : MatchType := .generic
  inputEndpoint : String := ""
  nfEndpointPort : String := ""
  greInput : ∀ id, type = .endPointGre id → epName inputEndpoint = id := by
    first
      | exact MatchType.port_ne_gre
      | (intro _ h; first | exact MatchType.noConfusion h | (injection h with h; subst h; decide))
  deriving DecidableEq

namespace Match

def matchOnPort (m : Match) : Bool := m.type matches .port _
def matchOnNF (m : Match) : Bool := m.type matches .nf _ _
def matchOnEndPointInternal (m : Match) : Bool := m.type matches .endPointInternal _
def matchOnEndPointGre (m : Match) : Bool := m.type matches .endPointGre _

/-- `Match::getInputEndpoint`, as the string it is meant to return. The source hands out a pointer
into a local string, which is gone by then, and the translator copies what it points to into 64
bytes without a bound; both are taken to give the identifier, whatever its length. -/
def getInputEndpoint (m : Match) : String := epName m.inputEndpoint

end Match

/-- The four subclasses of `highlevel::Action`, with the data each one stores. -/
inductive ActionType where
  | port (portName : String)
  | networkFunction (nfId : String) (port : Nat)
  | endPointGre (endpointID : String)
  | endPointInternal (group : String)
  deriving DecidableEq, Repr

/-- `highlevel::Action`: where packets go, the port reference it was parsed from, and the
tag operations applied on the way. -/
structure Action where
  type : ActionType
  endpointName : String := ""
  genericActions : List GenericAction := []
  deriving DecidableEq

def Action.addGenericAction (a : Action) (ga : GenericAction) : Action :=
  { a with genericActions := a.genericActions ++ [ga] }

/-- The name a port of a network function has in the LSI: `id_port`. -/
def nfPortName (nfId : String) (port : Int) : String := nfId ++ "_" ++ toString port

/-- `highlevel::Rule`. -/
structure Rule where
  «match» : Match
  action : Action
  ruleID : String
  priority : Nat
  deriving DecidableEq

/-- `Rule::operator==` compares the identifiers. -/
def Rule.key (r : Rule) : String := r.ruleID

/-! ## Network functions and endpoints -/

/-- `port_network_config_t`. -/
structure PortNetworkConfig where
  macAddress : String := ""
  deriving DecidableEq

/-- `vnf_port_t`. -/
structure VnfPort where
  id : String
  name : String := ""
  configuration : PortNetworkConfig := {}
  deriving DecidableEq

/-- `highlevel::VNFs`. -/
structure VNFs where
  id : String
  name : String
  groups : List String := []
  vnfTemplate : String := ""
  ports : List VnfPort
  deriving DecidableEq

namespace VNFs

/-- `VNFs::operator==` compares identifier and name, not the ports. -/
def key (v : VNFs) : String × String := (v.id, v.name)

/-- `VNFs::addPort`: the port is added if the VNF has none with its identifier. -/
def addPort (v : VNFs) (port : VnfPort) : VNFs :=
  { v with ports := KeyedList.pushNew VnfPort.id v.ports port }

/-- `VNFs::extract_number_from_id`: the number behind the first `:` plus one; a reference
without a second token fails an assertion. A token that is no number counts as zero. -/
def extractNumberFromId (portID : String) : Except Abort Nat :=
  match (CString.strtok ':' portID).drop 1 with
  | [] => .error .assertion
  | token :: _ => .ok (((CString.scanUnsigned 10 token).getD 0 + 1) % 2 ^ 32)

def getPortsId (v : VNFs) : Except Abort (List Nat) :=
  v.ports.mapM (fun p => extractNumberFromId p.id)

end VNFs

/-- `highlevel::EndPointInterface`; `operator==` compares all three attributes. -/
structure EndPointInterface where
  id : String
  name : String
  interface : String
  deriving DecidableEq

/-- `highlevel::EndPointInternal`; `operator==` compares all three attributes. -/
structure EndPointInternal where
  id : String
  name : String
  group : String
  deriving DecidableEq

/-- `highlevel::EndPointGre`. -/
structure EndPointGre where
  id : String
  name : String
  localIp : String
  remoteIp : String
  greKey : String
  ttl : String := ""
  isSafe : Bool := false
  deriving DecidableEq

/-- `EndPointGre::operator==` leaves `ttl` and `safe` out. -/
def EndPointGre.key (e : EndPointGre) : String × String × String × String × String :=
  (e.id, e.name, e.localIp, e.remoteIp, e.greKey)

/-- `highlevel::EndPointVlan`; `operator==` compares all four attributes. -/
structure EndPointVlan where
  id : String
  name : String
  vlanId : String
  interface : String
  deriving DecidableEq

/-! ## The graph and its operations -/

/-- `highlevel::Graph`. -/
structure Graph where
  ID : String
  name : String := ""
  rules : List Rule := []
  vnfs : List VNFs := []
  endPointsInterface : List EndPointInterface := []
  endPointsInternal : List EndPointInternal := []
  endPointsGre : List EndPointGre := []
  endPointsVlan : List EndPointVlan := []
  deriving DecidableEq

/-- `RuleRemovedInfo`: what the action of a removed rule pointed to. Exactly one of the four
flags of the source is set. -/
inductive RuleRemovedInfo where
  | port (port : String)
  | nfPort (nfPort : String)
  | endpointGre (endpointGre : String)
  | endpointInternal (endpointInternal : String)
  deriving DecidableEq, Repr

/-- The removal information of an action, as `Graph::removeRuleFromID` fills it in. -/
def Action.removedInfo (a : Action) : RuleRemovedInfo :=
  match a.type with
  | .port portName => .port portName
  | .networkFunction nfId port => .nfPort (nfPortName nfId port)
  | .endPointGre endpointID => .endpointGre endpointID
  | .endPointInternal group => .endpointInternal group

namespace Graph

def addRule (g : Graph) (rule : Rule) : Graph :=
  { g with rules := KeyedList.pushNew Rule.key g.rules rule }

def ruleExists (g : Graph) (ID : String) : Bool := g.rules.any (fun r => r.ruleID == ID)

def addEndPointInterface (g : Graph) (endpoint : EndPointInterface) : Graph :=
  { g with endPointsInterface := KeyedList.pushNew id g.endPointsInterface endpoint }

def addEndPointInternal (g : Graph) (endpoint : EndPointInternal) : Graph :=
  { g with endPointsInternal := KeyedList.pushNew id g.endPointsInternal endpoint }

def addEndPointGre (g : Graph) (endpoint : EndPointGre) : Graph :=
  { g with endPointsGre := KeyedList.pushNew EndPointGre.key g.endPointsGre endpoint }

def addEndPointVlan (g : Graph) (endpoint : EndPointVlan) : Graph :=
  { g with endPointsVlan := KeyedList.pushNew id g.endPointsVlan endpoint }

/-- The loop of `Graph::addVNF`: the first equal VNF receives the ports it lacks; with no
equal VNF the new one goes to the end. -/
def addVNFTo (vnf : VNFs) : List VNFs → List VNFs
  | [] => [vnf]
  | v :: vs =>
    if v.key = vnf.key then vnf.ports.foldl VNFs.addPort v :: vs else v :: addVNFTo vnf vs

def addVNF (g : Graph) (vnf : VNFs) : Graph := { g with vnfs := addVNFTo vnf g.vnfs }

/-- `Graph::removeRuleFromID`: the first rule with the identifier goes, and its action is
reported; an unknown identifier fails an assertion. -/
def removeRuleFromID (g : Graph) (ID : String) : Except Abort (Graph × RuleRemovedInfo) := do
  let rule ← Abort.orElse .assertion (g.rules.find? (fun r => r.ruleID = ID))
  let rules ← Abort.orElse .assertion (KeyedList.eraseKey Rule.key ID g.rules)
  return ({ g with rules := rules }, rule.action.removedInfo)

def removeEndPointInterface (g : Graph) (endpoint : EndPointInterface) : Except Abort Graph := do
  let rest ← Abort.orElse .assertion (KeyedList.eraseKey id endpoint g.endPointsInterface)
  return { g with endPointsInterface := rest }

def removeEndPointInternal (g : Graph) (endpoint : EndPointInternal) : Except Abort Graph := do
  let rest ← Abort.orElse .assertion (KeyedList.eraseKey id endpoint g.endPointsInternal)
  return { g with endPointsInternal := rest }

def removeEndPointGre (g : Graph) (endpoint : EndPointGre) : Except Abort Graph := do
  let rest ← Abort.orElse .assertion
    (KeyedList.eraseKey EndPointGre.key endpoint.key g.endPointsGre)
  return { g with endPointsGre := rest }

def removeEndPointVlan (g : Graph) (endpoint : EndPointVlan) : Except Abort Graph := do
  let rest ← Abort.orElse .assertion (KeyedList.eraseKey id endpoint g.endPointsVlan)
  return { g with endPointsVlan := rest }

/-- `Graph::stillUsedEndpointInterface`: some rule matches or outputs on its interface. -/
def stillUsedEndpointInterface (g : Graph) (endpoint : EndPointInterface) : Except Abort Bool := do
  Abort.assert (g.endPointsInterface.any (· == endpoint))
  return g.rules.any (fun r =>
    r.match.type == .port endpoint.interface || r.action.type == .port endpoint.interface)

/-- `Graph::stillUsedVNF`. The identifiers in the rules are compared with the name of the
VNF. -/
def stillUsedVNF (g : Graph) (vnf : VNFs) : Except Abort Bool := do
  Abort.assert (g.vnfs.any (fun v => vnf.key == v.key))
  return g.rules.any (fun r =>
    (match r.match.type with | .nf input _ => input == vnf.name | _ => false) ||
    (match r.action.type with | .networkFunction nfId _ => nfId == vnf.name | _ => false))

end Graph

end UnOrchestrator.Highlevel
