import UnOrchestrator.Lib.StringMap

/-!
# Datapaths of the elastic router

The control application of the elastic router keeps an object for each of its switches (`DP`), with the
ports of the switch (`DPPort`). Ports point at each other: a port is linked to the port at the other
end, or to a SAP, and an internal port knows the external port that its datapath forwards to.

Objects are in a list that only grows, and so are the ports of a datapath; an object is referred to by
its position. Attributes that are read while they are `None` raise an exception, which is `none` here.
-/

namespace UnOrchestrator.ElasticRouter

inductive PortType where
  | internal
  | external
  | sap
  deriving DecidableEq

/-- A port of a datapath, by the position of the datapath and the position among its ports. -/
structure PortRef where
  dp : Nat
  index : Nat
  deriving DecidableEq

/-- What is at the other end of a port. The object for a SAP has no datapath. -/
inductive Link where
  | sap (ifname : String)
  | port (ref : PortRef)
  deriving DecidableEq

/-- The datapath at the other end. -/
def Link.dp : Link → Option Nat
  | .sap _ => none
  | .port ref => some ref.dp

structure DPPort where
  ifname : String
  id : Nat
  number : Option Nat := none
  portType : Option PortType := none
  linkedPort : Option Link := none
  forwardExtport : Option PortRef := none
  deriving DecidableEq

/-- The address and the mask of `ipaddress.ip_network`. -/
structure Network where
  networkAddress : String
  netmask : String
  deriving DecidableEq

/-- The fields that the flows of the default table and of the routing table match on. -/
structure MatchDict where
  ethType : Option Nat := none
  ipv4Dst : Option Network := none
  deriving DecidableEq

inductive Output where
  | controller
  | port (number : Option Nat)
  deriving DecidableEq

structure Flow where
  matchDict : MatchDict
  actions : List Output
  priority : Nat
  deriving DecidableEq

def ethTypeARP : Nat := 0x0806

def ethTypeIP : Nat := 0x0800

/-- `set_default_oftable_new`. -/
def defaultOftable : List Flow :=
  [{ matchDict := { ethType := some ethTypeARP }, actions := [.controller], priority := 2 },
    { matchDict := { ethType := some ethTypeIP }, actions := [.controller], priority := 2 },
    { matchDict := {}, actions := [], priority := 1 }]

/-- A dictionary keyed by ports; the entry that was set last stands first. -/
abbrev PortDict := List (PortRef × PortRef)

structure DP where
  name : String
  id : Int
  ports : List DPPort := []
  macToPort : StringMap Nat := ∅
  oftable : List Flow := defaultOftable
  scalePortDict : PortDict := []

namespace DP

/-- The name of an interface of a datapath. -/
def ifname (name : String) (index : Nat) : String :=
  name ++ "_eth" ++ toString index

/-- `add_port`. The management port and the control port of the datapath come before its ports. -/
def addPort (dp : DP) (ifname : String) (portType : PortType) (linkedPort : Option Link) : DP :=
  { dp with ports := dp.ports ++ [{ ifname := ifname, id := dp.ports.length + 2,
                                    portType := some portType, linkedPort := linkedPort }] }

/-- `get_port`. -/
def getPort (dp : DP) (portName : String) : Option Nat :=
  dp.ports.findIdx? (fun port => port.ifname == portName)

/-- `get_port_by_number`. -/
def getPortByNumber (dp : DP) (number : Nat) : Option Nat :=
  dp.ports.findIdx? (fun port => port.number == some number)

/-- `check_connected`; a port without a link is passed over. -/
def checkConnected (dp : DP) (linkedDP : Nat) : Bool :=
  dp.ports.any (fun port => port.linkedPort.bind Link.dp == some linkedDP)

end DP

/-- A port of one of the objects. -/
def portAt (dps : List DP) (ref : PortRef) : Option DPPort :=
  (dps[ref.dp]?).bind (fun dp => dp.ports[ref.index]?)

/-- The port is replaced. -/
def modifyPort (dps : List DP) (ref : PortRef) (f : DPPort → DPPort) : List DP :=
  dps.modify ref.dp (fun dp => { dp with ports := dp.ports.modify ref.index f })

def getPort (dps : List DP) (d : Nat) (portName : String) : Option PortRef :=
  (dps[d]?).bind (fun dp => (dp.getPort portName).map (PortRef.mk d))

/-! ## The routing table -/

/-- An entry of the routing table of the configuration file; its nets are networks. -/
structure RoutingEntry where
  sap : String
  net : List Network
  deriving DecidableEq

/-- The test of a port by `set_routing_table`: it is linked to the SAP, or the datapath at its other end
forwards to the SAP. -/
def reaches (dps : List DP) (destSap : String) (port : DPPort) : Option Bool := do
  match port.linkedPort with
  | none => none
  | some (.sap ifname) =>
    some (port.portType == some .external && ifname == destSap)
  | some (.port ref) =>
    let peer ← portAt dps ref
    if port.portType == some .external && peer.ifname == destSap then some true
    else if peer.portType == some .internal then do
      let forward ← peer.forwardExtport
      let extport ← portAt dps forward
      match extport.linkedPort with
      | none => none
      | some (.sap ifname) => some (ifname == destSap)
      | some (.port ref) => do
        let linked ← portAt dps ref
        some (linked.ifname == destSap)
    else some false

/-- The search for an output port; the number of the port may still be unknown. -/
def findOutPort (dps : List DP) (destSap : String) : List DPPort → Option (Option Nat)
  | [] => some none
  | port :: ports => do
    if ← reaches dps destSap port then some port.number
    else findOutPort dps destSap ports

/-- The flows of one entry. -/
def routingFlows (outPort : Nat) (entry : RoutingEntry) : List Flow :=
  entry.net.map fun net =>
    { matchDict := { ethType := some ethTypeIP, ipv4Dst := some net },
      actions := [.port (some outPort)], priority := 30 }

/-- `set_routing_table`: what is left of the table is dropped at the first entry without an output
port. -/
def setRoutingTable (dps : List DP) (dp : DP) : List RoutingEntry → Option DP
  | [] => some dp
  | entry :: routingTable => do
    match ← findOutPort dps entry.sap dp.ports with
    | none => some dp
    | some outPort =>
      setRoutingTable dps { dp with oftable := dp.oftable ++ routingFlows outPort entry } routingTable

/-! ## Moving the learned addresses -/

/-- The port of the new topology behind a port of an old datapath. -/
def newOutport (dps : List DP) (dict : PortDict) (old : Nat) (oldMacPort : DPPort) (index : Nat) :
    Option PortRef :=
  match oldMacPort.portType with
  | some .internal => do
    match ← oldMacPort.linkedPort with
    | .sap _ => none
    | .port ref => do
      let peer ← portAt dps ref
      let oldOutportExt ← peer.forwardExtport
      dict.lookup oldOutportExt
  | some .external => dict.lookup ⟨old, index⟩
  | _ => none

/-- The search on another datapath for the port that leads to the new output port; the result is the
number of the port at this end. -/
def findLocalOutport (dps : List DP) (self : String) (newOut : PortRef) :
    List DPPort → Option (Option Nat)
  | [] => some none
  | port :: ports =>
    if port.portType = some .external then findLocalOutport dps self newOut ports
    else do
      match ← port.linkedPort with
      | .sap _ => none
      | .port ref => do
        let linked ← dps[ref.dp]?
        if linked.name = self ∧ port.forwardExtport = some newOut then do
          let localOutport ← portAt dps ref
          some localOutport.number
        else findLocalOutport dps self newOut ports

/-- The port of this datapath on which an address is reached that an old datapath has on a port. -/
def translateMac (dps : List DP) (self : DP) (old : Nat) (portno : Nat) : Option (Option Nat) := do
  let oldDP ← dps[old]?
  let index ← oldDP.getPortByNumber portno
  let oldMacPort ← oldDP.ports[index]?
  let newOut ← newOutport dps self.scalePortDict old oldMacPort index
  let destDP ← dps[newOut.dp]?
  if destDP.name = self.name then do
    let port ← portAt dps newOut
    some port.number
  else findLocalOutport dps self.name newOut destDP.ports

/-- The addresses of one old datapath. -/
def translateMactable (dps : List DP) (old : Nat) (self : DP) : Option DP := do
  let oldDP ← dps[old]?
  oldDP.macToPort.toList.foldlM (fun self (macSrc, portno) => do
    match ← translateMac dps self old portno with
    | some number => some { self with macToPort := self.macToPort.insert macSrc number }
    | none => some self) self

/-- `translate_mactable_scale`. The old datapaths are those of the dictionary, in the order in which the
set of them is walked. -/
def translateMactableScale (dps : List DP) (oldDPs : List Nat) (self : DP) : Option DP :=
  oldDPs.foldlM (fun self old => translateMactable dps old self) self

end UnOrchestrator.ElasticRouter
