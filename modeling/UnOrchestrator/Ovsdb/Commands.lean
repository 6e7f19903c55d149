import UnOrchestrator.Lib.Paired
import UnOrchestrator.Ovsdb.Server
import UnOrchestrator.ParseAnswer

/-!
# The commands of the OVSDB plug-in

The plug-in numbers switches, ports and virtual links with counters of its own and keeps what it
created in global maps. For each switch there are three pairs of lists, for ordinary ports, for the
ends of virtual links and for GRE tunnels: the names under which the plug-in knows the ports, and
their uuids. A port is inserted with the whole column `ports` of its bridge, put together from the
three lists of uuids.

A map that the source reads with `operator[]` only is a function, with the default value for what
it does not have. The one exception is `switch_uuid`, over which a loop runs: to read it adds an
entry. The counters are `int`s, and a run ends where one would overflow. Left out are the sockets,
the row of the controller, the texts of the log and the counter of transactions.
-/

namespace UnOrchestrator.Ovsdb

/-- The kinds of ports that have lists of their own. -/
inductive Family where
  | port | vport | gport
  deriving DecidableEq, Repr

def Purpose.family : Purpose → Family
  | .physical | .nf _ | .ring _ => .port
  | .vlink => .vport
  | .gre _ => .gport

structure State where
  rnumber : Nat := 1
  dnumber : Nat := 1
  pnumber : Nat := 1
  gnumber : Nat := 0
  switchId : Nat → String := fun _ => ""
  switchUuid : Std.ExtTreeMap Nat String compare := ∅
  peerN : String → String := fun _ => ""
  /-- `port_l`, `vport_l` and `endpoint_l`. -/
  names : Family × Nat → List String := fun _ => []
  /-- `port_uuid`, `vport_uuid` and `gport_uuid`. -/
  uuids : Family × Nat → List String := fun _ => []
  virtualLinkId : String → List Nat := fun _ => []
  portId : Nat → String := fun _ => ""
  vlPortIDtoSwitchID : Nat → Nat := fun _ => 0
  vlLocalPortIDtoRemotePortID : Nat → Nat := fun _ => 0
  dpdkrFromUuid : String → Option String := fun _ => none
  dpdkrToUuid : String → Option String := fun _ => none
  peersNames : String → Option String := fun _ => none
  ipsecCertificate : String := ""
  server : Server := {}

namespace State

abbrev portL (s : State) (d : Nat) : List String := s.names (.port, d)
abbrev vportL (s : State) (d : Nat) : List String := s.names (.vport, d)
abbrev endpointL (s : State) (d : Nat) : List String := s.names (.gport, d)
abbrev portUuid (s : State) (d : Nat) : List String := s.uuids (.port, d)
abbrev vportUuid (s : State) (d : Nat) : List String := s.uuids (.vport, d)
abbrev gportUuid (s : State) (d : Nat) : List String := s.uuids (.gport, d)

/-- The ports that the plug-in writes into the column of a bridge. -/
def bridgePorts (s : State) (d : Nat) : List String := s.portUuid d ++ s.vportUuid d ++ s.gportUuid d

def pushName (s : State) (key : Family × Nat) (name : String) : State :=
  { s with names := Paired.push s.names key name }

def pushUuid (s : State) (key : Family × Nat) (u : String) : State :=
  { s with uuids := Paired.push s.uuids key u }

end State

open Call (get modify)

/-! ## Counters, scripts and transactions -/

/-- The `int`s are below it. -/
def intLimit : Nat := 2 ^ 31

/-- `n++`. -/
def next (n : Nat) : Except Abort Nat :=
  if n + 1 < intLimit then .ok (n + 1) else .error .undefinedBehaviour

def incRnumber : Call State Unit :=
  Call.update fun s => (next s.rnumber).map fun n => { s with rnumber := n }

def incDnumber : Call State Unit :=
  Call.update fun s => (next s.dnumber).map fun n => { s with dnumber := n }

def incPnumber : Call State Unit :=
  Call.update fun s => (next s.pnumber).map fun n => { s with pnumber := n }

def incGnumber : Call State Unit :=
  Call.update fun s => (next s.gnumber).map fun n => { s with gnumber := n }

/-- A script, and whether it was successful. -/
def runScript (env : Env) : Call State Bool := do
  let s ← get
  modify fun s => { s with server := { s.server with clock := s.server.clock + 1 } }
  pure (env.script s.server.clock)

/-- A transaction, and its answer. -/
def transact (env : Env) (txn : Transaction) : Call State (List Result) := do
  let s ← get
  match s.server.verdict env txn with
  | none => do
    modify fun s => { s with server := s.server.commit env txn }
    pure (s.server.results env txn)
  | some k => do
    modify fun s => { s with server := s.server.refuse txn }
    pure ((s.server.results env txn).take k ++ [.details])

/-- `switch_uuid[d]`. -/
def switchUuidAt (d : Nat) : Call State String := do
  modify fun s => { s with switchUuid := s.switchUuid.insertIfNew d "" }
  let s ← get
  pure (s.switchUuid.getD d "")

/-- The loop over an answer: the uuid in the second place is that of the port, and details of an
error throw. -/
def readResults (key : Family × Nat) : Nat → List Result → Call State Unit
  | _, [] => pure ()
  | i, .uuid u :: results => do
    modify fun s => if i = 1 then s.pushUuid key u else s
    readResults key (i + 1) results
  | i, .count :: results => readResults key (i + 1) results
  | _, .details :: _ => Call.throw

/-- The part that `add_port`, `add_endpoint` and `cmd_add_virtual_link` have in common: the port is
inserted with the next OpenFlow number, and its uuid is stored. -/
def insertPort (env : Env) (d : Nat) (name type : String) (options : List (String × String))
    (purpose : Purpose) : Call State Unit := do
  let bridge ← switchUuidAt d
  let s ← get
  let results ← transact env (.insertPort bridge (s.bridgePorts d)
    { name := name, ofport := s.rnumber, type := type, options := options, switch := d,
      purpose := purpose })
  readResults (purpose.family, d) 0 results
  incRnumber

/-! ## Ports, tunnels and the ends of virtual links -/

/-- `nf_port_info`. -/
structure NfPortInfo where
  name : String
  type : PortType
  id : Nat

/-- `find_free_dpdkr`. -/
def State.findFreeDpdkr (s : State) : Option String :=
  ((List.range 9998).map fun i => s!"dpdkr{i + 1}").find? fun name => (s.dpdkrToUuid name).isNone

/-- `map::insert`, which does not overwrite. -/
def insertNew (m : String → Option String) (k v : String) : String → Option String :=
  if (m k).isSome then m else Function.update m k (some v)

/-- `build_port_uuid_name`. The number is the global one, not that of the argument. -/
def State.buildPortUuidName (s : State) (portName : String) : String :=
  String.ofList ((s!"x{portName}".toList.map Char.toLower ++ s!"b{s.dnumber}".toList).map fun c =>
    if c = '_' then 'p' else if c = '-' then 's' else c)

/-- The name of a port on a switch before its type is considered. -/
def lsiPortName (d : Nat) (p : String) : String := s!"{d}_{p}"

/-- What `add_port` makes of the type of a port: its name, the name that is returned for it, the
type of its interface and its purpose. -/
structure PortChoice where
  portName : String
  nameOnSwitch : String
  type : String
  purpose : Purpose

def physicalChoice (p : String) : PortChoice :=
  ⟨p, p, if p.toList.take 4 = "dpdk".toList then "dpdk" else "", .physical⟩

/-- A port of a network function that keeps its name. -/
def plainChoice (base type : String) : PortChoice := ⟨base, base, type, .nf base⟩

/-- The port is the next free ring. -/
def ringChoice (ring : String) : PortChoice := ⟨ring, ring, "dpdkr", .ring ring⟩

/-- The switch gets the other end of a pair of interfaces. -/
def vethChoice (base : String) : PortChoice := ⟨base ++ ".d", base, "", .nf base⟩

def State.takeRing (s : State) (p ring : String) : State :=
  { s with dpdkrFromUuid := insertNew s.dpdkrFromUuid (s.buildPortUuidName p) ring
           dpdkrToUuid := insertNew s.dpdkrToUuid ring (s.buildPortUuidName p) }

def State.storePeer (s : State) (base : String) : State :=
  { s with peersNames := Function.update s.peersNames base (some (base ++ ".d")) }

def chooseRing (env : Env) (p : String) : Call State PortChoice :=
  if env.dpdk then do
    let s ← get
    match s.findFreeDpdkr with
    | none => Call.throw
    | some ring => do
      modify fun s => s.takeRing p ring
      pure (ringChoice ring)
  else Call.abort .assertion

def chooseUsvhost (env : Env) (base : String) : Call State PortChoice :=
  if env.dpdk then do
    let ok ← runScript env
    if ok then pure (plainChoice base "dpdkvhostuser") else Call.throw
  else Call.abort .assertion

def chooseVeth (env : Env) (base : String) : Call State PortChoice := do
  let ok ← runScript env
  if ok then do
    modify fun s => s.storePeer base
    pure (vethChoice base)
  else Call.throw

def choosePort (env : Env) (p : String) (d : Nat) : Option PortType → Call State PortChoice
  | none => pure (physicalChoice p)
  | some .ivshmem | some .dpdkr => chooseRing env p
  | some .usvhost => chooseUsvhost env (lsiPortName d p)
  | some .veth => chooseVeth env (lsiPortName d p)
  | some .vhost => pure (plainChoice (lsiPortName d p) "internal")

/-- The ports that a script brings up. -/
def activated : Option PortType → Bool
  | some .vhost | some .veth => true
  | _ => false

/-- `add_port`, for a physical port or for a port of a network function. The name of the port on the
switch is returned. -/
def addPort (env : Env) (p : String) (d : Nat) (nfPort : Option PortType) : Call State String := do
  let choice ← choosePort env p d nfPort
  modify fun s => s.pushName (.port, d) choice.portName
  insertPort env d choice.portName choice.type [] choice.purpose
  if activated nfPort then do
    let ok ← runScript env
    Call.assert ok
  pure choice.nameOnSwitch

def greOptions (certificate localIp remoteIp key isSafe : String) : List (String × String) :=
  (if isSafe = "true" then [("certificate", certificate), ("pmtud", "false"), ("psk", "test")]
    else []) ++ [("local_ip", localIp), ("remote_ip", remoteIp), ("key", key)]

/-- `add_endpoint`. -/
def addEndpointPort (env : Env) (d : Nat) (localIp remoteIp key portName isSafe id : String) :
    Call State Unit := do
  let s ← get
  insertPort env d portName (if isSafe = "true" then "ipsec_gre" else "gre")
    (greOptions s.ipsecCertificate localIp remoteIp key isSafe) (.gre id)

/-- `cmd_add_virtual_link`: one end of a virtual link. -/
def cmdAddVirtualLink (env : Env) (vrt trv : String) (d : Nat) : Call State Unit :=
  insertPort env d vrt "patch" [("peer", trv)] .vlink

/-- `cmd_delete_virtual_link`. -/
def cmdDeleteVirtualLink (env : Env) (d idp : Nat) : Call State Unit := do
  let bridge ← switchUuidAt d
  let s ← get
  let name := s.portId idp
  match ← Call.eval (Failure.ofAbort (Paired.find name (s.vportL d) (s.vportUuid d))) with
  | none => pure ()
  | some u =>
    modify fun s => { s with
      uuids := Function.update s.uuids (.vport, d) ((s.vportUuid d).filter (· ≠ u))
      names := Function.update s.names (.vport, d) ((s.vportL d).filter (· ≠ name)) }
  let s ← get
  let _ ← transact env (.setPorts bridge (s.bridgePorts d))

/-! ## The commands -/

structure CreateLsiIn where
  physicalPorts : List String := []
  networkFunctions : StringMap (List NfPortInfo) := ∅
  endpoints : StringMap (Fin 5 → String) := ∅
  virtualLinksRemoteLSI : List Nat := []
  ipsecCertificate : String := ""

structure CreateLsiOut where
  dpid : Nat
  physicalPorts : StringMap Nat
  networkFunctionsPorts : StringMap (StringMap Nat)
  endpointsPorts : StringMap Nat
  nfPortsNameOnSwitch : StringMap (List String)
  virtualLinks : List (Nat × Nat)
  nfPortsNameAndId : StringMap (StringMap Nat)

/-- The OpenFlow number of the port that was inserted last. -/
def lastPort : Call State Nat := do
  let s ← get
  pure (s.rnumber - 1)

/-- The uuid of a bridge in the answer to its insertion. -/
def readBridge (results : List Result) : Call State String :=
  if results.contains .details then Call.throw
  else
    match results[results.length - 2]? with
    | some (.uuid u) => pure u
    | _ => pure ""

/-- A physical port of a new switch. Its name is stored once more. -/
def addPhysicalPort (env : Env) (d : Nat) (p : String) : Call State (String × Nat) := do
  let _ ← addPort env p d none
  modify fun s => s.pushName (.port, d) p
  let id ← lastPort
  pure (p, id)

/-- A port of a network function that was added. -/
structure AddedPort where
  info : NfPortInfo
  nameOnSwitch : String
  id : Nat

def addNfPort (env : Env) (d : Nat) (info : NfPortInfo) : Call State AddedPort := do
  let nameOnSwitch ← addPort env info.name d (some info.type)
  let id ← lastPort
  pure ⟨info, nameOnSwitch, id⟩

def addNetworkFunction (env : Env) (d : Nat) (nf : String × List NfPortInfo) :
    Call State (String × List AddedPort) := do
  let ports ← Call.gather (addNfPort env d) nf.2
  pure (nf.1, ports)

def vportName (n : Nat) : String := s!"vport{n}"

def greName (n : Nat) : String := s!"gre{n}"

def bridgeName (d : Nat) : String := s!"Bridge{d}"

/-- A GRE tunnel of a new switch. The key comes first in the parameters. -/
def addLsiEndpoint (env : Env) (d : Nat) (ep : String × (Fin 5 → String)) :
    Call State (String × Nat) := do
  let s ← get
  incGnumber
  addEndpointPort env d (ep.2 1) (ep.2 2) (ep.2 0) (greName s.gnumber) (ep.2 4) ep.1
  modify fun s => s.pushName (.gport, d) ep.1
  let id ← lastPort
  pure (ep.1, id)

/-- A round of the first loop over the virtual links: the end on the new switch. The other end gets
the number that it will have once all ends on the new switch are there. -/
def addLocalEnd (env : Env) (d count : Nat) (remote : Nat) : Call State (String × Nat × Nat) := do
  let s ← get
  let vrt := vportName s.pnumber
  incPnumber
  let s ← get
  let trv := vportName s.pnumber
  modify fun s => { s with peerN := Function.update s.peerN trv vrt }
  cmdAddVirtualLink env vrt trv d
  let s ← get
  let idLocal := s.rnumber - 1
  let idRemote := s.rnumber + count - 1
  modify fun s => { s with
    portId := Function.update (Function.update s.portId idLocal vrt) idRemote trv
    virtualLinkId := Paired.push s.virtualLinkId (bridgeName d) idLocal
    vlPortIDtoSwitchID :=
      Function.update (Function.update s.vlPortIDtoSwitchID idLocal d) idRemote remote
    vlLocalPortIDtoRemotePortID :=
      Function.update s.vlLocalPortIDtoRemotePortID idLocal idRemote }
  modify fun s => s.pushName (.vport, d) vrt
  incPnumber
  pure (trv, idLocal, idRemote)

/-- A round of the second loop: the end on the other switch. -/
def addRemoteEnd (env : Env) (link : Nat × String) : Call State Unit := do
  incPnumber
  modify fun s => s.pushName (.vport, link.1) link.2
  let s ← get
  cmdAddVirtualLink env link.2 (s.peerN link.2) link.1
  incPnumber

/-- The maps of identifiers that a new switch is answered with. -/
def idMap (ids : List (String × Nat)) : StringMap Nat :=
  ids.foldl (fun m entry => m.insert entry.1 entry.2) ∅

/-- `cmd_editconfig_lsi`. -/
def createLsi (env : Env) (cli : CreateLsiIn) : Call State CreateLsiOut := do
  modify fun s => { s with ipsecCertificate := cli.ipsecCertificate }
  let s ← get
  let d := s.dnumber
  modify fun s => { s with switchId := Function.update s.switchId d (bridgeName d) }
  let results ← transact env (.createBridge (bridgeName d))
  let bridge ← readBridge results
  modify fun s => { s with switchUuid := s.switchUuid.insert d bridge }
  let physical ← Call.gather (addPhysicalPort env d) cli.physicalPorts
  let functions ← Call.gather (addNetworkFunction env d) cli.networkFunctions.toList
  let endpoints ← Call.gather (addLsiEndpoint env d) cli.endpoints.toList
  let s ← get
  let nfnumberOld := s.pnumber
  let links ← Call.gather (addLocalEnd env d cli.virtualLinksRemoteLSI.length)
    cli.virtualLinksRemoteLSI
  modify fun s => { s with pnumber := nfnumberOld }
  incDnumber
  Call.each (addRemoteEnd env) (cli.virtualLinksRemoteLSI.zip (links.map Prod.fst))
  pure { dpid := d
         physicalPorts := idMap physical
         networkFunctionsPorts := functions.foldl (fun m nf =>
           m.insert nf.1 (idMap (nf.2.map fun port => (port.info.name, port.id)))) ∅
         endpointsPorts := idMap endpoints
         nfPortsNameOnSwitch := functions.foldl (fun m nf =>
           m.insert nf.1 (nf.2.map AddedPort.nameOnSwitch)) ∅
         virtualLinks := links.map Prod.snd
         nfPortsNameAndId := functions.foldl (fun m nf =>
           m.insert nf.1 (idMap (nf.2.map fun port => (port.nameOnSwitch, port.info.id)))) ∅ }

/-- The entries of the maps between ports and rings that a port of a switch leads to are erased. -/
def eraseRing (s : State) (name : String) : State :=
  match s.dpdkrFromUuid name with
  | none => s
  | some ring => { s with dpdkrToUuid := Function.update s.dpdkrToUuid ring none
                          dpdkrFromUuid := Function.update s.dpdkrFromUuid name none }

/-- A virtual link of a switch that goes away. -/
def deleteLinkOf (env : Env) (id : Nat) : Call State Unit := do
  let s ← get
  cmdDeleteVirtualLink env (s.vlPortIDtoSwitchID id) id
  let s ← get
  cmdDeleteVirtualLink env (s.vlPortIDtoSwitchID (s.vlLocalPortIDtoRemotePortID id))
    (s.vlLocalPortIDtoRemotePortID id)

/-- What the maps have of a switch that goes away. The lists of GRE tunnels stay. -/
def State.forget (s : State) (d : Nat) : State :=
  { s with
    names := Function.update (Function.update s.names (.port, d) []) (.vport, d) []
    uuids := Function.update (Function.update s.uuids (.port, d) []) (.vport, d) []
    virtualLinkId := Function.update s.virtualLinkId (s.switchId d) []
    switchUuid := s.switchUuid.erase d }

/-- `cmd_editconfig_lsi_delete`. -/
def destroyLsi (env : Env) (d : Nat) : Call State Unit := do
  let s ← get
  Call.each (deleteLinkOf env) (s.virtualLinkId (s.switchId d))
  modify fun s => (s.portL d).foldl eraseRing s
  modify fun s => s.forget d
  let s ← get
  let _ ← transact env (.setBridges (s.switchUuid.toList.map Prod.snd))

structure AddNFportsOut where
  nfId : String
  ports : StringMap Nat
  portsNameOnSwitch : List String
  portNamesAndId : StringMap Nat

/-- `cmd_editconfig_NFPorts`. The names on the switch come with the OpenFlow numbers. -/
def addNFPorts (env : Env) (d : Nat) (nfId : String) (ports : List NfPortInfo) :
    Call State AddNFportsOut := do
  let added ← Call.gather (addNfPort env d) ports
  pure { nfId := nfId
         ports := idMap (added.map fun port => (port.info.name, port.id))
         portsNameOnSwitch := added.map AddedPort.nameOnSwitch
         portNamesAndId := idMap (added.map fun port => (port.nameOnSwitch, port.id)) }

/-- `cmd_editconfig_endpoint`. The local address comes first in the parameters. -/
def addEndpoint (env : Env) (d : Nat) (id : String) (params : Fin 5 → String) : Call State Nat := do
  let s ← get
  incGnumber
  addEndpointPort env d (params 0) (params 2) (params 1) (greName s.gnumber) (params 4) id
  modify fun s => s.pushName (.gport, d) id
  lastPort

/-- One port of a request to remove ports. -/
def removePort (d : Nat) (name : String) : Call State Unit := do
  let s ← get
  match ← Call.eval (Failure.ofAbort (Paired.find name (s.portL d) (s.portUuid d))) with
  | none => pure ()
  | some u =>
    modify fun s => { s with
      names := Function.update s.names (.port, d) ((s.portL d).filter (· ≠ name))
      uuids := Function.update s.uuids (.port, d) ((s.portUuid d).filter (· ≠ u)) }

/-- `cmd_editconfig_NFPorts_delete`. A port with a peer is known to the switch by its peer. -/
def destroyNFPorts (env : Env) (d : Nat) (nfPorts : StringSet) : Call State Unit := do
  if nfPorts.isEmpty then pure ()
  else do
    let s ← get
    let portsToBeRemoved := nfPorts.toList.map fun port => (s.peersNames port).getD port
    let bridge ← switchUuidAt d
    Call.each (removePort d) portsToBeRemoved
    let s ← get
    let _ ← transact env (.setPorts bridge (s.bridgePorts d))

/-- `cmd_editconfig_endpoint_delete`. -/
def destroyEndpoint (env : Env) (d : Nat) (id : String) : Call State Unit := do
  if id = "" then pure ()
  else do
    let bridge ← switchUuidAt d
    let s ← get
    match ← Call.eval (Failure.ofAbort (Paired.find id (s.endpointL d) (s.gportUuid d))) with
    | none => pure ()
    | some u =>
      modify fun s => { s with
        uuids := Function.update s.uuids (.gport, d) ((s.gportUuid d).filter (· ≠ u))
        names := Function.update s.names (.gport, d) ((s.endpointL d).erase id) }
    let s ← get
    let _ ← transact env (.setPorts bridge (s.bridgePorts d))

/-- `cmd_addVirtualLink`. -/
def addVirtualLink (env : Env) (dA dB : Nat) : Call State (Nat × Nat) := do
  let s ← get
  let vrt := vportName s.pnumber
  incPnumber
  let s ← get
  let trv := vportName s.pnumber
  incPnumber
  cmdAddVirtualLink env vrt trv dA
  cmdAddVirtualLink env trv vrt dB
  let s ← get
  let idA := s.rnumber - 2
  let idB := s.rnumber - 1
  modify fun s => { s with
    virtualLinkId := Paired.push s.virtualLinkId (s.switchId dA) idA
    portId := Function.update (Function.update s.portId idA vrt) idB trv
    vlPortIDtoSwitchID := Function.update (Function.update s.vlPortIDtoSwitchID idA dA) idB dB
    vlLocalPortIDtoRemotePortID := Function.update s.vlLocalPortIDtoRemotePortID idA idB }
  modify fun s => s.pushName (.vport, dA) vrt
  modify fun s => s.pushName (.vport, dB) trv
  modify fun s => { s with peerN := Function.update (Function.update s.peerN trv vrt) vrt trv }
  pure (idA, idB)

/-- `list::remove` on the links of a switch. -/
def State.removeLink (s : State) (d id : Nat) : State :=
  { s with
    virtualLinkId := Function.update s.virtualLinkId (s.switchId d)
      ((s.virtualLinkId (s.switchId d)).filter (· ≠ id)) }

/-- The names in `cmd_destroyVirtualLink` are the empty ones that they were initialised with. -/
def State.removeEmptyName (s : State) (d : Nat) : State :=
  { s with names := Function.update s.names (.vport, d) ((s.vportL d).filter (· ≠ "")) }

/-- `cmd_destroyVirtualLink`. -/
def destroyVirtualLink (env : Env) (dA idA dB idB : Nat) : Call State Unit := do
  cmdDeleteVirtualLink env dA idA
  cmdDeleteVirtualLink env dB idB
  modify fun s => { s with
    vlPortIDtoSwitchID := Function.update (Function.update s.vlPortIDtoSwitchID idA 0) idB 0 }
  modify fun s => (s.removeEmptyName dA).removeEmptyName dB
  modify fun s => (s.removeLink dA idA).removeLink dB idB

/-! ## Runs -/

inductive Operation where
  | createLsi (cli : CreateLsiIn)
  | destroyLsi (d : Nat)
  | addNFPorts (d : Nat) (nfId : String) (ports : List NfPortInfo)
  | destroyNFPorts (d : Nat) (nfPorts : StringSet)
  | addEndpoint (d : Nat) (id : String) (params : Fin 5 → String)
  | destroyEndpoint (d : Nat) (id : String)
  | addVirtualLink (dA dB : Nat)
  | destroyVirtualLink (dA idA dB idB : Nat)

/-- What an operation returns. -/
inductive Output where
  | lsi (out : CreateLsiOut)
  | nfPorts (out : AddNFportsOut)
  | endpoint (id : String) (port : Nat)
  | link (idA idB : Nat)
  | done

def perform (env : Env) : Operation → Call State Output
  | .createLsi cli => Output.lsi <$> createLsi env cli
  | .destroyLsi d => (fun _ => Output.done) <$> destroyLsi env d
  | .addNFPorts d nfId ports => Output.nfPorts <$> addNFPorts env d nfId ports
  | .destroyNFPorts d nfPorts => (fun _ => Output.done) <$> destroyNFPorts env d nfPorts
  | .addEndpoint d id params => Output.endpoint id <$> addEndpoint env d id params
  | .destroyEndpoint d id => (fun _ => Output.done) <$> destroyEndpoint env d id
  | .addVirtualLink dA dB => (fun ids => Output.link ids.1 ids.2) <$> addVirtualLink env dA dB
  | .destroyVirtualLink dA idA dB idB =>
    (fun _ => Output.done) <$> destroyVirtualLink env dA idA dB idB

/-- The state after an operation, whether it returned or threw. -/
def step (env : Env) (s : State) (op : Operation) : Except Abort State :=
  (perform env op s).map Prod.snd

/-- The operation returns, and no transaction of it failed. -/
def Succeeds (env : Env) (s : State) (op : Operation) : Prop :=
  ∃ out s', perform env op s = .ok (some out, s') ∧ s'.server.failed = s.server.failed

instance (env : Env) (s : State) (op : Operation) : Decidable (Succeeds env s op) :=
  inferInstanceAs (Decidable (Call.Returns (perform env op)
    (fun _ s' => s'.server.failed = s.server.failed) s))

/-- Uuids that are numbers, and no failures. -/
def plainEnv : Env where
  uuid n := s!"u{n}"
  uuid_injective n m h := by simpa [Nat.repr_inj] using h
  uuid_ne_empty n h := by simp at h

end UnOrchestrator.Ovsdb
