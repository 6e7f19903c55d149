import UnOrchestrator.ElasticRouter.Datapath
import UnOrchestrator.Lib.CString

/-!
# Scaling the elastic router

`scale` replaces the datapaths of the router: it gets groups of external ports of the old ones and builds
a datapath for each group, with a port for each port of the group. The new datapaths are linked with each
other, and each internal port gets an external port of its datapath to forward to. The new datapaths are
then added to the NF-FG that is sent to the orchestrator.

Of the NF-FG the network functions are kept, with their ports; flow entries are left out, and so are
the messages to the GUI. The exception of `add_ovs_vnf` in an NF-FG without the control port of the
controller comes behind the topology, and is left to the protocol (`hasControlPort`).
-/

namespace UnOrchestrator.ElasticRouter

/-- A network function of the NF-FG, with the identifiers and the names of its ports. -/
structure Vnf where
  id : String
  name : String
  type : String
  ports : List (String × String)
  deriving DecidableEq

/-- The state of the control application. -/
structure Router where
  dps : List DP
  dpInstances : StringMap Nat
  nffg : List Vnf

/-! ## Numbers of datapaths -/

/-- What follows the last occurrence of a word, if there is one: the last part of the text split at the
word. -/
def afterLast (word : List Char) : List Char → Option (List Char)
  | [] => none
  | c :: text =>
    match afterLast word text with
    | some rest => some rest
    | none => if word.isPrefixOf (c :: text) then some ((c :: text).drop word.length) else none

/-- `int` of a text: decimal digits behind an optional sign, with spaces around them. -/
def int (text : List Char) : Option Int :=
  let text := ((text.dropWhile CString.isSpace).reverse.dropWhile CString.isSpace).reverse
  let digits (text : List Char) : Option Nat :=
    if text ≠ [] ∧ text.all Char.isDigit then
      some (text.foldl (fun n c => n * 10 + (c.toNat - '0'.toNat)) 0)
    else none
  match text with
  | '-' :: text => (digits text).map (fun n => -(n : Int))
  | '+' :: text => (digits text).map Int.ofNat
  | text => (digits text).map Int.ofNat

/-- The numbers of the OVS network functions; it raises an exception when one of them has none. -/
def ovsNumbers (nffg : List Vnf) : Option (List Int) :=
  (nffg.filterMap (fun vnf => afterLast "ovs".toList vnf.id.toList)).mapM int

/-- The sorted numbers in groups of successive ones. -/
def successive (numbers : List Int) : List (List Int) :=
  (numbers.zipIdx.splitBy (fun a b => (a.2 : Int) - a.1 == (b.2 : Int) - b.1)).map
    (fun group => group.map Prod.fst)

/-- `get_next_ovs_id`: the number behind the first group. -/
def getNextOvsId (nffg : List Vnf) (add : Int) : Option Int := do
  let idList ← ovsNumbers nffg
  let group ← (successive (idList.insertionSort (· ≤ ·))).head?
  let lowest ← group.min?
  let highest ← group.max?
  let maxId := if lowest > 1 then 0 else highest
  let maxId := if maxId = 99999999 then 0 else maxId
  some (maxId + 1 + add)

def ovsName (ovsId : Int) : String :=
  "ovs" ++ toString ovsId

/-! ## The new datapaths -/

/-- The new datapath of a group, with its external ports. -/
def newDatapath (dps : List DP) (ovsId : Int) (portList : List PortRef) : DP :=
  portList.zipIdx.foldl (fun dp (oldPort, i) =>
    dp.addPort (DP.ifname (ovsName ovsId) i) .external ((portAt dps oldPort).bind DPPort.linkedPort))
    { name := ovsName ovsId, id := ovsId }

/-- The loop over the groups; it also returns the new datapaths and which port replaces which. -/
def addDatapaths (r : Router) (ovsId : Int) :
    List (List PortRef) → Router × List Nat × PortDict
  | [] => (r, [], [])
  | portList :: scalingPorts =>
    let d := r.dps.length
    let r' := { r with
      dps := r.dps ++ [newDatapath r.dps ovsId portList]
      dpInstances := r.dpInstances.insert (ovsName ovsId) d }
    let (r'', newDPs, dict) := addDatapaths r' (ovsId + 1) scalingPorts
    (r'', d :: newDPs,
      dict ++ (portList.zipIdx.map (fun (oldPort, i) => (oldPort, ⟨d, i⟩))).reverse)

/-- The datapaths of the list that have another name. -/
def otherDPs (dps : List DP) (newDPs : List Nat) (d : Nat) : List Nat :=
  newDPs.filter (fun d' => (dps[d]?).map DP.name != (dps[d']?).map DP.name)

/-- Two datapaths get a port each, and the ports are linked. -/
def link (dps : List DP) (d linkedDP : Nat) : Option (List DP) := do
  let dp ← dps[d]?
  let linked ← dps[linkedDP]?
  let ifname1 := DP.ifname dp.name dp.ports.length
  let ifname2 := DP.ifname linked.name linked.ports.length
  let dps := dps.modify d (fun dp => dp.addPort ifname1 .internal none)
  let linkedPort1 := getPort dps d ifname1
  let dps := dps.modify linkedDP (fun dp => dp.addPort ifname2 .internal (linkedPort1.map .port))
  let linkedPort2 := getPort dps linkedDP ifname2
  let port ← getPort dps d ifname1
  some (modifyPort dps port (fun port => { port with linkedPort := linkedPort2.map .port }))

/-- The round of the loop over the new datapaths that links one of them to the others. -/
def linkDatapath (newDPs : List Nat) (dict : PortDict) (dps : List DP) (d : Nat) :
    Option (List DP) :=
  let dps := dps.modify d (fun dp => { dp with scalePortDict := dict })
  (otherDPs dps newDPs d).foldlM (fun dps linkedDP =>
    if ((dps[d]?).map (fun dp => dp.checkConnected linkedDP)).getD false then some dps
    else link dps d linkedDP) dps

/-- The positions of the ports of a kind. -/
def portsOfType (portType : PortType) (dp : DP) : List Nat :=
  (List.range dp.ports.length).filter (fun p => (dp.ports[p]?).bind DPPort.portType == some portType)

/-- The first of the internal ports that leads to a datapath and forwards to no port yet. -/
def findFreePort (dps : List DP) (d : Nat) (linkedName : Option String) :
    List Nat → Option (Option Nat)
  | [] => some none
  | index :: internalPorts => do
    let port ← portAt dps ⟨d, index⟩
    let linkedDP ← port.linkedPort.bind Link.dp
    let linked ← dps[linkedDP]?
    if some linked.name = linkedName ∧ port.forwardExtport = none then some (some index)
    else findFreePort dps d linkedName internalPorts

/-- The round of the last loop for an external port and another datapath. -/
def forwardPort (d : Nat) (internalPorts : List Nat) (extPort : Nat) (dps : List DP)
    (linkedDP : Nat) : Option (List DP) := do
  match ← findFreePort dps d ((dps[linkedDP]?).map DP.name) internalPorts with
  | none => some dps
  | some index =>
    some (modifyPort dps ⟨d, index⟩ (fun port => { port with forwardExtport := some ⟨d, extPort⟩ }))

/-- The round of the last loop for one datapath. -/
def forwardDatapath (newDPs : List Nat) (dps : List DP) (d : Nat) : Option (List DP) := do
  let dp ← dps[d]?
  let internalPorts := portsOfType .internal dp
  (portsOfType .external dp).foldlM (fun dps extPort =>
    (otherDPs dps newDPs d).foldlM (forwardPort d internalPorts extPort) dps) dps

/-- The network function that `add_ovs_vnf` adds for a datapath. -/
def ovsVnf (nffgId name : String) (numports : Nat) : Vnf where
  id := nffgId
  name := name
  type := "ovs"
  ports := ("0", "public-port") :: ("1", "control-port") ::
    (List.range numports).map (fun x => (toString (x + 2), name ++ "_eth" ++ toString (x + 2 - 2)))

/-- `add_ovs_vnf` also looks up the control port of the controller, to connect the two. -/
def hasControlPort (nffg : List Vnf) : Bool :=
  ((nffg.find? fun vnf => vnf.id == "ctrl").map fun vnf => vnf.ports.any fun port => port.1 == "1").getD false

/-- What `scale` leads to: the state with the new datapaths, and the NF-FG that is sent. -/
structure Scaled where
  router : Router
  newDPs : List Nat
  scalePortDict : PortDict
  nffgIntermediate : List Vnf
  vnfsToBeDeleted : List String

/-- `scale`, for the answer of the orchestrator to the NF-FG. -/
def scale (answer : List Vnf → List Vnf) (r : Router) (scalingPorts : List (List PortRef)) :
    Option Scaled := do
  let id ← getNextOvsId r.nffg 0
  let (r, newDPs, dict) := addDatapaths r id scalingPorts
  let dps ← newDPs.foldlM (linkDatapath newDPs dict) r.dps
  let dps ← newDPs.foldlM (forwardDatapath newDPs) dps
  let nffg := r.nffg ++ (newDPs.filterMap (fun d => dps[d]?)).map
    (fun dp => ovsVnf dp.name dp.name dp.ports.length)
  some
    { router := { r with dps := dps, nffg := answer nffg }
      newDPs := newDPs
      scalePortDict := dict
      nffgIntermediate := nffg
      vnfsToBeDeleted :=
        (dict.filterMap (fun entry => (dps[entry.1.dp]?).map DP.name)).dedup }

end UnOrchestrator.ElasticRouter
