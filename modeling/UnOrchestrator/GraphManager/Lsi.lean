import UnOrchestrator.Lib.Call
import UnOrchestrator.Lib.StringMap
import UnOrchestrator.Highlevel.Graph

/-!
# Logical switch instances

What the orchestrator knows about an LSI: the OpenFlow numbers of its ports, and the
virtual links that connect it with LSI-0. A tenant LSI reaches LSI-0 through virtual
links only. A link goes up when LSI-0 sends a packet over it to a port of a network
function or to a GRE endpoint, and down when the tenant LSI sends a packet over it to a
physical port or to an internal endpoint. Four maps record which link serves which of
these targets; one link may serve a target in each direction.

The source has four functions of each kind, one for each map. Here the four maps are
read and written through the target itself (`vlinkOf`, `addVlinkFor`,
`removeVlinkFor`), whose constructor says which map is meant.
-/

namespace UnOrchestrator

open Highlevel

/-- `VLink`. The remote side is always LSI-0, whose datapath identifier is left out. -/
structure VLink where
  ID : Nat
  localID : Nat := 0
  remoteID : Nat := 0
  deriving DecidableEq, Repr

/-- `LSI::nfData`, without the port types, which are only passed on to the switch. -/
structure NfData where
  portsNameOnSwitch : Std.ExtTreeMap Nat String compare := ∅
  portsSwitchId : StringMap Nat := ∅
  nfPortsId : List Nat := []

/-- The virtual links of an LSI and the targets they serve. -/
structure VLinks where
  virtualLinks : List VLink := []
  nfsVlinks : StringMap Nat := ∅
  portsVlinks : StringMap Nat := ∅
  endpointsVlinks : StringMap Nat := ∅
  endpointsGreVlinks : StringMap Nat := ∅

/-- `LSI`. -/
structure LSI extends VLinks where
  dpid : Nat := 0
  physicalPorts : StringMap Nat := ∅
  networkFunctions : StringMap NfData := ∅
  greEndpointsPorts : List EndPointGre := []
  endpointsPortsId : StringMap Nat := ∅

namespace VLinks

/-! ## The four maps -/

/-- The link that serves a target. -/
def vlinkOf (v : VLinks) : RuleRemovedInfo → Option Nat
  | .nfPort nfPort => v.nfsVlinks[nfPort]?
  | .port port => v.portsVlinks[port]?
  | .endpointInternal endpoint => v.endpointsVlinks[endpoint]?
  | .endpointGre endpoint => v.endpointsGreVlinks[endpoint]?

/-- `addNFvlink`, `addPortvlink`, `addEndpointInternalvlink` and `addEndpointGrevlink`. -/
def addVlinkFor (v : VLinks) (vlinkID : Nat) : RuleRemovedInfo → VLinks
  | .nfPort nfPort => { v with nfsVlinks := v.nfsVlinks.insert nfPort vlinkID }
  | .port port => { v with portsVlinks := v.portsVlinks.insert port vlinkID }
  | .endpointInternal endpoint =>
    { v with endpointsVlinks := v.endpointsVlinks.insert endpoint vlinkID }
  | .endpointGre endpoint =>
    { v with endpointsGreVlinks := v.endpointsGreVlinks.insert endpoint vlinkID }

/-- The erasure in `removeNFvlink`, `removePortvlink`, `removeEndPointvlink` and
`removeEndPointGrevlink`. -/
def eraseVlinkFor (v : VLinks) : RuleRemovedInfo → VLinks
  | .nfPort nfPort => { v with nfsVlinks := v.nfsVlinks.erase nfPort }
  | .port port => { v with portsVlinks := v.portsVlinks.erase port }
  | .endpointInternal endpoint => { v with endpointsVlinks := v.endpointsVlinks.erase endpoint }
  | .endpointGre endpoint => { v with endpointsGreVlinks := v.endpointsGreVlinks.erase endpoint }

/-- The four removals; a target without a link fails an assertion. -/
def removeVlinkFor (v : VLinks) (target : RuleRemovedInfo) : Except Abort VLinks :=
  if (v.vlinkOf target).isSome then .ok (v.eraseVlinkFor target) else .error .assertion

/-- The links of a map, as the loops of `removeUselessVlinks` meet them. -/
def occursIn (m : StringMap Nat) (vlinkID : Nat) : Bool := m.toList.any (fun p => p.2 == vlinkID)

/-- A target that a link serves on its way up. -/
def isUp : RuleRemovedInfo → Bool
  | .nfPort _ | .endpointGre _ => true
  | .port _ | .endpointInternal _ => false

/-- Some target in the given direction uses the link. -/
def usedInDirection (v : VLinks) (up : Bool) (vlinkID : Nat) : Bool :=
  if up then occursIn v.nfsVlinks vlinkID || occursIn v.endpointsGreVlinks vlinkID
  else occursIn v.portsVlinks vlinkID || occursIn v.endpointsVlinks vlinkID

/-- `setNFsVLinks` and its siblings: `std::map::insert` keeps the entries already there. -/
def setVLinks (old new : StringMap Nat) : StringMap Nat := new.insertMany old.toList

/-! ## The links -/

def getVirtualLink (v : VLinks) (ID : Nat) : Except Abort VLink :=
  Abort.orElse .assertion (v.virtualLinks.find? (fun l => l.ID = ID))

/-- `addVlink`; the source returns the position, which is the former number of links. -/
def addVlink (v : VLinks) (vlink : VLink) : VLinks :=
  { v with virtualLinks := v.virtualLinks ++ [vlink] }

/-- `setVLinkIDs`: a position past the end is undefined. -/
def setVLinkIDs (v : VLinks) (position localID remoteID : Nat) : Except Abort VLinks :=
  let setIDs := fun l : VLink => { l with localID := localID, remoteID := remoteID }
  if position < v.virtualLinks.length then
    .ok { v with virtualLinks := v.virtualLinks.modify position setIDs }
  else .error .undefinedBehaviour

def removeVlink (v : VLinks) (ID : Nat) : Except Abort VLinks :=
  if v.virtualLinks.any (fun l => l.ID = ID) then
    .ok { v with virtualLinks := v.virtualLinks.eraseP (fun l => l.ID = ID) }
  else .error .assertion

/-- The link that serves a target, as an object. -/
def linkOf (v : VLinks) (target : RuleRemovedInfo) : Option VLink :=
  (v.vlinkOf target).bind (fun ID => v.virtualLinks.find? (fun l => l.ID = ID))

variable {v : VLinks} {target other : RuleRemovedInfo} {vlinkID : Nat}

@[simp] theorem vlinkOf_addVlinkFor :
    (v.addVlinkFor vlinkID target).vlinkOf other =
      if target = other then some vlinkID else v.vlinkOf other := by
  cases target <;> cases other <;>
    simp [addVlinkFor, vlinkOf, StringMap.getElem?_insert]

@[simp] theorem vlinkOf_eraseVlinkFor :
    (v.eraseVlinkFor target).vlinkOf other =
      if target = other then none else v.vlinkOf other := by
  cases target <;> cases other <;>
    simp [eraseVlinkFor, vlinkOf, StringMap.getElem?_erase]

@[simp] theorem addVlinkFor_virtualLinks :
    (v.addVlinkFor vlinkID target).virtualLinks = v.virtualLinks := by
  cases target <;> rfl

@[simp] theorem eraseVlinkFor_virtualLinks :
    (v.eraseVlinkFor target).virtualLinks = v.virtualLinks := by
  cases target <;> rfl

theorem occursIn_iff {m : StringMap Nat} :
    occursIn m vlinkID = true ↔ ∃ k : String, m[k]? = some vlinkID := by
  simp only [occursIn, List.any_eq_true, beq_iff_eq, Prod.exists,
    Std.ExtTreeMap.mem_toList_iff_getElem?_eq_some]
  constructor
  · rintro ⟨k, id, h, rfl⟩
    exact ⟨k, h⟩
  · rintro ⟨k, h⟩
    exact ⟨k, vlinkID, h, rfl⟩

/-- The loops over the two maps of a direction look for a target of that direction. -/
theorem usedInDirection_iff {up : Bool} :
    v.usedInDirection up vlinkID = true ↔
      ∃ target, isUp target = up ∧ v.vlinkOf target = some vlinkID := by
  cases up with
  | true =>
    simp only [usedInDirection, if_true, Bool.or_eq_true, occursIn_iff]
    constructor
    · rintro (⟨k, h⟩ | ⟨k, h⟩)
      · exact ⟨.nfPort k, rfl, h⟩
      · exact ⟨.endpointGre k, rfl, h⟩
    · rintro ⟨target, hup, h⟩
      cases target with
      | nfPort k => exact .inl ⟨k, h⟩
      | endpointGre k => exact .inr ⟨k, h⟩
      | port k => cases hup
      | endpointInternal k => cases hup
  | false =>
    simp only [usedInDirection, Bool.false_eq_true, if_false, Bool.or_eq_true, occursIn_iff]
    constructor
    · rintro (⟨k, h⟩ | ⟨k, h⟩)
      · exact ⟨.port k, rfl, h⟩
      · exact ⟨.endpointInternal k, rfl, h⟩
    · rintro ⟨target, hup, h⟩
      cases target with
      | port k => exact .inl ⟨k, h⟩
      | endpointInternal k => exact .inr ⟨k, h⟩
      | nfPort k => cases hup
      | endpointGre k => cases hup

end VLinks

namespace LSI

/-! ## Ports -/

/-- `LSI::addNF`, for the ports of a network function and those its description gives a type
to. A port without a type ends the call before anything is stored. -/
def addNF (lsi : LSI) (nfId : String) (ports typed : List Nat) : LSI :=
  if ports.all typed.contains then
    let nfData := (lsi.networkFunctions[nfId]?).getD {}
    let portsSwitchId :=
      ports.foldl (fun m port => m.insert (nfPortName nfId port) 0) nfData.portsSwitchId
    { lsi with
      networkFunctions := lsi.networkFunctions.insert nfId
        { nfData with nfPortsId := nfData.nfPortsId ++ ports, portsSwitchId := portsSwitchId } }
  else lsi

def removeNF (lsi : LSI) (nfId : String) : LSI :=
  { lsi with networkFunctions := lsi.networkFunctions.erase nfId }

/-- `setNfSwitchPortsID`: the network function and each of the ports must be known. -/
def setNfSwitchPortsID (lsi : LSI) (nfId : String) (translation : List (String × Nat)) :
    Except Abort LSI := do
  let nfData ← Abort.orElse .assertion lsi.networkFunctions[nfId]?
  Abort.assert (translation.all (fun t => nfData.portsSwitchId.contains t.1))
  pure { lsi with
    networkFunctions := lsi.networkFunctions.insert nfId
      { nfData with portsSwitchId := nfData.portsSwitchId.insertMany translation } }

/-- `setNetworkFunctionsPortsNameOnSwitch`; a port that has a name keeps it. -/
def setNetworkFunctionsPortsNameOnSwitch (lsi : LSI) (nfId : String)
    (names : List (String × Nat)) : LSI :=
  match lsi.networkFunctions[nfId]? with
  | none => lsi
  | some nfData =>
    let named := names.foldl (fun m n => m.insertIfNew n.2 n.1) nfData.portsNameOnSwitch
    { lsi with
      networkFunctions :=
        lsi.networkFunctions.insert nfId { nfData with portsNameOnSwitch := named } }

def addEndpoint (lsi : LSI) (ep : EndPointGre) : LSI :=
  { lsi with greEndpointsPorts := lsi.greEndpointsPorts ++ [ep] }

/-- `setEndpointPortID`: the endpoint must be one of the LSI. -/
def setEndpointPortID (lsi : LSI) (ep : String) (id : Nat) : Except Abort LSI := do
  Abort.assert (lsi.greEndpointsPorts.any (fun e => e.id == ep))
  pure { lsi with endpointsPortsId := lsi.endpointsPortsId.insert ep id }

def removeEndpoint (lsi : LSI) (ep : String) : Except Abort LSI := do
  Abort.assert (lsi.greEndpointsPorts.any (fun e => e.id == ep))
  pure { lsi with greEndpointsPorts := lsi.greEndpointsPorts.eraseP (fun e => e.id == ep) }

/-- The OpenFlow number of a port of a network function. -/
def nfPort (lsi : LSI) (nfId portName : String) : Option Nat :=
  (lsi.networkFunctions[nfId]?).bind (fun nfData => nfData.portsSwitchId[portName]?)

/-- The constructor of a tenant LSI; the last argument has the ports with a type, for each
network function. -/
def new (networkFunctions : List VNFs) (greEndpointsPorts : List EndPointGre)
    (virtualLinks : List VLink) (typed : String → List Nat) : Except Abort LSI := do
  let lsi ← networkFunctions.foldlM (fun lsi nf => do
    let ports ← nf.getPortsId
    pure (addNF lsi nf.id ports (typed nf.id))) { virtualLinks := virtualLinks }
  pure { lsi with greEndpointsPorts := greEndpointsPorts }

/-! The operations on ports leave the virtual links alone. -/

section

variable {lsi lsi' : LSI} {nfId : String}

@[simp] theorem addNF_toVLinks {ports typed : List Nat} :
    (lsi.addNF nfId ports typed).toVLinks = lsi.toVLinks := by
  unfold addNF
  split <;> rfl

theorem setNfSwitchPortsID_toVLinks {translation : List (String × Nat)}
    (h : lsi.setNfSwitchPortsID nfId translation = .ok lsi') : lsi'.toVLinks = lsi.toVLinks := by
  simp only [setNfSwitchPortsID, Abort.bind_eq_ok, Abort.pure_eq_ok] at h
  obtain ⟨_, -, _, -, rfl⟩ := h
  rfl

@[simp] theorem setNetworkFunctionsPortsNameOnSwitch_toVLinks {names : List (String × Nat)} :
    (lsi.setNetworkFunctionsPortsNameOnSwitch nfId names).toVLinks = lsi.toVLinks := by
  unfold setNetworkFunctionsPortsNameOnSwitch
  split <;> rfl

theorem setEndpointPortID_toVLinks {ep : String} {id : Nat}
    (h : lsi.setEndpointPortID ep id = .ok lsi') : lsi'.toVLinks = lsi.toVLinks := by
  simp only [setEndpointPortID, Abort.bind_eq_ok, Abort.pure_eq_ok] at h
  obtain ⟨_, -, rfl⟩ := h
  rfl

theorem removeEndpoint_toVLinks {ep : String} (h : lsi.removeEndpoint ep = .ok lsi') :
    lsi'.toVLinks = lsi.toVLinks := by
  simp only [removeEndpoint, Abort.bind_eq_ok, Abort.pure_eq_ok] at h
  obtain ⟨_, -, rfl⟩ := h
  rfl

theorem new_toVLinks {networkFunctions : List VNFs} {greEndpointsPorts : List EndPointGre}
    {virtualLinks : List VLink} {typed : String → List Nat}
    (h : new networkFunctions greEndpointsPorts virtualLinks typed = .ok lsi) :
    lsi.toVLinks = { virtualLinks := virtualLinks } := by
  simp only [new, Abort.bind_eq_ok, Abort.pure_eq_ok] at h
  obtain ⟨filled, hfold, rfl⟩ := h
  refine Abort.foldlM_invariant (P := fun l => l.toVLinks = { virtualLinks := virtualLinks })
    (fun l nf l' hstep hl => ?_) _ _ filled hfold rfl
  simp only [Abort.bind_eq_ok, Abort.pure_eq_ok] at hstep
  obtain ⟨_, -, rfl⟩ := hstep
  exact addNF_toVLinks.trans hl

end

end LSI

end UnOrchestrator
