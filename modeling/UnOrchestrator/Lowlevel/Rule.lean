import Mathlib.Data.List.ReduceOption
import UnOrchestrator.Lib.CString
import UnOrchestrator.Graph.Match

/-!
# Low-level rules and the flow-mods they are sent as

A low-level rule is what the table of one LSI holds: a match on an input port and
header fields, one output with tag operations before it, and a priority. Rules
are compared by `Rule.isEqual`, which leaves the identifier out and looks at the
output port only, not at the tag operations.

A rule reaches the switch as a flow-mod. The switch identifies an entry by the
match and the priority of the message (`Rule.flowKey`); the entry's contents are
the actions (`Rule.flowActions`). `flowKey_eq_of_isEqual` relates the two
comparisons: equal rules share their entry, but rules can share an entry without
being equal, and equal rules can disagree on the actions.

Addresses are parsed by the OpenFlow library, which stays a parameter (`Rofl`).
-/

namespace UnOrchestrator.Lowlevel

/-- The address parsers of the OpenFlow library. -/
structure Rofl where
  macaddr : String → Nat
  addressIn4 : String → Nat
  addressIn6 : String → Nat
  deriving Inhabited

/-- The match fields of a flow-mod. -/
inductive OxmField where
  | inPort (port : Nat)
  | ethSrc (address : Nat) (mask : Option Nat)
  | ethDst (address : Nat) (mask : Option Nat)
  | ethType (type : UInt16)
  | vlanVid (vid : UInt16)
  | vlanPresent
  | vlanUntagged
  | vlanPcp (pcp : UInt8)
  | ipDscp (dscp : UInt8)
  | ipEcn (ecn : UInt8)
  | ipProto (proto : UInt8)
  | ipv4Src (address : Nat) (mask : Option Nat)
  | ipv4Dst (address : Nat) (mask : Option Nat)
  | tcpSrc (port : UInt16)
  | tcpDst (port : UInt16)
  | udpSrc (port : UInt16)
  | udpDst (port : UInt16)
  | sctpSrc (port : UInt16)
  | sctpDst (port : UInt16)
  | icmpv4Type (type : UInt8)
  | icmpv4Code (code : UInt8)
  | arpOpcode (opcode : UInt16)
  | arpSpa (address : Nat) (mask : Option Nat)
  | arpTpa (address : Nat) (mask : Option Nat)
  | arpSha (address : Nat)
  | arpTha (address : Nat)
  | ipv6Src (address : Nat) (mask : Option Nat)
  | ipv6Dst (address : Nat) (mask : Option Nat)
  | ipv6Flabel (label : UInt32)
  | icmpv6Type (type : UInt8)
  | icmpv6Code (code : UInt8)
  | ipv6NdTarget (address : Nat)
  | ipv6NdSll (address : Nat)
  | ipv6NdTll (address : Nat)
  | mplsLabel (label : UInt32)
  | mplsTc (tc : UInt8)
  | tunnelId (key : Nat)
  deriving DecidableEq, Repr

/-! ## Matches -/

/-- The VLAN constraint of a message; an identifier is sent with the presence bit. -/
def vlanField (m : Graph.Match) : Option OxmField :=
  if m.isVlanID || m.isEndpointVlanID then some (.vlanVid (m.vlanID ||| 0x1000))
  else if m.isAnyVlan then some .vlanPresent
  else if m.isNoVlan then some .vlanUntagged
  else none

/-- A transport port is sent for its own protocol, and when it is not zero. -/
def transportField (isProtocol : Bool) (port : UInt16) (field : UInt16 → OxmField) :
    Option OxmField :=
  if isProtocol && port != 0 then some (field port) else none

/-- The header part of `lowlevel::Match::fillFlowmodMessage`. The ICMPv6 code is sent as the
value of its flag, which is 1, instead of its own. -/
def oxmFields (rofl : Rofl) (m : Graph.Match) : List OxmField :=
  [ m.ethSrc.map (fun a => .ethSrc (rofl.macaddr a) (m.ethSrcMask.map rofl.macaddr)),
    m.ethDst.map (fun a => .ethDst (rofl.macaddr a) (m.ethDstMask.map rofl.macaddr)),
    m.ethType.map .ethType,
    vlanField m,
    m.vlanPCP.map .vlanPcp,
    m.ipDSCP.map .ipDscp,
    m.ipECN.map .ipEcn,
    m.ipProto.map .ipProto,
    m.ipv4Src.map (fun a => .ipv4Src (rofl.addressIn4 a) (m.ipv4SrcMask.map rofl.addressIn4)),
    m.ipv4Dst.map (fun a => .ipv4Dst (rofl.addressIn4 a) (m.ipv4DstMask.map rofl.addressIn4)),
    transportField m.isTcpProtocol m.transportSrcPort .tcpSrc,
    transportField m.isTcpProtocol m.transportDstPort .tcpDst,
    transportField m.isUdpProtocol m.transportSrcPort .udpSrc,
    transportField m.isUdpProtocol m.transportDstPort .udpDst,
    transportField m.isSctpProtocol m.transportSrcPort .sctpSrc,
    transportField m.isSctpProtocol m.transportDstPort .sctpDst,
    m.icmpv4Type.map .icmpv4Type,
    m.icmpv4Code.map .icmpv4Code,
    m.arpOpcode.map .arpOpcode,
    m.arpSpa.map (fun a => .arpSpa (rofl.addressIn4 a) (m.arpSpaMask.map rofl.addressIn4)),
    m.arpTpa.map (fun a => .arpTpa (rofl.addressIn4 a) (m.arpTpaMask.map rofl.addressIn4)),
    m.arpSha.map (fun a => .arpSha (rofl.macaddr a)),
    m.arpTha.map (fun a => .arpTha (rofl.macaddr a)),
    m.ipv6Src.map (fun a => .ipv6Src (rofl.addressIn6 a) (m.ipv6SrcMask.map rofl.addressIn6)),
    m.ipv6Dst.map (fun a => .ipv6Dst (rofl.addressIn6 a) (m.ipv6DstMask.map rofl.addressIn6)),
    m.ipv6Flabel.map .ipv6Flabel,
    m.icmpv6Type.map .icmpv6Type,
    m.icmpv6Code.map (fun _ => .icmpv6Code 1),
    m.ipv6NdTarget.map (fun a => .ipv6NdTarget (rofl.addressIn6 a)),
    m.ipv6NdSll.map (fun a => .ipv6NdSll (rofl.macaddr a)),
    m.ipv6NdTll.map (fun a => .ipv6NdTll (rofl.macaddr a)),
    m.mplsLabel.map .mplsLabel,
    m.mplsTC.map .mplsTc,
    m.greKey.map (fun key => .tunnelId
      (((CString.scanUnsigned 16 key) <|> (CString.scanUnsigned 10 key)).getD 0)) ].reduceOption

theorem vlanField_effective (m : Graph.Match) : vlanField m.effective = vlanField m := by
  unfold vlanField
  cases hv : m.isVlanID || m.isEndpointVlanID <;> cases ha : m.isAnyVlan <;>
    simp [Graph.Match.effective, hv, ha]

theorem transportField_effective (m : Graph.Match) {isProtocol : Bool}
    (h : isProtocol = true → m.isTransport = true) (port : UInt16) (field : UInt16 → OxmField) :
    transportField isProtocol (if m.isTransport then port else 0) field =
      transportField isProtocol port field := by
  cases isProtocol with
  | false => rfl
  | true => rw [if_pos (h rfl)]

/-- The message does not depend on the form of the VLAN and transport constraints. -/
theorem oxmFields_effective (rofl : Rofl) (m : Graph.Match) :
    oxmFields rofl m.effective = oxmFields rofl m := by
  have htcp : m.isTcpProtocol = true → m.isTransport = true := fun h => by
    simp [Graph.Match.isTransport, h]
  have hudp : m.isUdpProtocol = true → m.isTransport = true := fun h => by
    simp [Graph.Match.isTransport, h]
  have hsctp : m.isSctpProtocol = true → m.isTransport = true := fun h => by
    simp [Graph.Match.isTransport, h]
  unfold oxmFields
  rw [vlanField_effective]
  have hports (isProtocol : Bool) (h : isProtocol = true → m.isTransport = true) :
      (∀ field, transportField isProtocol m.effective.transportSrcPort field =
        transportField isProtocol m.transportSrcPort field) ∧
      ∀ field, transportField isProtocol m.effective.transportDstPort field =
        transportField isProtocol m.transportDstPort field :=
    ⟨transportField_effective m h m.transportSrcPort, transportField_effective m h m.transportDstPort⟩
  rw [show m.effective.isTcpProtocol = m.isTcpProtocol from rfl,
    show m.effective.isUdpProtocol = m.isUdpProtocol from rfl,
    show m.effective.isSctpProtocol = m.isSctpProtocol from rfl,
    (hports _ htcp).1, (hports _ htcp).2, (hports _ hudp).1, (hports _ hudp).2,
    (hports _ hsctp).1, (hports _ hsctp).2]
  rfl

/-- The reserved OpenFlow ports `OFPP_LOCAL` and `OFPP_NORMAL`. -/
def ofppLocal : Nat := 0xfffffffe

@[inherit_doc ofppLocal]
def ofppNormal : Nat := 0xfffffffa

/-- Where a `lowlevel::Match` takes packets from: an input port, the local port, or anywhere
when neither of its two flags is set. -/
inductive InPort where
  | port (inputPort : Nat)
  | localPort
  | any
  deriving DecidableEq, Repr

/-- `lowlevel::Match`. Its header fields come from `setAllCommonFields`, which never sets the
flag of a VLAN endpoint. -/
structure Match extends Graph.Match where
  inPort : InPort
  noEndpointVlan : isEndpointVlanID = false := by rfl
  deriving DecidableEq

namespace Match

/-- `setAllCommonFields`, on a low-level match. -/
def setAllCommonFields (self : Match) (other : Graph.Match) : Except Abort Match :=
  match h : self.toMatch.setAllCommonFields other with
  | .error why => .error why
  | .ok fields => .ok { self with
      toMatch := fields
      noEndpointVlan :=
        (Graph.Match.setAllCommonFields_isEndpointVlanID h).trans self.noEndpointVlan }

/-- The copy of a copyable match into a new one is its effective form. -/
theorem setAllCommonFields_new (inPort : InPort) (m : Graph.Match) :
    ({ inPort := inPort } : Match).setAllCommonFields m =
      if m.Copyable then .ok { m.effective with inPort := inPort }
      else .error .undefinedBehaviour := by
  have hnew := Graph.Match.setAllCommonFields_new m
  unfold setAllCommonFields
  split
  · next why h =>
    rw [show ({ inPort := inPort } : Match).toMatch = {} from rfl, hnew] at h
    split at h
    · cases h
    · cases h
      rw [if_neg ‹_›]
  · next fields h =>
    rw [show ({ inPort := inPort } : Match).toMatch = {} from rfl, hnew] at h
    split at h
    · cases h
      rw [if_pos ‹_›]
    · cases h

/-- `Match::operator==`. -/
def isEqual (m other : Match) : Bool :=
  m.inPort == other.inPort && m.toMatch.isEqual other.toMatch

/-- `Match::fillFlowmodMessage`. -/
def fillFlowmodMessage (rofl : Rofl) (m : Match) : List OxmField :=
  (match m.inPort with
    | .port inputPort => [.inPort inputPort]
    | .localPort => [.inPort ofppLocal]
    | .any => []) ++ oxmFields rofl m.toMatch

end Match

/-! ## Actions and rules -/

/-- The output of a `lowlevel::Action`, by constructor: a port, the local port or normal
switching. -/
inductive Output where
  | port (portID : Nat)
  | localPort
  | normal
  deriving DecidableEq, Repr

/-- `lowlevel::Action`. -/
structure Action where
  output : Output
  genericActions : List GenericAction := []
  deriving DecidableEq

/-- `Action::operator==` compares the port, and with the member never written by the other
constructors only copies of one action. The generic actions are not compared. -/
def Action.isEqual (a other : Action) : Bool := a.output == other.output

/-- The actions of a flow-mod (OpenFlow 1.2). -/
inductive FlowAction where
  | pushVlan
  | setVlanVid (vid : UInt16)
  | popVlan
  | output (port : Nat)
  deriving DecidableEq, Repr

/-- `VlanAction::fillFlowmodMessage`. -/
def genericFlowActions (ga : GenericAction) : List FlowAction :=
  match ga.type with
  | .vlanPush | .endpointVlanPush => [.pushVlan, .setVlanVid (ga.label ||| 0x1000)]
  | .vlanPop | .endpointVlanPop => [.popVlan]

/-- `Action::fillFlowmodMessage`: the generic actions in order, then the output. -/
def Action.fillFlowmodMessage (a : Action) : List FlowAction :=
  a.genericActions.flatMap genericFlowActions ++
    [.output (match a.output with
      | .port portID => portID
      | .localPort => ofppLocal
      | .normal => ofppNormal)]

/-- `lowlevel::Rule`. -/
structure Rule where
  «match» : Match
  action : Action
  flowID : String
  priority : Nat
  deriving DecidableEq

namespace Rule

/-- `Rule::operator==`: priority, action and match, regardless of the identifier. -/
def isEqual (r other : Rule) : Bool :=
  r.priority == other.priority && r.action.isEqual other.action && r.match.isEqual other.match

/-- What `isEqual` compares. -/
def compared (r : Rule) : Nat × Output × InPort × Graph.Match :=
  (r.priority, r.action.output, r.match.inPort, r.match.toMatch.compared)

theorem isEqual_iff {r other : Rule} : r.isEqual other = true ↔ r.compared = other.compared := by
  simp only [isEqual, Action.isEqual, Match.isEqual, compared, Bool.and_eq_true, beq_iff_eq,
    Prod.mk.injEq, Graph.Match.isEqual_iff, and_assoc]

/-- What the switch identifies the entry of a rule by; the priority of a message has 16
bits. -/
def flowKey (rofl : Rofl) (r : Rule) : List OxmField × Nat :=
  (r.match.fillFlowmodMessage rofl, r.priority % 2 ^ 16)

/-- The contents of the entry. -/
def flowActions (r : Rule) : List FlowAction := r.action.fillFlowmodMessage

/-- The entry of a rule, as `fillFlowmodMessage` of an added rule sends it. -/
def flowEntry (rofl : Rofl) (r : Rule) : (List OxmField × Nat) × List FlowAction :=
  (r.flowKey rofl, r.flowActions)

/-- Equal rules share their entry. -/
theorem flowKey_eq_of_isEqual {rofl : Rofl} {r other : Rule} (h : r.isEqual other) :
    r.flowKey rofl = other.flowKey rofl := by
  simp only [isEqual, Match.isEqual, Bool.and_eq_true, beq_iff_eq] at h
  obtain ⟨⟨hpriority, -⟩, hport, hfields⟩ := h
  have hoxm : oxmFields rofl r.match.toMatch = oxmFields rofl other.match.toMatch := by
    rw [← oxmFields_effective, ← oxmFields_effective rofl other.match.toMatch,
      Graph.Match.effective_eq_of_isEqual r.match.noEndpointVlan other.match.noEndpointVlan hfields]
  simp only [flowKey, Match.fillFlowmodMessage, hpriority, hport, hoxm]

end Rule

end UnOrchestrator.Lowlevel
