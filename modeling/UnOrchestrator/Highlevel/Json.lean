import UnOrchestrator.Lib.Json
import UnOrchestrator.Lib.Scan
import UnOrchestrator.Highlevel.Graph

/-!
# The JSON of a graph

What a client gets for a graph, and for the parts of it: the `toJSON` functions of the
classes. An object is a map, so the order in which its members are written matters only
where a name is written twice: an IPv6 address replaces an IPv4 one, and of several
`push_vlan` of an action the last one is left.

Some of what is stored does not show. A match on an undeclared endpoint has no `port_in`,
the tag operations of VLAN endpoints are not written, and of two transport ports only the
source port is. An octet is written as the character with its code.
-/

namespace UnOrchestrator

open CString

/-- How a stream prints an octet: as a character, of which the zero ends the string. -/
def octetString (v : UInt8) : String :=
  if v = 0 then "" else String.singleton (Char.ofNat v.toNat)

/-- The members that `graph::Match::toJSON` writes, in its order. -/
def Graph.Match.members (m : Graph.Match) : List (String × Option String) :=
  let decimal (n : Nat) : String := toString n
  let port (isProtocol : Bool) (first second : UInt16) : Option String :=
    if isProtocol ∧ first = 0 ∧ second ≠ 0 then some (decimal second.toNat) else none
  let isTcpUdp := m.isTcpProtocol || m.isUdpProtocol
  [ ("source_mac", m.ethSrc),
    ("eth_src_mask", m.ethSrcMask),
    ("dest_mac", m.ethDst),
    ("eth_dst_mask", m.ethDstMask),
    ("ether_type", m.ethType.map fun v => hexString v.toNat),
    ("vlan_id",
      if m.isVlanID then some (decimal m.vlanID.toNat)
      else if m.isAnyVlan then some "ANY"
      else if m.isNoVlan then some "NO_VLAN"
      else none),
    ("vlan_pcp", m.vlanPCP.map octetString),
    ("ip_dscp", m.ipDSCP.map octetString),
    ("ip_ecn", m.ipECN.map octetString),
    ("ip_proto", m.ipProto.map fun v => decimal v.toNat),
    ("source_ip", m.ipv4Src),
    ("ipv4_src_mask", m.ipv4SrcMask),
    ("dest_ip", m.ipv4Dst),
    ("ipv4_dst_mask", m.ipv4DstMask),
    ("source_port", port isTcpUdp 0 m.transportSrcPort),
    ("dest_port", port isTcpUdp m.transportSrcPort m.transportDstPort),
    ("sctp_src", port m.isSctpProtocol 0 m.transportSrcPort),
    ("sctp_dst", port m.isSctpProtocol m.transportSrcPort m.transportDstPort),
    ("icmpv4_type", m.icmpv4Type.map octetString),
    ("icmpv4_code", m.icmpv4Code.map octetString),
    ("arp_opcode", m.arpOpcode.map fun v => decimal v.toNat),
    ("arp_spa", m.arpSpa),
    ("arp_spa_mask", m.arpSpaMask),
    ("arp_tpa", m.arpTpa),
    ("arp_tpa_mask", m.arpTpaMask),
    ("arp_sha", m.arpSha),
    ("arp_tha", m.arpTha),
    ("source_ip", m.ipv6Src),
    ("ipv6_src_mask", m.ipv6SrcMask),
    ("dest_ip", m.ipv6Dst),
    ("ipv6_dst_mask", m.ipv6DstMask),
    ("ipv6_flabel", m.ipv6Flabel.map fun v => decimal v.toNat),
    ("ipv6_nd_target", m.ipv6NdTarget),
    ("ipv6_nd_sll", m.ipv6NdSll),
    ("ipv6_nd_tll", m.ipv6NdTll),
    ("icmpv6_type", m.icmpv6Type.map octetString),
    ("icmpv6_code", m.icmpv6Code.map octetString),
    ("mpls_label", m.mplsLabel.map fun v => decimal v.toNat),
    ("mpls_tc", m.mplsTC.map octetString),
    ("gre-key", m.greKey) ]

/-- `graph::Match::toJSON`, into an object that has at most the input. -/
def Graph.Match.toJSON (m : Graph.Match) (portIn : Option String) : Json.Object :=
  Json.ofMembers ((("port_in", portIn) :: m.members).map fun member =>
    (member.1, member.2.map Json.str))

namespace Highlevel

/-- What `highlevel::Match::toJSON` writes as the input. The port of a network function is kept
only for a reference that starts with `vnf`; otherwise the pointer is read uninitialised. -/
def Match.portInMember (m : Match) : Except Abort (Option String) :=
  match m.type with
  | .port _ | .endPointGre _ | .endPointInternal _ => .ok (some m.inputEndpoint)
  | .nf _ _ =>
    if m.nfEndpointPort = "" then .error .undefinedBehaviour else .ok (some m.nfEndpointPort)
  | .generic => .ok none

/-- `highlevel::Match::toJSON`. -/
def Match.toJSON (m : Match) : Except Abort Json.Object := do
  let portIn ← m.portInMember
  return m.toMatch.toJSON portIn

/-- The member that `VlanAction::toJSON` writes; the operations of a VLAN endpoint write none. -/
def vlanMember (ga : GenericAction) : String × Option Json :=
  match ga.type with
  | .vlanPush => ("push_vlan", some (.str (toString ga.label.toNat)))
  | .vlanPop => ("pop_vlan", some (.bool true))
  | .endpointVlanPush => ("push_vlan", none)
  | .endpointVlanPop => ("pop_vlan", none)

/-- `Action::toJSON`, the same for all subclasses. -/
def Action.toJSON (a : Action) : Json.Object :=
  Json.ofMembers (("output_to_port", some (.str a.endpointName)) :: a.genericActions.map vlanMember)

def Rule.toJSON (r : Rule) : Except Abort Json.Object := do
  let matchObject ← r.match.toJSON
  return Json.ofMembers [
    ("id", some (.str r.ruleID)),
    ("priority", some (.int r.priority)),
    ("match", some (.ofObject matchObject)),
    ("actions", some (.arr [.ofObject r.action.toJSON]))]

def EndPointInterface.toJSON (e : EndPointInterface) : Json.Object :=
  Json.ofMembers [
    ("id", some (.str e.id)),
    ("name", some (.str e.name)),
    ("type", some (.str "interface")),
    ("interface", some (.ofObject (Json.ofMembers [("if-name", some (.str e.interface))])))]

def EndPointInternal.toJSON (e : EndPointInternal) : Json.Object :=
  Json.ofMembers [
    ("id", some (.str e.id)),
    ("name", some (.str e.name)),
    ("type", some (.str "internal")),
    ("internal", some (.ofObject (Json.ofMembers [("internal-group", some (.str e.group))])))]

def EndPointGre.toJSON (e : EndPointGre) : Json.Object :=
  Json.ofMembers [
    ("id", some (.str e.id)),
    ("name", some (.str e.name)),
    ("type", some (.str "gre-tunnel")),
    ("gre-tunnel", some (.ofObject (Json.ofMembers [
      ("local-ip", some (.str e.localIp)),
      ("remote-ip", some (.str e.remoteIp)),
      ("gre-key", some (.str e.greKey)),
      ("ttl", if e.ttl = "" then none else some (.str e.ttl)),
      ("secure", some (.bool e.isSafe))])))]

def EndPointVlan.toJSON (e : EndPointVlan) : Json.Object :=
  Json.ofMembers [
    ("id", some (.str e.id)),
    ("name", some (.str e.name)),
    ("type", some (.str "vlan")),
    ("vlan", some (.ofObject (Json.ofMembers [
      ("vlan-id", some (.str e.vlanId)),
      ("if-name", some (.str e.interface))])))]

def VnfPort.toJSON (p : VnfPort) : Json.Object :=
  Json.ofMembers [
    ("id", some (.str p.id)),
    ("name", some (.str p.name)),
    ("mac",
      if p.configuration.macAddress = "" then none
      else some (.str p.configuration.macAddress))]

def VNFs.toJSON (v : VNFs) : Json.Object :=
  Json.ofMembers [
    ("id", some (.str v.id)),
    ("name", some (.str v.name)),
    ("vnf_template", some (.str v.vnfTemplate)),
    ("groups", if v.groups = [] then none else some (.arr (v.groups.map .str))),
    ("ports", some (.arr (v.ports.map fun p => .ofObject p.toJSON)))]

/-- The endpoints in the order in which they are written. -/
def Graph.endPointsJSON (g : Graph) : List Json :=
  (g.endPointsInterface.map fun e => .ofObject e.toJSON) ++
  (g.endPointsInternal.map fun e => .ofObject e.toJSON) ++
  (g.endPointsGre.map fun e => .ofObject e.toJSON) ++
  (g.endPointsVlan.map fun e => .ofObject e.toJSON)

def Graph.toJSON (g : Graph) : Except Abort Json.Object := do
  let flowRules ← g.rules.mapM fun r => r.toJSON
  return Json.ofMembers [
    ("id", some (.str g.ID)),
    ("name", some (.str g.name)),
    ("end-points", if g.endPointsJSON = [] then none else some (.arr g.endPointsJSON)),
    ("VNFs", if g.vnfs = [] then none else some (.arr (g.vnfs.map fun v => .ofObject v.toJSON))),
    ("big-switch", some (.ofObject (Json.ofMembers [
      ("flow-rules", some (.arr (flowRules.map .ofObject)))])))]

end Highlevel

end UnOrchestrator
