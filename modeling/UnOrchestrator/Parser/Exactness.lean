import UnOrchestrator.Parser.Numbers
import UnOrchestrator.Lowlevel.Rule

/-!
# From the keys of a match to the fields of a flow-mod

A match that the parser has accepted is copied into a low-level match and sent as the
fields of a flow-mod. What the client asked for is a list of protocol fields
(`requested`): for each group of keys that concern one field, whether the client gave
any of them, and the OpenFlow field that carries the stored value. A mask belongs to the
field of its address, and has none to belong to when the address is missing.

The copy and the message lose some of it. `loweredExactly_iff` lists all of what is lost:
an IPv6 destination ends the process, a mask without its address is dropped, so is a
transport port without a protocol or with the value zero, an ICMPv6 code is sent as one,
and a VLAN endpoint hides an `ANY` or `NO_VLAN`.
-/

namespace UnOrchestrator.Parser

open Highlevel Lowlevel CString

/-- A protocol field: whether the client specified it, and the OpenFlow field for what is
stored, if there is one. -/
structure Requested where
  specified : Bool
  field : Option OxmField

/-- One of the keys is given. -/
def given (text : MatchKey → Option String) (keys : List MatchKey) : Bool :=
  keys.any fun key => (text key).isSome

/-- The field of a transport port, which depends on the protocol. -/
def portField (m : Graph.Match) (tcp udp sctp : UInt16 → OxmField) (port : UInt16) :
    Option OxmField :=
  if m.isTcpProtocol then some (tcp port)
  else if m.isUdpProtocol then some (udp port)
  else if m.isSctpProtocol then some (sctp port)
  else none

/-- A transport port has a key for all protocols and one for SCTP. No field carries it when
both are given, since a single value is stored. -/
def requestedPort (text : MatchKey → Option String) (m : Graph.Match) (key sctpKey : MatchKey)
    (tcp udp sctp : UInt16 → OxmField) (port : UInt16) : Requested where
  specified := given text [key, sctpKey]
  field := match text key, text sctpKey with
    | some _, none => portField m tcp udp sctp port
    | none, some _ => if m.isSctpProtocol then some (sctp port) else none
    | _, _ => none

/-- The VLAN constraint: the key `vlan_id` if it is given, else the tag of the endpoint. -/
def requestedVlan (text : MatchKey → Option String) (m : Graph.Match) : Requested where
  specified := given text [.vlanId] || m.isEndpointVlanID
  field :=
    if m.isVlanID then some (.vlanVid (m.vlanID ||| 0x1000))
    else if m.isAnyVlan then some .vlanPresent
    else if m.isNoVlan then some .vlanUntagged
    else if m.isEndpointVlanID then some (.vlanVid (m.vlanID ||| 0x1000))
    else none

/-- An address with its mask. -/
def maskedField (parse : String → Nat) (field : Nat → Option Nat → OxmField)
    (address mask : Option String) : Option OxmField :=
  address.map fun a => field (parse a) (mask.map parse)

/-- Every protocol field a client can specify. -/
def requested (rofl : Rofl) (text : MatchKey → Option String) (m : Graph.Match) :
    List Requested :=
  [ ⟨given text [.sourceMac, .ethSrcMask], maskedField rofl.macaddr .ethSrc m.ethSrc m.ethSrcMask⟩,
    ⟨given text [.destMac, .ethDstMask], maskedField rofl.macaddr .ethDst m.ethDst m.ethDstMask⟩,
    ⟨given text [.etherType], m.ethType.map .ethType⟩,
    requestedVlan text m,
    ⟨given text [.vlanPcp], m.vlanPCP.map .vlanPcp⟩,
    ⟨given text [.ipDscp], m.ipDSCP.map .ipDscp⟩,
    ⟨given text [.ipEcn], m.ipECN.map .ipEcn⟩,
    ⟨given text [.protocol], m.ipProto.map .ipProto⟩,
    ⟨m.ipv4Src.isSome || given text [.ipv4SrcMask],
      maskedField rofl.addressIn4 .ipv4Src m.ipv4Src m.ipv4SrcMask⟩,
    ⟨m.ipv4Dst.isSome || given text [.ipv4DstMask],
      maskedField rofl.addressIn4 .ipv4Dst m.ipv4Dst m.ipv4DstMask⟩,
    requestedPort text m .sourcePort .sctpSrc .tcpSrc .udpSrc .sctpSrc m.transportSrcPort,
    requestedPort text m .destPort .sctpDst .tcpDst .udpDst .sctpDst m.transportDstPort,
    ⟨given text [.icmpv4Type], m.icmpv4Type.map .icmpv4Type⟩,
    ⟨given text [.icmpv4Code], m.icmpv4Code.map .icmpv4Code⟩,
    ⟨given text [.arpOpcode], m.arpOpcode.map .arpOpcode⟩,
    ⟨given text [.arpSpa, .arpSpaMask], maskedField rofl.addressIn4 .arpSpa m.arpSpa m.arpSpaMask⟩,
    ⟨given text [.arpTpa, .arpTpaMask], maskedField rofl.addressIn4 .arpTpa m.arpTpa m.arpTpaMask⟩,
    ⟨given text [.arpSha], m.arpSha.map fun a => .arpSha (rofl.macaddr a)⟩,
    ⟨given text [.arpTha], m.arpTha.map fun a => .arpTha (rofl.macaddr a)⟩,
    ⟨m.ipv6Src.isSome || given text [.ipv6SrcMask],
      maskedField rofl.addressIn6 .ipv6Src m.ipv6Src m.ipv6SrcMask⟩,
    ⟨m.ipv6Dst.isSome || given text [.ipv6DstMask],
      maskedField rofl.addressIn6 .ipv6Dst m.ipv6Dst m.ipv6DstMask⟩,
    ⟨given text [.ipv6Flabel], m.ipv6Flabel.map .ipv6Flabel⟩,
    ⟨given text [.icmpv6Type], m.icmpv6Type.map .icmpv6Type⟩,
    ⟨given text [.icmpv6Code], m.icmpv6Code.map .icmpv6Code⟩,
    ⟨given text [.ipv6NdTarget], m.ipv6NdTarget.map fun a => .ipv6NdTarget (rofl.addressIn6 a)⟩,
    ⟨given text [.ipv6NdSll], m.ipv6NdSll.map fun a => .ipv6NdSll (rofl.macaddr a)⟩,
    ⟨given text [.ipv6NdTll], m.ipv6NdTll.map fun a => .ipv6NdTll (rofl.macaddr a)⟩,
    ⟨given text [.mplsLabel], m.mplsLabel.map .mplsLabel⟩,
    ⟨given text [.mplsTc], m.mplsTC.map .mplsTc⟩ ]

/-- The fields that carry what the client specified. -/
def requestedFields (rofl : Rofl) (text : MatchKey → Option String) (m : Graph.Match) :
    List OxmField :=
  (requested rofl text m).filterMap fun r => if r.specified then r.field else none

/-- The match is copied, and its message has exactly one field for each protocol field the
client specified. -/
def LoweredExactly (rofl : Rofl) (text : MatchKey → Option String) (m : Graph.Match)
    (port : Nat) : Prop :=
  (∀ r ∈ requested rofl text m, r.specified → r.field.isSome) ∧
    ∃ low, ({ inPort := .port port } : Lowlevel.Match).setAllCommonFields m = .ok low ∧
      (low.fillFlowmodMessage rofl).Perm (.inPort port :: requestedFields rofl text m)

/-- A transport port that is carried: one key is given, for a protocol that has it, and its
value is not zero. -/
def PortCarried (text : MatchKey → Option String) (m : Graph.Match) (key sctpKey : MatchKey)
    (port : UInt16) : Prop :=
  match text key, text sctpKey with
  | none, none => True
  | some _, none => m.isTransport ∧ port ≠ 0
  | none, some _ => m.isSctpProtocol ∧ port ≠ 0
  | some _, some _ => False

/-- The addresses that can have a mask, each with its mask. -/
def masked (m : Graph.Match) : List (Option String × Option String) :=
  [(m.ethSrc, m.ethSrcMask), (m.ethDst, m.ethDstMask), (m.ipv4Src, m.ipv4SrcMask),
    (m.ipv4Dst, m.ipv4DstMask), (m.arpSpa, m.arpSpaMask), (m.arpTpa, m.arpTpaMask),
    (m.ipv6Src, m.ipv6SrcMask), (m.ipv6Dst, m.ipv6DstMask)]

/-- What is lowered exactly. -/
structure Carried (text : MatchKey → Option String) (m : Graph.Match) : Prop where
  masks : ∀ pair ∈ masked m, pair.2.isSome → pair.1.isSome
  noIpv6Dst : m.ipv6Dst = none
  vlan : m.isEndpointVlanID → m.isAnyVlan = false ∧ m.isNoVlan = false
  srcPort : PortCarried text m .sourcePort .sctpSrc m.transportSrcPort
  dstPort : PortCarried text m .destPort .sctpDst m.transportDstPort
  icmpv6Code : ∀ code, m.icmpv6Code = some code → code = 1

variable {inet : InetPton} {tables : EndPointTables} {action : Option Highlevel.Action} {rofl : Rofl}
  {text : MatchKey → Option String} {m : Graph.Match}

/-- How the fields of a parsed match follow from the keys: a field is set exactly when its key
is given. -/
structure Follows (text : MatchKey → Option String) (m : Graph.Match) : Prop where
  ethSrc : (text .sourceMac).isSome = m.ethSrc.isSome
  ethSrcMask : (text .ethSrcMask).isSome = m.ethSrcMask.isSome
  ethDst : (text .destMac).isSome = m.ethDst.isSome
  ethDstMask : (text .ethDstMask).isSome = m.ethDstMask.isSome
  ethType : (text .etherType).isSome = m.ethType.isSome
  vlan : (text .vlanId).isSome = (m.isVlanID || m.isAnyVlan || m.isNoVlan)
  vlanPCP : (text .vlanPcp).isSome = m.vlanPCP.isSome
  ipDSCP : (text .ipDscp).isSome = m.ipDSCP.isSome
  ipECN : (text .ipEcn).isSome = m.ipECN.isSome
  ipProto : (text .protocol).isSome = m.ipProto.isSome
  ipv4SrcMask : (text .ipv4SrcMask).isSome = m.ipv4SrcMask.isSome
  ipv4DstMask : (text .ipv4DstMask).isSome = m.ipv4DstMask.isSome
  icmpv4Type : (text .icmpv4Type).isSome = m.icmpv4Type.isSome
  icmpv4Code : (text .icmpv4Code).isSome = m.icmpv4Code.isSome
  arpOpcode : (text .arpOpcode).isSome = m.arpOpcode.isSome
  arpSpa : (text .arpSpa).isSome = m.arpSpa.isSome
  arpSpaMask : (text .arpSpaMask).isSome = m.arpSpaMask.isSome
  arpTpa : (text .arpTpa).isSome = m.arpTpa.isSome
  arpTpaMask : (text .arpTpaMask).isSome = m.arpTpaMask.isSome
  arpSha : (text .arpSha).isSome = m.arpSha.isSome
  arpTha : (text .arpTha).isSome = m.arpTha.isSome
  ipv6SrcMask : (text .ipv6SrcMask).isSome = m.ipv6SrcMask.isSome
  ipv6DstMask : (text .ipv6DstMask).isSome = m.ipv6DstMask.isSome
  ipv6Flabel : (text .ipv6Flabel).isSome = m.ipv6Flabel.isSome
  ipv6NdTarget : (text .ipv6NdTarget).isSome = m.ipv6NdTarget.isSome
  ipv6NdSll : (text .ipv6NdSll).isSome = m.ipv6NdSll.isSome
  ipv6NdTll : (text .ipv6NdTll).isSome = m.ipv6NdTll.isSome
  icmpv6Type : (text .icmpv6Type).isSome = m.icmpv6Type.isSome
  icmpv6Code : (text .icmpv6Code).isSome = m.icmpv6Code.isSome
  mplsLabel : (text .mplsLabel).isSome = m.mplsLabel.isSome
  mplsTC : (text .mplsTc).isSome = m.mplsTC.isSome
  vlanOnce : m.isVlanID = true → m.isAnyVlan = false ∧ m.isNoVlan = false
  anyOnce : m.isAnyVlan = true → m.isNoVlan = false
  srcPort : text .sourcePort = none → text .sctpSrc = none → m.transportSrcPort = 0
  dstPort : text .destPort = none → text .sctpDst = none → m.transportDstPort = 0
  greKey : m.greKey = none

theorem follows_headerOf
    (haccepts : ∀ k s, text k = some s → k ≠ .portIn → ∃ set, k.read inet s = .ok set)
    (tag : Option UInt16) : Follows text (headerOf tag text) := by
  have hnumber {key : MatchKey} {c : Conversion} {limit : Nat}
      {set : Nat → Graph.Match → Graph.Match} (hread : key.read inet = numeric c limit set)
      (hkey : key ≠ .portIn) : (text key).isSome = ((text key).bind c.scan).isSome := by
    cases htext : text key with
    | none => rfl
    | some s =>
      obtain ⟨f, hf⟩ := haccepts key s htext hkey
      rw [hread, numeric_eq_ok] at hf
      obtain ⟨v, hv, -⟩ := hf
      simp [hv]
  constructor
  case vlan =>
    cases htext : text .vlanId with
    | none => simp [headerOf, htext]
    | some s =>
      by_cases hany : s = "ANY"
      · simp [headerOf, htext, hany]
      · by_cases hno : s = "NO_VLAN" <;>
          simp [headerOf, htext, Option.filter_some, hany, hno]
  case vlanOnce | anyOnce =>
    cases htext : text .vlanId with
    | none => simp [headerOf, htext]
    | some s =>
      by_cases hany : s = "ANY"
      · simp [headerOf, htext, Option.filter_some, hany]
      · by_cases hno : s = "NO_VLAN" <;>
          simp [headerOf, htext, Option.filter_some, hany, hno]
  case srcPort | dstPort =>
    intro hport hsctp
    simp [headerOf, hport, hsctp]
  case greKey => rfl
  all_goals first
    | rfl
    | (simp only [headerOf, Option.isSome_map]
       exact hnumber rfl (by decide))

/-- To compare what is specified with what is stored it is enough to look at the masks, the
VLAN constraint and the transport ports. -/
theorem forall_requested_iff (hfollows : Follows text m) {p : Bool → Bool → Prop}
    (hp : ∀ b, p b b) :
    (∀ r ∈ requested rofl text m, p r.specified r.field.isSome) ↔
      (∀ pair ∈ masked m, p (pair.1.isSome || pair.2.isSome) pair.1.isSome) ∧
      ∀ r ∈ [requestedVlan text m,
        requestedPort text m .sourcePort .sctpSrc .tcpSrc .udpSrc .sctpSrc m.transportSrcPort,
        requestedPort text m .destPort .sctpDst .tcpDst .udpDst .sctpDst m.transportDstPort],
        p r.specified r.field.isSome := by
  simp only [requested, masked, List.forall_mem_cons, given, List.any_cons, List.any_nil,
    Bool.or_false, maskedField, Option.isSome_map, hfollows.ethSrc, hfollows.ethSrcMask,
    hfollows.ethDst, hfollows.ethDstMask, hfollows.ethType, hfollows.vlanPCP, hfollows.ipDSCP,
    hfollows.ipECN, hfollows.ipProto, hfollows.ipv4SrcMask, hfollows.ipv4DstMask,
    hfollows.icmpv4Type, hfollows.icmpv4Code, hfollows.arpOpcode, hfollows.arpSpa,
    hfollows.arpSpaMask, hfollows.arpTpa, hfollows.arpTpaMask, hfollows.arpSha, hfollows.arpTha,
    hfollows.ipv6SrcMask, hfollows.ipv6DstMask, hfollows.ipv6Flabel, hfollows.ipv6NdTarget,
    hfollows.ipv6NdSll, hfollows.ipv6NdTll, hfollows.icmpv6Type, hfollows.icmpv6Code,
    hfollows.mplsLabel, hfollows.mplsTC, hp, true_and, List.not_mem_nil, false_imp_iff,
    implies_true, and_true]
  tauto

theorem isSome_requestedVlan (hfollows : Follows text m) :
    (requestedVlan text m).field.isSome = (requestedVlan text m).specified := by
  simp only [requestedVlan, given, List.any_cons, List.any_nil, Bool.or_false, hfollows.vlan]
  grind

/-- What the client did not specify is not stored. -/
theorem specified_of_isSome (hfollows : Follows text m) :
    ∀ r ∈ requested rofl text m, r.field.isSome → r.specified := by
  have hport (key sctpKey : MatchKey) (tcp udp sctp : UInt16 → OxmField) (port : UInt16) :
      (requestedPort text m key sctpKey tcp udp sctp port).field.isSome →
        (requestedPort text m key sctpKey tcp udp sctp port).specified := by
    cases hkey : text key <;> cases hsctp : text sctpKey <;> simp [requestedPort, given, hkey, hsctp]
  rw [forall_requested_iff (p := fun specified stored => stored → specified) hfollows fun _ => id]
  refine ⟨fun pair _ h => by simp [h], ?_⟩
  simp only [List.forall_mem_cons, isSome_requestedVlan hfollows, List.not_mem_nil,
    false_imp_iff, implies_true, and_true]
  exact ⟨id, hport _ _ _ _ _ _, hport _ _ _ _ _ _⟩

theorem requestedFields_eq (hfollows : Follows text m) :
    requestedFields rofl text m = ((requested rofl text m).map Requested.field).reduceOption := by
  rw [requestedFields, List.reduceOption, List.filterMap_map]
  refine List.filterMap_congr fun r hr => ?_
  cases hfield : r.field with
  | none => simp [hfield]
  | some field =>
    have := specified_of_isSome hfollows r hr (by rw [hfield]; rfl)
    simp [hfield, this]

variable {key sctpKey : MatchKey} {port : UInt16}

/-- What is stored of a transport port that is carried. -/
theorem field_requestedPort (hcarried : PortCarried text m key sctpKey port)
    (hunset : text key = none → text sctpKey = none → port = 0) (tcp udp sctp : UInt16 → OxmField) :
    (requestedPort text m key sctpKey tcp udp sctp port).field =
      if port = 0 then none else portField m tcp udp sctp port := by
  unfold PortCarried at hcarried
  cases hkey : text key <;> cases hsctp : text sctpKey <;>
    simp only [hkey, hsctp] at hcarried
  · simp [requestedPort, hkey, hsctp, hunset hkey hsctp]
  · obtain ⟨hproto, hport⟩ := hcarried
    have hproto' := hproto
    simp only [Graph.Match.isSctpProtocol, beq_iff_eq] at hproto'
    simp [requestedPort, hkey, hsctp, hport, portField, hproto, Graph.Match.isTcpProtocol,
      Graph.Match.isUdpProtocol, hproto']
  · simp [requestedPort, hkey, hsctp, hcarried.2]

/-- The six fields for transport ports are those of one protocol. -/
theorem reduceOption_transportFields (m : Graph.Match) :
    [ transportField m.isTcpProtocol m.transportSrcPort .tcpSrc,
      transportField m.isTcpProtocol m.transportDstPort .tcpDst,
      transportField m.isUdpProtocol m.transportSrcPort .udpSrc,
      transportField m.isUdpProtocol m.transportDstPort .udpDst,
      transportField m.isSctpProtocol m.transportSrcPort .sctpSrc,
      transportField m.isSctpProtocol m.transportDstPort .sctpDst ].reduceOption =
    [ if m.transportSrcPort = 0 then none
        else portField m .tcpSrc .udpSrc .sctpSrc m.transportSrcPort,
      if m.transportDstPort = 0 then none
        else portField m .tcpDst .udpDst .sctpDst m.transportDstPort ].reduceOption := by
  simp only [transportField, portField, Graph.Match.isTcpProtocol, Graph.Match.isUdpProtocol,
    Graph.Match.isSctpProtocol]
  obtain hproto | hproto | hproto | ⟨htcp, hudp, hsctp⟩ : m.ipProto = some 6 ∨
      m.ipProto = some 17 ∨ m.ipProto = some 132 ∨
        m.ipProto ≠ some 6 ∧ m.ipProto ≠ some 17 ∧ m.ipProto ≠ some 132 := by
    tauto
  case inr.inr.inr => simp [htcp, hudp, hsctp]
  all_goals
    by_cases hsrc : m.transportSrcPort = 0 <;> by_cases hdst : m.transportDstPort = 0 <;>
      simp [hproto, hsrc, hdst]

theorem vlanField_eq (text : MatchKey → Option String)
    (hvlan : m.isEndpointVlanID → m.isAnyVlan = false ∧ m.isNoVlan = false) :
    vlanField m = (requestedVlan text m).field := by
  simp only [vlanField, requestedVlan]
  grind

/-- The message of a match that is carried. -/
theorem oxmFields_of_carried (hfollows : Follows text m) (hcarried : Carried text m) :
    oxmFields rofl m = requestedFields rofl text m := by
  have hcode : m.icmpv6Code.map (fun _ => OxmField.icmpv6Code 1) =
      m.icmpv6Code.map .icmpv6Code :=
    Option.map_congr fun code hcode => by rw [hcarried.icmpv6Code code hcode]
  have hports := reduceOption_transportFields m
  rw [← field_requestedPort hcarried.srcPort hfollows.srcPort,
    ← field_requestedPort hcarried.dstPort hfollows.dstPort] at hports
  have hcons {a : Option OxmField} {l l' : List (Option OxmField)}
      (h : l.reduceOption = l'.reduceOption) : (a :: l).reduceOption = (a :: l').reduceOption := by
    cases a <;> simp [h]
  have happend {l₁ l₁' l l' : List (Option OxmField)} (h₁ : l₁.reduceOption = l₁'.reduceOption)
      (h : l.reduceOption = l'.reduceOption) :
      (l₁ ++ l).reduceOption = (l₁' ++ l').reduceOption := by
    rw [List.reduceOption_append, List.reduceOption_append, h₁, h]
  rw [requestedFields_eq hfollows, requested, oxmFields, vlanField_eq text hcarried.vlan,
    hcode, hfollows.greKey]
  -- ten fields, then those of the transport ports, then the rest
  iterate 10 apply hcons
  apply happend hports
  iterate 17 apply hcons
  rfl

/-- The match is copied when it has no IPv6 destination, and then its message has the fields
of the match. -/
theorem loweredExactly_iff_perm (hfollows : Follows text m) (port : Nat) :
    LoweredExactly rofl text m port ↔
      (∀ r ∈ requested rofl text m, r.specified → r.field.isSome) ∧ m.ipv6Dst = none ∧
        (oxmFields rofl m).Perm (requestedFields rofl text m) := by
  have hcopyable : m.Copyable ↔ m.ipv6Dst = none := by
    simp [Graph.Match.Copyable, hfollows.greKey]
  simp only [LoweredExactly, Lowlevel.Match.setAllCommonFields_new, hcopyable]
  by_cases hdst : m.ipv6Dst = none
  · simp [hdst, Lowlevel.Match.fillFlowmodMessage, oxmFields_effective]
  · simp [hdst]

variable {field : OxmField}

theorem mem_requestedFields {r : Requested} (hr : r ∈ requested rofl text m) (hspecified : r.specified)
    (hfield : r.field = some field) :
    field ∈ requestedFields rofl text m :=
  List.mem_filterMap.mpr ⟨r, hr, by rw [if_pos hspecified, hfield]⟩

/-- A transport port that is asked for and sent is carried. -/
theorem portCarried_of_sent {tcp udp sctp : UInt16 → OxmField}
    (hstored : (requestedPort text m key sctpKey tcp udp sctp port).specified → (requestedPort text m key sctpKey tcp udp sctp port).field.isSome)
    (hsent : ∀ field, (requestedPort text m key sctpKey tcp udp sctp port).specified → (requestedPort text m key sctpKey tcp udp sctp port).field = some field → port ≠ 0) :
    PortCarried text m key sctpKey port := by
  by_cases hspecified : (requestedPort text m key sctpKey tcp udp sctp port).specified
  · obtain ⟨field, hfield⟩ := Option.isSome_iff_exists.mp (hstored hspecified)
    have hport := hsent field hspecified hfield
    unfold PortCarried
    cases hkey : text key <;> cases hsctp : text sctpKey <;>
      simp only [requestedPort, hkey, hsctp, reduceCtorEq, portField] at hfield
    · exact ⟨by grind, hport⟩
    · exact ⟨by grind [Graph.Match.isTransport], hport⟩
  · unfold PortCarried
    cases hkey : text key <;> cases hsctp : text sctpKey <;>
      simp [requestedPort, given, hkey, hsctp] at hspecified ⊢

theorem some_eq_transportField {isProtocol : Bool} {set : UInt16 → OxmField} :
    some field = transportField isProtocol port set ↔
      isProtocol = true ∧ port ≠ 0 ∧ set port = field := by
  rw [eq_comm]
  simp [transportField, and_assoc]

theorem some_eq_vlanField : some field = vlanField m ↔
    (if m.isVlanID || m.isEndpointVlanID then field = .vlanVid (m.vlanID ||| 0x1000)
      else if m.isAnyVlan then field = .vlanPresent
      else if m.isNoVlan then field = .vlanUntagged
      else False) := by
  unfold vlanField
  split_ifs <;> simp

/-- A transport port that is carried is stored. -/
theorem isSome_requestedPort {tcp udp sctp : UInt16 → OxmField}
    (hcarried : PortCarried text m key sctpKey port) :
    (requestedPort text m key sctpKey tcp udp sctp port).specified →
      (requestedPort text m key sctpKey tcp udp sctp port).field.isSome := by
  unfold PortCarried at hcarried
  cases hkey : text key <;> cases hsctp : text sctpKey <;>
    simp only [hkey, hsctp] at hcarried
  · simp [requestedPort, given, hkey, hsctp]
  · simp [requestedPort, hkey, hsctp, hcarried.1]
  · have := hcarried.1
    simp only [requestedPort, hkey, hsctp, portField]
    grind [Graph.Match.isTransport]

/-- A zero port is not sent. -/
theorem ne_zero_of_mem_oxmFields
    (hfield : field ∈ [OxmField.tcpSrc port, .udpSrc port, .sctpSrc port, .tcpDst port, .udpDst port, .sctpDst port])
    (hmem : field ∈ oxmFields rofl m) : port ≠ 0 := by
  rw [oxmFields, List.reduceOption_mem_iff] at hmem
  simp only [List.mem_cons, List.not_mem_nil, or_false] at hfield
  rcases hfield with rfl | rfl | rfl | rfl | rfl | rfl <;>
    simp [some_eq_transportField, some_eq_vlanField, Option.some_eq_map_iff] at hmem <;> grind

theorem carried_of_perm (hfollows : Follows text m)
    (hstored : ∀ r ∈ requested rofl text m, r.specified → r.field.isSome)
    (hdst : m.ipv6Dst = none)
    (hperm : (oxmFields rofl m).Perm (requestedFields rofl text m)) : Carried text m := by
  have hsent {r : Requested} (hr : r ∈ requested rofl text m) (hspecified : r.specified)
      {field : OxmField} (hfield : r.field = some field) : field ∈ oxmFields rofl m :=
    hperm.mem_iff.mpr (mem_requestedFields hr hspecified hfield)
  obtain ⟨hmasks, -⟩ := (forall_requested_iff (p := fun a b => a → b) hfollows fun _ => id).mp hstored
  constructor
  case masks =>
    intro pair hpair hmask
    exact hmasks pair hpair (by simp [hmask])
  case noIpv6Dst => exact hdst
  case srcPort =>
    have hr : requestedPort text m .sourcePort .sctpSrc .tcpSrc .udpSrc .sctpSrc
        m.transportSrcPort ∈ requested rofl text m := by
      simp [requested]
    apply portCarried_of_sent (hstored _ hr)
    intro field hspecified hfield
    refine ne_zero_of_mem_oxmFields ?_ (hsent hr hspecified hfield)
    simp only [requestedPort, portField] at hfield
    grind
  case dstPort =>
    have hr : requestedPort text m .destPort .sctpDst .tcpDst .udpDst .sctpDst
        m.transportDstPort ∈ requested rofl text m := by
      simp [requested]
    apply portCarried_of_sent (hstored _ hr)
    intro field hspecified hfield
    refine ne_zero_of_mem_oxmFields ?_ (hsent hr hspecified hfield)
    simp only [requestedPort, portField] at hfield
    grind
  case vlan =>
    intro hendpoint
    have hr : requestedVlan text m ∈ requested rofl text m := by simp [requested]
    have hspecified : (requestedVlan text m).specified := by simp [requestedVlan, hendpoint]
    obtain ⟨field, hfield⟩ := Option.isSome_iff_exists.mp (hstored _ hr hspecified)
    have hmem := hsent hr hspecified hfield
    rw [oxmFields, List.reduceOption_mem_iff] at hmem
    simp only [requestedVlan] at hfield
    have := hfollows.vlanOnce
    have := hfollows.anyOnce
    split_ifs at hfield <;> cases hfield <;>
      simp [some_eq_transportField, some_eq_vlanField, Option.some_eq_map_iff, hendpoint] at hmem
    · grind
    · grind
  case icmpv6Code =>
    intro code hcode
    have hr : (⟨given text [.icmpv6Code], m.icmpv6Code.map .icmpv6Code⟩ : Requested) ∈
        requested rofl text m := by
      simp [requested]
    have hmem : .icmpv6Code code ∈ oxmFields rofl m :=
      hsent hr (by simp [given, hfollows.icmpv6Code, hcode]) (by simp [hcode])
    rw [oxmFields, List.reduceOption_mem_iff] at hmem
    simp [some_eq_transportField, some_eq_vlanField, Option.some_eq_map_iff] at hmem
    grind

end UnOrchestrator.Parser
