import UnOrchestrator.Lib.Json
import UnOrchestrator.Lib.Scan
import UnOrchestrator.Highlevel.Graph

/-!
# Parsing a match

`MatchParser::parseMatch` reads the object of a match in a loop over its keys. The key
`port_in` names the input: a port of a network function, or an endpoint that the tables
filled from `end-points` resolve. Every other key constrains a header field.

`parseMatch_eq_ok_iff` says what the loop computes as a whole: it accepts an object with
an input whose every member is acceptable, and the match holds for each field what the
member of its key says. The order of the keys shows in three places: an explicit `vlan_id`
is read after the tag of a VLAN endpoint and replaces it, and of two keys for one
transport port the later one is kept.

`inet_pton` is a parameter. An uninitialised variable that is read is undefined behaviour:
the name of a network function when the reference has a single token, and a `vlan_id` that
is no number; a group that is no number leaves the member for it uninitialised.
-/

namespace UnOrchestrator.Parser

open Highlevel CString

/-! ## Addresses -/

/-- What `inet_pton` makes of an IPv4 address, and whether it takes an IPv6 address. -/
structure InetPton where
  ipv4 : String → Option Nat
  ipv6 : String → Bool

/-- The loop of `validateMac`: the digits and the separators counted so far. -/
def countMac : List Char → Int → Int → Int × Int
  | [], i, s => (i, s)
  | c :: cs, i, s =>
    if (digitValue 16 c).isSome then countMac cs (i + 1) s
    else if c = ':' ∨ c = '-' then
      if i = 0 ∨ i / 2 - 1 ≠ s then (i, s) else countMac cs i (s + 1)
    else countMac cs i (-1)

def validateMac (mac : String) : Bool :=
  let (i, s) := countMac mac.toList 0 0
  i = 12 ∧ (s = 5 ∨ s = 0)

/-- `isUnicastMac`: the last bit of what `%hhx` reads first. -/
def isUnicastMac (mac : String) : Bool := (scanUnsigned 16 mac).getD 0 % 2 = 0

def validateIpv4 (inet : InetPton) (ipAddress : String) : Bool := (inet.ipv4 ipAddress).isSome

def validateIpv6 (inet : InetPton) (ipAddress : String) : Bool := inet.ipv6 ipAddress

/-- The loop of `validateIpv4Netmask` over the bits, the lowest first: no zero after a one. -/
def onesThenZeros : Nat → Nat → Bool → Bool
  | 0, _, _ => true
  | bits + 1, mask, zero =>
    if mask % 2 = 0 ∧ ¬ zero then false else onesThenZeros bits (mask / 2) (zero && mask % 2 = 0)

/-- What `%d.%d.%d.%d` reads from a string that `inet_pton` takes, put together in 32 bits. -/
def scanMask (netmask : String) : Nat :=
  let octets := (netmask.toList.splitOnP (· = '.')).map fun cs =>
    (Conversion.d32.scan (String.ofList cs)).getD 0
  (octets.getD 0 0 * 2 ^ 24 + octets.getD 1 0 * 2 ^ 16 + octets.getD 2 0 * 2 ^ 8 + octets.getD 3 0) % 2 ^ 32

def validateIpv4Netmask (inet : InetPton) (netmask : String) : Bool :=
  validateIpv4 inet netmask && onesThenZeros 32 (scanMask netmask) true

/-! ## Port references -/

def nfId (idPort : String) : String := (strtok ':' idPort).headD ""

def nfPort (namePort : String) : Nat :=
  (((strtok ':' namePort).drop 1).head?.bind (scanUnsigned 10)).getD 0

def nfIsPort (namePort : String) : Bool := ((strtok ':' namePort).drop 1).head?.isSome

/-- Whether a reference is to an endpoint; everything else counts as a network function. -/
def isEndPointReference (reference : String) : Bool :=
  (strtok ':' reference).head? == some "endpoint"

/-- The network function and the port of a reference. Its second and fourth token are copied
into a buffer, which nothing initialises for a reference of a single token. Ports start from
one here and from zero in the reference. -/
def vnfPort (reference : String) : Except Failure (String × Nat) :=
  match strtok ':' reference with
  | _ :: vnf :: rest =>
    let vnfId := vnf ++ ":" ++ (rest.drop 1).headD ""
    if nfId vnfId = "" ∨ ¬ nfIsPort vnfId then .error .thrown
    else .ok (nfId vnfId, (nfPort vnfId + 1) % 2 ^ 32)
  | _ => .error (.abort .undefinedBehaviour)

/-- The tables that the parser fills from `end-points`, a map for each kind. -/
structure EndPointTables where
  ifaceId : StringMap String := ∅
  internalId : StringMap String := ∅
  vlanId : StringMap (String × String) := ∅
  greId : StringMap String := ∅

/-- What an endpoint reference can stand for. -/
inductive EndPointEntry where
  | interface (realName : String)
  | internal (internalGroup : String)
  | vlan (vId : String) (interface : String)
  | gre
  deriving DecidableEq, Repr

/-- The entry of an endpoint; the maps are asked in this order. -/
def EndPointTables.find (tables : EndPointTables) (eP : String) : Option EndPointEntry :=
  if eP = "" then none
  else match tables.ifaceId[eP]? with
    | some realName => some (.interface realName)
    | none => match tables.internalId[eP]? with
      | some group => some (.internal group)
      | none => match tables.vlanId[eP]? with
        | some (vId, interface) => some (.vlan vId interface)
        | none => (tables.greId[eP]?).map fun _ => .gre

/-- What the key `port_in` writes into a match: its type, the references it keeps, and the tag
of a VLAN endpoint. -/
structure PortIn where
  type : MatchType
  inputEndpoint : String := ""
  nfEndpointPort : String := ""
  tag : Option UInt16 := none
  greInput : ∀ id, type = .endPointGre id → epName inputEndpoint = id

instance : DecidableEq PortIn := fun p q => decidable_of_iff
  ((p.type, p.inputEndpoint, p.nfEndpointPort, p.tag) =
    (q.type, q.inputEndpoint, q.nfEndpointPort, q.tag)) (by cases p; cases q; simp)

/-- The value of `port_in`. An endpoint that no table knows leaves the type as it is. The test
on a VLAN identifier rejects nothing, because the variable is zero when the scan fails. -/
def portIn (tables : EndPointTables) (reference : String) : Except Failure PortIn :=
  if isEndPointReference reference then
    match tables.find (epName reference) with
    | none => .ok { type := .generic, inputEndpoint := reference, greInput := nofun }
    | some (.interface realName) =>
      .ok { type := .port realName, inputEndpoint := reference, greInput := nofun }
    | some (.internal group) =>
      if group = "" then .error .thrown
      else match scanUnsigned 10 group with
        | some n =>
          .ok { type := .endPointInternal n, inputEndpoint := reference, greInput := nofun }
        | none => .error (.abort .undefinedBehaviour)
    | some (.vlan vId interface) =>
      let vlanID := (Conversion.d32.scan vId).getD 0
      if (Conversion.d32.scan vId).isNone ∧ 4094 < vlanID then .error .thrown
      else .ok { type := .port interface, inputEndpoint := reference,
                 tag := some vlanID.toUInt16, greInput := nofun }
    | some .gre =>
      .ok { type := .endPointGre (epName reference), inputEndpoint := reference,
            greInput := fun _ h => MatchType.endPointGre.inj h }
  else do
    let (nfName, port) ← vnfPort reference
    pure { type := .nf nfName ((port : Int).bmod (2 ^ 32))
           nfEndpointPort :=
             if (strtok ':' reference).head? = some "vnf" then reference else ""
           greInput := nofun }

/-- An endpoint keeps its reference; so does a network function, if the reference says so. -/
theorem reference_of_portIn {tables : EndPointTables} {reference : String} {input : PortIn}
    (h : portIn tables reference = .ok input) :
    (isEndPointReference reference = true ∧ input.inputEndpoint = reference ∧
      ∀ vnf port, input.type ≠ .nf vnf port) ∨
    (isEndPointReference reference = false ∧ (∃ vnf port, input.type = .nf vnf port) ∧
      input.nfEndpointPort =
        if (strtok ':' reference).head? = some "vnf" then reference else "") := by
  rw [portIn] at h
  split at h
  · next hendpoint =>
    refine .inl ⟨hendpoint, ?_⟩
    split at h
    · cases h
      simp
    · cases h
      simp
    · split_ifs at h
      split at h
      · cases h
        simp
      · cases h
    · dsimp only at h
      split_ifs at h
      cases h
      simp
    · cases h
      simp
  · next hendpoint =>
    refine .inr ⟨by simpa using hendpoint, ?_⟩
    simp only [Failure.bind_eq_ok, Failure.pure_eq_ok] at h
    obtain ⟨⟨vnf, port⟩, -, rfl⟩ := h
    exact ⟨⟨_, _, rfl⟩, rfl⟩

/-! ## The keys of a match -/

/-- The keys that `parseMatch` knows. -/
inductive MatchKey where
  | portIn | hardTimeout | etherType | vlanId | vlanPriority | sourceMac | ethSrcMask | destMac
  | ethDstMask | vlanPcp | ipDscp | ipEcn | sourceIp | ipv4SrcMask | destIp | ipv4DstMask
  | tosBits | sourcePort | sctpSrc | destPort | sctpDst | icmpv4Type | icmpv4Code | arpOpcode
  | arpSpa | arpSpaMask | arpTpa | arpTpaMask | arpSha | arpTha | ipv6SrcMask | ipv6DstMask
  | ipv6Flabel | ipv6NdTarget | ipv6NdSll | ipv6NdTll | icmpv6Type | icmpv6Code | mplsLabel
  | mplsTc | protocol
  deriving DecidableEq, Repr

def MatchKey.name : MatchKey → String
  | .portIn => "port_in"
  | .hardTimeout => "hard_timeout"
  | .etherType => "ether_type"
  | .vlanId => "vlan_id"
  | .vlanPriority => "vlan_priority"
  | .sourceMac => "source_mac"
  | .ethSrcMask => "eth_src_mask"
  | .destMac => "dest_mac"
  | .ethDstMask => "eth_dst_mask"
  | .vlanPcp => "vlan_pcp"
  | .ipDscp => "ip_dscp"
  | .ipEcn => "ip_ecn"
  | .sourceIp => "source_ip"
  | .ipv4SrcMask => "ipv4_src_mask"
  | .destIp => "dest_ip"
  | .ipv4DstMask => "ipv4_dst_mask"
  | .tosBits => "tos_bits"
  | .sourcePort => "source_port"
  | .sctpSrc => "sctp_src"
  | .destPort => "dest_port"
  | .sctpDst => "sctp_dst"
  | .icmpv4Type => "icmpv4_type"
  | .icmpv4Code => "icmpv4_code"
  | .arpOpcode => "arp_opcode"
  | .arpSpa => "arp_spa"
  | .arpSpaMask => "arp_spa_mask"
  | .arpTpa => "arp_tpa"
  | .arpTpaMask => "arp_tpa_mask"
  | .arpSha => "arp_sha"
  | .arpTha => "arp_tha"
  | .ipv6SrcMask => "ipv6_src_mask"
  | .ipv6DstMask => "ipv6_dst_mask"
  | .ipv6Flabel => "ipv6_flabel"
  | .ipv6NdTarget => "ipv6_nd_target"
  | .ipv6NdSll => "ipv6_nd_sll"
  | .ipv6NdTll => "ipv6_nd_tll"
  | .icmpv6Type => "icmpv6_type"
  | .icmpv6Code => "icmpv6_code"
  | .mplsLabel => "mpls_label"
  | .mplsTc => "mpls_tc"
  | .protocol => "protocol"

/-- All keys, in the order in which the source compares a name with them. -/
def MatchKey.all : List MatchKey :=
  [.portIn, .hardTimeout, .etherType, .vlanId, .vlanPriority, .sourceMac, .ethSrcMask, .destMac,
    .ethDstMask, .vlanPcp, .ipDscp, .ipEcn, .sourceIp, .ipv4SrcMask, .destIp, .ipv4DstMask,
    .tosBits, .sourcePort, .sctpSrc, .destPort, .sctpDst, .icmpv4Type, .icmpv4Code, .arpOpcode,
    .arpSpa, .arpSpaMask, .arpTpa, .arpTpaMask, .arpSha, .arpTha, .ipv6SrcMask, .ipv6DstMask,
    .ipv6Flabel, .ipv6NdTarget, .ipv6NdSll, .ipv6NdTll, .icmpv6Type, .icmpv6Code, .mplsLabel,
    .mplsTc, .protocol]

/-- The key with a name. -/
def MatchKey.ofName (name : String) : Option MatchKey :=
  MatchKey.all.find? (fun key => key.name == name)

/-- A header field that is stored as text, if it passes its check. -/
def checked (valid : String → Bool) (set : String → Graph.Match → Graph.Match) (s : String) :
    Except Failure (Graph.Match → Graph.Match) :=
  if valid s then .ok (set s) else .error .thrown

/-- A header field that is read as a number, and must not exceed a limit. -/
def numeric (c : Conversion) (limit : Nat) (set : Nat → Graph.Match → Graph.Match) (s : String) :
    Except Failure (Graph.Match → Graph.Match) :=
  match c.scan s with
  | some v => if limit < v then .error .thrown else .ok (set v)
  | none => .error .thrown

/-- The value of `vlan_id`. The test on a number rejects only what was not scanned, and there
it reads a variable that nothing has written. -/
def readVlanID (s : String) : Except Failure (Graph.Match → Graph.Match) :=
  if s = "ANY" then .ok Graph.Match.setVlanIDAnyVlan
  else if s = "NO_VLAN" then .ok Graph.Match.setVlanIDNoVlan
  else match Conversion.i32.scan s with
    | some vlanID => .ok fun m => m.setVlanID vlanID.toUInt16
    | none => .error (.abort .undefinedBehaviour)

/-- An address of either IP version; a colon tells which. -/
def readIp (inet : InetPton) (set4 set6 : String → Graph.Match → Graph.Match) (s : String) :
    Except Failure (Graph.Match → Graph.Match) :=
  if s.toList.contains ':' then checked (validateIpv6 inet) set6 s
  else checked (validateIpv4 inet) set4 s

/-- What the value of a key other than `port_in` does to the header fields. -/
def MatchKey.read (inet : InetPton) : MatchKey → String → Except Failure (Graph.Match → Graph.Match)
  | .portIn => fun _ => .error .thrown
  | .hardTimeout | .vlanPriority | .tosBits => fun _ => .ok id
  | .etherType => numeric .i32 65535 fun v m => { m with ethType := some v.toUInt16 }
  | .vlanId => readVlanID
  | .sourceMac => checked validateMac fun s m => { m with ethSrc := some s }
  | .ethSrcMask => checked validateMac fun s m => { m with ethSrcMask := some s }
  | .destMac => checked validateMac fun s m => { m with ethDst := some s }
  | .ethDstMask => checked validateMac fun s m => { m with ethDstMask := some s }
  | .vlanPcp => numeric .d16 255 fun v m => { m with vlanPCP := some v.toUInt8 }
  | .ipDscp => numeric .d16 255 fun v m => { m with ipDSCP := some v.toUInt8 }
  | .ipEcn => numeric .d16 255 fun v m => { m with ipECN := some v.toUInt8 }
  | .sourceIp => readIp inet (fun s m => { m with ipv4Src := some s })
      (fun s m => { m with ipv6Src := some s })
  | .ipv4SrcMask => checked (validateIpv4Netmask inet) fun s m => { m with ipv4SrcMask := some s }
  | .destIp => readIp inet (fun s m => { m with ipv4Dst := some s })
      (fun s m => { m with ipv6Dst := some s })
  | .ipv4DstMask => checked (validateIpv4Netmask inet) fun s m => { m with ipv4DstMask := some s }
  | .sourcePort => numeric .d32 65535 fun v m => { m with transportSrcPort := v.toUInt16 }
  | .sctpSrc => numeric .d32 65535 fun v m => { m with transportSrcPort := v.toUInt16 }
  | .destPort => numeric .d32 65535 fun v m => { m with transportDstPort := v.toUInt16 }
  | .sctpDst => numeric .d32 65535 fun v m => { m with transportDstPort := v.toUInt16 }
  | .icmpv4Type => numeric .d16 255 fun v m => { m with icmpv4Type := some v.toUInt8 }
  | .icmpv4Code => numeric .d16 255 fun v m => { m with icmpv4Code := some v.toUInt8 }
  | .arpOpcode => numeric .d32 65535 fun v m => { m with arpOpcode := some v.toUInt16 }
  | .arpSpa => checked (validateIpv4 inet) fun s m => { m with arpSpa := some s }
  | .arpSpaMask => checked (validateIpv4Netmask inet) fun s m => { m with arpSpaMask := some s }
  | .arpTpa => checked (validateIpv4 inet) fun s m => { m with arpTpa := some s }
  | .arpTpaMask => checked (validateIpv4Netmask inet) fun s m => { m with arpTpaMask := some s }
  | .arpSha => checked validateMac fun s m => { m with arpSha := some s }
  | .arpTha => checked validateMac fun s m => { m with arpTha := some s }
  | .ipv6SrcMask => checked (validateIpv6 inet) fun s m => { m with ipv6SrcMask := some s }
  | .ipv6DstMask => checked (validateIpv6 inet) fun s m => { m with ipv6DstMask := some s }
  | .ipv6Flabel => numeric .d64 4294967295 fun v m => { m with ipv6Flabel := some v.toUInt32 }
  | .ipv6NdTarget => fun s => .ok fun m => { m with ipv6NdTarget := some s }
  | .ipv6NdSll => fun s => .ok fun m => { m with ipv6NdSll := some s }
  | .ipv6NdTll => fun s => .ok fun m => { m with ipv6NdTll := some s }
  | .icmpv6Type => numeric .d16 255 fun v m => { m with icmpv6Type := some v.toUInt8 }
  | .icmpv6Code => numeric .d16 255 fun v m => { m with icmpv6Code := some v.toUInt8 }
  | .mplsLabel => numeric .d64 1048575 fun v m => { m with mplsLabel := some v.toUInt32 }
  | .mplsTc => numeric .d16 255 fun v m => { m with mplsTC := some v.toUInt8 }
  | .protocol => numeric .d16 255 fun v m => { m with ipProto := some v.toUInt8 }

/-! ## The loop -/

/-- What the loop of `parseMatch` changes; the action is a pointer that can be null. -/
structure MatchState where
  «match» : Highlevel.Match := {}
  action : Option Action
  foundOne : Bool := false

/-- The match with an input and header fields. -/
def PortIn.toMatch (input : PortIn) (header : Graph.Match) : Highlevel.Match :=
  { header with
    type := input.type
    inputEndpoint := input.inputEndpoint
    nfEndpointPort := input.nfEndpointPort
    greInput := input.greInput }

/-- Writes the input into the match. For a VLAN endpoint the match is on its tag as well, and
the action gets to remove the tag. -/
def MatchState.setPortIn (st : MatchState) (input : PortIn) : Except Failure MatchState :=
  match input.tag with
  | none => .ok { «match» := input.toMatch st.match.toMatch, action := st.action, foundOne := true }
  | some tag => do
    let action ← Failure.orElse (.abort .undefinedBehaviour) st.action
    pure { «match» := input.toMatch
             { st.match.toMatch with vlanID := tag, isEndpointVlanID := true }
           action := some (action.addGenericAction ⟨.endpointVlanPop, tag⟩)
           foundOne := true }

/-- Writes the header fields of the match. -/
def MatchState.setHeader (st : MatchState) (set : Graph.Match → Graph.Match) : MatchState :=
  { st with «match» := { st.match with toMatch := set st.match.toMatch } }

/-- One round of the loop. -/
def parseMatchKey (inet : InetPton) (tables : EndPointTables) (st : MatchState) (name : String)
    (value : Json) : Except Failure MatchState :=
  match MatchKey.ofName name with
  | none => .error .thrown
  | some .portIn => do
    let reference ← value.getString
    if st.foundOne then .error .thrown
    else do
      let input ← portIn tables reference
      st.setPortIn input
  | some key => do
    let s ← value.getString
    let set ← key.read inet s
    pure (st.setHeader set)

/-- `MatchParser::parseMatch`, on a new match. -/
def parseMatch (inet : InetPton) (tables : EndPointTables) (object : Json.Object)
    (action : Option Action) : Except Failure (Highlevel.Match × Option Action) := do
  let st ← Json.forEach object { action := action } (parseMatchKey inet tables)
  if st.foundOne then pure (st.match, st.action) else .error .thrown

/-! ## What the loop computes -/

/-- What the members say, by key. -/
def textOf (seen : String → Option Json) (key : MatchKey) : Option String :=
  (seen key.name).bind fun value => value.getString.toOption

/-- The header fields that the texts of the keys ask for, on top of the tag of a VLAN
endpoint. -/
def headerOf (tag : Option UInt16) (text : MatchKey → Option String) : Graph.Match :=
  let number (c : Conversion) (key : MatchKey) : Option Nat := (text key).bind c.scan
  let vlanID := (text .vlanId).filter fun s => s ≠ "ANY" ∧ s ≠ "NO_VLAN"
  { ethSrc := text .sourceMac
    ethSrcMask := text .ethSrcMask
    ethDst := text .destMac
    ethDstMask := text .ethDstMask
    ethType := (number .i32 .etherType).map Nat.toUInt16
    isVlanID := vlanID.isSome
    isNoVlan := text .vlanId == some "NO_VLAN"
    isAnyVlan := text .vlanId == some "ANY"
    isEndpointVlanID := tag.isSome
    vlanID := ((vlanID.bind Conversion.i32.scan).map Nat.toUInt16 <|> tag).getD 0
    vlanPCP := (number .d16 .vlanPcp).map Nat.toUInt8
    ipDSCP := (number .d16 .ipDscp).map Nat.toUInt8
    ipECN := (number .d16 .ipEcn).map Nat.toUInt8
    ipProto := (number .d16 .protocol).map Nat.toUInt8
    ipv4Src := (text .sourceIp).filter fun s => !s.toList.contains ':'
    ipv4SrcMask := text .ipv4SrcMask
    ipv4Dst := (text .destIp).filter fun s => !s.toList.contains ':'
    ipv4DstMask := text .ipv4DstMask
    transportSrcPort :=
      ((number .d32 .sourcePort <|> number .d32 .sctpSrc).map Nat.toUInt16).getD 0
    transportDstPort :=
      ((number .d32 .sctpDst <|> number .d32 .destPort).map Nat.toUInt16).getD 0
    icmpv4Type := (number .d16 .icmpv4Type).map Nat.toUInt8
    icmpv4Code := (number .d16 .icmpv4Code).map Nat.toUInt8
    arpOpcode := (number .d32 .arpOpcode).map Nat.toUInt16
    arpSpa := text .arpSpa
    arpSpaMask := text .arpSpaMask
    arpTpa := text .arpTpa
    arpTpaMask := text .arpTpaMask
    arpSha := text .arpSha
    arpTha := text .arpTha
    ipv6Src := (text .sourceIp).filter fun s => s.toList.contains ':'
    ipv6SrcMask := text .ipv6SrcMask
    ipv6Dst := (text .destIp).filter fun s => s.toList.contains ':'
    ipv6DstMask := text .ipv6DstMask
    ipv6Flabel := (number .d64 .ipv6Flabel).map Nat.toUInt32
    ipv6NdTarget := text .ipv6NdTarget
    ipv6NdSll := text .ipv6NdSll
    ipv6NdTll := text .ipv6NdTll
    icmpv6Type := (number .d16 .icmpv6Type).map Nat.toUInt8
    icmpv6Code := (number .d16 .icmpv6Code).map Nat.toUInt8
    mplsLabel := (number .d64 .mplsLabel).map Nat.toUInt32
    mplsTC := (number .d16 .mplsTc).map Nat.toUInt8 }

variable {s : String}

theorem checked_eq_ok {valid : String → Bool} {set : String → Graph.Match → Graph.Match}
    {f : Graph.Match → Graph.Match} :
    checked valid set s = .ok f ↔ valid s = true ∧ set s = f := by
  unfold checked
  cases valid s <;> simp

theorem numeric_eq_ok {c : Conversion} {limit : Nat} {set : Nat → Graph.Match → Graph.Match}
    {f : Graph.Match → Graph.Match} :
    numeric c limit set s = .ok f ↔ ∃ v, c.scan s = some v ∧ v ≤ limit ∧ set v = f := by
  unfold numeric
  cases c.scan s with
  | none => simp
  | some v =>
    by_cases h : limit < v
    · simp only [if_pos h, reduceCtorEq, Option.some.injEq, exists_eq_left', false_iff]
      omega
    · simp only [if_neg h, Except.ok.injEq, Option.some.injEq, exists_eq_left', Nat.not_lt.mp h,
        true_and]

theorem read_headerOf {inet : InetPton} {key : MatchKey} {set : Graph.Match → Graph.Match}
    (h : key.read inet s = .ok set) {tag : Option UInt16} {text : MatchKey → Option String}
    (hnew : text key = none) (hsrc : key = .sctpSrc → text .sourcePort = none)
    (hdst : key = .destPort → text .sctpDst = none) :
    set (headerOf tag text) = headerOf tag (fun k => if k = key then some s else text k) := by
  cases key with
  | portIn => cases h
  | hardTimeout | vlanPriority | tosBits =>
    cases h
    simp [headerOf]
  | sourceMac | ethSrcMask | destMac | ethDstMask | ipv4SrcMask | ipv4DstMask | arpSpa | arpSpaMask
    | arpTpa | arpTpaMask | arpSha | arpTha | ipv6SrcMask | ipv6DstMask =>
    rw [MatchKey.read, checked_eq_ok] at h
    obtain ⟨-, rfl⟩ := h
    simp [headerOf]
  | ipv6NdTarget | ipv6NdSll | ipv6NdTll =>
    cases h
    simp [headerOf]
  | etherType | vlanPcp | ipDscp | ipEcn | icmpv4Type | icmpv4Code | arpOpcode | ipv6Flabel
    | icmpv6Type | icmpv6Code | mplsLabel | mplsTc | protocol | sourcePort | sctpDst =>
    rw [MatchKey.read, numeric_eq_ok] at h
    obtain ⟨v, hv, -, rfl⟩ := h
    simp [headerOf, hv]
  | sctpSrc =>
    rw [MatchKey.read, numeric_eq_ok] at h
    obtain ⟨v, hv, -, rfl⟩ := h
    simp [headerOf, hv, hsrc rfl]
  | destPort =>
    rw [MatchKey.read, numeric_eq_ok] at h
    obtain ⟨v, hv, -, rfl⟩ := h
    simp [headerOf, hv, hdst rfl]
  | sourceIp | destIp =>
    rw [MatchKey.read, readIp] at h
    split at h
    · next hcolon =>
      rw [checked_eq_ok] at h
      obtain ⟨-, rfl⟩ := h
      simp [headerOf, hnew, Option.filter_some, -List.contains_eq_mem, hcolon]
    · next hcolon =>
      rw [checked_eq_ok] at h
      obtain ⟨-, rfl⟩ := h
      simp [headerOf, hnew, Option.filter_some, -List.contains_eq_mem, hcolon]
  | vlanId =>
    rw [MatchKey.read, readVlanID] at h
    split at h
    · next hany =>
      cases h
      simp [headerOf, hnew, Option.filter_some, hany, Graph.Match.setVlanIDAnyVlan]
    · next hany =>
      split at h
      · next hno =>
        cases h
        simp [headerOf, hnew, Option.filter_some, hno, Graph.Match.setVlanIDNoVlan]
      · next hno =>
        split at h
        · next v hv =>
          cases h
          simp [headerOf, hnew, Option.filter_some, hany, hno, hv, Graph.Match.setVlanID]
        · cases h

/-- What is left of the action once the input is known. -/
def PortIn.onAction (input : PortIn) (action : Option Action) : Option Action :=
  match input.tag with
  | none => action
  | some tag => action.map fun a => a.addGenericAction ⟨.endpointVlanPop, tag⟩

section Loop

variable (inet : InetPton) (tables : EndPointTables) (action : Option Action)

/-- The texts that a key accepts. -/
def Accepts (key : MatchKey) (s : String) : Prop :=
  match key with
  | .portIn => ∃ input, portIn tables s = .ok input ∧ (input.tag.isSome → action.isSome)
  | key => ∃ set, key.read inet s = .ok set

/-- The input that the members name. -/
def inputOf (seen : String → Option Json) : Option PortIn :=
  (textOf seen .portIn).bind fun reference => (portIn tables reference).toOption

/-- The state of the loop with an input and the texts of the keys. -/
def stateWith (text : MatchKey → Option String) : Option PortIn → MatchState
  | none => { «match» := { toMatch := headerOf none text }, action := action }
  | some input =>
    { «match» := input.toMatch (headerOf input.tag text)
      action := input.onAction action
      foundOne := true }

/-- The state of the loop once it has seen some members. -/
def stateOf (seen : String → Option Json) : MatchState :=
  stateWith action (textOf seen) (inputOf tables seen)

end Loop

@[simp] theorem MatchKey.ofName_name (key : MatchKey) : ofName key.name = some key := by
  cases key <;> rfl

variable {key : MatchKey}

theorem MatchKey.name_of_ofName {name : String} (h : ofName name = some key) :
    key.name = name := by
  simpa using List.find?_some h

theorem MatchKey.name_injective : Function.Injective MatchKey.name := fun a b h => by
  have := ofName_name a
  rw [h, ofName_name] at this
  exact (Option.some.inj this).symm

variable {inet : InetPton} {tables : EndPointTables} {action : Option Action}

variable {seen : String → Option Json} {s : String}

theorem textOf_eq_some :
    textOf seen key = some s ↔ seen key.name = some (.str s) := by
  unfold textOf
  cases seen key.name with
  | none => simp
  | some v => cases v <;> simp [Json.getString]

/-- One more member is one more text. -/
theorem textOf_update (seen : String → Option Json) (key : MatchKey) (s : String) :
    textOf (Function.update seen key.name (some (.str s))) =
      fun k => if k = key then some s else textOf seen k := by
  funext k
  by_cases hk : k = key
  · subst hk
    simp only [textOf, Function.update_self, if_true]
    rfl
  · rw [if_neg hk, textOf, Function.update_of_ne fun h => hk (MatchKey.name_injective h)]
    rfl

theorem parseMatchKey_of_ne {name : String} (h : MatchKey.ofName name = some key) (hne : key ≠ .portIn)
    (st : MatchState) (value : Json) :
    parseMatchKey inet tables st name value = (value.getString >>= fun s =>
      key.read inet s >>= fun set => pure (st.setHeader set)) := by
  unfold parseMatchKey
  rw [h]
  cases key <;> first | exact absurd rfl hne | rfl

theorem accepts_of_ne (hne : key ≠ .portIn) (s : String) :
    Accepts inet tables action key s ↔ ∃ set, key.read inet s = .ok set := by
  unfold Accepts
  cases key <;> first | exact absurd rfl hne | rfl

/-- A key other than `port_in` changes the header fields of the state. -/
theorem stateOf_update (hne : key ≠ .portIn) (hseen : ∀ k, key.name ≤ k → seen k = none)
    {set : Graph.Match → Graph.Match} (hset : key.read inet s = .ok set) :
    stateOf tables action (Function.update seen key.name (some (.str s))) =
      (stateOf tables action seen).setHeader set := by
  have hnone (k : MatchKey) (hk : key.name ≤ k.name) : textOf seen k = none := by
    rw [textOf, hseen k.name hk]
    rfl
  have hinput : inputOf tables (Function.update seen key.name (some (.str s))) =
      inputOf tables seen := by
    simp only [inputOf, textOf_update, if_neg (Ne.symm hne)]
  have hheader (tag : Option UInt16) :
      set (headerOf tag (textOf seen)) = headerOf tag (fun k => if k = key then some s else _) :=
    read_headerOf hset (hnone key le_rfl)
      (fun h => hnone .sourcePort (by rw [h]; decide))
      (fun h => hnone .sctpDst (by rw [h]; decide))
  rw [stateOf, stateOf, hinput, textOf_update]
  cases inputOf tables seen with
  | none => simp only [stateWith, MatchState.setHeader, hheader]
  | some input => simp only [stateWith, MatchState.setHeader, PortIn.toMatch, hheader]

theorem headerOf_portIn (tag : Option UInt16) (text : MatchKey → Option String) (s : String) :
    headerOf tag (fun k => if k = .portIn then some s else text k) = headerOf tag text := by
  simp [headerOf]

/-- The tag of a VLAN endpoint, while no `vlan_id` has been read. -/
theorem headerOf_tag (tag : UInt16) {text : MatchKey → Option String} (h : text .vlanId = none) :
    headerOf (some tag) text =
      { headerOf none text with vlanID := tag, isEndpointVlanID := true } := by
  simp [headerOf, h]

/-- The key `port_in` writes the input. -/
theorem setPortIn_eq_ok_iff (hseen : ∀ k, MatchKey.portIn.name ≤ k → seen k = none) {input : PortIn}
    (hinput : portIn tables s = .ok input) (st : MatchState) :
    (stateOf tables action seen).setPortIn input = .ok st ↔
      (input.tag.isSome → action.isSome) ∧
        stateOf tables action (Function.update seen MatchKey.portIn.name (some (.str s))) = st := by
  have hnone (k : MatchKey) (hk : MatchKey.portIn.name ≤ k.name) : textOf seen k = none := by
    rw [textOf, hseen k.name hk]
    rfl
  have hbefore : stateOf tables action seen = stateWith action (textOf seen) none := by
    rw [stateOf, inputOf, hnone .portIn le_rfl]
    rfl
  have hafter : stateOf tables action
      (Function.update seen MatchKey.portIn.name (some (.str s))) =
        stateWith action (textOf seen) (some input) := by
    rw [stateOf, inputOf, textOf_update]
    simp only [if_true, Option.bind_some, hinput, Except.toOption, stateWith, headerOf_portIn]
  rw [hbefore, hafter, MatchState.setPortIn]
  cases htag : input.tag with
  | none => simp [stateWith, PortIn.onAction, htag]
  | some tag =>
    have hheader := headerOf_tag tag (hnone .vlanId (by decide))
    cases action <;> simp [stateWith, PortIn.onAction, htag, hheader]

theorem parseMatchKey_eq_ok_iff (seen : String → Option Json) (name : String) (v : Json)
    (hseen : ∀ k, name ≤ k → seen k = none) (s : MatchState) :
    parseMatchKey inet tables (stateOf tables action seen) name v = .ok s ↔
      (∃ key text, key.name = name ∧ v = .str text ∧ Accepts inet tables action key text) ∧
        s = stateOf tables action (Function.update seen name (some v)) := by
  cases hkey : MatchKey.ofName name with
  | none =>
    simp only [parseMatchKey, hkey, reduceCtorEq, false_iff, not_and]
    rintro ⟨key, -, rfl, -⟩
    simp at hkey
  | some key =>
    obtain rfl := MatchKey.name_of_ofName hkey
    by_cases hne : key = .portIn
    · subst hne
      have hfound : (stateOf tables action seen).foundOne = false := by
        rw [stateOf, inputOf, textOf, hseen _ le_rfl]
        rfl
      simp only [parseMatchKey, hkey, hfound, Bool.false_eq_true, if_false, Failure.bind_eq_ok,
        Json.getString_eq_ok]
      constructor
      · rintro ⟨text, rfl, input, hinput, hst⟩
        obtain ⟨haction, rfl⟩ := (setPortIn_eq_ok_iff hseen hinput s).mp hst
        exact ⟨⟨.portIn, text, rfl, rfl, input, hinput, haction⟩, rfl⟩
      · rintro ⟨⟨key, text, hname, rfl, haccepts⟩, rfl⟩
        obtain rfl := MatchKey.name_injective hname
        obtain ⟨input, hinput, haction⟩ := haccepts
        exact ⟨text, rfl, input, hinput, (setPortIn_eq_ok_iff hseen hinput _).mpr ⟨haction, rfl⟩⟩
    · rw [parseMatchKey_of_ne hkey hne]
      simp only [Failure.bind_eq_ok, Json.getString_eq_ok, Failure.pure_eq_ok]
      constructor
      · rintro ⟨text, rfl, set, hset, rfl⟩
        exact ⟨⟨key, text, rfl, rfl, (accepts_of_ne hne text).mpr ⟨set, hset⟩⟩,
          (stateOf_update hne hseen hset).symm⟩
      · rintro ⟨⟨key', text, hname, rfl, haccepts⟩, rfl⟩
        obtain rfl := MatchKey.name_injective hname
        obtain ⟨set, hset⟩ := (accepts_of_ne hne text).mp haccepts
        exact ⟨text, rfl, set, hset, (stateOf_update hne hseen hset).symm⟩

/-- What `parseMatch` computes: every member is one of the known keys with a text it accepts,
one of them is the input, and the match and the action are what the members say. -/
theorem parseMatch_eq_ok_iff {object : Json.Object} {m : Highlevel.Match} {a : Option Action} :
    parseMatch inet tables object action = .ok (m, a) ↔
      (∀ name v, object[name]? = some v →
        ∃ key text, key.name = name ∧ v = .str text ∧ Accepts inet tables action key text) ∧
      ∃ input, inputOf tables (fun k => object[k]?) = some input ∧
        m = input.toMatch (headerOf input.tag (textOf fun k => object[k]?)) ∧
        a = input.onAction action := by
  have hinit : ({ action := action } : MatchState) = stateOf tables action fun _ => none := rfl
  simp only [parseMatch, hinit, Failure.bind_eq_ok, Json.forEach_eq_ok_iff _ _ parseMatchKey_eq_ok_iff]
  constructor
  · rintro ⟨st, ⟨hvalid, rfl⟩, hst⟩
    refine ⟨hvalid, ?_⟩
    cases hinput : inputOf tables (fun k => object[k]?) with
    | none => simp [stateOf, hinput, stateWith] at hst
    | some input =>
      simp only [stateOf, hinput, stateWith, if_true, Failure.pure_eq_ok, Prod.mk.injEq] at hst
      exact ⟨input, rfl, hst.1.symm, hst.2.symm⟩
  · rintro ⟨hvalid, input, hinput, rfl, rfl⟩
    refine ⟨_, ⟨hvalid, rfl⟩, ?_⟩
    simp only [stateOf, hinput, stateWith, if_true]
    rfl

/-- In an accepted object every key accepts its text. -/
theorem accepts_of_valid {object : Json.Object}
    (hvalid : ∀ name v, object[name]? = some v → ∃ key text, key.name = name ∧ v = .str text ∧ Accepts inet tables action key text)
    (h : textOf (fun k => object[k]?) key = some s) :
    Accepts inet tables action key s := by
  obtain ⟨key', text, hname, hv, haccepts⟩ := hvalid _ _ (textOf_eq_some.mp h)
  cases hv
  rwa [MatchKey.name_injective hname] at haccepts

end UnOrchestrator.Parser
