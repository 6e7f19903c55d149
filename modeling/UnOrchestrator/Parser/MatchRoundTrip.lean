import UnOrchestrator.Highlevel.Json
import UnOrchestrator.Parser.Numbers

/-!
# A match through its JSON

The client that reads a match back and sends it again should get the same match.
`match_roundTrips_iff` says which matches survive: those with an input that is written at
all, and none of the fields that `toJSON` writes in a form the parser does not read. These
are the fields of one octet, which are written as characters, the protocol, whose key the
parser does not know, and with it the transport ports, and an Ethernet type that has more
than one decimal digit, since it is written in hexadecimal without a mark.
-/

namespace UnOrchestrator.Parser

open Option (filter_some map_eq_some_iff some)

open Highlevel CString

/-- The text that `toJSON` writes for each key the parser knows. -/
def printed (portIn : Option String) (m : Graph.Match) : MatchKey → Option String
  | .portIn => portIn
  | .hardTimeout | .vlanPriority | .tosBits | .protocol => none
  | .etherType => m.ethType.map fun v => hexString v.toNat
  | .vlanId =>
    if m.isVlanID then some (toString m.vlanID.toNat)
    else if m.isAnyVlan then some "ANY"
    else if m.isNoVlan then some "NO_VLAN"
    else none
  | .sourceMac => m.ethSrc
  | .ethSrcMask => m.ethSrcMask
  | .destMac => m.ethDst
  | .ethDstMask => m.ethDstMask
  | .vlanPcp => m.vlanPCP.map octetString
  | .ipDscp => m.ipDSCP.map octetString
  | .ipEcn => m.ipECN.map octetString
  | .sourceIp => m.ipv6Src <|> m.ipv4Src
  | .ipv4SrcMask => m.ipv4SrcMask
  | .destIp => m.ipv6Dst <|> m.ipv4Dst
  | .ipv4DstMask => m.ipv4DstMask
  | .sourcePort =>
    if (m.isTcpProtocol ∨ m.isUdpProtocol) ∧ m.transportSrcPort ≠ 0 then
      some (toString m.transportSrcPort.toNat)
    else none
  | .destPort =>
    if (m.isTcpProtocol ∨ m.isUdpProtocol) ∧ m.transportSrcPort = 0 ∧ m.transportDstPort ≠ 0 then
      some (toString m.transportDstPort.toNat)
    else none
  | .sctpSrc =>
    if m.isSctpProtocol ∧ m.transportSrcPort ≠ 0 then some (toString m.transportSrcPort.toNat)
    else none
  | .sctpDst =>
    if m.isSctpProtocol ∧ m.transportSrcPort = 0 ∧ m.transportDstPort ≠ 0 then
      some (toString m.transportDstPort.toNat)
    else none
  | .icmpv4Type => m.icmpv4Type.map octetString
  | .icmpv4Code => m.icmpv4Code.map octetString
  | .arpOpcode => m.arpOpcode.map fun v => toString v.toNat
  | .arpSpa => m.arpSpa
  | .arpSpaMask => m.arpSpaMask
  | .arpTpa => m.arpTpa
  | .arpTpaMask => m.arpTpaMask
  | .arpSha => m.arpSha
  | .arpTha => m.arpTha
  | .ipv6SrcMask => m.ipv6SrcMask
  | .ipv6DstMask => m.ipv6DstMask
  | .ipv6Flabel => m.ipv6Flabel.map fun v => toString v.toNat
  | .ipv6NdTarget => m.ipv6NdTarget
  | .ipv6NdSll => m.ipv6NdSll
  | .ipv6NdTll => m.ipv6NdTll
  | .icmpv6Type => m.icmpv6Type.map octetString
  | .icmpv6Code => m.icmpv6Code.map octetString
  | .mplsLabel => m.mplsLabel.map fun v => toString v.toNat
  | .mplsTc => m.mplsTC.map octetString

theorem getElem?_toJSON (portIn : Option String) (m : Graph.Match) (k : String) :
    (m.toJSON portIn)[k]? = (Json.lastOf (("port_in", portIn) :: m.members) k).map .str := by
  rw [Graph.Match.toJSON, Json.getElem?_ofMembers, Json.lastOf_map]

theorem textOf_toJSON (portIn : Option String) (m : Graph.Match) :
    textOf (fun k => (m.toJSON portIn)[k]?) = printed portIn m := by
  funext key
  have htext (o : Option String) :
      ((o.map Json.str).bind fun value => value.getString.toOption) = o := by
    cases o <;> rfl
  rw [textOf, getElem?_toJSON, htext]
  cases key <;> simp [Json.lastOf, Graph.Match.members, MatchKey.name, printed]

/-- What is known about the header fields of a match that was parsed. -/
structure Parsed (tag : Option UInt16) (m : Graph.Match) : Prop where
  endpoint : m.isEndpointVlanID = tag.isSome
  vlan : m.isVlanID = true ∧ m.isAnyVlan = false ∧ m.isNoVlan = false ∨
    m.isVlanID = false ∧ m.vlanID = tag.getD 0 ∧ (m.isAnyVlan = true → m.isNoVlan = false)
  ipSrc : m.ipv6Src = none ∧ (∀ s, m.ipv4Src = some s → s.toList.contains ':' = false) ∨
    m.ipv4Src = none ∧ ∀ s, m.ipv6Src = some s → s.toList.contains ':' = true
  ipDst : m.ipv6Dst = none ∧ (∀ s, m.ipv4Dst = some s → s.toList.contains ':' = false) ∨
    m.ipv4Dst = none ∧ ∀ s, m.ipv6Dst = some s → s.toList.contains ':' = true
  greKey : m.greKey = none

theorem parsed_headerOf (tag : Option UInt16) (text : MatchKey → Option String) :
    Parsed tag (headerOf tag text) := by
  have hip (o : Option String) :
      o.filter (fun s => s.toList.contains ':') = none ∧
        (∀ s, o.filter (fun s => !s.toList.contains ':') = some s →
          s.toList.contains ':' = false) ∨
      o.filter (fun s => !s.toList.contains ':') = none ∧
        ∀ s, o.filter (fun s => s.toList.contains ':') = some s → s.toList.contains ':' = true := by
    cases o with
    | none => simp
    | some s => cases h : s.toList.contains ':' <;> simp [filter_some, h, -List.contains_eq_mem]
  constructor
  case endpoint => rfl
  case vlan =>
    cases htext : text .vlanId with
    | none => simp [headerOf, htext]
    | some s =>
      by_cases hany : s = "ANY"
      · simp [headerOf, htext, filter_some, hany]
      · by_cases hno : s = "NO_VLAN" <;>
          simp [headerOf, htext, filter_some, hany, hno]
  case ipSrc => exact hip _
  case ipDst => exact hip _
  case greKey => rfl

/-- The fields of one octet, the protocol among them. -/
def octets (m : Graph.Match) : List (Option UInt8) :=
  [m.vlanPCP, m.ipDSCP, m.ipECN, m.ipProto, m.icmpv4Type, m.icmpv4Code, m.icmpv6Type, m.icmpv6Code,
    m.mplsTC]

/-- The header fields that are written in a form the parser reads back. -/
structure HeaderPrintable (m : Graph.Match) : Prop where
  ethType : ∀ v, m.ethType = some v → v < 10
  octets : ∀ o ∈ octets m, o = none
  ports : m.transportSrcPort = 0 ∧ m.transportDstPort = 0

section Numbers

variable (c : Conversion)

theorem scan_uint16 (hc : 16 ≤ c.width) (v : UInt16) : c.scan (toString v.toNat) = some v.toNat :=
  scan_toString c (lt_of_lt_of_le v.toNat_lt (Nat.pow_le_pow_right (by omega) hc))
    (by have := v.toNat_lt; omega)

theorem scan_uint32 (hc : 32 ≤ c.width) (v : UInt32) : c.scan (toString v.toNat) = some v.toNat :=
  scan_toString c (lt_of_lt_of_le v.toNat_lt (Nat.pow_le_pow_right (by omega) hc))
    (by have := v.toNat_lt; omega)

end Numbers

theorem scan_hexString_uint16 {v : UInt16} (h : v < 10) :
    Conversion.i32.scan (hexString v.toNat) = some v.toNat := by
  have hlt : v.toNat < 10 := by simpa using UInt16.lt_iff_toNat_lt.mp h
  exact (scan_hexString_iff (by omega)).mpr hlt

/-- No octet is read back from the character it is written as. -/
theorem scan_octetString (v : UInt8) :
    (Conversion.d16.scan (octetString v)).map Nat.toUInt8 ≠ some v := by
  have hall : ∀ n : Fin 256,
      (Conversion.d16.scan (octetString (UInt8.ofNat n))).map Nat.toUInt8 ≠
        some (UInt8.ofNat n) := by
    decide +kernel
  have := hall ⟨v.toNat, v.toNat_lt⟩
  simpa using this

variable {inet : InetPton} {tables : EndPointTables} {tag : Option UInt16} {m : Graph.Match}
  {text : MatchKey → Option String}

theorem toString_uint16_ne (v : UInt16) : toString v.toNat ≠ "ANY" ∧ toString v.toNat ≠ "NO_VLAN" := by
  have hscan := scan_uint16 .i32 (by decide) v
  constructor
  · intro h
    rw [h, show Conversion.i32.scan "ANY" = none by decide +kernel] at hscan
    cases hscan
  · intro h
    rw [h, show Conversion.i32.scan "NO_VLAN" = none by decide +kernel] at hscan
    cases hscan

/-- The VLAN constraint is read back. -/
theorem headerOf_printed_vlan (hparsed : Parsed tag m) (portIn : Option String) :
    let back := headerOf tag (printed portIn m)
    back.isVlanID = m.isVlanID ∧ back.isAnyVlan = m.isAnyVlan ∧ back.isNoVlan = m.isNoVlan ∧
      back.vlanID = m.vlanID := by
  obtain ⟨hany, hno⟩ := toString_uint16_ne m.vlanID
  have hscan := scan_uint16 .i32 (by decide) m.vlanID
  rcases hparsed.vlan with ⟨hid, hnotAny, hnotNo⟩ | ⟨hid, htag, honce⟩
  · simp [headerOf, printed, hid, hnotAny, hnotNo, filter_some, hany, hno, hscan,
      -Nat.toString_eq_repr]
  · cases hisAny : m.isAnyVlan with
    | true => simp [headerOf, printed, hid, hisAny, htag, honce hisAny, filter_some]
    | false =>
      cases hisNo : m.isNoVlan <;>
        simp [headerOf, printed, hid, hisAny, hisNo, htag, filter_some]

/-- An address is read back, for the version it has. -/
theorem filter_printed_ip {ipv4 ipv6 : Option String}
    (h : ipv6 = none ∧ (∀ s, ipv4 = some s → s.toList.contains ':' = false) ∨
      ipv4 = none ∧ ∀ s, ipv6 = some s → s.toList.contains ':' = true) :
    (ipv6 <|> ipv4).filter (fun s => !s.toList.contains ':') = ipv4 ∧
      (ipv6 <|> ipv4).filter (fun s => s.toList.contains ':') = ipv6 := by
  rcases h with ⟨rfl, h⟩ | ⟨rfl, h⟩
  · cases ipv4 with
    | none => simp
    | some s => simp [filter_some, h s rfl, -List.contains_eq_mem]
  · cases ipv6 with
    | none => simp
    | some s => simp [filter_some, h s rfl, -List.contains_eq_mem]

/-- What was written is read back. -/
theorem headerOf_printed (hparsed : Parsed tag m) (hprintable : HeaderPrintable m)
    (portIn : Option String) : headerOf tag (printed portIn m) = m := by
  obtain ⟨hsrc4, hsrc6⟩ := filter_printed_ip hparsed.ipSrc
  obtain ⟨hdst4, hdst6⟩ := filter_printed_ip hparsed.ipDst
  obtain ⟨hid, hisAny, hisNo, hvlanID⟩ := headerOf_printed_vlan hparsed portIn
  have hoctet {o : Option UInt8} (ho : o ∈ octets m) :
      ((o.map octetString).bind Conversion.d16.scan).map Nat.toUInt8 = o := by
    rw [hprintable.octets o ho]
    rfl
  have hproto : m.ipProto = none := hprintable.octets _ (by simp [octets])
  have htype : ((m.ethType.map fun v => hexString v.toNat).bind Conversion.i32.scan).map
      Nat.toUInt16 = m.ethType := by
    cases h : m.ethType with
    | none => rfl
    | some v => simp [scan_hexString_uint16 (hprintable.ethType v h)]
  have harp : ((m.arpOpcode.map fun v => toString v.toNat).bind Conversion.d32.scan).map
      Nat.toUInt16 = m.arpOpcode := by
    cases m.arpOpcode with
    | none => rfl
    | some v => simp [scan_uint16 .d32 (by decide), -Nat.toString_eq_repr]
  have hlabel (o : Option UInt32) : ((o.map fun v => toString v.toNat).bind Conversion.d64.scan).map
      Nat.toUInt32 = o := by
    cases o with
    | none => rfl
    | some v => simp [scan_uint32 .d64 (by decide), -Nat.toString_eq_repr]
  obtain ⟨hsrcPort, hdstPort⟩ := hprintable.ports
  have hendpoint := hparsed.endpoint
  have hgreKey := hparsed.greKey
  have hports : (headerOf tag (printed portIn m)).transportSrcPort = m.transportSrcPort ∧
      (headerOf tag (printed portIn m)).transportDstPort = m.transportDstPort := by
    simp [headerOf, printed, hsrcPort, hdstPort]
  rcases m
  refine (Graph.Match.mk.injEq ..).mpr ?_
  and_intros
  all_goals first
    | rfl
    | exact htype
    | exact hid
    | exact hisNo
    | exact hisAny
    | exact hendpoint.symm
    | exact hvlanID
    | exact hsrc4
    | exact hsrc6
    | exact hdst4
    | exact hdst6
    | exact hproto.symm
    | exact hports.1
    | exact hports.2
    | exact harp
    | exact hlabel _
    | exact hgreKey.symm
    | exact hoctet (by simp [octets])

/-- The texts that are written for a match are accepted, if the ones it was parsed from were. -/
theorem read_printed
    (haccepts : ∀ k s, text k = some s → k ≠ .portIn → ∃ set, k.read inet s = .ok set)
    (hprintable : HeaderPrintable (headerOf tag text)) {portIn : Option String} {key : MatchKey}
    (hkey : key ≠ .portIn) {s : String} (hs : printed portIn (headerOf tag text) key = some s) :
    ∃ set, key.read inet s = .ok set := by
  have hnumeric {c : Conversion} {limit v : Nat} (set : Nat → Graph.Match → Graph.Match)
      (hscan : c.scan s = some v) (hle : v ≤ limit) : ∃ f, numeric c limit set s = .ok f :=
    ⟨_, numeric_eq_ok.mpr ⟨v, hscan, hle, rfl⟩⟩
  have hip (o : Option String) : (o.filter (fun s => s.toList.contains ':') <|>
      o.filter (fun s => !s.toList.contains ':')) = o := by
    cases o with
    | none => rfl
    | some s => cases h : s.toList.contains ':' <;> simp [filter_some, h, -List.contains_eq_mem]
  have hoctet {o : Option UInt8} (ho : o ∈ octets (headerOf tag text)) :
      o.map octetString ≠ some s := by
    rw [hprintable.octets o ho]
    nofun
  obtain ⟨hsrc, hdst⟩ := hprintable.ports
  cases key with
  | portIn => exact absurd rfl hkey
  | hardTimeout | vlanPriority | tosBits | protocol => cases hs
  | sourceMac | ethSrcMask | destMac | ethDstMask | ipv4SrcMask | ipv4DstMask | arpSpa | arpSpaMask
    | arpTpa | arpTpaMask | arpSha | arpTha | ipv6SrcMask | ipv6DstMask | ipv6NdTarget | ipv6NdSll
    | ipv6NdTll => exact haccepts _ s hs hkey
  | sourceIp => exact haccepts .sourceIp s ((hip _).symm.trans hs) hkey
  | destIp => exact haccepts .destIp s ((hip _).symm.trans hs) hkey
  | vlanPcp | ipDscp | ipEcn | icmpv4Type | icmpv4Code | icmpv6Type | icmpv6Code | mplsTc =>
    exact absurd hs (hoctet (by simp [octets]))
  | sourcePort | destPort | sctpSrc | sctpDst => simp [printed, hsrc, hdst] at hs
  | etherType =>
    obtain ⟨v, hv, rfl⟩ := map_eq_some_iff.mp hs
    exact hnumeric _ (scan_hexString_uint16 (hprintable.ethType v hv)) (Nat.le_of_lt_succ v.toNat_lt)
  | arpOpcode =>
    obtain ⟨v, -, rfl⟩ := map_eq_some_iff.mp hs
    exact hnumeric _ (scan_uint16 .d32 (by decide) v) (Nat.le_of_lt_succ v.toNat_lt)
  | ipv6Flabel =>
    obtain ⟨v, -, rfl⟩ := map_eq_some_iff.mp hs
    exact hnumeric _ (scan_uint32 .d64 (by decide) v) (Nat.le_of_lt_succ v.toNat_lt)
  | mplsLabel =>
    obtain ⟨v, hv, rfl⟩ := map_eq_some_iff.mp hs
    refine hnumeric _ (scan_uint32 .d64 (by decide) v) ?_
    -- the label was within the limit when it was read first
    cases hfirst : text .mplsLabel with
    | none => simp [headerOf, hfirst] at hv
    | some t =>
      obtain ⟨f, hf⟩ := haccepts .mplsLabel t hfirst hkey
      rw [MatchKey.read, numeric_eq_ok] at hf
      obtain ⟨n, hn, hle, -⟩ := hf
      obtain rfl : n.toUInt32 = v := by simpa [headerOf, hfirst, hn] using hv
      rw [UInt32.toNat_ofNat']
      omega
  | vlanId =>
    rw [MatchKey.read, readVlanID]
    by_cases hany : s = "ANY"
    · exact ⟨_, if_pos hany⟩
    · by_cases hno : s = "NO_VLAN"
      · exact ⟨_, by rw [if_neg hany, if_pos hno]⟩
      · simp only [printed] at hs
        split_ifs at hs with hid hisAny hisNo
        · obtain rfl := some.inj hs
          rw [if_neg hany, if_neg hno, scan_uint16 .i32 (by decide)]
          exact ⟨_, rfl⟩
        · exact absurd (some.inj hs).symm hany
        · exact absurd (some.inj hs).symm hno

/-- A match that is read back as it was has only fields that are written in a readable form. -/
theorem headerPrintable_of_back {portIn : Option String}
    (haccepts : ∀ k s, printed portIn m k = some s → k ≠ .portIn → ∃ set, k.read inet s = .ok set)
    (hback : headerOf tag (printed portIn m) = m) (hproto : m.ipProto = none) :
    HeaderPrintable m := by
  have hoctet {o : Option UInt8}
      (ho : ((o.map octetString).bind Conversion.d16.scan).map Nat.toUInt8 = o) : o = none := by
    cases o with
    | none => rfl
    | some v => exact absurd ho (scan_octetString v)
  constructor
  case ethType =>
    intro v hv
    obtain ⟨f, hf⟩ := haccepts .etherType (hexString v.toNat) (by simp [printed, hv]) (by decide)
    rw [MatchKey.read, numeric_eq_ok] at hf
    obtain ⟨n, hn, hle, -⟩ := hf
    have hfield : (headerOf tag (printed portIn m)).ethType = m.ethType := congrArg _ hback
    simp only [headerOf, printed, hv, Option.map_some, Option.bind_some, hn, some.injEq]
      at hfield
    have hnv : n = v.toNat := by
      rw [← hfield, UInt16.toNat_ofNat']
      omega
    rw [hnv, scan_hexString_iff (by have := v.toNat_lt; omega)] at hn
    exact UInt16.lt_iff_toNat_lt.mpr hn
  case octets =>
    intro o ho
    simp only [octets, List.mem_cons, List.not_mem_nil, or_false] at ho
    rcases ho with rfl | rfl | rfl | rfl | rfl | rfl | rfl | rfl | rfl
    · exact hoctet (congrArg Graph.Match.vlanPCP hback)
    · exact hoctet (congrArg Graph.Match.ipDSCP hback)
    · exact hoctet (congrArg Graph.Match.ipECN hback)
    · exact hproto
    · exact hoctet (congrArg Graph.Match.icmpv4Type hback)
    · exact hoctet (congrArg Graph.Match.icmpv4Code hback)
    · exact hoctet (congrArg Graph.Match.icmpv6Type hback)
    · exact hoctet (congrArg Graph.Match.icmpv6Code hback)
    · exact hoctet (congrArg Graph.Match.mplsTC hback)
  case ports =>
    have hsrc : (headerOf tag (printed portIn m)).transportSrcPort = m.transportSrcPort :=
      congrArg _ hback
    have hdst : (headerOf tag (printed portIn m)).transportDstPort = m.transportDstPort :=
      congrArg _ hback
    have hnone (key : MatchKey) (hkey : key ∈ [MatchKey.sourcePort, .destPort, .sctpSrc, .sctpDst]) :
        printed portIn m key = none := by
      simp only [List.mem_cons, List.not_mem_nil, or_false] at hkey
      rcases hkey with rfl | rfl | rfl | rfl <;>
        simp [printed, Graph.Match.isTcpProtocol, Graph.Match.isUdpProtocol,
          Graph.Match.isSctpProtocol, hproto]
    constructor
    · rw [← hsrc]
      simp [headerOf, hnone]
    · rw [← hdst]
      simp [headerOf, hnone]

/-! ## The whole match -/

/-- The matches that are written in a form the parser reads back. -/
structure Printable (m : Highlevel.Match) : Prop where
  typed : m.type ≠ .generic
  reference : ∀ vnf port, m.type = .nf vnf port → m.nfEndpointPort ≠ ""
  header : HeaderPrintable m.toMatch

/-- The JSON of the match is parsed to the same match. -/
def RoundTrips (inet : InetPton) (tables : EndPointTables) (action : Action)
    (m : Highlevel.Match) : Prop :=
  ∃ o, m.toJSON = .ok o ∧ ∃ a, parseMatch inet tables o (some action) = .ok (m, a)

theorem portInMember_eq_some_iff {m : Highlevel.Match} :
    (∃ p, m.portInMember = .ok (some p)) ↔
      m.type ≠ .generic ∧ ∀ vnf port, m.type = .nf vnf port → m.nfEndpointPort ≠ "" := by
  unfold Match.portInMember
  cases m.type with
  | nf vnf port => by_cases h : m.nfEndpointPort = "" <;> simp [h]
  | generic | port _ | endPointInternal _ | endPointGre _ => simp

/-- What is written as the input is the reference it was parsed from. -/
theorem eq_of_portInMember {reference p : String} {input : PortIn}
    (hinput : portIn tables reference = .ok input) {header : Graph.Match}
    (hp : (input.toMatch header).portInMember = .ok (some p)) : p = reference := by
  rcases reference_of_portIn hinput with ⟨-, hreference, hnf⟩ | ⟨-, ⟨vnf, port, htype⟩, hreference⟩
  · cases htype : input.type with
    | nf vnf port => exact absurd htype (hnf vnf port)
    | generic => simp [Match.portInMember, PortIn.toMatch, htype] at hp
    | port _ | endPointInternal _ | endPointGre _ =>
      rw [← hreference]
      simpa [Match.portInMember, PortIn.toMatch, htype, eq_comm] using hp
  · by_cases hempty : input.nfEndpointPort = ""
    · simp [Match.portInMember, PortIn.toMatch, htype, hempty] at hp
    · have hp' : input.nfEndpointPort = p := by
        simpa [Match.portInMember, PortIn.toMatch, htype, hempty] using hp
      rw [← hp', hreference, if_pos]
      by_contra hvnf
      rw [if_neg hvnf] at hreference
      exact hempty hreference

/-- The names that are written, but for two, are keys of the parser. -/
theorem exists_key_of_toJSON {m : Graph.Match} (hproto : m.ipProto = none) (hgre : m.greKey = none)
    {portIn : Option String} {name : String} {v : Json}
    (h : (m.toJSON portIn)[name]? = some v) :
    ∃ key s, MatchKey.name key = name ∧ v = .str s ∧ printed portIn m key = some s := by
  have hnames : ∀ name ∈ (("port_in", portIn) :: m.members).map Prod.fst,
      name = "ip_proto" ∨ name = "gre-key" ∨ (MatchKey.ofName name).isSome := by
    have hlist : (("port_in", portIn) :: m.members).map Prod.fst =
        (("port_in", none) :: ({} : Graph.Match).members).map Prod.fst := rfl
    rw [hlist]
    decide +kernel
  rw [getElem?_toJSON, map_eq_some_iff] at h
  obtain ⟨s, hs, rfl⟩ := h
  rcases hnames name (List.mem_map_of_mem (f := Prod.fst) (Json.mem_of_lastOf hs)) with rfl | rfl | hkey
  · simp [Json.lastOf, Graph.Match.members, hproto] at hs
  · simp [Json.lastOf, Graph.Match.members, hgre] at hs
  · obtain ⟨key, hkey⟩ := Option.isSome_iff_exists.mp hkey
    obtain rfl := MatchKey.name_of_ofName hkey
    refine ⟨key, s, rfl, rfl, ?_⟩
    rw [← textOf_toJSON, textOf_eq_some, getElem?_toJSON, hs]
    rfl

/-- What was parsed is read back from its JSON exactly when it is printable. -/
theorem match_roundTrips_iff {object : Json.Object} {action a : Option Action}
    {m : Highlevel.Match} (hparse : parseMatch inet tables object action = .ok (m, a))
    (action' : Action) : RoundTrips inet tables action' m ↔ Printable m := by
  obtain ⟨hvalid, input, hinput, rfl, -⟩ := parseMatch_eq_ok_iff.mp hparse
  have haccepts (k : MatchKey) (s : String) (hs : textOf (fun k => object[k]?) k = some s)
      (hk : k ≠ .portIn) : ∃ set, k.read inet s = .ok set :=
    (accepts_of_ne hk s).mp (accepts_of_valid hvalid hs)
  obtain ⟨reference, -, hreference⟩ := Option.bind_eq_some_iff.mp hinput
  rw [Failure.toOption_eq_some] at hreference
  have hparsed := parsed_headerOf input.tag (textOf fun k => object[k]?)
  constructor
  · rintro ⟨o, hjson, a', hback⟩
    simp only [Match.toJSON, Abort.bind_eq_ok] at hjson
    obtain ⟨portIn', hmember, ho⟩ := hjson
    obtain rfl := Except.ok.inj ho
    obtain ⟨hvalid', input', hinput', hm, -⟩ := parseMatch_eq_ok_iff.mp hback
    rw [inputOf, textOf_toJSON] at hinput'
    obtain ⟨p, hp, hagain⟩ := Option.bind_eq_some_iff.mp hinput'
    obtain rfl : portIn' = some p := hp
    obtain rfl := eq_of_portInMember hreference hmember
    rw [Failure.toOption_eq_some, hreference] at hagain
    obtain rfl := Except.ok.inj hagain
    have hheader := congrArg Match.toMatch hm
    rw [textOf_toJSON] at hheader
    obtain ⟨htyped, hnf⟩ := portInMember_eq_some_iff.mp ⟨_, hmember⟩
    have hproto : (headerOf input.tag (textOf fun k => object[k]?)).ipProto = none := by
      by_contra hsome
      obtain ⟨v, hv⟩ := Option.ne_none_iff_exists'.mp hsome
      obtain ⟨key, -, hname, -⟩ := hvalid' "ip_proto" (.str (toString v.toNat)) (by
        simp [getElem?_toJSON, Json.lastOf, Graph.Match.members, PortIn.toMatch, hv])
      cases key <;> exact absurd hname (by decide)
    have haccepts' (k : MatchKey) (s : String)
        (hs : printed (some p) (headerOf input.tag (textOf fun k => object[k]?)) k = some s)
        (hk : k ≠ .portIn) : ∃ set, k.read inet s = .ok set := by
      rw [← textOf_toJSON] at hs
      exact (accepts_of_ne hk s).mp (accepts_of_valid hvalid' hs)
    exact ⟨htyped, hnf, headerPrintable_of_back haccepts' hheader.symm hproto⟩
  · intro hprintable
    obtain ⟨p, hmember⟩ := portInMember_eq_some_iff.mpr ⟨hprintable.typed, hprintable.reference⟩
    obtain rfl := eq_of_portInMember hreference hmember
    have hproto : (headerOf input.tag (textOf fun k => object[k]?)).ipProto = none :=
      hprintable.header.octets _ (by simp [PortIn.toMatch, octets])
    refine ⟨_, by rw [Match.toJSON, hmember]; rfl, _, parseMatch_eq_ok_iff.mpr
      ⟨?_, input, ?_, ?_, rfl⟩⟩
    · intro name v hv
      obtain ⟨key, s, hname, hv, hs⟩ := exists_key_of_toJSON hproto hparsed.greKey hv
      refine ⟨key, s, hname, hv, ?_⟩
      by_cases hkey : key = .portIn
      · subst hkey
        obtain rfl := Option.some.inj hs
        exact ⟨input, hreference, fun _ => rfl⟩
      · exact (accepts_of_ne hkey s).mpr (read_printed haccepts hprintable.header hkey hs)
    · rw [inputOf, textOf_toJSON]
      simp [printed, hreference]
    · rw [textOf_toJSON]
      exact congrArg input.toMatch (headerOf_printed hparsed hprintable.header _).symm

/-- A match on a protocol is not parsed again. -/
theorem protocol_not_parsed_again :
    ∃ r ∈ (parseMatch .none {} (matchObject .protocol "6") none).toOption,
      ∃ o ∈ r.1.toJSON.toOption,
        parseMatch .none {} o (some { type := .port "eth0" }) = .error .thrown := by
  decide +kernel

/-- A match on an ARP operation is read back. -/
theorem arp_roundTrips : ∃ r, parseMatch .none {} (matchObject .arpOpcode "2") none = .ok r ∧
    RoundTrips .none {} { type := .port "eth0" } r.1 := by
  have hclosed : ∃ r ∈ (parseMatch .none {} (matchObject .arpOpcode "2") none).toOption,
      r.1.type = .nf "00000001" 2 ∧ r.1.nfEndpointPort ≠ "" ∧
        r.1.toMatch = { arpOpcode := some 2 } := by
    decide +kernel
  obtain ⟨⟨m, a⟩, hr, htype, hreference, hheader⟩ := hclosed
  have hparse := Failure.toOption_eq_some.mp hr
  refine ⟨_, hparse, (match_roundTrips_iff hparse _).mpr ?_⟩
  simp only at htype hreference hheader
  constructor
  · simp [htype]
  · simp [hreference]
  · rw [hheader]
    constructor <;> simp [octets]

end UnOrchestrator.Parser
