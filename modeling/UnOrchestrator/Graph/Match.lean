import Mathlib.Tactic.Common
import UnOrchestrator.Lib.Abort

/-!
# The header fields of a match

`Graph.Match` is the part that the matches of a high-level graph and of an LSI
table have in common: the constraints on packet headers, as `graph::Match` holds
them. A pointer that may be null and a value guarded by an `is…` flag are
options. The VLAN identifier keeps its separate flags, because the setters write
them independently.

`setAllCommonFields` copies these fields from one match into another; it is how a
high-level match becomes a low-level one. `setAllCommonFields_new` says what the
copy into a new match is, and for which matches it never returns.
-/

namespace UnOrchestrator

/-- `vlan_action_t`: tag operations asked for by a rule, or added for a VLAN endpoint. -/
inductive VlanActionType where
  | vlanPush
  | vlanPop
  | endpointVlanPush
  | endpointVlanPop
  deriving DecidableEq, Repr

/-- `GenericAction`; `VlanAction` is its only subclass. -/
structure GenericAction where
  type : VlanActionType
  label : UInt16
  deriving DecidableEq, Repr

namespace Graph

/-- The fields of `graph::Match`. The constructor leaves every field unset. -/
structure Match where
  ethSrc : Option String := none
  ethSrcMask : Option String := none
  ethDst : Option String := none
  ethDstMask : Option String := none
  ethType : Option UInt16 := none
  isVlanID : Bool := false
  isNoVlan : Bool := false
  isAnyVlan : Bool := false
  isEndpointVlanID : Bool := false
  vlanID : UInt16 := 0
  vlanPCP : Option UInt8 := none
  ipDSCP : Option UInt8 := none
  ipECN : Option UInt8 := none
  ipProto : Option UInt8 := none
  ipv4Src : Option String := none
  ipv4SrcMask : Option String := none
  ipv4Dst : Option String := none
  ipv4DstMask : Option String := none
  transportSrcPort : UInt16 := 0
  transportDstPort : UInt16 := 0
  icmpv4Type : Option UInt8 := none
  icmpv4Code : Option UInt8 := none
  arpOpcode : Option UInt16 := none
  arpSpa : Option String := none
  arpSpaMask : Option String := none
  arpTpa : Option String := none
  arpTpaMask : Option String := none
  arpSha : Option String := none
  arpTha : Option String := none
  ipv6Src : Option String := none
  ipv6SrcMask : Option String := none
  ipv6Dst : Option String := none
  ipv6DstMask : Option String := none
  ipv6Flabel : Option UInt32 := none
  ipv6NdTarget : Option String := none
  ipv6NdSll : Option String := none
  ipv6NdTll : Option String := none
  icmpv6Type : Option UInt8 := none
  icmpv6Code : Option UInt8 := none
  mplsLabel : Option UInt32 := none
  mplsTC : Option UInt8 := none
  greKey : Option String := none
  deriving DecidableEq, Repr

namespace Match

/-- The three protocol flags are written by `setIpProto` alone, which a match sees at most
once, so they are functions of the protocol number. -/
def isTcpProtocol (m : Match) : Bool := m.ipProto == some 6

@[inherit_doc isTcpProtocol]
def isUdpProtocol (m : Match) : Bool := m.ipProto == some 17

@[inherit_doc isTcpProtocol]
def isSctpProtocol (m : Match) : Bool := m.ipProto == some 132

/-- The guard under which the transport ports are compared and copied. -/
def isTransport (m : Match) : Bool := m.isTcpProtocol || m.isUdpProtocol || m.isSctpProtocol

/-- `Match::isEqual`. The flag of a VLAN set for an endpoint is not compared, and the
transport ports only when the protocol has ports. -/
def isEqual (m other : Match) : Bool :=
  m.ethSrc == other.ethSrc && m.ethSrcMask == other.ethSrcMask &&
  m.ethDst == other.ethDst && m.ethDstMask == other.ethDstMask &&
  m.ethType == other.ethType &&
  m.isVlanID == other.isVlanID && (!m.isVlanID || m.vlanID == other.vlanID) &&
  m.isNoVlan == other.isNoVlan && m.isAnyVlan == other.isAnyVlan && m.vlanPCP == other.vlanPCP &&
  m.ipDSCP == other.ipDSCP && m.ipECN == other.ipECN && m.ipProto == other.ipProto &&
  m.ipv4Src == other.ipv4Src && m.ipv4SrcMask == other.ipv4SrcMask &&
  m.ipv4Dst == other.ipv4Dst && m.ipv4DstMask == other.ipv4DstMask &&
  (!m.isTransport ||
    (m.transportSrcPort == other.transportSrcPort && m.transportDstPort == other.transportDstPort)) &&
  m.icmpv4Type == other.icmpv4Type && m.icmpv4Code == other.icmpv4Code &&
  m.arpOpcode == other.arpOpcode && m.arpSpa == other.arpSpa && m.arpSpaMask == other.arpSpaMask &&
  m.arpTpa == other.arpTpa && m.arpTpaMask == other.arpTpaMask &&
  m.arpSha == other.arpSha && m.arpTha == other.arpTha &&
  m.ipv6Src == other.ipv6Src && m.ipv6SrcMask == other.ipv6SrcMask &&
  m.ipv6Dst == other.ipv6Dst && m.ipv6DstMask == other.ipv6DstMask &&
  m.ipv6Flabel == other.ipv6Flabel && m.ipv6NdTarget == other.ipv6NdTarget &&
  m.ipv6NdSll == other.ipv6NdSll && m.ipv6NdTll == other.ipv6NdTll &&
  m.icmpv6Type == other.icmpv6Type && m.icmpv6Code == other.icmpv6Code &&
  m.mplsLabel == other.mplsLabel && m.mplsTC == other.mplsTC && m.greKey == other.greKey

def setVlanID (m : Match) (vlanID : UInt16) : Match :=
  { m with vlanID := vlanID, isVlanID := true }

def setVlanIDNoVlan (m : Match) : Match :=
  { m with isVlanID := false, isAnyVlan := false, isNoVlan := true }

def setVlanIDAnyVlan (m : Match) : Match :=
  { m with isVlanID := false, isNoVlan := false, isAnyVlan := true }

/-- `Match::setGreKey`. The argument goes to `strlen`, so a null pointer is undefined. -/
def setGreKey (m : Match) : Option String → Except Abort Match
  | some key => .ok { m with greKey := some key }
  | none => .error .undefinedBehaviour

/-- The VLAN part of `setAllCommonFields`. -/
def setCommonVlan (self other : Match) : Match :=
  if other.isVlanID || other.isEndpointVlanID then self.setVlanID other.vlanID
  else if other.isAnyVlan then self.setVlanIDAnyVlan
  else if other.isNoVlan then self.setVlanIDNoVlan
  else self

/-- The fields that `setAllCommonFields` copies when they are set in the other match. -/
def setCommonOptional (self other : Match) : Match :=
  { self with
    ethSrc := other.ethSrc <|> self.ethSrc
    ethSrcMask := other.ethSrcMask <|> self.ethSrcMask
    ethDst := other.ethDst <|> self.ethDst
    ethDstMask := other.ethDstMask <|> self.ethDstMask
    ethType := other.ethType <|> self.ethType
    vlanPCP := other.vlanPCP <|> self.vlanPCP
    ipDSCP := other.ipDSCP <|> self.ipDSCP
    ipECN := other.ipECN <|> self.ipECN
    ipProto := other.ipProto <|> self.ipProto
    ipv4Src := other.ipv4Src <|> self.ipv4Src
    ipv4SrcMask := other.ipv4SrcMask <|> self.ipv4SrcMask
    ipv4Dst := other.ipv4Dst <|> self.ipv4Dst
    ipv4DstMask := other.ipv4DstMask <|> self.ipv4DstMask
    transportSrcPort := if other.isTransport then other.transportSrcPort else self.transportSrcPort
    transportDstPort := if other.isTransport then other.transportDstPort else self.transportDstPort
    icmpv4Type := other.icmpv4Type <|> self.icmpv4Type
    icmpv4Code := other.icmpv4Code <|> self.icmpv4Code
    arpOpcode := other.arpOpcode <|> self.arpOpcode
    arpSpa := other.arpSpa <|> self.arpSpa
    arpSpaMask := other.arpSpaMask <|> self.arpSpaMask
    arpTpa := other.arpTpa <|> self.arpTpa
    arpTpaMask := other.arpTpaMask <|> self.arpTpaMask
    arpSha := other.arpSha <|> self.arpSha
    arpTha := other.arpTha <|> self.arpTha
    ipv6Src := other.ipv6Src <|> self.ipv6Src
    ipv6SrcMask := other.ipv6SrcMask <|> self.ipv6SrcMask
    ipv6Dst := other.ipv6Dst <|> self.ipv6Dst
    ipv6DstMask := other.ipv6DstMask <|> self.ipv6DstMask
    ipv6Flabel := other.ipv6Flabel <|> self.ipv6Flabel
    ipv6NdTarget := other.ipv6NdTarget <|> self.ipv6NdTarget
    ipv6NdSll := other.ipv6NdSll <|> self.ipv6NdSll
    ipv6NdTll := other.ipv6NdTll <|> self.ipv6NdTll
    icmpv6Type := other.icmpv6Type <|> self.icmpv6Type
    icmpv6Code := other.icmpv6Code <|> self.icmpv6Code
    mplsLabel := other.mplsLabel <|> self.mplsLabel
    mplsTC := other.mplsTC <|> self.mplsTC }

/-- `Match::setAllCommonFields`. The last two statements both set the GRE key, the second
under the guard of another field: with an IPv6 destination and no GRE key it hands a null
pointer to `setGreKey`. -/
def setAllCommonFields (self other : Match) : Except Abort Match :=
  let copied := (self.setCommonOptional other).setCommonVlan other
  (if other.greKey.isSome then copied.setGreKey other.greKey else .ok copied) >>= fun keyed =>
    if other.ipv6Dst.isSome then keyed.setGreKey other.greKey else .ok keyed

/-- The flag of a VLAN endpoint is never copied. -/
theorem setAllCommonFields_isEndpointVlanID {self other copy : Match}
    (h : self.setAllCommonFields other = .ok copy) :
    copy.isEndpointVlanID = self.isEndpointVlanID := by
  have hkey {m m' : Match} {key : Option String} (hset : m.setGreKey key = .ok m') :
      m'.isEndpointVlanID = m.isEndpointVlanID := by
    cases key with
    | none => cases hset
    | some k => cases hset; rfl
  have hcopied : ((self.setCommonOptional other).setCommonVlan other).isEndpointVlanID =
      self.isEndpointVlanID := by
    unfold setCommonVlan
    split <;> (try split) <;> (try split) <;> rfl
  simp only [setAllCommonFields, Abort.bind_eq_ok] at h
  obtain ⟨keyed, hkeyed, hcopy⟩ := h
  have hfirst : keyed.isEndpointVlanID = self.isEndpointVlanID := by
    split at hkeyed
    · exact (hkey hkeyed).trans hcopied
    · cases hkeyed; exact hcopied
  split at hcopy
  · exact (hkey hcopy).trans hfirst
  · cases hcopy; exact hfirst

/-- A match that `setAllCommonFields` can copy: an IPv6 destination comes with a GRE key. -/
def Copyable (m : Match) : Prop := m.ipv6Dst.isSome → m.greKey.isSome

instance (m : Match) : Decidable m.Copyable := inferInstanceAs (Decidable (_ → _))

/-- What a copy into a new match holds: the VLAN constraint in its effective form, and the
transport ports of a protocol that has ports. -/
def effective (m : Match) : Match :=
  { m with
    isVlanID := m.isVlanID || m.isEndpointVlanID
    isAnyVlan := !(m.isVlanID || m.isEndpointVlanID) && m.isAnyVlan
    isNoVlan := !(m.isVlanID || m.isEndpointVlanID) && !m.isAnyVlan && m.isNoVlan
    isEndpointVlanID := false
    vlanID := if m.isVlanID || m.isEndpointVlanID then m.vlanID else 0
    transportSrcPort := if m.isTransport then m.transportSrcPort else 0
    transportDstPort := if m.isTransport then m.transportDstPort else 0 }

/-- What `isEqual` compares. -/
def compared (m : Match) : Match :=
  { m with
    isEndpointVlanID := false
    vlanID := if m.isVlanID then m.vlanID else 0
    transportSrcPort := if m.isTransport then m.transportSrcPort else 0
    transportDstPort := if m.isTransport then m.transportDstPort else 0 }

/-- Comparing matches is comparing these fields. -/
theorem isEqual_iff {m other : Match} : m.isEqual other = true ↔ m.compared = other.compared := by
  have htransport (h : m.ipProto = other.ipProto) : m.isTransport = other.isTransport := by
    simp only [isTransport, isTcpProtocol, isUdpProtocol, isSctpProtocol, h]
  simp only [isEqual, compared, Match.mk.injEq, Bool.and_eq_true, beq_iff_eq, Bool.or_eq_true,
    Bool.not_eq_true']
  -- what is compared under a guard agrees wherever the guard holds
  constructor
  · intro h
    have ht := htransport (by simp only [h])
    simp only [h, ht, true_and, and_true]
    grind
  · intro h
    have ht := htransport (by simp only [h])
    simp only [h, true_and, and_true]
    grind

theorem effective_compared {m : Match} (hm : m.isEndpointVlanID = false) :
    m.compared.effective = m.effective := by
  have htransport : m.compared.isTransport = m.isTransport := rfl
  simp only [effective, htransport]
  cases hv : m.isVlanID <;> cases ht : m.isTransport <;> simp [compared, hm, hv, ht]

/-- Matches that compare equal, and were not set up for an endpoint, have one effective form. -/
theorem effective_eq_of_isEqual {m other : Match} (hm : m.isEndpointVlanID = false)
    (hother : other.isEndpointVlanID = false) (h : m.isEqual other) :
    m.effective = other.effective := by
  rw [← effective_compared hm, ← effective_compared hother, isEqual_iff.mp h]

private theorem copied_new (m : Match) :
    ((({} : Match).setCommonOptional m).setCommonVlan m) = { m.effective with greKey := none } := by
  unfold setCommonVlan effective
  cases hv : m.isVlanID || m.isEndpointVlanID with
  | true => simp [setVlanID, setCommonOptional]
  | false =>
    cases ha : m.isAnyVlan with
    | true => simp [setVlanIDAnyVlan, setCommonOptional]
    | false =>
      cases hn : m.isNoVlan with
      | true => simp [setVlanIDNoVlan, setCommonOptional]
      | false => simp [setCommonOptional]

/-- Copying into a new match returns for the copyable matches only, and then the copy is
the match in its effective form. -/
theorem setAllCommonFields_new (m : Match) :
    ({} : Match).setAllCommonFields m =
      if m.Copyable then .ok m.effective else .error .undefinedBehaviour := by
  simp only [setAllCommonFields, copied_new]
  by_cases hc : m.Copyable
  · rw [if_pos hc]
    rcases hk : m.greKey with _ | k
    · have hd : m.ipv6Dst = none := by
        cases hd : m.ipv6Dst with
        | none => rfl
        | some d => simp [Copyable, hk, hd] at hc
      simp [hd, effective, hk, bind, Except.bind]
    · cases m.ipv6Dst <;> simp [setGreKey, effective, hk, bind, Except.bind]
  · rw [if_neg hc]
    obtain ⟨hd, hk⟩ : m.ipv6Dst.isSome ∧ m.greKey = none := by
      simpa [Copyable] using hc
    simp [hd, hk, setGreKey, bind, Except.bind]

end Match

end Graph

end UnOrchestrator
