import UnOrchestrator.Lowlevel.Packet
import UnOrchestrator.GraphManager.LinkInvariant

/-!
# Forwarding through the two switches

A graph is one table for its clients: packets come in at an endpoint, and the rule of the
highest priority that accepts a packet says where it goes, and with which tag operations
(`Sends`). The orchestrator realises it with two tables, one on LSI-0 and one on the tenant
LSI, joined by the virtual links: a packet that LSI-0 or the tenant LSI lets out at its end of
a link comes in at the other end (`Switches.network`).

`lower_same` and `lower_crossing` say what a rule becomes on either switch, for the pairs of
endpoints that the translator supports. The switch of the input keeps the match and the tag
operations; on the other switch a rule only passes on what comes out of the link, unless it goes
from a GRE endpoint to a physical port: then it matches and changes packets once more
(`lower_greToPort`). No two targets of one direction share a link, and the numbers of ports differ,
so without such rules this is the situation of `Forwarding.delivers_iff`, and the two tables deliver
what the graph sends (`lowered_refines_iff`), provided that the translator can copy every match and
that no transport port is lost in the copy.
-/

namespace UnOrchestrator

open Option (bind_eq_some_iff isSome_iff_exists map_eq_some_iff mem_toList mem_unique some)

open Highlevel Forwarding GraphTranslator

/-! ## A graph as one table -/

/-- The switches of a graph. -/
inductive Side where
  | lsi0
  | tenant
  deriving DecidableEq, Repr

def Side.other : Side → Side
  | .lsi0 => .tenant
  | .tenant => .lsi0

theorem Side.eq_other {side side' : Side} (h : side ≠ side') : side' = side.other := by
  cases side <;> cases side' <;> first | rfl | exact absurd rfl h

/-- Where packets come into a graph and leave it. -/
inductive Endpoint where
  | port (portName : String)
  | internal (group : String)
  | nf (nfId : String) (port : Int)
  | gre (endpointID : String)
  deriving DecidableEq, Repr

/-- The switch that an endpoint is on. -/
def Endpoint.side : Endpoint → Side
  | .port _ | .internal _ => .lsi0
  | .nf _ _ | .gre _ => .tenant

/-- The endpoint a rule takes packets from; an unresolved match has none. -/
def Highlevel.Rule.input (r : Rule) : Option Endpoint :=
  match r.match.type with
  | .generic => none
  | .port port => some (.port port)
  | .nf nf port => some (.nf nf port)
  | .endPointInternal group => some (.internal (toString group))
  | .endPointGre _ => some (.gre r.match.getInputEndpoint)

/-- The endpoint a rule sends packets to. -/
def Highlevel.Rule.output (r : Rule) : Endpoint :=
  match r.action.type with
  | .port portName => .port portName
  | .networkFunction nfId port => .nf nfId port
  | .endPointGre endpointID => .gre endpointID
  | .endPointInternal group => .internal group

/-- What the table of a graph does with a packet that comes in at an endpoint. -/
def Sends {η : Type} (fields : Fields η) (rules : List Rule) (i : Endpoint) (p : Packet η)
    (o : Endpoint) (p' : Packet η) : Prop :=
  ∃ r, Wins Rule.priority (fun r => r.input = some i ∧ r.match.accepts fields p) rules r ∧
    r.output = o ∧ p' = GenericAction.applyAll r.action.genericActions p

/-- The pairs of endpoints that the translator supports, apart from the rules from a GRE
endpoint to a physical port. -/
def Highlevel.Rule.supported (r : Rule) : Bool :=
  match r.match.type, r.action.type with
  | .port _, .port _ | .port _, .networkFunction _ _ | .port _, .endPointGre _
  | .endPointInternal _, .networkFunction _ _ | .endPointInternal _, .endPointGre _
  | .nf _ _, _ | .endPointGre _, .networkFunction _ _ | .endPointGre _, .endPointInternal _ => true
  | _, _ => false

/-- The rules from a GRE endpoint to a physical port. -/
def Highlevel.Rule.greToPort (r : Rule) : Bool :=
  match r.match.type, r.action.type with
  | .endPointGre _, .port _ => true
  | _, _ => false

theorem Highlevel.Rule.greToPort_eq_false {r : Rule} (h : r.supported = true) :
    r.greToPort = false := by
  unfold supported at h
  unfold greToPort
  split <;> simp_all

/-! ## Two switches -/

/-- A port of one of the switches. -/
@[ext]
structure Place where
  side : Side
  port : Nat
  deriving DecidableEq, Repr

/-- What the translator knows about the switches of a graph. -/
structure Switches where
  graphID : String
  tenantLSI : LSI
  lsi0 : LSI
  internalLSIsConnections : InternalConnections

/-- The port that a virtual link has on a switch. -/
def VLink.endAt (l : VLink) : Side → Nat
  | .lsi0 => l.remoteID
  | .tenant => l.localID

namespace Switches

/-- The number that an endpoint has on its switch. -/
def numberOf (sw : Switches) : Endpoint → Option Nat
  | .port portName => sw.lsi0.physicalPorts[portName]?
  | .internal group => ((sw.internalLSIsConnections[group]?).getD ∅)[sw.graphID]?
  | .nf nfId port => sw.tenantLSI.nfPort nfId (nfPortName nfId port)
  | .gre endpointID => sw.tenantLSI.endpointsPortsId[endpointID]?

/-- The port of an endpoint. -/
def placeOf (sw : Switches) (e : Endpoint) : Option Place := (sw.numberOf e).map (⟨e.side, ·⟩)

/-- The other end of a virtual link. -/
def otherEnd (sw : Switches) (k : Place) : Option Place :=
  (sw.tenantLSI.virtualLinks.find? (fun l => l.endAt k.side = k.port)).map
    (fun l => ⟨k.side.other, l.endAt k.side.other⟩)

/-- The switches with their tables, as a network. -/
def network {η : Type} (sw : Switches) (fields : Fields η) (tables : Side → List Lowlevel.Rule) :
    Network Place (Packet η) where
  hop k p k' p' := k'.side = k.side ∧ Lowlevel.Treats fields (tables k.side) k.port p (k'.port, p')
  link := sw.otherEnd

/-- What a rule becomes on a switch. -/
def lower (sw : Switches) (side : Side) (r : Rule) : Except Failure (Option Lowlevel.Rule) :=
  match side with
  | .lsi0 => lowerRuleToLSI0 sw.graphID sw.tenantLSI sw.lsi0 sw.internalLSIsConnections r
  | .tenant => lowerRuleToTenantLSI sw.tenantLSI r

/-- The numbers of the endpoints of one kind. -/
def kindNumbers (sw : Switches) : Endpoint → List Nat
  | .port _ => sw.lsi0.physicalPorts.toList.map Prod.snd
  | .internal _ => sw.internalLSIsConnections.toList.flatMap (fun g => (g.2[sw.graphID]?).toList)
  | .nf _ _ => sw.tenantLSI.networkFunctions.toList.flatMap
      (fun nf => nf.2.portsSwitchId.toList.map Prod.snd)
  | .gre _ => sw.tenantLSI.endpointsPortsId.toList.map Prod.snd

/-- The numbers of the endpoints on a switch. -/
def endpointNumbers (sw : Switches) : Side → List Nat
  | .lsi0 => sw.kindNumbers (.port "") ++ sw.kindNumbers (.internal "")
  | .tenant => sw.kindNumbers (.nf "" 0) ++ sw.kindNumbers (.gre "")

/-- The numbers of the virtual links on a switch. -/
def linkNumbers (sw : Switches) (side : Side) : List Nat :=
  sw.tenantLSI.virtualLinks.map (VLink.endAt · side)

/-- The ports of either switch have numbers of their own. -/
def Distinct (sw : Switches) : Prop :=
  ∀ side, (sw.endpointNumbers side ++ sw.linkNumbers side).Nodup

instance (sw : Switches) : Decidable sw.Distinct :=
  decidable_of_iff ((sw.endpointNumbers .lsi0 ++ sw.linkNumbers .lsi0).Nodup ∧
    (sw.endpointNumbers .tenant ++ sw.linkNumbers .tenant).Nodup)
    ⟨fun h side => by cases side; exacts [h.1, h.2], fun h => ⟨h .lsi0, h .tenant⟩⟩

/-- The endpoints of a rule have ports. -/
def Knows (sw : Switches) (r : Rule) : Prop :=
  (r.input.bind sw.numberOf).isSome ∧ (sw.numberOf r.output).isSome

instance (sw : Switches) (r : Rule) : Decidable (sw.Knows r) := inferInstanceAs (Decidable (_ ∧ _))

/-! ### Numbers -/

variable {sw : Switches}

theorem eq_of_mem_flatMap {α β : Type} {l : List α} {f : α → List β} (h : (l.flatMap f).Nodup)
    {a a' : α} {b : β} (ha : a ∈ l) (ha' : a' ∈ l) (hb : b ∈ f a) (hb' : b ∈ f a') : a = a' := by
  by_contra hne
  have hpairs := (List.nodup_flatMap.mp h).2
  have : Std.Symm (Function.onFun List.Disjoint f) := ⟨fun _ _ h => List.Disjoint.symm h⟩
  have hdisjoint := hpairs.forall ha ha' hne
  exact hdisjoint hb hb'

variable {n : Nat}

theorem key_eq_of_value {m : StringMap Nat} (h : (m.toList.map Prod.snd).Nodup) {a a' : String}
    (ha : m[a]? = some n) (ha' : m[a']? = some n) : a = a' := by
  have hmem := Std.ExtTreeMap.mem_toList_iff_getElem?_eq_some.mpr ha
  have hmem' := Std.ExtTreeMap.mem_toList_iff_getElem?_eq_some.mpr ha'
  exact congrArg Prod.fst (List.inj_on_of_nodup_map h hmem hmem' rfl)

/-- The group of an internal endpoint, with the number that the graph has there. -/
theorem numberOf_internal {group : String} :
    sw.numberOf (.internal group) = some n ↔
      ∃ ports, (group, ports) ∈ sw.internalLSIsConnections.toList ∧ ports[sw.graphID]? = some n := by
  simp only [numberOf, Std.ExtTreeMap.mem_toList_iff_getElem?_eq_some]
  cases sw.internalLSIsConnections[group]? <;> simp

theorem numberOf_nf {nfId : String} {port : Int} :
    sw.numberOf (.nf nfId port) = some n ↔
      ∃ nfData, (nfId, nfData) ∈ sw.tenantLSI.networkFunctions.toList ∧
        (nfPortName nfId port, n) ∈ nfData.portsSwitchId.toList := by
  simp only [numberOf, LSI.nfPort, Std.ExtTreeMap.mem_toList_iff_getElem?_eq_some,
    bind_eq_some_iff]

theorem mem_kindNumbers {e : Endpoint} (h : sw.numberOf e = some n) :
    n ∈ sw.kindNumbers e := by
  cases e with
  | port portName =>
    have hmem := Std.ExtTreeMap.mem_toList_iff_getElem?_eq_some.mpr h
    exact List.mem_map_of_mem (f := Prod.snd) hmem
  | internal group =>
    obtain ⟨ports, hports, hn⟩ := numberOf_internal.mp h
    exact List.mem_flatMap.mpr ⟨_, hports, mem_toList.mpr hn⟩
  | nf nfId port =>
    obtain ⟨nfData, hnf, hn⟩ := numberOf_nf.mp h
    exact List.mem_flatMap.mpr ⟨_, hnf, List.mem_map_of_mem (f := Prod.snd) hn⟩
  | gre endpointID =>
    have hmem := Std.ExtTreeMap.mem_toList_iff_getElem?_eq_some.mpr h
    exact List.mem_map_of_mem (f := Prod.snd) hmem

theorem mem_endpointNumbers {e : Endpoint} (h : sw.numberOf e = some n) :
    n ∈ sw.endpointNumbers e.side := by
  have hmem := mem_kindNumbers h
  cases e with
  | port portName => exact List.mem_append_left _ hmem
  | internal group => exact List.mem_append_right _ hmem
  | nf nfId port => exact List.mem_append_left _ hmem
  | gre endpointID => exact List.mem_append_right _ hmem

namespace Distinct

variable {e : Endpoint}

variable (h : sw.Distinct)

include h

/-- Distinct numbers tell the endpoints of a switch apart. -/
theorem endpoint_eq {e' : Endpoint} {n : Nat} (hside : e.side = e'.side)
    (he : sw.numberOf e = some n) (he' : sw.numberOf e' = some n) : e = e' := by
  have hnodup := fun side => (List.nodup_append.mp (h side)).1
  obtain ⟨hports, hgroups, hlsi0⟩ := List.nodup_append.mp (hnodup .lsi0)
  obtain ⟨hnfs, hgre, htenant⟩ := List.nodup_append.mp (hnodup .tenant)
  have hmem := mem_kindNumbers he
  have hmem' := mem_kindNumbers he'
  cases e <;> cases e' <;> try cases hside
  case port.port portName portName' => rw [key_eq_of_value hports he he']
  case port.internal => exact absurd rfl (hlsi0 n hmem n hmem')
  case internal.port => exact absurd rfl (hlsi0 n hmem' n hmem)
  case internal.internal group group' =>
    obtain ⟨ports, hg, hn⟩ := numberOf_internal.mp he
    obtain ⟨ports', hg', hn'⟩ := numberOf_internal.mp he'
    have heq := eq_of_mem_flatMap hgroups hg hg' (mem_toList.mpr hn)
      (mem_toList.mpr hn')
    rw [(Prod.mk.inj heq).1]
  case nf.nf nfId port nfId' port' =>
    obtain ⟨nfData, hnf, hn⟩ := numberOf_nf.mp he
    obtain ⟨nfData', hnf', hn'⟩ := numberOf_nf.mp he'
    have heq := eq_of_mem_flatMap (b := n) hnfs hnf hnf' (List.mem_map_of_mem (f := Prod.snd) hn)
      (List.mem_map_of_mem (f := Prod.snd) hn')
    obtain ⟨rfl, rfl⟩ := Prod.mk.inj heq
    have hone := (List.nodup_flatMap.mp hnfs).1 _ hnf
    have hname := congrArg Prod.fst (List.inj_on_of_nodup_map hone hn hn' rfl)
    rw [(CString.joinNumber_inj.mp hname).2]
  case nf.gre => exact absurd rfl (htenant n hmem n hmem')
  case gre.nf => exact absurd rfl (htenant n hmem' n hmem)
  case gre.gre endpointID endpointID' => rw [key_eq_of_value hgre he he']

/-- The port of an endpoint is no end of a link. -/
theorem endAt_ne {n : Nat} (he : sw.numberOf e = some n) {l : VLink}
    (hl : l ∈ sw.tenantLSI.virtualLinks) : l.endAt e.side ≠ n := by
  have hlink : l.endAt e.side ∈ sw.linkNumbers e.side :=
    List.mem_map_of_mem (f := (VLink.endAt · e.side)) hl
  exact ((List.nodup_append.mp (h e.side)).2.2 n (mem_endpointNumbers he) _ hlink).symm

theorem otherEnd_endpoint {n : Nat} (he : sw.numberOf e = some n) :
    sw.otherEnd ⟨e.side, n⟩ = none := by
  rw [otherEnd, Option.map_eq_none_iff, List.find?_eq_none]
  intro l hl hend
  exact h.endAt_ne he hl (of_decide_eq_true hend)

/-- Distinct numbers tell the links apart. -/
theorem link_eq {l l' : VLink} {side : Side} (hl : l ∈ sw.tenantLSI.virtualLinks)
    (hl' : l' ∈ sw.tenantLSI.virtualLinks) (hend : l.endAt side = l'.endAt side) : l = l' :=
  List.inj_on_of_nodup_map (List.nodup_append.mp (h side)).2.1 hl hl' hend

/-- The ends of a link lead to each other. -/
theorem otherEnd_link {l : VLink} (hl : l ∈ sw.tenantLSI.virtualLinks)
    (side : Side) :
    sw.otherEnd ⟨side, l.endAt side⟩ = some ⟨side.other, l.endAt side.other⟩ := by
  rw [otherEnd, map_eq_some_iff]
  have hsome : (sw.tenantLSI.virtualLinks.find?
      (fun l' => l'.endAt side = l.endAt side)).isSome := by
    rw [List.find?_isSome]
    exact ⟨l, hl, decide_eq_true rfl⟩
  obtain ⟨l', hfind⟩ := isSome_iff_exists.mp hsome
  have hend : l'.endAt side = l.endAt side := by simpa using List.find?_some hfind
  obtain rfl := h.link_eq (List.mem_of_find?_eq_some hfind) hl hend
  exact ⟨l', hfind, rfl⟩

end Distinct

/-! ### What a rule becomes -/

/-- The rule on the switch of the input: the match and the tag operations are kept. -/
structure IsFirst (port out : Nat) (r : Rule) (low : Lowlevel.Rule) : Prop where
  «match» : low.match = { r.match.toMatch.effective with inPort := .port port }
  action : low.action = { output := .port out, genericActions := r.action.genericActions }
  priority : low.priority = r.priority

/-- The rule on the other switch: packets from the link are passed on. -/
structure IsSecond (port out : Nat) (r : Rule) (low : Lowlevel.Rule) : Prop where
  «match» : low.match = { inPort := .port port }
  action : low.action = { output := .port out }
  priority : low.priority = r.priority

variable {r : Rule} {i : Endpoint} {n m : Nat}

theorem copiedMatch_eq (inPort : Lowlevel.InPort) (m : Highlevel.Match) :
    copiedMatch inPort m = if m.toMatch.Copyable then .ok { m.toMatch.effective with inPort := inPort }
      else .error (.abort .undefinedBehaviour) := by
  rw [copiedMatch, Lowlevel.Match.setAllCommonFields_new]
  split <;> rfl

section

variable (hsupported : r.supported = true) (hi : r.input = some i)

include hsupported hi

/-- A rule between two endpoints of one switch. -/
theorem lower_same
    (hsame : i.side = r.output.side) (hn : sw.numberOf i = some n)
    (hm : sw.numberOf r.output = some m) (hcopy : r.match.Copyable) :
    (∃ low, sw.lower i.side r = .ok (some low) ∧ IsFirst n m r low) ∧
      sw.lower i.side.other r = .ok none := by
  unfold Rule.supported at hsupported
  unfold Rule.input at hi
  unfold Rule.output at hsame hm
  cases htype : r.match.type <;> cases haction : r.action.type <;>
    simp only [htype, haction, some.injEq, reduceCtorEq] at hsupported hi hsame hm <;>
    subst hi <;> try cases hsame
  all_goals
    simp only [numberOf] at hn hm
    simp [lower, Endpoint.side, Side.other, lowerRuleToLSI0, lowerRuleToTenantLSI, htype, haction,
      copiedMatch_eq, hcopy, hn, hm, nfOutput, endpointPort]
    exact ⟨rfl, rfl, rfl⟩

/-- A rule between endpoints of different switches, with the link of its target. -/
theorem lower_crossing {l : VLink}
    (hcross : i.side ≠ r.output.side) (hn : sw.numberOf i = some n)
    (hm : sw.numberOf r.output = some m) (hl : sw.tenantLSI.linkOf r.action.removedInfo = some l)
    (hcopy : r.match.Copyable) :
    (∃ low, sw.lower i.side r = .ok (some low) ∧ IsFirst n (l.endAt i.side) r low) ∧
      ∃ low, sw.lower i.side.other r = .ok (some low) ∧ IsSecond (l.endAt i.side.other) m r low := by
  unfold Rule.supported at hsupported
  unfold Rule.input at hi
  unfold Rule.output at hcross hm
  unfold Action.removedInfo at hl
  cases htype : r.match.type <;> cases haction : r.action.type <;>
    simp only [htype, haction, some.injEq, reduceCtorEq] at hsupported hi hcross hm hl <;>
    subst hi <;> try exact absurd rfl hcross
  all_goals
    simp only [numberOf] at hn hm
    simp [lower, Endpoint.side, Side.other, lowerRuleToLSI0, lowerRuleToTenantLSI, htype, haction,
      Action.removedInfo, copiedMatch_eq, hcopy, hn, hm, hl, nfOutput, endpointPort, portToBeUsed,
      -Nat.toString_eq_repr]
    exact ⟨⟨rfl, rfl, rfl⟩, ⟨rfl, rfl, rfl⟩⟩

end

/-- A rule from a GRE endpoint to a physical port: both switches keep the match and the tag
operations. -/
theorem lower_greToPort {l : VLink} (hgre : r.greToPort = true) (hi : r.input = some i)
    (hn : sw.numberOf i = some n) (hm : sw.numberOf r.output = some m)
    (hl : sw.tenantLSI.linkOf r.action.removedInfo = some l) (hcopy : r.match.Copyable) :
    (∃ low, sw.lower i.side r = .ok (some low) ∧ IsFirst n (l.endAt i.side) r low) ∧
      ∃ low, sw.lower i.side.other r = .ok (some low) ∧ IsFirst (l.endAt i.side.other) m r low := by
  unfold Rule.greToPort at hgre
  unfold Rule.input at hi
  unfold Rule.output at hm
  unfold Action.removedInfo at hl
  split at hgre
  · next htype haction =>
    simp only [htype, haction, some.injEq] at hi hm hl
    subst hi
    simp only [numberOf] at hn hm
    simp [lower, Endpoint.side, Side.other, lowerRuleToLSI0, lowerRuleToTenantLSI, greToPortMatch,
      htype, haction, Action.removedInfo, copiedMatch_eq, hcopy, hn, hm, hl, vlinkOf_of_linkOf hl,
      endpointPort]
    exact ⟨⟨rfl, rfl, rfl⟩, ⟨rfl, rfl, rfl⟩⟩
  · cases hgre

section

variable (hsupported : r.supported = true) (hi : r.input = some i)

include hsupported hi

/-- A match that cannot be copied keeps a rule from being lowered. -/
theorem lower_of_not_copyable
    (hn : sw.numberOf i = some n) (hcopy : ¬ r.match.Copyable) :
    sw.lower i.side r = .error (.abort .undefinedBehaviour) := by
  unfold Rule.supported at hsupported
  unfold Rule.input at hi
  cases htype : r.match.type <;> cases haction : r.action.type <;>
    simp only [htype, haction, some.injEq, reduceCtorEq] at hsupported hi <;> subst hi
  all_goals
    simp only [numberOf] at hn
    simp [lower, Endpoint.side, lowerRuleToLSI0, lowerRuleToTenantLSI, htype, haction,
      copiedMatch_eq, hcopy, hn]

end

/-- A low-level rule with the match of a rule applies where the rule does. -/
theorem IsFirst.applies_iff {η : Type} {fields : Fields η} {out port : Nat} {p : Packet η}
    {low : Lowlevel.Rule} (h : IsFirst n out r low) (hkept : r.match.PortsKept) :
    low.applies fields port p = true ↔ n = port ∧ r.match.accepts fields p = true := by
  simp [Lowlevel.Rule.applies, h.match, Graph.Match.accepts_effective fields hkept]

theorem IsSecond.applies_iff {η : Type} {fields : Fields η} {out port : Nat} {p : Packet η}
    {low : Lowlevel.Rule} (h : IsSecond n out r low) :
    low.applies fields port p = true ↔ n = port := by
  simp [Lowlevel.Rule.applies, h.match]

end Switches

/-! ### Targets -/

namespace Highlevel.Rule

variable {r r' : Rule} {i : Endpoint}

/-- A rule between the switches needs a link for the target of its action. -/
theorem requiredVlink_of_crossing (hi : r.input = some i) (hcross : i.side ≠ r.output.side) :
    r.requiredVlink = some r.action.removedInfo := by
  unfold input at hi
  unfold output at hcross
  unfold requiredVlink Action.removedInfo
  cases htype : r.match.type <;> cases haction : r.action.type <;>
    simp only [htype, haction, some.injEq, reduceCtorEq] at hi hcross <;>
    subst hi <;>
    first
    | exact absurd rfl hcross
    | simp [Match.matchOnPort, Match.matchOnEndPointInternal, Match.matchOnNF,
        Match.matchOnEndPointGre, htype]

/-- Rules from a GRE endpoint to a physical port are between the switches. -/
theorem crossing_of_greToPort (hgre : r.greToPort = true) (hi : r.input = some i) :
    i.side ≠ r.output.side := by
  unfold greToPort at hgre
  unfold input at hi
  unfold output
  split at hgre
  · next htype haction =>
    simp only [htype, haction, some.injEq] at hi ⊢
    subst hi
    simp [Endpoint.side]
  · cases hgre

/-- Links go up to the endpoints of the tenant LSI. -/
theorem isUp_removedInfo : VLinks.isUp r.action.removedInfo = (r.output.side == .tenant) := by
  unfold Action.removedInfo output
  cases r.action.type <;> rfl

/-- The target of a rule is its output. -/
theorem output_eq_of_removedInfo (h : r.action.removedInfo = r'.action.removedInfo) :
    r.output = r'.output := by
  unfold Action.removedInfo at h
  unfold output
  cases haction : r.action.type <;> cases haction' : r'.action.type <;>
    simp only [haction, haction', RuleRemovedInfo.port.injEq, RuleRemovedInfo.nfPort.injEq,
      RuleRemovedInfo.endpointGre.injEq, RuleRemovedInfo.endpointInternal.injEq, reduceCtorEq] at h ⊢
  case port.port => rw [h]
  case networkFunction.networkFunction =>
    obtain ⟨rfl, hport⟩ := CString.joinNumber_inj.mp h
    rw [hport]
  case endPointGre.endPointGre => rw [h]
  case endPointInternal.endPointInternal => rw [h]

end Highlevel.Rule

/-! ## The two tables realise the graph -/

namespace Switches

/-- What the translation needs: rules it supports between endpoints with ports, matches it can
copy without loss, links that serve one target in each direction, and numbers that differ. -/
structure Ready (sw : Switches) (rules : List Rule) : Prop where
  supported : ∀ r ∈ rules, r.supported = true ∨ r.greToPort = true
  knows : ∀ r ∈ rules, sw.Knows r
  copyable : ∀ r ∈ rules, r.match.Copyable
  kept : ∀ r ∈ rules, r.match.PortsKept
  linked : ∀ r ∈ rules, ∀ t, r.requiredVlink = some t → ∃ l, sw.tenantLSI.linkOf t = some l
  exclusive : ∀ t t' l, sw.tenantLSI.linkOf t = some l → sw.tenantLSI.linkOf t' = some l →
    VLinks.isUp t = VLinks.isUp t' → t = t'
  distinct : sw.Distinct

theorem mem_of_linkOf {v : VLinks} {t : RuleRemovedInfo} {l : VLink} (h : v.linkOf t = some l) :
    l ∈ v.virtualLinks := by
  obtain ⟨ID, -, hfind⟩ := bind_eq_some_iff.mp h
  exact List.mem_of_find?_eq_some hfind

/-- The port on the switch of its input that a rule sends packets to. -/
def stage (sw : Switches) (side : Side) (r : Rule) : Nat :=
  if r.output.side = side then (sw.numberOf r.output).getD 0
  else ((sw.tenantLSI.linkOf r.action.removedInfo).map (VLink.endAt · side)).getD 0

section Ready

variable {sw : Switches} {rules : List Rule} {r : Rule} {side : Side} {low : Lowlevel.Rule}

/-- The rules that a rule can become. -/
inductive Lowers (sw : Switches) (side : Side) (r : Rule) (low : Lowlevel.Rule) : Prop where
  | first {i : Endpoint} {n : Nat} (input : r.input = some i) (atSide : i.side = side)
    (number : sw.numberOf i = some n) (isFirst : IsFirst n (sw.stage side r) r low)
  | second {i : Endpoint} {l : VLink} {m : Nat} (input : r.input = some i) (atSide : i.side ≠ side)
    (output : r.output.side = side) (number : sw.numberOf r.output = some m)
    (link : sw.tenantLSI.linkOf r.action.removedInfo = some l)
    (isSecond : IsSecond (l.endAt side) m r low)
  | again {i : Endpoint} {l : VLink} {m : Nat} (gre : r.greToPort = true) (input : r.input = some i)
    (atSide : i.side ≠ side) (output : r.output.side = side) (number : sw.numberOf r.output = some m)
    (link : sw.tenantLSI.linkOf r.action.removedInfo = some l)
    (isFirst : IsFirst (l.endAt side) m r low)

/-- Every rule is lowered, and becomes a rule on each switch that has one of its endpoints. -/
theorem Ready.lower_eq (h : sw.Ready rules) (hr : r ∈ rules) (side : Side) :
    ∃ o, sw.lower side r = .ok o ∧ (∀ low, o = some low → Lowers sw side r low) ∧
      (r.output.side = side ∨ (∃ i, r.input = some i ∧ i.side = side) → o.isSome) := by
  obtain ⟨hinput, houtput⟩ := h.knows r hr
  obtain ⟨n, hbound⟩ := isSome_iff_exists.mp hinput
  obtain ⟨i, hi, hn⟩ := bind_eq_some_iff.mp hbound
  obtain ⟨m, hm⟩ := isSome_iff_exists.mp houtput
  have hcopy := h.copyable r hr
  by_cases hsame : i.side = r.output.side
  · have hsupported := (h.supported r hr).resolve_right
      fun hgre => Rule.crossing_of_greToPort hgre hi hsame
    obtain ⟨⟨low, hlow, hfirst⟩, hnone⟩ := lower_same hsupported hi hsame hn hm hcopy
    by_cases hside : i.side = side
    · subst hside
      have hstage : sw.stage i.side r = m := by rw [stage, if_pos hsame.symm, hm]; rfl
      refine ⟨some low, hlow, fun low' h' => ?_, fun _ => rfl⟩
      obtain rfl := some.inj h'
      exact .first hi rfl hn (hstage ▸ hfirst)
    · obtain rfl := Side.eq_other hside
      refine ⟨none, hnone, fun low' h' => (Option.some_ne_none low' h'.symm).elim, fun hends => ?_⟩
      rcases hends with hout | ⟨i', hi', hside'⟩
      · exact absurd (hsame.trans hout) hside
      · obtain rfl := mem_unique hi hi'
        exact absurd hside' hside
  · obtain ⟨l, hl⟩ := h.linked r hr _ (Rule.requiredVlink_of_crossing hi hsame)
    have hother := Side.eq_other hsame
    obtain ⟨⟨low, hlow, hfirst⟩, low₂, hlow₂, hsecond⟩ :
        (∃ low, sw.lower i.side r = .ok (some low) ∧ IsFirst n (l.endAt i.side) r low) ∧
        ∃ low, sw.lower i.side.other r = .ok (some low) ∧ Lowers sw i.side.other r low := by
      rcases h.supported r hr with hsupported | hgre
      · obtain ⟨hlow, low₂, hlow₂, hsecond⟩ := lower_crossing hsupported hi hsame hn hm hl hcopy
        exact ⟨hlow, low₂, hlow₂, .second hi (hother ▸ hsame) hother hm hl hsecond⟩
      · obtain ⟨hlow, low₂, hlow₂, hagain⟩ := lower_greToPort hgre hi hn hm hl hcopy
        exact ⟨hlow, low₂, hlow₂, .again hgre hi (hother ▸ hsame) hother hm hl hagain⟩
    by_cases hside : i.side = side
    · subst hside
      have hstage : sw.stage i.side r = l.endAt i.side := by
        rw [stage, if_neg (Ne.symm hsame), hl]; rfl
      refine ⟨some low, hlow, fun low' h' => ?_, fun _ => rfl⟩
      obtain rfl := some.inj h'
      exact .first hi rfl hn (hstage ▸ hfirst)
    · obtain rfl := Side.eq_other hside
      refine ⟨some low₂, hlow₂, fun low' h' => ?_, fun _ => rfl⟩
      obtain rfl := some.inj h'
      exact hsecond

theorem Lowers.priority (h : Lowers sw side r low) : low.priority = r.priority := by
  cases h with
  | first _ _ _ hfirst => exact hfirst.priority
  | second _ _ _ _ _ hsecond => exact hsecond.priority
  | again _ _ _ _ _ _ hagain => exact hagain.priority

theorem Ready.lowers (h : sw.Ready rules) (hr : r ∈ rules) (hlow : sw.lower side r = .ok (some low)) :
    Lowers sw side r low := by
  obtain ⟨o, ho, hlowers, -⟩ := h.lower_eq hr side
  exact hlowers low (Except.ok.inj (ho.symm.trans hlow))

section Tables

variable {η : Type} {fields : Fields η} {tables : Side → List Lowlevel.Rule} {p p' : Packet η}
  {k' : Place}

variable {i : Endpoint}

variable (h : sw.Ready rules) (htables : ∀ side low, low ∈ tables side ↔ ∃ r ∈ rules, sw.lower side r = .ok (some low))

include h htables

/-- The first switch treats a packet as the graph does, and sends it on to the port of the stage. -/
theorem Ready.hop_input
    {n : Nat} (hn : sw.numberOf i = some n) :
    (sw.network fields tables).hop ⟨i.side, n⟩ p k' p' ↔
      ∃ r, (Wins Rule.priority (fun r => r.input = some i ∧ r.match.accepts fields p) rules r ∧
        p' = GenericAction.applyAll r.action.genericActions p) ∧ k' = ⟨i.side, sw.stage i.side r⟩ := by
  have happlies : ∀ r ∈ rules, ∀ low, sw.lower i.side r = .ok (some low) →
      (low.applies fields n p = true ↔ r.input = some i ∧ r.match.accepts fields p = true) := by
    intro r hr low hlow
    cases h.lowers hr hlow with
    | first hinput hside hnumber hfirst =>
      rw [hfirst.applies_iff (h.kept r hr), hinput, some.injEq]
      constructor
      · rintro ⟨rfl, haccepts⟩
        exact ⟨h.distinct.endpoint_eq hside hnumber hn, haccepts⟩
      · rintro ⟨rfl, haccepts⟩
        exact ⟨mem_unique hnumber hn, haccepts⟩
    | second hinput hside houtput hnumber hlink hsecond =>
      rw [hsecond.applies_iff, hinput, some.injEq]
      constructor
      · intro hend
        exact absurd hend (h.distinct.endAt_ne hn (mem_of_linkOf hlink))
      · rintro ⟨rfl, -⟩
        exact absurd rfl hside
    | again _ hinput hside _ _ hlink hagain =>
      rw [hagain.applies_iff (h.kept r hr), hinput, some.injEq]
      constructor
      · rintro ⟨hend, -⟩
        exact absurd hend (h.distinct.endAt_ne hn (mem_of_linkOf hlink))
      · rintro ⟨rfl, -⟩
        exact absurd rfl hside
  have hfirst : ∀ r ∈ rules, r.input = some i → ∀ low, sw.lower i.side r = .ok (some low) →
      IsFirst n (sw.stage i.side r) r low := by
    intro r hr hi low hlow
    cases h.lowers hr hlow with
    | first hinput hside hnumber hfirst =>
      obtain rfl := mem_unique hi hinput
      obtain rfl := mem_unique hn hnumber
      exact hfirst
    | second hinput hside _ _ _ _ | again _ hinput hside _ _ _ _ =>
      obtain rfl := mem_unique hi hinput
      exact absurd rfl hside
  have htotal : ∀ r ∈ rules, (r.input = some i ∧ r.match.accepts fields p = true) →
      ∃ low, sw.lower i.side r = .ok (some low) := by
    intro r hr happ
    obtain ⟨o, ho, -, hsome⟩ := h.lower_eq hr i.side
    obtain ⟨low, rfl⟩ := isSome_iff_exists.mp (hsome (.inr ⟨i, happ.1, rfl⟩))
    exact ⟨low, ho⟩
  have hwins := wins_iff (htables i.side) (fun r hr low hlow => (h.lowers hr hlow).priority)
    happlies htotal
  simp only [network, Lowlevel.treats_iff]
  constructor
  · rintro ⟨hside, low, hlow, hport, rfl⟩
    obtain ⟨r, hr, hmakes⟩ := (hwins low).mp hlow
    have hlowered := hfirst r hr.1 hr.2.1.1 low hmakes
    refine ⟨r, ⟨hr, by rw [hlowered.action]⟩, ?_⟩
    rw [hlowered.action] at hport
    exact Place.ext hside hport
  · rintro ⟨r, ⟨hr, rfl⟩, rfl⟩
    obtain ⟨low, hlow⟩ := htotal r hr.1 hr.2.1
    have hlowered := hfirst r hr.1 hr.2.1.1 low hlow
    exact ⟨rfl, low, (hwins low).mpr ⟨r, hr, hlow⟩, by rw [hlowered.action]; rfl,
      by rw [hlowered.action]⟩

/-- The second switch passes on what comes out of the link of a rule, if the rule applies there and
the rules that match once more, and may come before it, do not change the packet. -/
theorem Ready.hop_link
    {l : VLink} {m : Nat} (hr : r ∈ rules) (hi : r.input = some i) (hcross : i.side ≠ r.output.side)
    (hl : sw.tenantLSI.linkOf r.action.removedInfo = some l) (hm : sw.numberOf r.output = some m)
    (hagain : r.greToPort = true → r.match.accepts fields p = true)
    (hkeeps : ∀ r' ∈ rules, r'.greToPort = true → r'.output = r.output → r.priority ≤ r'.priority →
      GenericAction.applyAll r'.action.genericActions p = p) :
    (sw.network fields tables).hop ⟨r.output.side, l.endAt r.output.side⟩ p k' p' ↔
      k' = ⟨r.output.side, m⟩ ∧ p' = p := by
  -- every rule that applies there belongs to the target of the link
  have htarget : ∀ (r' : Rule) (l' : VLink), sw.tenantLSI.linkOf r'.action.removedInfo = some l' →
      r'.output.side = r.output.side → l'.endAt r.output.side = l.endAt r.output.side →
      r'.output = r.output := by
    intro r' l' hlink houtput hends
    obtain rfl := h.distinct.link_eq (mem_of_linkOf hlink) (mem_of_linkOf hl) hends
    have hup : VLinks.isUp r'.action.removedInfo = VLinks.isUp r.action.removedInfo := by
      rw [Rule.isUp_removedInfo, Rule.isUp_removedInfo, houtput]
    exact Rule.output_eq_of_removedInfo (h.exclusive _ _ _ hlink hl hup)
  have hpasses : ∀ low ∈ tables r.output.side,
      low.applies fields (l.endAt r.output.side) p = true → r.priority ≤ low.priority →
      low.action.output = .port m ∧ GenericAction.applyAll low.action.genericActions p = p := by
    intro low hmem happlies hpriority
    obtain ⟨r', hr', hlow⟩ := (htables _ _).mp hmem
    have hlowers := h.lowers hr' hlow
    rw [hlowers.priority] at hpriority
    cases hlowers with
    | first hinput hside hnumber hfirst =>
      have hend := ((hfirst.applies_iff (h.kept r' hr')).mp happlies).1
      rw [← hside] at hend
      exact absurd hend.symm (h.distinct.endAt_ne hnumber (mem_of_linkOf hl))
    | second hinput hside houtput hnumber hlink hsecond =>
      rw [htarget r' _ hlink houtput (hsecond.applies_iff.mp happlies), hm] at hnumber
      rw [hsecond.action, some.inj hnumber]
      exact ⟨rfl, rfl⟩
    | again hgre hinput hside houtput hnumber hlink hfirst =>
      have hsame := htarget r' _ hlink houtput ((hfirst.applies_iff (h.kept r' hr')).mp happlies).1
      rw [hsame, hm] at hnumber
      rw [hfirst.action, some.inj hnumber]
      exact ⟨rfl, hkeeps r' hr' hgre hsame hpriority⟩
  obtain ⟨o, ho, hlowers, hsome⟩ := h.lower_eq hr r.output.side
  obtain ⟨low, rfl⟩ := isSome_iff_exists.mp (hsome (.inl rfl))
  have hmem := (htables _ _).mpr ⟨r, hr, ho⟩
  have hlow := hlowers low rfl
  have happlies : low.applies fields (l.endAt r.output.side) p = true := by
    cases hlow with
    | first hinput hside _ _ =>
      obtain rfl := mem_unique hi hinput
      exact absurd hside hcross
    | second _ _ _ _ hlink hsecond =>
      obtain rfl := mem_unique hl hlink
      exact hsecond.applies_iff.mpr rfl
    | again hgre _ _ _ _ hlink hfirst =>
      obtain rfl := mem_unique hl hlink
      exact (hfirst.applies_iff (h.kept r hr)).mpr ⟨rfl, hagain hgre⟩
  simp only [network, Lowlevel.treats_iff]
  constructor
  · rintro ⟨hside, w, ⟨hw, hwapplies, hmax⟩, hport, rfl⟩
    obtain ⟨hout, hkeep⟩ := hpasses w hw hwapplies (hlow.priority ▸ hmax low hmem happlies)
    rw [hout] at hport
    exact ⟨Place.ext hside hport, hkeep⟩
  · rintro ⟨rfl, rfl⟩
    obtain ⟨w, hw⟩ : ∃ w, Wins Lowlevel.Rule.priority
        (fun w => w.applies fields (l.endAt r.output.side) p' = true) (tables r.output.side) w :=
      exists_wins _ hmem happlies
    obtain ⟨hout, hkeep⟩ := hpasses w hw.1 hw.2.1 (hlow.priority ▸ hw.2.2 low hmem happlies)
    exact ⟨rfl, w, hw, by rw [hout]; rfl, hkeep.symm⟩

/-- The two tables deliver what the graph sends. -/
theorem Ready.delivers_iff (hsupported : ∀ r ∈ rules, r.supported = true)
    {k : Place} (hk : sw.placeOf i = some k) :
    Delivers (sw.network fields tables) k p k' p' ↔
      ∃ o, Sends fields rules i p o p' ∧ sw.placeOf o = some k' := by
  obtain ⟨n, hn, rfl⟩ := map_eq_some_iff.mp hk
  have houtput : ∀ r ∈ rules, ∃ m, sw.numberOf r.output = some m := fun r hr =>
    isSome_iff_exists.mp (h.knows r hr).2
  refine (Forwarding.delivers_iff (fun r => ⟨r.output.side, (sw.numberOf r.output).getD 0⟩)
    (fun k₁ p₁ => h.hop_input htables hn) (fun r p₁ hr => ?_) (fun r p₁ hr => ?_) k' p').trans ?_
  · obtain ⟨m, hm⟩ := houtput r hr.1.1
    rw [hm]
    exact h.distinct.otherEnd_endpoint hm
  · by_cases hsame : r.output.side = i.side
    · left
      rw [stage, if_pos hsame, hsame]
    · right
      obtain ⟨m, hm⟩ := houtput r hr.1.1
      have hinput := hr.1.2.1.1
      have hrequired := Rule.requiredVlink_of_crossing hinput (Ne.symm hsame)
      obtain ⟨l, hl⟩ := h.linked r hr.1.1 _ hrequired
      have hother := Side.eq_other (Ne.symm hsame)
      refine ⟨⟨r.output.side, l.endAt r.output.side⟩, ?_, fun k' p' => ?_⟩
      · rw [stage, if_neg hsame, hl, hother]
        exact h.distinct.otherEnd_link (mem_of_linkOf hl) i.side
      · rw [hm]
        have hnone : ∀ r ∈ rules, ¬ r.greToPort = true := fun r hr =>
          Bool.eq_false_iff.mp (Rule.greToPort_eq_false (hsupported r hr))
        exact h.hop_link htables hr.1.1 hinput (Ne.symm hsame) hl hm
          (fun hgre => absurd hgre (hnone r hr.1.1)) (fun r' hr' hgre => absurd hgre (hnone r' hr'))
  · constructor
    · rintro ⟨r, ⟨hr, rfl⟩, rfl⟩
      obtain ⟨m, hm⟩ := houtput r hr.1
      exact ⟨r.output, ⟨r, hr, rfl, rfl⟩, by rw [placeOf, hm]; rfl⟩
    · rintro ⟨_, ⟨r, hr, rfl, rfl⟩, hplace⟩
      obtain ⟨m, hm, rfl⟩ := map_eq_some_iff.mp hplace
      exact ⟨r, ⟨hr, rfl⟩, by rw [hm]; rfl⟩

end Tables

end Ready

/-- The tables of the two switches. -/
def tables (lsi0Rules tenantRules : List Lowlevel.Rule) : Side → List Lowlevel.Rule
  | .lsi0 => lsi0Rules
  | .tenant => tenantRules

/-- A graph is lowered to both switches, and their tables deliver what it sends. -/
def Realise {η : Type} (sw : Switches) (fields : Fields η) (graph : Highlevel.Graph) : Prop :=
  ∃ lsi0Graph tenantGraph,
    lowerGraphToLSI0 graph sw.tenantLSI sw.lsi0 sw.internalLSIsConnections = .ok lsi0Graph ∧
    lowerGraphToTenantLSI graph sw.tenantLSI = .ok tenantGraph ∧
    ∀ i k, sw.placeOf i = some k → ∀ p k' p',
      Delivers (sw.network fields (tables lsi0Graph.rules tenantGraph.rules)) k p k' p' ↔
        ∃ o, Sends fields graph.rules i p o p' ∧ sw.placeOf o = some k'

variable {η : Type} {sw : Switches} {graph : Highlevel.Graph}

/-- Both lowerings return, and their tables hold what the rules become. -/
theorem Ready.lowered (h : sw.Ready graph.rules) (hID : sw.graphID = graph.ID) :
    ∃ lsi0Graph tenantGraph,
      lowerGraphToLSI0 graph sw.tenantLSI sw.lsi0 sw.internalLSIsConnections = .ok lsi0Graph ∧
      lowerGraphToTenantLSI graph sw.tenantLSI = .ok tenantGraph ∧
      ∀ side low, low ∈ tables lsi0Graph.rules tenantGraph.rules side ↔
        ∃ r ∈ graph.rules, sw.lower side r = .ok (some low) := by
  have hreturns : ∀ side, ∃ rules, Failure.collect (sw.lower side) graph.rules = .ok rules :=
    fun side => Failure.collect_returns fun r hr =>
      let ⟨o, ho, _⟩ := h.lower_eq hr side
      ⟨o, ho⟩
  obtain ⟨lsi0Rules, hlsi0⟩ := hreturns .lsi0
  obtain ⟨tenantRules, htenant⟩ := hreturns .tenant
  refine ⟨{ rules := lsi0Rules }, { rules := tenantRules }, lowerGraphToLSI0_eq_ok.mpr ?_,
    lowerGraphToTenantLSI_eq_ok.mpr htenant, fun side low => ?_⟩
  · rw [← hID]
    exact hlsi0
  · cases side with
    | lsi0 => exact Failure.mem_collect hlsi0
    | tenant => exact Failure.mem_collect htenant

/-- Without rules from GRE endpoints to physical ports, the tables deliver what the graph sends. -/
theorem Ready.realise (h : sw.Ready graph.rules) (hsupported : ∀ r ∈ graph.rules, r.supported = true)
    (hID : sw.graphID = graph.ID) (fields : Fields η) : sw.Realise fields graph := by
  obtain ⟨lsi0Graph, tenantGraph, hlsi0, htenant, htables⟩ := h.lowered hID
  exact ⟨lsi0Graph, tenantGraph, hlsi0, htenant, fun i k hk p k' p' =>
    h.delivers_iff htables hsupported hk⟩

/-- A graph that is lowered has matches that can be copied. -/
theorem Realise.copyable {fields : Fields η} (h : sw.Realise fields graph)
    (hID : sw.graphID = graph.ID) (hsupported : ∀ r ∈ graph.rules, r.supported = true)
    (hknown : ∀ r ∈ graph.rules, sw.Knows r) : ∀ r ∈ graph.rules, r.match.Copyable := by
  obtain ⟨lsi0Graph, tenantGraph, hlsi0, htenant, -⟩ := h
  intro r hr
  obtain ⟨n, hbound⟩ := isSome_iff_exists.mp (hknown r hr).1
  obtain ⟨i, hi, hn⟩ := bind_eq_some_iff.mp hbound
  by_contra hcopy
  have haborts := lower_of_not_copyable (hsupported r hr) hi hn hcopy
  have hreturns : ∃ o, sw.lower i.side r = .ok o := by
    cases i.side with
    | lsi0 =>
      rw [lower, hID]
      exact Failure.ok_of_collect (lowerGraphToLSI0_eq_ok.mp hlsi0) hr
    | tenant => exact Failure.ok_of_collect (lowerGraphToTenantLSI_eq_ok.mp htenant) hr
  obtain ⟨o, ho⟩ := hreturns
  rw [haborts] at ho
  cases ho

end Switches

/-- The switches that a graph is lowered to. -/
def GraphInfo.switches (info : GraphInfo) (lsi0 : LSI) (connections : InternalConnections) :
    Switches where
  graphID := info.graph.ID
  tenantLSI := info.lsi
  lsi0 := lsi0
  internalLSIsConnections := connections

/-- The links made for a new graph serve one target in each direction. -/
theorem linked_of_created {env : Environment} {physicalPorts : StringMap Nat} {runNFs : Bool}
    {graph : Highlevel.Graph} {nextID nextID' : Nat} {info : GraphInfo}
    (hcreated : createTenant env physicalPorts runNFs graph nextID = .ok (some (some info), nextID')) :
    info.graph = graph ∧
    (∀ r ∈ graph.rules, ∀ t, r.requiredVlink = some t → ∃ l, info.lsi.linkOf t = some l) ∧
    ∀ t t' l, info.lsi.linkOf t = some l → info.lsi.linkOf t' = some l →
      VLinks.isUp t = VLinks.isUp t' → t = t' := by
  obtain ⟨-, hinfo⟩ := (Call.of_wp createTenant_spec hcreated).1 (some info) rfl
  obtain ⟨hgraph, -, hinOrder, hserved⟩ := hinfo info rfl
  refine ⟨hgraph, fun r hr t ht => ?_, fun t t' l hl hl' hup => ?_⟩
  · have hsome := (hserved t).mpr ⟨r, hr, ht⟩
    exact isSome_iff_exists.mp ((Wiring.resolve_isSome hinOrder.wired).mpr hsome)
  · obtain ⟨ID, hID, hfind⟩ := bind_eq_some_iff.mp hl
    obtain ⟨ID', hID', hfind'⟩ := bind_eq_some_iff.mp hl'
    have hlID : l.ID = ID := by simpa using List.find?_some hfind
    have hlID' : l.ID = ID' := by simpa using List.find?_some hfind'
    subst hlID
    exact hinOrder.wired.exclusive hID (hlID' ▸ hID') hup

/-- The record that `createTenant` has made, with the counter. -/
def recordMade : Except Abort (Option (Option GraphInfo) × Nat) → Option (GraphInfo × Nat)
  | .ok (some (some info), nextID) => some (info, nextID)
  | _ => none

theorem eq_of_recordMade {x : Except Abort (Option (Option GraphInfo) × Nat)}
    {made : GraphInfo × Nat} (h : recordMade x = some made) :
    x = .ok (some (some made.1), made.2) := by
  unfold recordMade at h
  split at h
  · cases h
    rfl
  · cases h

end UnOrchestrator
