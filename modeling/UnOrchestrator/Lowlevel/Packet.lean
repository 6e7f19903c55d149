import UnOrchestrator.Lib.Forwarding
import UnOrchestrator.Lowlevel.Rule

/-!
# What rules do with packets

The tag operations of a rule change the VLAN tags of a packet and nothing else, so a packet
is its stack of tags and the rest of its contents. How the other header fields of a match
read the rest of a packet stays a parameter (`Fields`).

A rule applies to a packet on its input port that its match accepts, and performs the actions
of its flow-mod one after the other. `perform_fillFlowmodMessage` says what comes out: one
packet, on the output port, with the tag operations applied in order. `tags_applyAll` is their
net effect: some of the outermost tags are taken off, and others are put on.
-/

namespace UnOrchestrator

/-- A VLAN tag: the value of the VLAN_VID field, which has the presence bit, and the priority. -/
structure Tag where
  vid : UInt16
  pcp : UInt8
  deriving DecidableEq, Repr

/-- A packet, with its outermost tag first. -/
@[ext]
structure Packet (η : Type) where
  tags : List Tag
  rest : η
  deriving DecidableEq

/-- How the header fields of a match, apart from the VLAN ones, read the rest of a packet. A
match without such fields accepts everything. -/
structure Fields (η : Type) where
  holds : η → Graph.Match → Bool
  holds_new : ∀ rest, holds rest {} = true

variable {η : Type}

namespace Graph.Match

/-- The VLAN constraints of a match, on the outermost tag. -/
def acceptsTags (m : Match) (tags : List Tag) : Bool :=
  (match Lowlevel.vlanField m with
    | some (.vlanVid vid) => tags.head?.any (fun t => t.vid == vid)
    | some .vlanPresent => tags.head?.isSome
    | some .vlanUntagged => tags.head?.isNone
    | _ => true) &&
  m.vlanPCP.all (fun pcp => tags.head?.any (fun t => t.pcp == pcp))

/-- The other constraints, as the match states them. -/
def headers (m : Match) : Match :=
  { m with
    isVlanID := false, isAnyVlan := false, isNoVlan := false, isEndpointVlanID := false
    vlanID := 0, vlanPCP := none }

/-- A match accepts a packet. -/
def accepts (fields : Fields η) (m : Match) (p : Packet η) : Bool :=
  m.acceptsTags p.tags && fields.holds p.rest m.headers

/-- The transport ports that a match asks for are not lost in a copy: it asks for none, or its
protocol has ports. -/
def PortsKept (m : Match) : Prop :=
  m.isTransport = true ∨ m.transportSrcPort = 0 ∧ m.transportDstPort = 0

instance (m : Match) : Decidable m.PortsKept := inferInstanceAs (Decidable (_ ∨ _))

/-- Where the ports are kept, a copy accepts what the match accepts. -/
theorem accepts_effective (fields : Fields η) {m : Match} (hkept : m.PortsKept) (p : Packet η) :
    m.effective.accepts fields p = m.accepts fields p := by
  have hports : m.effective.transportSrcPort = m.transportSrcPort ∧
      m.effective.transportDstPort = m.transportDstPort := by
    rcases hkept with htransport | ⟨hsrc, hdst⟩
    · simp [effective, htransport]
    · simp [effective, hsrc, hdst]
  have hheaders : m.effective.headers = m.headers := by
    simp only [headers, hports]
    rfl
  rw [accepts, accepts, hheaders, acceptsTags, Lowlevel.vlanField_effective]
  rfl

@[simp] theorem accepts_new (fields : Fields η) (p : Packet η) :
    ({} : Match).accepts fields p = true :=
  fields.holds_new p.rest

end Graph.Match

/-! ## Tag operations -/

/-- The priority of the outermost tag, which a pushed tag takes over. -/
def outerPcp (tags : List Tag) : UInt8 := (tags.head?.map Tag.pcp).getD 0

namespace GenericAction

/-- What a tag operation asks for. -/
def apply (ga : GenericAction) (tags : List Tag) : List Tag :=
  match ga.type with
  | .vlanPush | .endpointVlanPush => ⟨ga.label ||| 0x1000, outerPcp tags⟩ :: tags
  | .vlanPop | .endpointVlanPop => tags.tail

/-- Tag operations, in order. -/
def applyAll (actions : List GenericAction) (p : Packet η) : Packet η :=
  { p with tags := actions.foldl (fun tags ga => ga.apply tags) p.tags }

/-- How many tags of a packet are taken off, and the identifiers of those that are put on
instead, once another operation is done. -/
def compose (effect : Nat × List UInt16) (ga : GenericAction) : Nat × List UInt16 :=
  match ga.type, effect.2 with
  | .vlanPush, _ | .endpointVlanPush, _ => (effect.1, (ga.label ||| 0x1000) :: effect.2)
  | .vlanPop, [] | .endpointVlanPop, [] => (effect.1 + 1, [])
  | .vlanPop, _ :: vids | .endpointVlanPop, _ :: vids => (effect.1, vids)

/-- The net effect of tag operations. -/
def netEffect (actions : List GenericAction) : Nat × List UInt16 := actions.foldl compose (0, [])

/-- The tags that an effect leaves on a packet. -/
def replaceTags (effect : Nat × List UInt16) (tags : List Tag) : List Tag :=
  effect.2.map (fun vid => ⟨vid, outerPcp (tags.drop effect.1)⟩) ++ tags.drop effect.1

theorem apply_replaceTags (effect : Nat × List UInt16) (ga : GenericAction) (tags : List Tag) :
    ga.apply (replaceTags effect tags) = replaceTags (compose effect ga) tags := by
  obtain ⟨popped, pushed⟩ := effect
  cases htype : ga.type <;> cases pushed <;>
    simp [apply, compose, htype, replaceTags, outerPcp]

/-- Tag operations have their net effect. -/
theorem tags_applyAll (actions : List GenericAction) (p : Packet η) :
    (applyAll actions p).tags = replaceTags (netEffect actions) p.tags := by
  have hloop (effect : Nat × List UInt16) :
      actions.foldl (fun tags ga => ga.apply tags) (replaceTags effect p.tags) =
        replaceTags (actions.foldl compose effect) p.tags := by
    induction actions generalizing effect with
    | nil => rfl
    | cons ga actions ih =>
      rw [List.foldl_cons, apply_replaceTags, ih]
      rfl
  exact hloop (0, [])

end GenericAction

/-! ## Rules -/

namespace Lowlevel

/-- What an action of a flow-mod does with the tags of a packet. A pushed tag is a copy of the
outermost one, and an untagged packet has no identifier to set. -/
def FlowAction.apply (tags : List Tag) : FlowAction → List Tag
  | .pushVlan => tags.headD ⟨0x1000, 0⟩ :: tags
  | .setVlanVid vid => tags.modifyHead (fun t => { t with vid := vid })
  | .popVlan => tags.tail
  | .output _ => tags

/-- The packets that a list of actions sends out, with their ports. -/
def perform : List FlowAction → Packet η → List (Nat × Packet η)
  | [], _ => []
  | .output port :: actions, p => (port, p) :: perform actions p
  | action :: actions, p => perform actions { p with tags := action.apply p.tags }

/-- The number an output stands for in a flow-mod. -/
def Output.number : Output → Nat
  | .port portID => portID
  | .localPort => ofppLocal
  | .normal => ofppNormal

/-- An action sends out one packet, on its output. -/
theorem perform_fillFlowmodMessage (a : Action) (p : Packet η) :
    perform a.fillFlowmodMessage p =
      [(a.output.number, GenericAction.applyAll a.genericActions p)] := by
  obtain ⟨output, actions⟩ := a
  have hloop (p : Packet η) :
      perform (actions.flatMap genericFlowActions ++ [.output output.number]) p =
        [(output.number, GenericAction.applyAll actions p)] := by
    induction actions generalizing p with
    | nil => rfl
    | cons ga actions ih =>
      rw [List.flatMap_cons, List.append_assoc]
      -- the flow actions of the first operation do what it asks for
      have hone : perform (genericFlowActions ga ++
          (actions.flatMap genericFlowActions ++ [.output output.number])) p =
          perform (actions.flatMap genericFlowActions ++ [.output output.number])
            { p with tags := ga.apply p.tags } := by
        unfold genericFlowActions GenericAction.apply outerPcp
        cases htype : ga.type <;> cases htags : p.tags <;>
          simp [perform, FlowAction.apply, htags]
      rw [hone, ih]
      rfl
  cases output <;> exact hloop p

/-- A rule applies to a packet that comes in on a port. -/
def Rule.applies (fields : Fields η) (port : Nat) (p : Packet η) (r : Rule) : Bool :=
  (match r.match.inPort with
    | .port inputPort => inputPort == port
    | .localPort => ofppLocal == port
    | .any => true) && r.match.toMatch.accepts fields p

/-- A table treats a packet by an entry of the highest priority. -/
def Treats (fields : Fields η) (table : List Rule) (port : Nat) (p : Packet η)
    (out : Nat × Packet η) : Prop :=
  ∃ r, Forwarding.Wins Rule.priority (fun r => r.applies fields port p) table r ∧
    out ∈ perform r.flowActions p

theorem treats_iff {fields : Fields η} {table : List Rule} {port out : Nat} {p p' : Packet η} :
    Treats fields table port p (out, p') ↔
      ∃ r, Forwarding.Wins Rule.priority (fun r => r.applies fields port p) table r ∧
        out = r.action.output.number ∧ p' = GenericAction.applyAll r.action.genericActions p := by
  simp only [Treats, Rule.flowActions, perform_fillFlowmodMessage, List.mem_singleton,
    Prod.mk.injEq]

end Lowlevel

end UnOrchestrator
