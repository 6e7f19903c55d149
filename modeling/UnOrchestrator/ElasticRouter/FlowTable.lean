import Mathlib.Logic.Basic

/-!
# Flows towards an old datapath

Before an old datapath is deleted, `scale_finish` wants the flows from outside to it marked for deletion
in the flow table of the graph. Both tests of `delete_VNF_incoming_ext_flows` look at the output of an
entry, so it marks none.
-/

namespace UnOrchestrator.ElasticRouter

/-- A port in the flow table: of the universal node, or of a network function. -/
inductive Target where
  | ports (port : String)
  | nfInstances (vnf port : String)
  deriving DecidableEq

inductive EditOperation where
  | create
  | delete
  deriving DecidableEq

structure FlowEntry where
  id : String
  port : Target
  out : Target
  operation : Option EditOperation := none
  deriving DecidableEq

def FlowEntry.sendsTo (vnfId : String) (flowentry : FlowEntry) : Bool :=
  match flowentry.out with
  | .ports _ => false
  | .nfInstances vnf _ => vnf == vnfId

/-- The positions of the entries. -/
def getFlowRulesSendingTrafficToVNF (flowtable : List FlowEntry) (vnfId : String) : List Nat :=
  (List.range flowtable.length).filter fun i => (flowtable[i]?).any (FlowEntry.sendsTo vnfId)

def deleteVNFIncomingExtFlows (flowtable : List FlowEntry) (vnfId : String) : List FlowEntry :=
  (getFlowRulesSendingTrafficToVNF flowtable vnfId).foldl (fun table (i : Nat) =>
    match table[i]? with
    | some ⟨id, port, .ports out, _⟩ => table.set i ⟨id, port, .ports out, some .delete⟩
    | _ => table) flowtable

/-- An entry from a port of the universal node to the network function is to be deleted. -/
def FlowEntry.detached (vnfId : String) (flowentry : FlowEntry) : FlowEntry :=
  match flowentry.port with
  | .ports _ => if flowentry.sendsTo vnfId then { flowentry with operation := some .delete } else flowentry
  | .nfInstances _ _ => flowentry

/-- An entry that leads to a network function does not lead to the universal node. -/
theorem deleteVNFIncomingExtFlows_eq (flowtable : List FlowEntry) (vnfId : String) :
    deleteVNFIncomingExtFlows flowtable vnfId = flowtable := by
  have hpositions (i : Nat) (h : i ∈ getFlowRulesSendingTrafficToVNF flowtable vnfId) :
      (flowtable[i]?).any (FlowEntry.sendsTo vnfId) = true := (List.mem_filter.mp h).2
  unfold deleteVNFIncomingExtFlows
  generalize getFlowRulesSendingTrafficToVNF flowtable vnfId = positions at hpositions ⊢
  induction positions with
  | nil => rfl
  | cons i positions ih =>
    have hi := hpositions i List.mem_cons_self
    have hrest := ih fun j hj => hpositions j (List.mem_cons_of_mem i hj)
    rw [List.foldl_cons]
    split
    · next hentry => simp [hentry, FlowEntry.sendsTo] at hi
    · exact hrest

/-- The right entries are marked only if they are marked already. -/
theorem deleteVNFIncomingExtFlows_exact_iff (flowtable : List FlowEntry) (vnfId : String) :
    deleteVNFIncomingExtFlows flowtable vnfId = flowtable.map (FlowEntry.detached vnfId) ↔
      ∀ flowentry ∈ flowtable, ∀ port, flowentry.port = .ports port → flowentry.sendsTo vnfId = true →
        flowentry.operation = some .delete := by
  have hsame := List.map_inj_left (l := flowtable) (f := FlowEntry.detached vnfId) (g := id)
  rw [List.map_id] at hsame
  rw [deleteVNFIncomingExtFlows_eq, eq_comm, hsame]
  refine forall₂_congr fun flowentry _ => ?_
  obtain ⟨id, port | ⟨vnf, port⟩, out, operation⟩ := flowentry
  · simp only [FlowEntry.detached, id_eq, ite_eq_right_iff, FlowEntry.mk.injEq, true_and, Target.ports.injEq,
      forall_eq']
    exact forall_congr' fun _ => eq_comm
  · simp [FlowEntry.detached]

theorem incoming_flow_not_marked :
    deleteVNFIncomingExtFlows [⟨"1", .ports "0", .nfInstances "ovs1" "1", none⟩] "ovs1" ≠
      [⟨"1", .ports "0", .nfInstances "ovs1" "1", some .delete⟩] := by
  decide

end UnOrchestrator.ElasticRouter
