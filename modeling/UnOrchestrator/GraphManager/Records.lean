import UnOrchestrator.GraphManager.Ports

/-!
# Properties of all records

A property that the record of every deployed graph has. The requests insert one record, or take
one away, so that what has to be shown of a property is what it means for the record that was
made for a new graph, and for the two halves of an update. The property may not look at the
controller of the graph: rules come and go, and connections with them.

Where every call to the outside succeeds, the pieces of an update are added and removed without an
exception, but for interfaces that LSI-0 does not have; these are looked at before anything is
written (`addPieces_throws`).
-/

namespace UnOrchestrator.GraphManager

open Call

open Highlevel

/-! ## Exceptions -/

section

variable {env : Environment} {info : GraphInfo} {runNFs : Bool}

theorem retrieveDescriptions_of_succeeds (h : env.Succeeds) (nfs : List VNFs) (c : ComputeController) :
    wp (retrieveDescriptions env nfs) (fun valid _ => valid = true) (fun _ => False) c := by
  induction nfs generalizing c with
  | nil => rfl
  | cons nf nfs ih =>
    obtain ⟨descriptions, described, hanswer⟩ := h.retrieveDescription nf.id nf.name
    simp only [retrieveDescriptions, wp_bind, wp_get, hanswer]
    split
    · exact ih c
    · simp only [wp_bind, wp_modify]
      exact ih _

theorem startPieces_of_succeeds (h : env.Succeeds) (nfs : List VNFs) :
    wp (startPieces env nfs) (fun _ _ => True) (fun _ => False) info := by
  simp only [startPieces, wp_bind, wp_get, wp_eval_ofAbort, wp_assert, GraphInfo.wp_onCompute]
  intro decisions _ _ c _ _
  rw [if_pos (List.all_eq_true.mpr fun nf _ => h.startNF nf.1.id)]
  trivial

theorem addPorts_of_succeeds (h : env.Succeeds) (diff : Highlevel.Graph) :
    wp (addPorts env runNFs diff) (fun _ _ => True) (fun _ => False) info := by
  simp only [addPorts, wp_bind, wp_assert]
  refine wp_weaken (wp_each (I := fun _ _ => True) (fun nf _ info _ => ?_) _ info trivial)
    fun _ info₁ _ => wp_weaken (wp_each (I := fun _ _ => True) (fun ep _ info _ => ?_) _ info₁ trivial)
      fun _ info₂ _ _ => ?_
  · have hnever {α : Type} {why : Abort} {o : Option α} :
        Failure.orElse (.abort why) o ≠ .error .thrown := by
      simp [Failure.orElse_eq_error]
    simp only [addNFPieces, wp_bind, wp_get, GraphInfo.wp_onCompute, GraphInfo.wp_onLsi]
    rw [wp_eval_ofAbort]
    simp only [wp_eval]
    refine fun ports _ c _ => ⟨fun descr _ lsi _ => ⟨fun after _ => ?_, hnever⟩, hnever⟩
    split
    · next hnone => exact absurd hnone (Option.isSome_iff_ne_none.mp (h.addNFPorts nf.id _))
    · simp only [wp_bind, GraphInfo.wp_onLsi, implies_true]
  · obtain ⟨answer, hanswer⟩ := Option.isSome_iff_exists.mp (h.addEndpoint ep.id)
    simp only [addEndpointPieces, wp_bind, GraphInfo.wp_onLsi, hanswer, implies_true]
  · split
    · exact startPieces_of_succeeds h _
    · trivial

/-- Adding the pieces of an update throws before it has changed anything. -/
theorem addPieces_throws (h : env.Succeeds) {physicalPorts : StringMap Nat} {graphID : String}
    {newGraph : Highlevel.Graph} {nextID : Nat} :
    wp (addPieces env physicalPorts runNFs graphID newGraph) (fun _ _ => True)
      (fun t => t = (nextID, info)) (nextID, info) := by
  simp only [addPieces, GraphInfo.lift, GraphInfo.onLinks, wp_bind, wp_get, wp_focus]
  unfold checkGraphValidity
  split
  · rfl
  · rw [GraphInfo.wp_onCompute]
    refine fun c hc => wp_mono (retrieveDescriptions_of_succeeds h _ c) (fun valid c₁ hvalid => ?_)
      fun _ hfalse => hfalse.elim
    subst hvalid
    simp only [Bool.not_true, Bool.false_eq_true, if_false, wp_bind, wp_focus, wp_modify]
    refine wp_mono (selectImplementation_spec _) (fun selected info₂ h₂ => ?_) (fun _ h => h.elim)
    rw [h₂.2 h]
    simp only [Bool.not_true, Bool.false_eq_true, if_false, wp_bind, wp_focus]
    refine wp_mono (addVlinks_throws _ _) (fun _ v _ => ?_) fun _ hnone => ?_
    · exact wp_mono (addPorts_of_succeeds h _) (fun _ _ _ => trivial) fun _ h => h.elim
    · obtain ⟨ID, hnone⟩ := hnone
      simpa [hnone] using h.addVirtualLink ID

end

/-- Every call of a request to the outside succeeds. -/
def Operation.Succeeds : Operation → Prop
  | .newGraph env _ | .updateGraph env _ _ | .deleteGraph env _ => env.Succeeds
  | _ => True

/-! ## Records -/

/-- The record of every deployed graph has the property. -/
def EveryRecord (P : GraphInfo → Prop) (s : GraphManager) : Prop :=
  ∀ (graphID : String) info, s.tenantLSIs[graphID]? = some info → P info

section

variable {rofl : Lowlevel.Rofl} {env : Environment} {s s' : GraphManager} {P : GraphInfo → Prop}

theorem everyRecord_of_create {runNFs : Bool} {physicalPorts : StringMap Nat}
    {inBand : Option (String × String)} (hcreate : create rofl runNFs physicalPorts inBand = .ok s) :
    s.EveryRecord P := by
  intro graphID info hinfo
  rw [create_tenantLSIs hcreate, Std.ExtTreeMap.getElem?_empty] at hinfo
  cases hinfo

theorem EveryRecord.congr (h : s.EveryRecord P) (hrecords : s'.tenantLSIs = s.tenantLSIs) :
    s'.EveryRecord P := by
  intro graphID info hinfo
  rw [hrecords] at hinfo
  exact h graphID info hinfo

variable {graphID : String}

theorem EveryRecord.insert {info : GraphInfo} (h : s.EveryRecord P)
    (hrecords : s'.tenantLSIs = s.tenantLSIs.insert graphID info) (hinfo : P info) :
    s'.EveryRecord P := by
  intro k info' hinfo'
  rw [hrecords, StringMap.getElem?_insert] at hinfo'
  split at hinfo'
  · cases hinfo'
    exact hinfo
  · exact h k info' hinfo'

theorem EveryRecord.erase (h : s.EveryRecord P)
    (hrecords : s'.tenantLSIs = s.tenantLSIs.erase graphID) : s'.EveryRecord P := by
  intro k info hinfo
  rw [hrecords, StringMap.getElem?_erase] at hinfo
  split at hinfo
  · cases hinfo
  · exact h k info hinfo

theorem deleteGraph_everyRecord (h : s.EveryRecord P) :
    wp (deleteGraph rofl env graphID) (fun _ s' => s'.EveryRecord P) (EveryRecord P) s :=
  deleteGraph_keeps h fun _ _ hd => hd.records.elim h.congr h.erase

variable (hcontroller : ∀ info controller, P info → P { info with controller := controller })

include hcontroller

theorem onController_everyRecord (h : s.EveryRecord P) (graphID : String)
    (f : Controller → Controller) : (s.onController graphID f).EveryRecord P := by
  unfold onController
  cases hinfo : s.tenantLSIs[graphID]? with
  | none => exact h
  | some info => exact h.insert rfl (hcontroller _ _ (h graphID info hinfo))

theorem newGraph_everyRecord {graph : Highlevel.Graph} (h : s.EveryRecord P)
    (hnew : ∀ info nextID', Creation env s.lsi0.physicalPorts graph s.nextVLinkID info nextID' →
      P info) :
    wp (newGraph rofl env graph) (fun _ s' => s'.EveryRecord P) (EveryRecord P) s := by
  refine wp_mono newGraph_spec (fun done s' hdone => ?_) (fun _ hs => h.congr hs.1)
  rcases hdone with ⟨-, hs⟩ | ⟨-, d, rfl⟩
  · exact h.congr hs.1
  · obtain ⟨creation⟩ := ((of_wp createTenant_steps d.creates).1 _ rfl).2 d.info rfl
    exact h.insert d.result_tenantLSIs (hcontroller _ _ (hnew _ _ creation))

/-- The two halves of an update. `M` is what is known of a record between the halves, and `R` what
is known of it when the update is done. -/
theorem updateGraph_everyRecord {newGraph : Highlevel.Graph} {M R : GraphInfo → Prop}
    (h : s.EveryRecord P) (hadd : ∀ info, s.tenantLSIs[graphID]? = some info →
      wp (addPieces env s.lsi0.physicalPorts s.runNFs graphID newGraph)
        (fun _ t => M t.2) (fun t => P t.2) (s.nextVLinkID, info))
    (hremove : ∀ info grown graph removeRuleInfo, s.tenantLSIs[graphID]? = some info → M grown →
      grown.graph = (info.graph.addGraphToGraph (news graphID newGraph info.graph)).1 →
      grown.graph.removeGraphFromGraph (stale graphID newGraph info.graph) =
        .ok (graph, removeRuleInfo) →
      wp (removePieces rofl env s.runNFs (stale graphID newGraph info.graph) removeRuleInfo)
        (fun _ reduced => P reduced ∧ R reduced) P { grown with graph := graph })
    (hdone : ∀ info controller, R info → R { info with controller := controller }) :
    wp (updateGraph rofl env graphID newGraph)
      (fun done s' => s'.EveryRecord P ∧
        (done = true → ∃ info, s'.tenantLSIs[graphID]? = some info ∧ R info)) (EveryRecord P) s := by
  refine wp_updateGraph fun info hinfo => ?_
  refine wp_mono (wp_and addPieces_spec (hadd info hinfo)) ?_
    (fun t ht => ⟨h.insert rfl ht.2, by simp⟩)
  rintro diff t ⟨⟨-, -, hadded⟩, hM⟩ old graph removeRuleInfo hremoved after
  have hold : old = stale graphID newGraph info.graph := by
    rw [stale, news, ← hadded.graph]
  rw [hold] at hremoved ⊢
  refine wp_mono (hremove info t.2 graph removeRuleInfo hinfo hM hadded.graph hremoved)
    (fun _ reduced hreduced => ?_) (fun reduced hthrown => h.insert rfl hthrown)
  have hkept (s' : GraphManager)
      (hrecords : s'.tenantLSIs = s.tenantLSIs.insert graphID reduced) : s'.EveryRecord P :=
    h.insert hrecords hreduced.1
  refine ⟨fun _ _ => ⟨fun _ _ => ?_, fun _ => hkept _ rfl⟩, fun _ => hkept _ rfl⟩
  refine ⟨h.insert rfl (hcontroller _ _ hreduced.1), fun _ =>
    ⟨_, StringMap.getElem?_insert.trans (if_pos rfl), hdone _ _ hreduced.2⟩⟩

end

end UnOrchestrator.GraphManager
