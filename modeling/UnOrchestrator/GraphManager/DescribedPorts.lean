import UnOrchestrator.GraphManager.Phantoms

/-!
# Ports that a description has

The description of a network function gives each of its ports a type. A request for a new graph
is refused when it asks for a port that the selected description does not have
(`newGraph_rejects`). An update has no such check: `LSI::addNF` stops at a port without a type,
and nobody looks at what it returns. A port that is added to a function of the graph is then
stored, and the function is told to use it (`undescribed_port_is_stored`).

`run_portsChecked` says that the ports of the stored functions are described over every run
whose updates ask for described ports only.
-/

namespace UnOrchestrator

open Call

open Highlevel Highlevel.Graph

/-! ## Implementations that stay -/

namespace ComputeController

variable {c c' : ComputeController} {isSupported : Description → Bool} {id : String}
  {descr : Description}

theorem selectAll_keeps {l : List (String × NF)} {nfs : StringMap NF}
    (hl : ∀ entry ∈ l, entry.1 = id → entry.2.selected = some descr)
    (h : (nfs[id]?).bind NF.selected = some descr) :
    ((selectAll isSupported l nfs).1[id]?).bind NF.selected = some descr := by
  induction l generalizing nfs with
  | nil => exact h
  | cons entry rest ih =>
    obtain ⟨current, met⟩ := entry
    have hrest : ∀ entry ∈ rest, entry.1 = id → entry.2.selected = some descr :=
      fun entry hentry => hl entry (List.mem_cons_of_mem _ hentry)
    have hmet := hl (current, met) List.mem_cons_self
    have hwritten (written : NF) (hselected : current = id → written.selected = some descr) :
        ((nfs.insert current written)[id]?).bind NF.selected = some descr := by
      rw [StringMap.getElem?_insert]
      split
      · next heq => exact hselected heq
      · exact h
    rw [selectAll]
    split
    · exact ih hrest (hwritten _ hmet)
    · next hnone =>
      split
      · exact h
      · refine ih hrest (hwritten _ fun heq => ?_)
        rw [hmet heq] at hnone
        cases hnone

/-- A function that has an implementation keeps it. -/
theorem selectImplementation_keeps (h : c.getNFSelectedImplementation id = some descr) :
    (c.selectImplementation isSupported).1.getNFSelectedImplementation id = some descr := by
  refine selectAll_keeps (fun entry hentry heq => ?_) h
  have hentry := Std.ExtTreeMap.mem_toList_iff_getElem?_eq_some.mp hentry
  rw [getNFSelectedImplementation, ← heq, hentry] at h
  exact h

theorem KeepsSelected.getNFSelectedImplementation (hkeeps : KeepsSelected c c')
    (h : c.getNFSelectedImplementation id = some descr) :
    c'.getNFSelectedImplementation id = some descr := by
  obtain ⟨nf, hnf, hselected⟩ := Option.bind_eq_some_iff.mp h
  rw [ComputeController.getNFSelectedImplementation, hkeeps id nf hnf (by simp [hselected])]
  exact hselected

theorem stopNF_others {stopped done : Bool} {name : String}
    (h : c.stopNF stopped name = .ok (c', done)) (hne : name ≠ id) :
    c'.nfs[id]? = c.nfs[id]? := by
  unfold stopNF at h
  split at h
  · cases h
    rfl
  · split at h
    · cases h
    · split at h
      · cases h
        rw [StringMap.getElem?_erase, if_neg hne]
      · cases h
        rfl

end ComputeController

/-! ## Described functions -/

/-- Every network function has an implementation with a type for each of its ports. -/
def Described (c : ComputeController) (vnfs : List VNFs) : Prop :=
  ∀ v ∈ vnfs, ∃ descr, c.getNFSelectedImplementation v.id = some descr ∧
    ∀ port ∈ v.ports, ∃ n, VNFs.extractNumberFromId port.id = .ok n ∧ n ∈ descr.portTypes

section Described

variable {c c' : ComputeController} {vnfs added : List VNFs}

theorem Described.mono (h : Described c vnfs) (hkeeps : ∀ v ∈ vnfs, ∀ descr,
      c.getNFSelectedImplementation v.id = some descr →
        c'.getNFSelectedImplementation v.id = some descr) : Described c' vnfs := by
  intro v hv
  obtain ⟨descr, hdescr, hports⟩ := h v hv
  exact ⟨descr, hkeeps v hv descr hdescr, hports⟩

/-- The functions of two graphs joined. -/
theorem Described.grown (hkeys : (vnfs.map VNFs.key).Nodup) (h : Described c vnfs)
    (hadded : Described c added) :
    Described c (added.foldl (fun vs v => addVNFTo v vs) vnfs) := by
  obtain ⟨-, hgrownKeys, hgrownPorts⟩ := foldl_addVNFTo added vnfs hkeys
  have hall : ∀ w, w ∈ vnfs ∨ w ∈ added → ∃ descr,
      c.getNFSelectedImplementation w.id = some descr ∧
      ∀ port ∈ w.ports, ∃ n, VNFs.extractNumberFromId port.id = .ok n ∧ n ∈ descr.portTypes :=
    fun w hw => hw.elim (h w) (hadded w)
  intro v hv
  -- the function has an implementation, from the list that it comes from
  obtain ⟨w, hw, hkey⟩ : ∃ w, (w ∈ vnfs ∨ w ∈ added) ∧ w.key = v.key := by
    rcases (hgrownKeys v.key).mp (List.mem_map_of_mem hv) with hmem | hmem
    · obtain ⟨w, hw, hkey⟩ := List.mem_map.mp hmem
      exact ⟨w, .inl hw, hkey⟩
    · obtain ⟨w, hw, hkey⟩ := List.mem_map.mp hmem
      exact ⟨w, .inr hw, hkey⟩
  obtain ⟨descr, hdescr, -⟩ := hall w hw
  rw [show w.id = v.id from congrArg Prod.fst hkey] at hdescr
  refine ⟨descr, hdescr, fun port hport => ?_⟩
  have hhas : HasPort (added.foldl (fun vs v => addVNFTo v vs) vnfs) v.key port.id :=
    ⟨v, hv, rfl, List.mem_map_of_mem hport⟩
  -- so has each of its ports
  obtain ⟨u, hu, hkey', hport'⟩ : ∃ u, (u ∈ vnfs ∨ u ∈ added) ∧ u.key = v.key ∧
      port.id ∈ u.ports.map VnfPort.id := by
    rcases (hgrownPorts v.key port.id).mp hhas with ⟨u, hu, hkey', hport'⟩ | ⟨u, hu, hkey', hport'⟩
    · exact ⟨u, .inl hu, hkey', hport'⟩
    · exact ⟨u, .inr hu, hkey', hport'⟩
  obtain ⟨descr', hdescr', hports⟩ := hall u hu
  rw [show u.id = v.id from congrArg Prod.fst hkey', hdescr] at hdescr'
  obtain rfl := Option.some.inj hdescr'
  obtain ⟨port', hmem, hid⟩ := List.mem_map.mp hport'
  exact hid ▸ hports port' hmem

/-- Typed ports with numbers, of functions with implementations. -/
theorem described_of_typed (hnumbered : ∀ v ∈ vnfs, ∃ ports, v.getPortsId = .ok ports)
    (htyped : ∀ v ∈ vnfs, portsTyped c v = true)
    (hselected : ∀ v ∈ vnfs, (c.getNFSelectedImplementation v.id).isSome = true) :
    Described c vnfs := by
  intro v hv
  obtain ⟨descr, hdescr⟩ := Option.isSome_iff_exists.mp (hselected v hv)
  obtain ⟨ports, hports⟩ := hnumbered v hv
  refine ⟨descr, hdescr, fun port hport => ?_⟩
  obtain ⟨n, hn⟩ := (Abort.mapM_returns_iff.mp ⟨ports, hports⟩) port hport
  refine ⟨n, hn, ?_⟩
  have hall := htyped v hv
  simp only [portsTyped, hports, typedPorts, hdescr, Option.map_some, Option.getD_some,
    List.all_eq_true] at hall
  have hmem : n ∈ ports := (Abort.mem_of_mapM hports n).mpr ⟨port, hport, hn⟩
  simpa using hall n hmem

/-- A passed check of the ports of a new graph. -/
theorem described_of_portsDescribed (h : portsDescribed c vnfs = .ok true) : Described c vnfs := by
  refine described_of_typed (fun v hv => ?_) (portsTyped_of_portsDescribed h)
    (selected_of_portsDescribed h)
  obtain ⟨ports, -, hports, -⟩ := of_portsDescribed h v hv
  exact ⟨ports, hports⟩

end Described

/-! ## The record of a graph -/

namespace GraphInfo

/-- As long as the graph has a compute controller, its functions are described. -/
def StaffDescribed (info : GraphInfo) : Prop :=
  ∀ c, info.computeController = some c → Described c info.graph.vnfs

theorem StaffDescribed.congr {info info' : GraphInfo} (h : info.StaffDescribed)
    (hstaff : info'.staff = info.staff) : info'.StaffDescribed := by
  simp only [staff, Prod.mk.injEq] at hstaff
  rw [StaffDescribed, hstaff.1, hstaff.2]
  exact h

end GraphInfo

open GraphInfo

section Record

variable {env : Environment} {info : GraphInfo}

/-- Functions that can be started are not stopped again. -/
theorem startPieces_staff {nfs : List VNFs} (hstarts : ∀ v ∈ nfs, env.startNF v.id = true) :
    Preserves staff (startPieces env nfs) := by
  intro info
  simp only [startPieces, wp_bind, wp_get, wp_eval, wp_assert, wp_onCompute]
  refine ⟨fun decisions _ _ c hc _ => ?_, fun _ => trivial⟩
  rw [if_pos]
  · rw [wp_pure, staff, staff, hc]
  · rw [List.partition_eq_filter_filter, List.all_eq_true]
    intro nf hnf
    exact hstarts nf.1 (List.of_mem_zip (List.mem_of_mem_filter hnf)).1

variable {runNFs : Bool} {gone : List VNFs}

theorem addPorts_staff {diff : Highlevel.Graph}
    (hstarts : runNFs = true → ∀ v ∈ diff.vnfs, env.startNF v.id = true) :
    Preserves staff (addPorts env runNFs diff) := by
  refine .bind (.each addNFPieces_staff _) fun _ => ?_
  refine .bind (.each addEndpointPieces_staff _) fun _ => ?_
  refine .bind (.assert _) fun _ => ?_
  cases runNFs with
  | false => exact .pure ()
  | true => exact startPieces_staff (hstarts rfl)

/-- Only the given functions may have been stopped. -/
structure StopsOnly (gone : List VNFs) (info info' : GraphInfo) : Prop where
  graph : info'.graph = info.graph
  others : ∀ c, info.computeController = some c → ∃ c', info'.computeController = some c' ∧
    ∀ id : String, id ∉ gone.map VNFs.id → c'.nfs[id]? = c.nfs[id]?

theorem StopsOnly.of_staff {info' : GraphInfo} (h : info'.staff = info.staff) :
    StopsOnly gone info info' := by
  simp only [staff, Prod.mk.injEq] at h
  exact ⟨h.1, fun c hc => ⟨c, h.2.trans hc, fun _ _ => rfl⟩⟩

theorem removeNFPieces_stopsOnly {v : VNFs} (hv : v ∈ gone) {info₁ : GraphInfo}
    (h : StopsOnly gone info info₁) :
    wp (removeNFPieces env runNFs v) (fun _ => StopsOnly gone info) (StopsOnly gone info) info₁ := by
  have hports {info' : GraphInfo} (h : StopsOnly gone info info') :
      wp (if env.destroyNFPorts v.id then onLsi (fun lsi => .ok (lsi.removeNF v.id))
        else Call.throw) (fun _ => StopsOnly gone info) (StopsOnly gone info) info' := by
    split
    · rw [wp_onLsi]
      exact fun _ _ => ⟨h.graph, h.others⟩
    · exact h
  cases runNFs with
  | false => exact hports h
  | true =>
    simp only [removeNFPieces, if_true, wp_bind, wp_onCompute, wp_update, Abort.bind_eq_ok, Abort.pure_eq_ok]
    intro c₁ hc₁ c₂ hc₂
    obtain ⟨⟨c₃, done⟩, hstop, rfl⟩ := hc₂
    refine hports ⟨h.graph, fun c hc => ⟨c₃, rfl, fun id hid => ?_⟩⟩
    obtain ⟨c', hc', hothers⟩ := h.others c hc
    obtain rfl : c' = c₁ := Option.mem_unique hc' hc₁
    rw [← hothers id hid]
    refine ComputeController.stopNF_others hstop fun heq => hid ?_
    exact heq ▸ List.mem_map_of_mem hv

theorem removePieces_stopsOnly {rofl : Lowlevel.Rofl} {diff : Highlevel.Graph}
    {removeRuleInfo : List RuleRemovedInfo} :
    wp (removePieces rofl env runNFs diff removeRuleInfo)
      (fun _ => StopsOnly diff.vnfs info) (StopsOnly diff.vnfs info) info := by
  simp only [removePieces, wp_bind, wp_modify, wp_get, wp_focus]
  refine wp_of_forall (fun _ links => ?_) (fun links => .of_staff rfl)
  refine wp_mono (wp_each (I := fun _ info' => info'.staff = info.staff)
    (fun ep _ info₁ h₁ => ?_) diff.endPointsGre _ rfl) (fun _ info₂ h₂ => ?_) (fun _ h => .of_staff h)
  · unfold removeEndpointPieces
    split
    · rw [wp_onLsi]
      exact fun _ _ => h₁
    · exact h₁
  · refine wp_weaken (wp_each
      (I := fun rest info' => (∀ v ∈ rest, v ∈ diff.vnfs) ∧ StopsOnly diff.vnfs info info')
      (fun v rest info₁ h₁ => ?_) diff.vnfs info₂ ⟨fun _ hv => hv, .of_staff h₂⟩)
      (fun _ _ h => h.2)
    refine wp_weaken (removeNFPieces_stopsOnly (h₁.1 v List.mem_cons_self) h₁.2)
      (fun _ _ h => ⟨fun w hw => h₁.1 w (List.mem_cons_of_mem v hw), h⟩)

/-- The functions that are left when others go. -/
theorem Described.reduced {c c' : ComputeController} {vnfs rest : List VNFs} (h : Described c vnfs)
    (hdistinct : (vnfs.map VNFs.id).Nodup)
    (herased : KeyedList.eraseKeys VNFs.key (gone.map VNFs.key) vnfs = some rest)
    (hothers : ∀ id : String, id ∉ gone.map VNFs.id → c'.nfs[id]? = c.nfs[id]?) :
    Described c' rest := by
  obtain ⟨hrest, -, -⟩ := GraphManager.rest_ports hdistinct herased
  intro v hv
  obtain ⟨hold, hstays⟩ := (hrest v).mp hv
  obtain ⟨descr, hdescr, hports⟩ := h v hold
  refine ⟨descr, ?_, hports⟩
  rw [ComputeController.getNFSelectedImplementation, hothers v.id hstays]
  exact hdescr

/-- A graph that grows without two functions of one identifier did not have two before. -/
theorem keys_nodup_of_grown {added vnfs : List VNFs}
    (h : ((added.foldl (fun vs v => addVNFTo v vs) vnfs).map VNFs.id).Nodup) :
    (vnfs.map VNFs.key).Nodup := by
  have hsublist : (vnfs.map VNFs.key).Sublist
      ((added.foldl (fun vs v => addVNFTo v vs) vnfs).map VNFs.key) := by
    clear h
    induction added generalizing vnfs with
    | nil => exact .refl _
    | cons v added ih =>
      refine List.Sublist.trans ?_ ih
      rw [keys_addVNFTo]
      split
      · exact .refl _
      · exact List.sublist_append_left _ _
  exact (GraphManager.keys_nodup_of_ids h).sublist hsublist

/-- What an update asks of the functions it adds: their ports have numbers and types, no two of
the functions have one identifier, and they can be started. -/
structure TypedUpdate (env : Environment) (runNFs : Bool) (graphID : String)
    (newGraph : Highlevel.Graph) (info : GraphInfo) : Prop where
  numbered : ∀ v ∈ (info.graph.calculateDiff newGraph graphID).vnfs, ∃ ports, v.getPortsId = .ok ports
  typed : AllTyped env (info.graph.calculateDiff newGraph graphID).vnfs info
  distinct : ((info.graph.addGraphToGraph
    (info.graph.calculateDiff newGraph graphID)).1.vnfs.map VNFs.id).Nodup
  starts : runNFs = true →
    ∀ v ∈ (info.graph.calculateDiff newGraph graphID).vnfs, env.startNF v.id = true

/-- The functions of the grown graph, once implementations are selected. -/
theorem grown_described {graphID : String} {newGraph : Highlevel.Graph}
    (hupdate : TypedUpdate env runNFs graphID newGraph info) {c c₁ : ComputeController}
    (hold : Described c₁ info.graph.vnfs) (hc : info.computeController = some c)
    (hretrieve : retrieveDescriptions env (info.graph.calculateDiff newGraph graphID).vnfs c =
      .ok (some true, c₁)) (hall : (c₁.selectImplementation env.isSupported).2 = true) :
    Described (c₁.selectImplementation env.isSupported).1
      (info.graph.addGraphToGraph (info.graph.calculateDiff newGraph graphID)).1.vnfs := by
  have hvnfs := (addGraphToGraph_diff info.graph newGraph graphID).2.2.1
  have hdistinct := hupdate.distinct
  rw [hvnfs] at hdistinct ⊢
  have hselected : selectedFor env c (info.graph.calculateDiff newGraph graphID).vnfs =
      some (c₁.selectImplementation env.isSupported).1 := by
    simp only [selectedFor, hretrieve]
  refine Described.grown (keys_nodup_of_grown hdistinct)
    (hold.mono fun _ _ _ hdescr => ComputeController.selectImplementation_keeps hdescr)
    (described_of_typed hupdate.numbered (hupdate.typed c hc _ hselected) fun v hv => ?_)
  have hknown := (mem_selectedFor hselected v.id).mpr (.inr (List.mem_map_of_mem hv))
  obtain ⟨nf, hnf⟩ := Option.ne_none_iff_exists'.mp (StringMap.mem_iff.mp hknown)
  rw [ComputeController.getNFSelectedImplementation, hnf]
  exact ComputeController.selectImplementation_selected hall hnf

theorem addPieces_described {physicalPorts : StringMap Nat} {graphID : String}
    {newGraph : Highlevel.Graph} {nextID : Nat} (h : info.StaffDescribed)
    (hupdate : TypedUpdate env runNFs graphID newGraph info) :
    wp (addPieces env physicalPorts runNFs graphID newGraph)
      (fun _ t => t.2.computeController.isSome = true ∧ t.2.StaffDescribed)
      (fun t => t.2.StaffDescribed) (nextID, info) := by
  simp only [addPieces, GraphInfo.lift, GraphInfo.onLinks, wp_bind, wp_get, wp_focus,
    checkGraphValidity]
  split
  · exact h
  · rw [wp_onCompute]
    intro c hc
    have hkept {c₁ : ComputeController} (hkeeps : c.KeepsSelected c₁) : Described c₁ info.graph.vnfs :=
      (h c hc).mono fun _ _ _ hdescr => hkeeps.getNFSelectedImplementation hdescr
    refine wp_mono (wp_and wp_self (retrieveDescriptions_keeps _ c))
      (fun valid c₁ h₁ => ?_) (fun c₁ h₁ => ?_)
    · obtain ⟨hretrieve, hkeeps⟩ := h₁
      cases valid with
      | false =>
        rintro _ ⟨⟩
        exact hkept hkeeps
      | true =>
        simp only [Bool.not_true, Bool.false_eq_true, if_false, wp_bind, wp_focus,
          wp_modify, wp_onCompute, selectImplementation, wp_get, wp_pure]
        rintro _ ⟨⟩
        split
        · rintro _ ⟨⟩
        · next hselects =>
          have hall : (c₁.selectImplementation env.isSupported).2 = true := by simpa using hselects
          have hgrown := grown_described hupdate (hkept hkeeps) hc hretrieve hall
          have hdone (links : Nat × VLinks) : StaffDescribed { info with
              graph := (info.graph.addGraphToGraph (info.graph.calculateDiff newGraph graphID)).1
              lsi := { info.lsi with toVLinks := links.2 }
              computeController := some (c₁.selectImplementation env.isSupported).1 } := by
            rintro _ ⟨⟩
            exact hgrown
          simp only [wp_bind, wp_focus]
          refine wp_of_forall (fun _ links => ?_) (fun links => hdone links)
          · refine (addPorts_staff hupdate.starts).wp (fun _ info' h' => ?_) (fun info' h' => ?_)
            · simp only [staff, Prod.mk.injEq] at h'
              exact ⟨by simp [h'.2], (hdone links).congr (Prod.ext h'.1 h'.2)⟩
            · exact (hdone links).congr h'
    · rintro _ ⟨⟩
      exact hkept h₁.2

/-- Network functions ask for a port without a type, once the functions are described. -/
def AsksUndescribed (env : Environment) (c : ComputeController) (nfs : List VNFs) : Prop :=
  ∃ c' ∈ selectedFor env c nfs, ∃ nf ∈ nfs, portsTyped c' nf = false

theorem Creation.selectedFor_eq {physicalPorts : StringMap Nat} {graph : Highlevel.Graph}
    {nextID nextID' : Nat} (creation : Creation env physicalPorts graph nextID info nextID') :
    selectedFor env {} graph.vnfs = some (creation.c.selectImplementation env.isSupported).1 := by
  have hchecked := creation.checked
  unfold checkGraphValidity at hchecked
  split at hchecked
  · cases hchecked
  · simp only [selectedFor, hchecked]

end Record

/-! ## Requests -/

namespace GraphManager

/-- The condition on a step. -/
def TypedStep (s : GraphManager) : Operation → Prop
  | .updateGraph env graphID newGraph => ∀ info ∈ s.tenantLSIs[graphID]?,
    TypedUpdate env s.runNFs graphID newGraph.toGraph info
  | _ => True

/-- The graph that a request stores. -/
def Operation.stores : Operation → Option String
  | .newGraph _ graph => some graph.ID
  | .updateGraph _ graphID _ => some graphID
  | _ => none

/-- The request adds a port that the description of its function does not have. -/
def Operation.AddsUndescribed (s : GraphManager) : Operation → Prop
  | .newGraph env graph => AsksUndescribed env {} graph.vnfs
  | .updateGraph env graphID graph => ∃ info ∈ s.tenantLSIs[graphID]?,
    ∃ c ∈ info.computeController,
      AsksUndescribed env c (news graphID graph.toGraph info.graph).vnfs
  | _ => False

/-- A request that is done stores functions with described ports. One that adds another port is
not done, and the records of the graphs and of their ports are what they were. -/
structure PortsChecked (rofl : Lowlevel.Rofl) (s : GraphManager) (op : Operation) : Prop where
  described : ∀ s', call rofl op s = .ok (some true, s') → ∀ graphID ∈ op.stores, ∃ info c,
    s'.tenantLSIs[graphID]? = some info ∧ info.computeController = some c ∧
      Described c info.graph.vnfs
  rejected : op.AddsUndescribed s → ∀ o s', call rofl op s = .ok (o, s') →
    o ≠ some true ∧ s'.tenantLSIs = s.tenantLSIs

section Requests

variable {rofl : Lowlevel.Rofl} {env : Environment} {s : GraphManager}

variable {graph : Highlevel.Graph}

theorem staffDescribed_of_creation {physicalPorts : StringMap Nat} {nextID nextID' : Nat}
    {info : GraphInfo} (creation : Creation env physicalPorts graph nextID info nextID') :
    info.computeController.isSome = true ∧ info.StaffDescribed := by
  obtain ⟨c, asked, clo, lsi, -, hdescribed, -, -, -, -, rfl⟩ := creation
  refine ⟨rfl, ?_⟩
  rintro _ ⟨⟩
  exact described_of_portsDescribed hdescribed

/-- A request for a new graph with an undescribed port is refused. -/
theorem newGraph_rejects (h : AsksUndescribed env {} graph.vnfs) {o : Option Bool}
    {s' : GraphManager} (hcall : newGraph rofl env graph s = .ok (o, s')) :
    o ≠ some true ∧ s'.tenantLSIs = s.tenantLSIs := by
  obtain ⟨hreturned, hthrown⟩ := of_wp newGraph_spec hcall
  cases o with
  | none => exact ⟨nofun, (hthrown rfl).1⟩
  | some done =>
    rcases hreturned done rfl with ⟨rfl, hs⟩ | ⟨-, d, rfl⟩
    · exact ⟨nofun, hs.1⟩
    · -- a graph that is deployed has come through the check
      obtain ⟨creation⟩ := ((of_wp createTenant_steps d.creates).1 _ rfl).2 d.info rfl
      obtain ⟨c', hselected, nf, hnf, huntyped⟩ := h
      rw [creation.selectedFor_eq] at hselected
      cases hselected
      rw [portsTyped_of_portsDescribed creation.described nf hnf] at huntyped
      cases huntyped

/-- A request for a new graph that is done. -/
theorem newGraph_described {s' : GraphManager}
    (hcall : newGraph rofl env graph s = .ok (some true, s')) :
    ∃ info c, s'.tenantLSIs[graph.ID]? = some info ∧ info.computeController = some c ∧
      Described c info.graph.vnfs := by
  obtain ⟨d, rfl⟩ := newGraph_done hcall
  obtain ⟨creation⟩ := ((of_wp createTenant_steps d.creates).1 _ rfl).2 d.info rfl
  obtain ⟨hsome, hdescribed⟩ := staffDescribed_of_creation creation
  obtain ⟨c, hc⟩ := Option.isSome_iff_exists.mp hsome
  refine ⟨d.record, c, ?_, hc, hdescribed c hc⟩
  rw [d.result_tenantLSIs, StringMap.getElem?_insert, if_pos rfl]

variable (h : s.EveryRecord StaffDescribed)

include h

theorem updateGraph_described {graphID : String} {newGraph : Highlevel.Graph}
    (hupdate : ∀ info ∈ s.tenantLSIs[graphID]?, TypedUpdate env s.runNFs graphID newGraph info) :
    wp (updateGraph rofl env graphID newGraph)
      (fun done s' => s'.EveryRecord StaffDescribed ∧ (done = true → ∃ info,
        s'.tenantLSIs[graphID]? = some info ∧ info.computeController.isSome = true))
      (EveryRecord StaffDescribed) s := by
  refine updateGraph_everyRecord
    (M := fun grown => grown.computeController.isSome = true ∧ grown.StaffDescribed)
    (R := fun info => info.computeController.isSome = true)
    (fun _ _ hinfo => hinfo.congr rfl) h (fun info hinfo => ?_) ?_ (fun _ _ hinfo => hinfo)
  · exact addPieces_described (h graphID info hinfo) (hupdate info hinfo)
  · intro info grown graph removeRuleInfo hinfo hM hgrown hremoved
    obtain ⟨hsome, hdescribed⟩ := hM
    obtain ⟨c, hc⟩ := Option.isSome_iff_exists.mp hsome
    have herased := (removeGraphFromGraph_erased hremoved).2.vnfs
    have hdistinct : (grown.graph.vnfs.map VNFs.id).Nodup := by
      rw [hgrown]
      exact (hupdate info hinfo).distinct
    have hreduced {reduced : GraphInfo} (hstops : StopsOnly (stale graphID newGraph info.graph).vnfs
        { grown with graph := graph } reduced) :
        reduced.StaffDescribed ∧ reduced.computeController.isSome = true := by
      obtain ⟨c', hc', hothers⟩ := hstops.others c hc
      refine ⟨fun c'' hc'' => ?_, by simp [hc']⟩
      obtain rfl : c' = c'' := Option.mem_unique hc' hc''
      rw [hstops.graph]
      exact (hdescribed c hc).reduced hdistinct herased hothers
    exact wp_mono removePieces_stopsOnly (fun _ _ => hreduced) (fun _ hstops => (hreduced hstops).1)

theorem call_staffDescribed {op : Operation}
    (hop : TypedStep s op) :
    wp (call rofl op) (fun _ s' => s'.EveryRecord StaffDescribed)
      (EveryRecord StaffDescribed) s := by
  have hignores (info : GraphInfo) (controller : Controller) (hinfo : info.StaffDescribed) :
      StaffDescribed { info with controller := controller } := hinfo.congr rfl
  cases op with
  | newGraph env graph =>
    exact newGraph_everyRecord hignores h fun _ _ creation => (staffDescribed_of_creation creation).2
  | updateGraph env graphID graph =>
    exact wp_weaken (updateGraph_described h hop) (fun _ _ h' => h'.1)
  | deleteGraph env graphID => exact deleteGraph_everyRecord h
  | lsi0DptOpen | lsi0DptClose => exact h
  | tenantDptOpen graphID | tenantDptClose graphID => exact onController_everyRecord hignores h graphID _

theorem portsChecked_of_typedStep {op : Operation}
    (hop : TypedStep s op) : PortsChecked rofl s op := by
  refine ⟨fun s' hcall graphID hgraphID => ?_, fun hundescribed o s' hcall => ?_⟩
  · cases op with
    | newGraph env graph =>
      cases hgraphID
      exact newGraph_described hcall
    | updateGraph env graphID' graph =>
      cases hgraphID
      obtain ⟨hall, hdone⟩ := (of_wp (updateGraph_described h hop) hcall).1 true rfl
      obtain ⟨info, hinfo, hsome⟩ := hdone rfl
      obtain ⟨c, hc⟩ := Option.isSome_iff_exists.mp hsome
      exact ⟨info, c, hinfo, hc, hall _ info hinfo c hc⟩
    | _ => cases hgraphID
  · cases op with
    | newGraph env graph => exact newGraph_rejects hundescribed hcall
    | updateGraph env graphID graph =>
      obtain ⟨info, hinfo, c, hc, c', hselected, nf, hnf, huntyped⟩ := hundescribed
      rw [(hop info hinfo).typed c hc c' hselected nf hnf] at huntyped
      cases huntyped
    | _ => cases hundescribed

end Requests

/-- In every run whose updates ask for described ports only, and whose functions can be started
and are told apart by their identifiers, requests that are done store described ports, and
requests for others change nothing. -/
theorem run_portsChecked {rofl : Lowlevel.Rofl} {runNFs : Bool} {physicalPorts : StringMap Nat}
    {inBand : Option (String × String)} {s : GraphManager}
    (hcreate : create rofl runNFs physicalPorts inBand = .ok s) {ops : List Operation}
    (hsteps : Run.EveryStep (step rofl) TypedStep s ops) :
    Run.EveryStep (step rofl) (PortsChecked rofl) s ops :=
  Run.EveryStep.of_invariant (I := EveryRecord StaffDescribed)
    (fun _ _ _ h hop hstep => step_keeps (call_staffDescribed h hop) hstep)
    (fun _ _ h hop => portsChecked_of_typedStep h hop) (everyRecord_of_create hcreate) hsteps

instance (env : Environment) (runNFs : Bool) (graphID : String) (newGraph : Highlevel.Graph)
    (info : GraphInfo) : Decidable (TypedUpdate env runNFs graphID newGraph info) :=
  decidable_of_iff (_ ∧ _ ∧ _ ∧ _)
    ⟨fun h => ⟨h.1, h.2.1, h.2.2.1, h.2.2.2⟩, fun h => ⟨h.1, h.2, h.3, h.4⟩⟩

instance (s : GraphManager) : (op : Operation) → Decidable (TypedStep s op)
  | .newGraph _ _ => .isTrue trivial
  | .updateGraph _ _ _ => inferInstanceAs (Decidable (∀ _ ∈ _, TypedUpdate _ _ _ _ _))
  | .deleteGraph _ _ | .lsi0DptOpen | .lsi0DptClose | .tenantDptOpen _ | .tenantDptClose _ =>
    .isTrue trivial

/-- A graph with the function `1` and the ports of the given names. -/
def firewallPorts (ports : List String) : ParsedGraph where
  toGraph := { ID := "g"
               vnfs := [{ id := "1", name := "firewall", ports := ports.map fun id => { id } }] }
  distinct := List.nodup_nil

/-- A function gets its second port, and is then exchanged. A request for a graph with a port
that is not described comes first. -/
theorem run_portsChecked_exchanged :
    let s : GraphManager := { runNFs := true, lsi0 := { physicalPorts := twoPorts } }
    let ops := [.newGraph functionsEnvironment (firewallPorts ["inout:0", "inout:7"]),
      .newGraph functionsEnvironment (firewallPorts ["inout:0"]),
      .updateGraph functionsEnvironment "g" (firewallPorts ["inout:0", "inout:1"]),
      .updateGraph functionsEnvironment "g" (functions [("2", "nat")])]
    Run.EveryStep (step default) TypedStep s ops ∧
    Run.EveryStep (step default) (PortsChecked default) s ops := by
  intro s ops
  have hsteps : Run.EveryStep (step default) TypedStep s ops := by
    decide +kernel
  exact ⟨hsteps, run_portsChecked (show create default true twoPorts none = .ok _ from rfl) hsteps⟩

/-- An update asks for the port `inout:7` of a function whose description has the ports 1 and 2. It
is done, and the port 8 is stored with the function. -/
theorem undescribed_port_is_stored :
    ∃ s, Run.exec (step default)
        ({ runNFs := true, lsi0 := { physicalPorts := twoPorts } } : GraphManager)
        [.newGraph functionsEnvironment (firewallPorts ["inout:0"])] = .ok s ∧
      (updateGraph default functionsEnvironment "g"
          (firewallPorts ["inout:0", "inout:7"]).toGraph s).map (fun r => (r.1,
            (r.2.tenantLSIs["g"]?).map fun info => info.graph.vnfs.flatMap fun v =>
              v.getPortsId.toOption.getD [],
            (((r.2.tenantLSIs["g"]?).bind GraphInfo.computeController).bind fun c =>
              c.getNFSelectedImplementation "1").map Description.portTypes)) =
        .ok (some true, some [1, 8], some [1, 2]) := by
  decide +kernel

end GraphManager

end UnOrchestrator
