import Mathlib.Data.List.Dedup
import UnOrchestrator.GraphManager.DescribedPorts

/-!
# Starting a function or plugging ports into it

An update starts the network functions that are new and gives the others their new ports while
they run. Which of the two a function needs is not looked up: `updateGraph_add` compares the
number of ports that the function has on the switch, after the update, with the number of ports
that the update adds.

`run_hotPlugs_iff` says for which updates the numbers give the right answer. They do not when a
running function without ports gets its first ones (`first_ports_start_again`), and not when ports
have the same number.
-/

namespace UnOrchestrator

open List (Nodup all_eq_true mem_map mem_map_of_mem)

open GraphInfo (lift onCompute onLinks returns_onCompute returns_onLsi wp_onCompute)

open Call

open Highlevel Highlevel.Graph

/-! ## All calls are made -/

section Returns

variable {env : Environment} {info : GraphInfo}

theorem addVlinkTo_returns {addVirtualLink : Nat → Option (Nat × Nat)}
    (h : ∀ ID, (addVirtualLink ID).isSome = true) (targets : List RuleRemovedInfo)
    (s : Nat × VLinks) : Returns (addVlinkTo addVirtualLink targets) (fun _ _ => True) s := by
  obtain ⟨nextID, v⟩ := s
  obtain ⟨⟨idA, idB⟩, hlink⟩ := Option.isSome_iff_exists.mp (h nextID)
  simp only [addVlinkTo, returns_bind, returns_get, returns_modify, hlink,
    returns_update, and_true, setVLinkIDs_last, Abort.bind_eq_ok, Except.ok.injEq,
    exists_eq_left']
  -- the link that was added is one with the identifier that is looked for
  obtain ⟨link, hfound⟩ : ∃ link, (v.virtualLinks ++
      [({ ID := nextID, localID := idA, remoteID := idB } : VLink)]).find? (fun l => l.ID = nextID) =
        some link := by
    rw [← Option.isSome_iff_exists, List.find?_isSome]
    exact ⟨_, List.mem_append_right _ List.mem_cons_self, by simp⟩
  have hID : link.ID = nextID := by simpa using List.find?_some hfound
  refine ⟨_, link, ?_, (), ?_, rfl⟩
  · rw [VLinks.getVirtualLink, VLinks.addVlink, hfound, Abort.orElse_some]
  · simp [hID, Abort.assert]

theorem addVlinks_returns {addVirtualLink : Nat → Option (Nat × Nat)}
    (h : ∀ ID, (addVirtualLink ID).isSome = true) (required : VlinksRequired) (s : Nat × VLinks) :
    Returns (addVlinks addVirtualLink required) (fun _ _ => True) s :=
  returns_each (I := fun _ _ => True) (fun targets _ s _ => addVlinkTo_returns h targets s) _ s
    trivial

variable {c : ComputeController} {ports : List Nat}

theorem newPortList_returns {nf : VNFs} (hc : info.computeController = some c)
    (hports : nf.getPortsId = .ok ports) {descr : Description}
    (hdescr : c.getNFSelectedImplementation nf.id = some descr)
    (htyped : ports.all descr.portTypes.contains = true) :
    Returns (newPortList nf) (fun _ _ => True) info := by
  simp only [newPortList, returns_bind, returns_get, returns_eval,
    Failure.ofAbort_eq_ok, hports, Except.ok.injEq, exists_eq_left', returns_onCompute hc,
    Failure.orElse_eq_ok, hdescr, Option.some.injEq, returns_onLsi, returns_pure,
    and_true]
  simp [LSI.addNF, htyped, LSI.portsOf]

theorem contains_foldl_insert {nfId : String} {m : StringMap Nat} {p : Nat} (h : p ∈ ports) :
    (ports.foldl (fun m port => m.insert (nfPortName nfId port) 0) m).contains
      (nfPortName nfId p) = true := by
  rw [← Std.ExtTreeMap.mem_iff_contains, ← Std.ExtTreeMap.isSome_getElem?_iff_mem]
  exact isSome_foldl_insert (.inr ⟨p, h, rfl⟩)

theorem setNfSwitchPortsID_returns {lsi : LSI} {nfId : String} {translation : List (String × Nat)}
    {data : NfData} (hdata : lsi.networkFunctions[nfId]? = some data)
    (hall : ∀ t ∈ translation, data.portsSwitchId.contains t.1 = true) :
    ∃ lsi', lsi.setNfSwitchPortsID nfId translation = .ok lsi' := by
  simp only [LSI.setNfSwitchPortsID, Abort.bind_eq_ok, Abort.orElse_eq_ok]
  refine ⟨_, data, hdata, (), ?_, rfl⟩
  rw [all_eq_true.mpr hall]
  rfl

/-- The switch knows the ports that it was asked for. -/
theorem attachPorts_returns (hsucceeds : env.Succeeds) (hanswers : env.Answers) {nf : VNFs}
    {typed newPorts : List Nat} (htyped : ports.all typed.contains = true) (hnew : ∀ p ∈ newPorts, p ∈ ports) :
    Returns (attachPorts env nf newPorts) (fun _ _ => True)
      { info with lsi := info.lsi.addNF nf.id ports typed } := by
  obtain ⟨⟨nfId, translation⟩, hanswer⟩ :=
    Option.isSome_iff_exists.mp (hsucceeds.addNFPorts nf.id newPorts)
  obtain ⟨rfl, htranslation⟩ := hanswers.addNFPorts _ _ _ _ hanswer
  simp only [attachPorts, returns_bind, returns_get, hanswer, returns_onLsi,
    Except.ok.injEq, and_true]
  -- `addNF` has stored a number for each of them
  obtain ⟨lsi, hlsi⟩ : ∃ lsi, (info.lsi.addNF nf.id ports typed).setNfSwitchPortsID nf.id translation =
      .ok lsi := by
    rw [LSI.addNF, if_pos htyped]
    refine setNfSwitchPortsID_returns (Std.ExtTreeMap.getElem?_insert_self) fun t ht => ?_
    obtain ⟨p, hp, hname⟩ := htranslation t ht
    rw [hname]
    exact contains_foldl_insert (hnew p hp)
  exact ⟨lsi, hlsi, _, rfl⟩

/-- The functions have an implementation with a type for each of their ports. -/
def Staffed (c : ComputeController) (vnfs : List VNFs) : Prop :=
  ∀ nf ∈ vnfs, ∃ ports descr, nf.getPortsId = .ok ports ∧
    c.getNFSelectedImplementation nf.id = some descr ∧ ports.all descr.portTypes.contains = true

variable {vnfs : List VNFs}

theorem portRequests_returns (hsucceeds : env.Succeeds) (hanswers : env.Answers)
    (hc : info.computeController = some c) (h : Staffed c vnfs) :
    Returns (portRequests env vnfs) (fun _ info' => info'.computeController = some c) info := by
  induction vnfs generalizing info with
  | nil => exact returns_pure.mpr hc
  | cons nf vnfs ih =>
    obtain ⟨ports, descr, hports, hdescr, hall⟩ := h nf List.mem_cons_self
    have htyped : ∀ c, info.computeController = some c → portsTyped c nf = true := by
      intro c' hc'
      obtain rfl : c = c' := Option.mem_unique hc hc'
      simp only [portsTyped, hports, typedPorts, hdescr, Option.map_some, Option.getD_some, hall]
    simp only [portRequests, returns_bind, returns_pure]
    refine ((newPortList_returns hc hports hdescr hall).and_wp (newPortList_added htyped)).mono ?_
    rintro newPorts info₁ ⟨-, ports', typed, hports', hall', rfl, hnew⟩
    refine ((attachPorts_returns hsucceeds hanswers hall' fun p hp => ((hnew p).mp hp).1).and_wp
      (attachPorts_added hanswers hports' hall' hnew)).mono ?_
    rintro _ info₂ ⟨-, hadded⟩
    exact ih (hadded.compute.trans hc) fun nf' hnf' => h nf' (List.mem_cons_of_mem nf hnf')

theorem addEndpointPieces_returns (hsucceeds : env.Succeeds) (hanswers : env.Answers)
    (ep : EndPointGre) : Returns (addEndpointPieces env ep)
      (fun _ info' => info'.computeController = info.computeController) info := by
  obtain ⟨⟨epName, epId⟩, hanswer⟩ := Option.isSome_iff_exists.mp (hsucceeds.addEndpoint ep.id)
  obtain rfl := hanswers.addEndpoint _ _ _ hanswer
  simp only [addEndpointPieces, returns_bind, returns_onLsi, Except.ok.injEq,
    exists_eq_left', hanswer, and_true]
  simp [LSI.setEndpointPortID, LSI.addEndpoint, Abort.assert]

theorem startCalls_returns (hsucceeds : env.Succeeds) (hc : info.computeController = some c)
    (h : Staffed c vnfs) :
    Returns (startCalls env vnfs) (fun _ _ => True) info := by
  obtain ⟨calls, hcalls⟩ : ∃ calls, vnfs.mapM (startCall info.lsi) = .ok calls := by
    rw [Abort.mapM_returns_iff]
    intro nf hnf
    obtain ⟨ports, -, hports, -⟩ := h nf hnf
    simp only [startCall, isStarted, hports]
    exact ⟨_, rfl⟩
  simp only [startCalls, returns_bind, returns_get, returns_eval,
    Failure.ofAbort_eq_ok, hcalls, Except.ok.injEq, exists_eq_left', returns_assert,
    returns_onCompute hc]
  have hids := Abort.map_eq_of_mapM hcalls fun _ _ => startCall_id
  refine ⟨all_eq_true.mpr fun call _ => ?_, all_eq_true.mpr fun call hcall => ?_, ?_⟩
  · cases call with
    | startNF id => rfl
    | updateNF id ports => exact hsucceeds.updateNF id
  · obtain ⟨nf, hnf, hid⟩ := mem_map.mp (hids ▸ mem_map_of_mem hcall)
    obtain ⟨-, descr, -, hdescr, -⟩ := h nf hnf
    cases call with
    | startNF id =>
      obtain ⟨entry, hentry, -⟩ := Option.bind_eq_some_iff.mp hdescr
      rw [ComputeCall.isKnown, ← show nf.id = id from hid, ← Std.ExtTreeMap.mem_iff_contains,
        StringMap.mem_iff, hentry]
      exact Option.some_ne_none entry
    | updateNF id ports => rfl
  · rw [if_pos]
    · exact returns_pure.mpr trivial
    · refine all_eq_true.mpr fun call _ => ?_
      cases call with
      | startNF id => exact hsucceeds.startNF id
      | updateNF id ports => rfl

theorem addPortsCalls_returns (hsucceeds : env.Succeeds) (hanswers : env.Answers) {diff : Highlevel.Graph}
    (hinternal : diff.endPointsInternal = []) (hc : info.computeController = some c) (h : Staffed c diff.vnfs) :
    Returns (addPortsCalls env true diff) (fun _ _ => True) info := by
  simp only [addPortsCalls, returns_bind, returns_assert, if_true, returns_pure,
    hinternal, List.isEmpty_nil, true_and]
  refine (portRequests_returns hsucceeds hanswers hc h).mono fun _ info₁ hc₁ => ?_
  refine (returns_each (I := fun _ info' => info'.computeController = some c)
    (fun ep _ info' hc' => ?_) diff.endPointsGre info₁ hc₁).mono fun _ info₂ hc₂ => ?_
  · exact (addEndpointPieces_returns hsucceeds hanswers ep).mono fun _ _ h' => h'.trans hc'
  · exact startCalls_returns hsucceeds hc₂ h

theorem accepted_retrieves {physicalPorts : StringMap Nat} {diff : Highlevel.Graph}
    (hc : info.computeController = some c) {info₁ : GraphInfo}
    (h : checkGraphValidity physicalPorts diff (fun nfs => onCompute (retrieveDescriptions env nfs)) info = .ok (some true, info₁)) :
    ∃ c₁, retrieveDescriptions env diff.vnfs c = .ok (some true, c₁) ∧
      { info with computeController := some c₁ } = info₁ := by
  unfold checkGraphValidity at h
  split at h
  · cases h
  · have hreturns : Returns (onCompute (retrieveDescriptions env diff.vnfs))
        (fun valid info' => valid = true ∧ info' = info₁) info := ⟨true, info₁, h, rfl, rfl⟩
    rw [returns_onCompute hc] at hreturns
    obtain ⟨_, c₁, hretrieve, rfl, hinfo⟩ := hreturns
    exact ⟨c₁, hretrieve, hinfo⟩

theorem staffed_of_typed {c₁ : ComputeController} (hc : info.computeController = some c)
    (htyped : AllTyped env vnfs info) (hnumbered : ∀ v ∈ vnfs, ∃ ports, v.getPortsId = .ok ports)
    (hretrieve : retrieveDescriptions env vnfs c = .ok (some true, c₁))
    (hselects : (c₁.selectImplementation env.isSupported).2 = true) :
    Staffed (c₁.selectImplementation env.isSupported).1 vnfs := by
  have hselected : selectedFor env c vnfs = some (c₁.selectImplementation env.isSupported).1 := by
    simp only [selectedFor, hretrieve]
  intro nf hnf
  obtain ⟨ports, hports⟩ := hnumbered nf hnf
  have hknown := (mem_selectedFor hselected nf.id).mpr (.inr (mem_map_of_mem hnf))
  obtain ⟨entry, hentry⟩ := Option.ne_none_iff_exists'.mp (StringMap.mem_iff.mp hknown)
  obtain ⟨descr, hdescr⟩ := Option.isSome_iff_exists.mp
    (ComputeController.selectImplementation_selected hselects hentry)
  have hown : (c₁.selectImplementation env.isSupported).1.getNFSelectedImplementation nf.id =
      some descr := by
    rw [ComputeController.getNFSelectedImplementation, hentry]
    exact hdescr
  refine ⟨ports, descr, hports, hown, ?_⟩
  simpa only [portsTyped, hports, typedPorts, hown, Option.map_some, Option.getD_some] using
    htyped c hc _ hselected nf hnf

/-- An update that is accepted makes its calls. -/
theorem addPiecesCalls_returns (hsucceeds : env.Succeeds) (hanswers : env.Answers)
    {physicalPorts : StringMap Nat} {graphID : String} {newGraph : Highlevel.Graph} {nextID : Nat}
    (haccepted : ∃ info₁, checkGraphValidity physicalPorts (info.graph.calculateDiff newGraph graphID)
      (fun nfs => onCompute (retrieveDescriptions env nfs)) info = .ok (some true, info₁))
    (htyped : AllTyped env (info.graph.calculateDiff newGraph graphID).vnfs info)
    (hnumbered : ∀ v ∈ (info.graph.calculateDiff newGraph graphID).vnfs, ∃ ports, v.getPortsId = .ok ports)
    (hinternal : (info.graph.calculateDiff newGraph graphID).endPointsInternal = [])
    (hcompute : info.computeController.isSome = true) :
    Returns (addPiecesCalls env physicalPorts true graphID newGraph) (fun _ _ => True)
      (nextID, info) := by
  obtain ⟨c, hc⟩ := Option.isSome_iff_exists.mp hcompute
  obtain ⟨info₁, haccepted⟩ := haccepted
  simp only [addPiecesCalls, lift, onLinks, returns_bind, returns_get,
    returns_focus]
  refine ⟨true, info₁, haccepted, ?_⟩
  obtain ⟨c₁, hretrieve, rfl⟩ := accepted_retrieves hc haccepted
  have hselects : (c₁.selectImplementation env.isSupported).2 = true :=
    ComputeController.selectImplementation_of_supported hsucceeds.isSupported c₁
  simp only [Bool.not_true, Bool.false_eq_true, if_false, returns_bind, returns_focus,
    returns_modify, selectImplementation]
  rw [returns_onCompute rfl]
  simp only [returns_bind, returns_get, returns_modify, returns_pure, hselects,
    Bool.not_true, Bool.false_eq_true, if_false, returns_focus]
  refine (addVlinks_returns hsucceeds.addVirtualLink _ _).mono fun _ links _ => ?_
  exact addPortsCalls_returns hsucceeds hanswers hinternal rfl
    (staffed_of_typed hc htyped hnumbered hretrieve hselects)

end Returns

/-! ## The numbers of ports -/

/-- A map has as many entries as its keys in a list have distinct values. -/
theorem size_eq_dedup {β : Type} {m : Std.ExtTreeMap Nat β compare} {l : List Nat}
    (h : ∀ p, p ∈ m ↔ p ∈ l) : m.size = l.dedup.length := by
  rw [← Std.ExtTreeMap.length_keys]
  refine List.Perm.length_eq ((List.perm_ext_iff_of_nodup ?_ l.nodup_dedup).mpr fun p => ?_)
  · exact Std.ExtTreeMap.nodup_keys
  · rw [Std.ExtTreeMap.mem_keys, h, List.mem_dedup]

theorem length_dedup_eq_iff {l : List Nat} : l.dedup.length = l.length ↔ l.Nodup := by
  constructor
  · intro h
    rw [← List.dedup_eq_self]
    exact l.dedup_sublist.eq_of_length h
  · intro h
    rw [h.dedup]

/-- The ports of the stored function with the identifier. -/
def portsBefore (graph : Highlevel.Graph) (id : String) : List Nat :=
  ((graph.vnfs.find? fun v => v.id = id).bind fun v => v.getPortsId.toOption).getD []

/-- The call for a function that gets the ports. -/
def plugCall (graph : Highlevel.Graph) (nf : VNFs) (ports : List Nat) : ComputeCall :=
  if (portsBefore graph nf.id ++ ports).dedup.length = ports.length then .startNF nf.id
  else .updateNF nf.id ports

/-- The update adds the port to the function. -/
def NewPort (graph diff : Highlevel.Graph) (id : String) (p : Nat) : Prop :=
  AsksPort diff.vnfs id p ∧ ¬ AsksPort graph.vnfs id p

/-- The new functions are started, once each; the running functions that get new ports are told
which; and the new ports are requested from the switch. -/
structure HotPlugs (graph diff : Highlevel.Graph) (calls : UpdateCalls) : Prop where
  started : ∀ id, calls.compute.count (.startNF id) =
    if id ∈ diff.vnfs.map VNFs.id ∧ id ∉ graph.vnfs.map VNFs.id then 1 else 0
  updated : ∀ id, (∃ ports, .updateNF id ports ∈ calls.compute) ↔
    id ∈ graph.vnfs.map VNFs.id ∧ ∃ p, NewPort graph diff id p
  passed : ∀ id ports, .updateNF id ports ∈ calls.compute → ∀ p, p ∈ ports ↔ NewPort graph diff id p
  requested : ∀ id p, (∃ ports, (id, ports) ∈ calls.requests ∧ p ∈ ports) ↔ NewPort graph diff id p

/-- The numbers tell whether the function has to be started: a new function has no two ports of
one number, and the ports that are added to another one are new, and not as many as it has then. -/
def TellsStart (graph : Highlevel.Graph) (nf : VNFs) (ports : List Nat) : Prop :=
  if nf.id ∈ graph.vnfs.map VNFs.id then
    ports ≠ [] ∧ (∀ p ∈ ports, p ∉ portsBefore graph nf.id) ∧
      (portsBefore graph nf.id ++ ports).dedup.length ≠ ports.length
  else ports.Nodup

namespace GraphManager

section Decisions

variable {info info' : GraphInfo} {diff : Highlevel.Graph} {calls : UpdateCalls}

theorem mem_portsBefore (h : Agreement info) {id : String} {p : Nat} :
    p ∈ portsBefore info.graph id ↔ AsksPort info.graph.vnfs id p := by
  unfold portsBefore
  cases hfind : info.graph.vnfs.find? fun v => v.id = id with
  | none =>
    have hnone := List.find?_eq_none.mp hfind
    simp only [Option.bind_none, Option.getD_none, List.not_mem_nil, false_iff]
    rintro ⟨v, hv, hid, -⟩
    exact hnone v hv (by simpa using hid)
  | some v =>
    obtain rfl : v.id = id := by simpa using List.find?_some hfind
    have hv := List.mem_of_find?_eq_some hfind
    obtain ⟨ports, hports⟩ := h.numbered v hv
    rw [asksPort_of_mem h.distinct hv hports, Option.bind_some, hports]
    rfl

theorem portsBefore_of_notMem {graph : Highlevel.Graph} {id : String}
    (h : id ∉ graph.vnfs.map VNFs.id) : portsBefore graph id = [] := by
  have hnone : graph.vnfs.find? (fun v => v.id = id) = none := by
    rw [List.find?_eq_none]
    intro v hv hid
    exact h (mem_map.mpr ⟨v, hv, by simpa using hid⟩)
  rw [portsBefore, hnone]
  rfl

/-- After the update a function has the ports it had and those it asks for. -/
theorem startCall_eq (h : Agreement info) {c' : ComputeController} {eps : List EndPointGre}
    (hadded : PortsAdded diff.vnfs eps { info with computeController := some c' } info')
    (hdistinct : (diff.vnfs.map VNFs.id).Nodup) {nf : VNFs} (hnf : nf ∈ diff.vnfs) {ports : List Nat}
    (hports : nf.getPortsId = .ok ports) :
    startCall info'.lsi nf = .ok (plugCall info.graph nf ports) := by
  have hnames (p : Nat) : p ∈ (info'.lsi.nfDataOf nf.id).portsNameOnSwitch ↔
      p ∈ portsBefore info.graph nf.id ++ ports := by
    rw [hadded.names, h.names, h.nfPortsId, asksPort_of_mem hdistinct hnf hports, List.mem_append,
      mem_portsBefore h]
    tauto
  have hown : ((info'.lsi.networkFunctions[nf.id]?).map NfData.portsNameOnSwitch).getD ∅ =
      (info'.lsi.nfDataOf nf.id).portsNameOnSwitch := by
    rw [LSI.nfDataOf]
    cases info'.lsi.networkFunctions[nf.id]? <;> rfl
  have hstarted : isStarted info'.lsi nf =
      .ok ((portsBefore info.graph nf.id ++ ports).dedup.length == ports.length) := by
    simp only [isStarted, hports, hown, size_eq_dedup hnames]
    rfl
  simp only [startCall, hstarted, hports, plugCall]
  by_cases hlength : (portsBefore info.graph nf.id ++ ports).dedup.length = ports.length
  · simp [hlength, bind, Except.bind, pure, Except.pure]
  · simp [hlength, bind, Except.bind, pure, Except.pure]

/-- What is known of the calls of an update. -/
structure Decided (graph diff : Highlevel.Graph) (calls : UpdateCalls) : Prop where
  distinct : (diff.vnfs.map VNFs.id).Nodup
  numbered : Numbered diff.vnfs
  before : ∀ id p, p ∈ portsBefore graph id ↔ AsksPort graph.vnfs id p
  ids : calls.compute.map ComputeCall.id = diff.vnfs.map VNFs.id
  compute : ∀ call, call ∈ calls.compute ↔
    ∃ nf ∈ diff.vnfs, ∃ ports, nf.getPortsId = .ok ports ∧ call = plugCall graph nf ports
  requested : ∀ id p, (∃ ports, (id, ports) ∈ calls.requests ∧ p ∈ ports) ↔ NewPort graph diff id p

theorem decided_of_made (h : Agreement info) {c' : ComputeController}
    (hmade : Made true diff { info with computeController := some c' } info' calls)
    (hdistinct : (diff.vnfs.map VNFs.id).Nodup) : Decided info.graph diff calls := by
  have hcall {nf : VNFs} (hnf : nf ∈ diff.vnfs) : ∃ ports, nf.getPortsId = .ok ports ∧
      startCall info'.lsi nf = .ok (plugCall info.graph nf ports) := by
    obtain ⟨ports, hports⟩ := hmade.added.numbered nf hnf
    exact ⟨ports, hports, startCall_eq h hmade.added hdistinct hnf hports⟩
  refine ⟨hdistinct, hmade.added.numbered, fun id p => mem_portsBefore h, ?_, fun call => ?_, fun id p => ?_⟩
  · exact Abort.map_eq_of_mapM (hmade.compute rfl) fun _ _ => startCall_id
  · rw [Abort.mem_of_mapM (hmade.compute rfl)]
    constructor
    · rintro ⟨nf, hnf, hok⟩
      obtain ⟨ports, hports, hplug⟩ := hcall hnf
      rw [hplug] at hok
      exact ⟨nf, hnf, ports, hports, (Except.ok.inj hok).symm⟩
    · rintro ⟨nf, hnf, ports, hports, rfl⟩
      exact ⟨nf, hnf, startCall_eq h hmade.added hdistinct hnf hports⟩
  · rw [hmade.requested, NewPort, h.nfPortsId]

namespace Decided

variable {graph : Highlevel.Graph}

variable {nf : VNFs} {ports : List Nat}

variable (h : Decided graph diff calls)

include h

theorem newPort_iff (hnf : nf ∈ diff.vnfs) (hports : nf.getPortsId = .ok ports)
    {p : Nat} :
    NewPort graph diff nf.id p ↔ p ∈ ports ∧ p ∉ portsBefore graph nf.id := by
  rw [NewPort, asksPort_of_mem h.distinct hnf hports, h.before]

/-- There is one call for each function. -/
theorem mem_compute_iff (hnf : nf ∈ diff.vnfs)
    (hports : nf.getPortsId = .ok ports) {call : ComputeCall} (hid : call.id = nf.id) :
    call ∈ calls.compute ↔ call = plugCall graph nf ports := by
  have hplug (nf : VNFs) (ports : List Nat) : (plugCall graph nf ports).id = nf.id := by
    unfold plugCall
    split <;> rfl
  rw [h.compute]
  constructor
  · rintro ⟨nf', hnf', ports', hports', rfl⟩
    rw [hplug] at hid
    obtain rfl : nf' = nf := List.inj_on_of_nodup_map h.distinct hnf' hnf hid
    rw [hports] at hports'
    cases hports'
    rfl
  · exact fun heq => ⟨nf, hnf, ports, hports, heq⟩

/-- Calls are about functions of the difference. -/
theorem exists_of_mem {call : ComputeCall}
    (hcall : call ∈ calls.compute) : ∃ nf ∈ diff.vnfs, nf.id = call.id := by
  have hid : call.id ∈ calls.compute.map ComputeCall.id := mem_map_of_mem hcall
  rw [h.ids] at hid
  exact mem_map.mp hid

theorem count_eq_iff (call : ComputeCall) {p : Prop} [Decidable p] :
    calls.compute.count call = (if p then 1 else 0) ↔ (call ∈ calls.compute ↔ p) := by
  have hnodup : calls.compute.Nodup := by
    refine Nodup.of_map ComputeCall.id ?_
    rw [h.ids]
    exact h.distinct
  rw [hnodup.count]
  by_cases hcall : call ∈ calls.compute <;> by_cases hp : p <;> simp [hcall, hp]

/-- The function is started. -/
theorem startNF_mem_iff (hnf : nf ∈ diff.vnfs)
    (hports : nf.getPortsId = .ok ports) :
    .startNF nf.id ∈ calls.compute ↔
      (portsBefore graph nf.id ++ ports).dedup.length = ports.length := by
  rw [h.mem_compute_iff hnf hports rfl, plugCall]
  split
  · next hlength => simp [hlength]
  · next hlength => simp [hlength]

/-- The function is told that it has new ports. -/
theorem updateNF_mem_iff (hnf : nf ∈ diff.vnfs) {ports' : List Nat}
    (hports : nf.getPortsId = .ok ports) :
    .updateNF nf.id ports' ∈ calls.compute ↔
      ports' = ports ∧ (portsBefore graph nf.id ++ ports).dedup.length ≠ ports.length := by
  rw [h.mem_compute_iff hnf hports rfl, plugCall]
  split
  · next hlength => simp [hlength]
  · next hlength => simp [hlength]

theorem tellsStart_of_hotPlugs (hplugs : HotPlugs graph diff calls)
    (hnf : nf ∈ diff.vnfs) (hports : nf.getPortsId = .ok ports) :
    TellsStart graph nf ports := by
  have hstarted := (h.count_eq_iff _).mp (hplugs.started nf.id)
  rw [h.startNF_mem_iff hnf hports] at hstarted
  unfold TellsStart
  split
  · next hknown =>
    have hlength : (portsBefore graph nf.id ++ ports).dedup.length ≠ ports.length :=
      fun hlength => (hstarted.mp hlength).2 hknown
    have hupdate : .updateNF nf.id ports ∈ calls.compute :=
      (h.updateNF_mem_iff hnf hports).mpr ⟨rfl, hlength⟩
    have hpassed := hplugs.passed nf.id ports hupdate
    obtain ⟨-, p, hp⟩ := (hplugs.updated nf.id).mp ⟨ports, hupdate⟩
    refine ⟨List.ne_nil_of_mem ((hpassed p).mpr hp), fun q hq => ?_, hlength⟩
    exact ((h.newPort_iff hnf hports).mp ((hpassed q).mp hq)).2
  · next hnew =>
    have hlength := hstarted.mpr ⟨mem_map_of_mem hnf, hnew⟩
    rwa [portsBefore_of_notMem hnew, List.nil_append, length_dedup_eq_iff] at hlength

theorem hotPlugs_of_tellsStart
    (htells : ∀ nf ∈ diff.vnfs, ∀ ports, nf.getPortsId = .ok ports → TellsStart graph nf ports) :
    HotPlugs graph diff calls := by
  -- a function is started exactly if it is not in the graph
  have hstart {nf : VNFs} (hnf : nf ∈ diff.vnfs) {ports : List Nat}
      (hports : nf.getPortsId = .ok ports) :
      (portsBefore graph nf.id ++ ports).dedup.length = ports.length ↔
        nf.id ∉ graph.vnfs.map VNFs.id := by
    have htell := htells nf hnf ports hports
    unfold TellsStart at htell
    split at htell
    · next hknown => simp [hknown, htell.2.2]
    · next hnew => simpa [hnew, portsBefore_of_notMem hnew, length_dedup_eq_iff] using htell
  have hknownNew {nf : VNFs} (hnf : nf ∈ diff.vnfs) {ports : List Nat}
      (hports : nf.getPortsId = .ok ports) (hknown : nf.id ∈ graph.vnfs.map VNFs.id) :
      ports ≠ [] ∧ ∀ p, p ∈ ports ↔ NewPort graph diff nf.id p := by
    have htell := htells nf hnf ports hports
    rw [TellsStart, if_pos hknown] at htell
    refine ⟨htell.1, fun p => ?_⟩
    rw [h.newPort_iff hnf hports]
    exact ⟨fun hp => ⟨hp, htell.2.1 p hp⟩, fun hp => hp.1⟩
  have hupdate {id : String} {ports : List Nat} (hmem : .updateNF id ports ∈ calls.compute) :
      id ∈ graph.vnfs.map VNFs.id ∧ ports ≠ [] ∧ ∀ p, p ∈ ports ↔ NewPort graph diff id p := by
    obtain ⟨nf, hnf, rfl⟩ := h.exists_of_mem hmem
    obtain ⟨ports', hports⟩ := h.numbered nf hnf
    obtain ⟨rfl, hlength⟩ := (h.updateNF_mem_iff hnf hports).mp hmem
    rw [ne_eq, hstart hnf hports, not_not] at hlength
    exact ⟨hlength, hknownNew hnf hports hlength⟩
  refine ⟨fun id => ?_, fun id => ⟨?_, ?_⟩, fun id ports hmem => (hupdate hmem).2.2, h.requested⟩
  · rw [h.count_eq_iff]
    constructor
    · intro hmem
      obtain ⟨nf, hnf, rfl⟩ := h.exists_of_mem hmem
      obtain ⟨ports, hports⟩ := h.numbered nf hnf
      refine ⟨mem_map_of_mem hnf, ?_⟩
      exact (hstart hnf hports).mp ((h.startNF_mem_iff hnf hports).mp hmem)
    · rintro ⟨hmem, hnew⟩
      obtain ⟨nf, hnf, rfl⟩ := mem_map.mp hmem
      obtain ⟨ports, hports⟩ := h.numbered nf hnf
      exact (h.startNF_mem_iff hnf hports).mpr ((hstart hnf hports).mpr hnew)
  · rintro ⟨ports, hmem⟩
    obtain ⟨hknown, hne, hnew⟩ := hupdate hmem
    obtain ⟨p, hp⟩ := List.exists_mem_of_ne_nil ports hne
    exact ⟨hknown, p, (hnew p).mp hp⟩
  · rintro ⟨hknown, p, ⟨nf, hnf, rfl, ports, hports, -⟩, -⟩
    refine ⟨ports, (h.updateNF_mem_iff hnf hports).mpr ⟨rfl, ?_⟩⟩
    rw [ne_eq, hstart hnf hports, not_not]
    exact hknown

end Decided

end Decisions

/-- Functions that are told apart in the grown graph are told apart in the difference. -/
theorem news_distinct {graph newGraph : Highlevel.Graph} {graphID : String}
    (h : ((graph.addGraphToGraph (news graphID newGraph graph)).1.vnfs.map VNFs.id).Nodup) :
    ((news graphID newGraph graph).vnfs.map VNFs.id).Nodup := by
  have hkeys : ((news graphID newGraph graph).vnfs.map VNFs.key).Nodup :=
    (foldl_addVNFTo (newGraph.vnfs.filterMap (diffVNF graph.vnfs)) [] (by simp)).1
  have hgrown {v : VNFs} (hv : v ∈ (news graphID newGraph graph).vnfs) :
      ∃ w ∈ (graph.addGraphToGraph (news graphID newGraph graph)).1.vnfs, w.key = v.key := by
    have hmem : v.key ∈ (graph.addGraphToGraph (news graphID newGraph graph)).1.vnfs.map VNFs.key := by
      rw [news, (addGraphToGraph_diff graph newGraph graphID).2.2.1, mem_keys_foldl_addVNFTo]
      exact .inr (mem_map_of_mem hv)
    exact mem_map.mp hmem
  refine Nodup.map_on (fun v hv w hw hid => ?_) hkeys.of_map
  obtain ⟨v', hv', hvkey⟩ := hgrown hv
  obtain ⟨w', hw', hwkey⟩ := hgrown hw
  have hids : v'.id = w'.id := by
    rw [show v'.id = v.id from congrArg Prod.fst hvkey, hid,
      show w'.id = w.id from congrArg Prod.fst hwkey]
  obtain rfl := List.inj_on_of_nodup_map h hv' hw' hids
  exact List.inj_on_of_nodup_map hkeys hv hw (hvkey.symm.trans hwkey)

/-- An update that is accepted, in an environment where all calls succeed; its ports are described
and its functions are told apart by their identifiers. -/
structure AcceptedUpdate (env : Environment) (physicalPorts : StringMap Nat) (graphID : String)
    (newGraph : Highlevel.Graph) (info : GraphInfo) : Prop where
  succeeds : env.Succeeds
  answers : env.Answers
  accepted : ∃ info₁, checkGraphValidity physicalPorts (news graphID newGraph info.graph)
    (fun nfs => GraphInfo.onCompute (retrieveDescriptions env nfs)) info = .ok (some true, info₁)
  typed : AllTyped env (news graphID newGraph info.graph).vnfs info
  distinct : ((info.graph.addGraphToGraph (news graphID newGraph info.graph)).1.vnfs.map VNFs.id).Nodup

/-- The calls are right exactly if the numbers of ports tell which functions are new. -/
theorem hotPlugs_iff {env : Environment} {physicalPorts : StringMap Nat} {graphID : String}
    {newGraph : Highlevel.Graph} {info : GraphInfo} {nextID : Nat} (h : Agreement info)
    (hupdate : AcceptedUpdate env physicalPorts graphID newGraph info) :
    (∃ calls t, addPiecesCalls env physicalPorts true graphID newGraph (nextID, info) =
        .ok (some (news graphID newGraph info.graph, calls), t) ∧
      HotPlugs info.graph (news graphID newGraph info.graph) calls) ↔
    (news graphID newGraph info.graph).endPointsInternal = [] ∧
      ∀ nf ∈ (news graphID newGraph info.graph).vnfs, ∃ ports, nf.getPortsId = .ok ports ∧
        TellsStart info.graph nf ports := by
  have hmade {r : Highlevel.Graph × UpdateCalls} {t : Nat × GraphInfo}
      (hcalls : addPiecesCalls env physicalPorts true graphID newGraph (nextID, info) =
        .ok (some r, t)) :
      r.1 = news graphID newGraph info.graph ∧
        Decided info.graph (news graphID newGraph info.graph) r.2 ∧
        (news graphID newGraph info.graph).endPointsInternal = [] := by
    obtain ⟨hdiff, c, c', -, -, hmade⟩ :=
      (of_wp (addPiecesCalls_made hupdate.answers hupdate.typed) hcalls).1 r rfl
    exact ⟨hdiff, decided_of_made h hmade (news_distinct hupdate.distinct), hmade.noInternal⟩
  constructor
  · rintro ⟨calls, t, hcalls, hplugs⟩
    obtain ⟨-, hdecided, hinternal⟩ := hmade hcalls
    refine ⟨hinternal, fun nf hnf => ?_⟩
    obtain ⟨ports, hports⟩ := hdecided.numbered nf hnf
    exact ⟨ports, hports, hdecided.tellsStart_of_hotPlugs hplugs hnf hports⟩
  · rintro ⟨hinternal, htells⟩
    obtain ⟨c, hc, -⟩ := h.compute
    have hnumbered : ∀ v ∈ (news graphID newGraph info.graph).vnfs, ∃ ports,
        v.getPortsId = .ok ports := by
      intro v hv
      obtain ⟨ports, hports, -⟩ := htells v hv
      exact ⟨ports, hports⟩
    obtain ⟨⟨diff, calls⟩, t, hcalls, -⟩ := addPiecesCalls_returns hupdate.succeeds hupdate.answers
      hupdate.accepted hupdate.typed hnumbered hinternal (by simp [hc])
    obtain ⟨rfl, hdecided, -⟩ := hmade hcalls
    refine ⟨calls, t, hcalls, hdecided.hotPlugs_of_tellsStart fun nf hnf ports hports => ?_⟩
    obtain ⟨ports', hports', htell⟩ := htells nf hnf
    rw [hports] at hports'
    cases hports'
    exact htell

/-- An accepted update of a deployed graph makes the right calls exactly if it adds no internal
endpoint, and the numbers of ports tell which of its functions are new. -/
def DecidesByNumbers (s : GraphManager) : Prop :=
  ∀ (graphID : String) info env newGraph, s.tenantLSIs[graphID]? = some info →
    AcceptedUpdate env s.lsi0.physicalPorts graphID newGraph info →
    ((∃ calls t, addPiecesCalls env s.lsi0.physicalPorts true graphID newGraph (s.nextVLinkID, info) =
        .ok (some (news graphID newGraph info.graph, calls), t) ∧
      HotPlugs info.graph (news graphID newGraph info.graph) calls) ↔
    (news graphID newGraph info.graph).endPointsInternal = [] ∧
      ∀ nf ∈ (news graphID newGraph info.graph).vnfs, ∃ ports, nf.getPortsId = .ok ports ∧
        TellsStart info.graph nf ports)

/-- In every state of a run that keeps the records of functions together. -/
theorem run_hotPlugs_iff {rofl : Lowlevel.Rofl} {physicalPorts : StringMap Nat}
    {inBand : Option (String × String)} {s : GraphManager}
    (hcreate : create rofl true physicalPorts inBand = .ok s) {ops : List Operation}
    (hsteps : Run.EveryStep (step rofl) (KeepsAgreement rofl) s ops) :
    Run.Always (step rofl) DecidesByNumbers s ops := by
  refine Run.always_of_invariant (I := AllAgree) (fun s op s' => step_allAgree) ?_
    (everyRecord_of_create hcreate) hsteps
  intro s h graphID info env newGraph hinfo hupdate
  exact hotPlugs_iff (h graphID info hinfo) hupdate

/-- A function is deployed, and an update that adds another one is accepted. -/
theorem run_hotPlugs_iff_deployed :
    let s : GraphManager := { runNFs := true, lsi0 := { physicalPorts := twoPorts } }
    let ops := [.newGraph functionsEnvironment (functions [("1", "firewall")])]
    Run.EveryStep (step default) (KeepsAgreement default) s ops ∧
    Run.Always (step default) DecidesByNumbers s ops ∧
    ∃ s', Run.exec (step default) s ops = .ok s' ∧ ∃ info ∈ s'.tenantLSIs["g"]?,
      AcceptedUpdate functionsEnvironment s'.lsi0.physicalPorts "g"
        (functions [("1", "firewall"), ("2", "nat")]).toGraph info := by
  intro s ops
  have hdone : Run.EveryStep (step default) (fun s op =>
      (call default op s).map Prod.fst = .ok (some true) ∧ VnfsApart s op) s ops := by
    decide +kernel
  have hsteps : Run.EveryStep (step default) (KeepsAgreement default) s ops := by
    refine (hdone.and (Run.everyStep_of_forall (q := Operation.Cooperative) ?_)).mono
      fun s op h => ⟨.inr fun o s' ho => .inl ?_, h.2, h.1.2⟩
    · simp only [ops, List.mem_singleton, forall_eq]
      trivial
    · have hdone := h.1.1
      rw [ho] at hdone
      cases hdone
      rfl
  refine ⟨hsteps, run_hotPlugs_iff (show create default true twoPorts none = .ok _ from rfl) hsteps, ?_⟩
  have haccepted : ∃ s', Run.exec (step default) s ops = .ok s' ∧ ∃ info ∈ s'.tenantLSIs["g"]?,
      (∃ r, checkGraphValidity s'.lsi0.physicalPorts
        (news "g" (functions [("1", "firewall"), ("2", "nat")]).toGraph info.graph)
        (fun nfs => GraphInfo.onCompute (retrieveDescriptions functionsEnvironment nfs)) info = .ok r ∧
          r.1 = some true) ∧
      AllTyped functionsEnvironment
        (news "g" (functions [("1", "firewall"), ("2", "nat")]).toGraph info.graph).vnfs info ∧
      ((info.graph.addGraphToGraph (news "g" (functions [("1", "firewall"), ("2", "nat")]).toGraph
        info.graph)).1.vnfs.map VNFs.id).Nodup := by
    decide +kernel
  obtain ⟨s', hs', info, hinfo, ⟨⟨_, info₁⟩, hcheck, rfl⟩, htyped, hdistinct⟩ := haccepted
  exact ⟨s', hs', info, hinfo, Environment.obliging_succeeds _, Environment.obliging_answers _,
    ⟨info₁, hcheck⟩, htyped, hdistinct⟩

/-- A function is deployed without ports, and runs. An update that gives it its first port starts
it again: it has one port then, as many as were added. -/
theorem first_ports_start_again :
    ∃ s, Run.exec (step default)
        ({ runNFs := true, lsi0 := { physicalPorts := twoPorts } } : GraphManager)
        [.newGraph (.obliging { dpid := 1 }) (firewallPorts [])] = .ok s ∧
      ∃ info ∈ s.tenantLSIs["g"]?, info.graph.vnfs.map VNFs.id = ["1"] ∧
        (addPiecesCalls (.obliging { dpid := 1 }) s.lsi0.physicalPorts true "g"
            (firewallPorts ["inout:0"]).toGraph (s.nextVLinkID, info)).map
          (fun r => r.1.map Prod.snd) = .ok (some ⟨[("1", [1])], [.startNF "1"]⟩) := by
  decide +kernel

end GraphManager

end UnOrchestrator
