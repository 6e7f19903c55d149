import UnOrchestrator.GraphManager.LinkInvariant
import UnOrchestrator.GraphManager.Records
import UnOrchestrator.Highlevel.Convergence

/-!
# Network functions in the graph, on the LSI and in the compute controller

Three containers hold the network functions of a deployed graph. The stored graph tells two
functions apart by identifier and name, the LSI and the compute controller by identifier. A
request changes them in different steps: an update asks for ports and descriptions of what is
new, and then stops and removes what is not requested any more.

The three agree (`VnfsAgree`) as long as a request names its functions apart by identifier
alone, and functions that go are stopped. Where the calls to the outside succeed this is so also
when an update throws: it can do so before the functions are touched, or behind all of them. A
function that is requested under another name leaves the LSI and the compute controller, and stays
in the stored graph (`updateGraph_loses_renamed_function`).
-/

namespace UnOrchestrator

open Highlevel Highlevel.Graph

namespace GraphManager

/-- The stored graph, the LSI and the compute controller have the same network functions, and
the LSI has the ports of the stored ones, each with a name. -/
structure VnfsAgree (info : GraphInfo) : Prop where
  lsi : ∀ id : String, id ∈ info.lsi.networkFunctions ↔ id ∈ info.graph.vnfs.map VNFs.id
  compute : ∃ c, info.computeController = some c ∧
    ∀ id : String, id ∈ c.nfs ↔ id ∈ info.graph.vnfs.map VNFs.id
  ports : ∀ v ∈ info.graph.vnfs, ∃ ports data, v.getPortsId = .ok ports ∧
    info.lsi.networkFunctions[v.id]? = some data ∧
    ∀ p, (p ∈ data.nfPortsId ↔ p ∈ ports) ∧ (p ∈ data.portsNameOnSwitch ↔ p ∈ ports)

/-! ## Ports of a list of network functions -/

/-- All the ports have numbers. -/
def Numbered (vnfs : List VNFs) : Prop := ∀ v ∈ vnfs, ∃ ports, v.getPortsId = .ok ports

variable {vnfs : List VNFs}

theorem numbered_iff :
    Numbered vnfs ↔ ∀ k p, HasPort vnfs k p → ∃ n, VNFs.extractNumberFromId p = .ok n := by
  simp only [Numbered, VNFs.getPortsId, Abort.mapM_returns_iff, HasPort, List.mem_map]
  constructor
  · rintro h k p ⟨v, hv, -, port, hport, rfl⟩
    exact h v hv port hport
  · exact fun h v hv port hport => h v.key port.id ⟨v, hv, rfl, port, hport, rfl⟩

theorem asksPort_iff (hnumbered : Numbered vnfs) {id : String} {n : Nat} :
    AsksPort vnfs id n ↔
      ∃ k p, k.1 = id ∧ HasPort vnfs k p ∧ VNFs.extractNumberFromId p = .ok n := by
  constructor
  · rintro ⟨v, hv, rfl, ports, hports, hn⟩
    obtain ⟨port, hport, hnumber⟩ := (Abort.mem_of_mapM hports n).mp hn
    exact ⟨v.key, port.id, rfl, ⟨v, hv, rfl, List.mem_map_of_mem hport⟩, hnumber⟩
  · rintro ⟨k, p, rfl, ⟨v, hv, rfl, hp⟩, hnumber⟩
    obtain ⟨port, hport, rfl⟩ := List.mem_map.mp hp
    obtain ⟨ports, hports⟩ := hnumbered v hv
    exact ⟨v, hv, rfl, ports, hports, (Abort.mem_of_mapM hports n).mpr ⟨port, hport, hnumber⟩⟩

/-- With distinct identifiers, what is asked for under the identifier of a function are its own
ports. -/
theorem asksPort_of_mem (hdistinct : (vnfs.map VNFs.id).Nodup) {v : VNFs} (hv : v ∈ vnfs) {ports : List Nat}
    (hports : v.getPortsId = .ok ports) {n : Nat} :
    AsksPort vnfs v.id n ↔ n ∈ ports := by
  constructor
  · rintro ⟨w, hw, hid, ports', hports', hn⟩
    obtain rfl : w = v := List.inj_on_of_nodup_map hdistinct hw hv hid
    rw [hports] at hports'
    cases hports'
    exact hn
  · exact fun hn => ⟨v, hv, rfl, ports, hports, hn⟩

theorem ids_eq (vnfs : List VNFs) : vnfs.map VNFs.id = (vnfs.map VNFs.key).map Prod.fst := by
  rw [List.map_map]
  rfl

theorem keys_nodup_of_ids (h : (vnfs.map VNFs.id).Nodup) :
    (vnfs.map VNFs.key).Nodup := by
  rw [ids_eq] at h
  exact h.of_map

/-- The functions of two graphs joined: identifiers and ports are those of both. -/
theorem grown_ports {added : List VNFs} (hkeys : (vnfs.map VNFs.key).Nodup) (hnumbered : Numbered vnfs)
    (hadded : Numbered added) :
    let grown := added.foldl (fun vs v => addVNFTo v vs) vnfs
    Numbered grown ∧ (∀ id, id ∈ grown.map VNFs.id ↔ id ∈ vnfs.map VNFs.id ∨ id ∈ added.map VNFs.id) ∧
      ∀ id n, AsksPort grown id n ↔ AsksPort vnfs id n ∨ AsksPort added id n := by
  intro grown
  obtain ⟨-, hgrownKeys, hports⟩ := foldl_addVNFTo added vnfs hkeys
  have hgrown : Numbered grown := by
    rw [numbered_iff]
    intro k p hp
    rcases (hports k p).mp hp with hp | hp
    · exact numbered_iff.mp hnumbered k p hp
    · exact numbered_iff.mp hadded k p hp
  have hids (vs : List VNFs) (id : String) :
      id ∈ vs.map VNFs.id ↔ ∃ k ∈ vs.map VNFs.key, k.1 = id := by
    rw [ids_eq, List.mem_map]
  refine ⟨hgrown, fun id => ?_, fun id n => ?_⟩
  · simp only [hids, grown, hgrownKeys, or_and_right, exists_or]
  · rw [asksPort_iff hgrown, asksPort_iff hnumbered, asksPort_iff hadded]
    simp only [grown, hports, or_and_right, and_or_left, exists_or]

/-- Among functions with distinct identifiers, removing by identifier and name is removing by
identifier. -/
theorem rest_ports {gone rest : List VNFs} (hdistinct : (vnfs.map VNFs.id).Nodup)
    (h : KeyedList.eraseKeys VNFs.key (gone.map VNFs.key) vnfs = some rest) :
    (∀ v, v ∈ rest ↔ v ∈ vnfs ∧ v.id ∉ gone.map VNFs.id) ∧
    (∀ id, id ∈ rest.map VNFs.id ↔ id ∈ vnfs.map VNFs.id ∧ id ∉ gone.map VNFs.id) ∧
    ∀ id n, AsksPort rest id n ↔ AsksPort vnfs id n ∧ id ∉ gone.map VNFs.id := by
  have hrest (v : VNFs) : v ∈ rest ↔ v ∈ vnfs ∧ v.id ∉ gone.map VNFs.id := by
    rw [KeyedList.mem_of_eraseKeys (keys_nodup_of_ids hdistinct) h]
    refine and_congr_right fun hv => not_congr ⟨fun hkey => ?_, fun hid => ?_⟩
    · obtain ⟨w, hw, hkey⟩ := List.mem_map.mp hkey
      exact List.mem_map.mpr ⟨w, hw, congrArg Prod.fst hkey⟩
    · obtain ⟨w, hw, hid⟩ := List.mem_map.mp hid
      -- what was removed had been there, and was the only function with its identifier
      obtain ⟨v', hv', hkey⟩ := List.mem_map.mp
        (KeyedList.mem_keys_of_erased h (List.mem_map_of_mem hw))
      obtain rfl : v' = v :=
        List.inj_on_of_nodup_map hdistinct hv' hv ((congrArg Prod.fst hkey).trans hid)
      exact hkey ▸ List.mem_map_of_mem hw
  refine ⟨hrest, fun id => ?_, fun id n => ?_⟩
  · simp only [List.mem_map (l := rest), List.mem_map (l := vnfs), hrest]
    constructor
    · rintro ⟨v, ⟨hv, hstays⟩, rfl⟩
      exact ⟨⟨v, hv, rfl⟩, hstays⟩
    · rintro ⟨⟨v, hv, rfl⟩, hstays⟩
      exact ⟨v, ⟨hv, hstays⟩, rfl⟩
  · simp only [AsksPort, hrest]
    constructor
    · rintro ⟨v, ⟨hv, hstays⟩, rfl, hports⟩
      exact ⟨⟨v, hv, rfl, hports⟩, hstays⟩
    · rintro ⟨⟨v, hv, rfl, hports⟩, hstays⟩
      exact ⟨v, ⟨hv, hstays⟩, rfl, hports⟩

/-! ## The invariant -/

/-- The agreement, with the ports under every identifier, for a graph whose functions have
distinct identifiers. -/
structure Agreement (info : GraphInfo) : Prop where
  distinct : (info.graph.vnfs.map VNFs.id).Nodup
  numbered : Numbered info.graph.vnfs
  lsi : ∀ id : String, id ∈ info.lsi.networkFunctions ↔ id ∈ info.graph.vnfs.map VNFs.id
  compute : ∃ c, info.computeController = some c ∧
    ∀ id : String, id ∈ c.nfs ↔ id ∈ info.graph.vnfs.map VNFs.id
  nfPortsId : ∀ id p, p ∈ (info.lsi.nfDataOf id).nfPortsId ↔ AsksPort info.graph.vnfs id p
  names : ∀ id p, p ∈ (info.lsi.nfDataOf id).portsNameOnSwitch ↔ AsksPort info.graph.vnfs id p

variable {info : GraphInfo}

theorem Agreement.withController (h : Agreement info) (controller : Controller) :
    Agreement { info with controller := controller } :=
  ⟨h.distinct, h.numbered, h.lsi, h.compute, h.nfPortsId, h.names⟩

theorem Agreement.vnfsAgree (h : Agreement info) : VnfsAgree info := by
  refine ⟨h.lsi, h.compute, fun v hv => ?_⟩
  obtain ⟨ports, hports⟩ := h.numbered v hv
  have hknown : v.id ∈ info.lsi.networkFunctions := (h.lsi v.id).mpr (List.mem_map_of_mem hv)
  obtain ⟨data, hdata⟩ := Option.ne_none_iff_exists'.mp (StringMap.mem_iff.mp hknown)
  have hown : info.lsi.nfDataOf v.id = data := by rw [LSI.nfDataOf, hdata, Option.getD_some]
  refine ⟨ports, data, hports, hdata, fun p => ⟨?_, ?_⟩⟩
  · rw [← hown, h.nfPortsId, asksPort_of_mem h.distinct hv hports]
  · rw [← hown, h.names, asksPort_of_mem h.distinct hv hports]

/-- What a request asks of the functions it leads to: an update may not request a function under
another name, and functions can go only in builds that stop them. -/
structure TellsApart (runNFs : Bool) (graphID : String) (newGraph graph : Highlevel.Graph) : Prop where
  distinct : ((graph.addGraphToGraph (news graphID newGraph graph)).1.vnfs.map VNFs.id).Nodup
  stopped : runNFs = true ∨ (stale graphID newGraph graph).vnfs = []

instance (runNFs : Bool) (graphID : String) (newGraph graph : Highlevel.Graph) :
    Decidable (TellsApart runNFs graphID newGraph graph) :=
  decidable_of_iff (_ ∧ _) ⟨fun h => ⟨h.1, h.2⟩, fun h => ⟨h.1, h.2⟩⟩

variable {rofl : Lowlevel.Rofl} {env : Environment} {s : GraphManager}

/-- The two halves of an update on the functions: the new pieces have been added to the record, and
the stale ones taken out. -/
theorem Agreement.updated {graphID : String} {newGraph graph : Highlevel.Graph} {runNFs : Bool}
    {removeRuleInfo : List RuleRemovedInfo} {grown reduced : GraphInfo} (h : Agreement info)
    (hstop : ∀ id, env.stopNF id = true)
    (hgrown : grown.graph = (info.graph.addGraphToGraph (news graphID newGraph info.graph)).1)
    (hadded : ∃ c c', info.computeController = some c ∧
      selectedFor env c (news graphID newGraph info.graph).vnfs = some c' ∧
      PortsAdded (news graphID newGraph info.graph).vnfs (news graphID newGraph info.graph).endPointsGre
        { info with computeController := some c' } grown)
    (hremove : grown.graph.removeGraphFromGraph (stale graphID newGraph info.graph) =
      .ok (graph, removeRuleInfo))
    (hremoved : PortsRemoved env runNFs (stale graphID newGraph info.graph).vnfs grown reduced)
    (hgraph : reduced.graph = graph)
    (hapart : TellsApart runNFs graphID newGraph info.graph) : Agreement reduced := by
  obtain ⟨c, c', hc, hselected, hadded⟩ := hadded
  obtain ⟨c₀, hc₀, hknown₀⟩ := h.compute
  obtain rfl : c₀ = c := Option.mem_unique hc₀ hc
  have hvnfs : grown.graph.vnfs =
      (news graphID newGraph info.graph).vnfs.foldl (fun vs v => addVNFTo v vs) info.graph.vnfs := by
    rw [hgrown]
    exact (Graph.addGraphToGraph_diff info.graph newGraph graphID).2.2.1
  have hdistinct : (grown.graph.vnfs.map VNFs.id).Nodup := by
    rw [hgrown]
    exact hapart.distinct
  obtain ⟨hnumbered, hids, hports⟩ :=
    grown_ports (keys_nodup_of_ids h.distinct) h.numbered hadded.numbered
  rw [← hvnfs] at hnumbered hids hports
  have herase := (Graph.removeGraphFromGraph_erased hremove).2.vnfs
  obtain ⟨hrest, hidsRest, hasks⟩ := rest_ports hdistinct herase
  refine ⟨?_, ?_, fun id => ?_, ?_, fun id p => ?_, fun id p => ?_⟩
  · rw [hgraph]
    exact hdistinct.sublist ((KeyedList.eraseKeys_sublist herase).map VNFs.id)
  · rw [hgraph]
    exact fun v hv => hnumbered v ((hrest v).mp hv).1
  · rw [hgraph, hidsRest, hids, StringMap.mem_iff, hremoved.functions]
    split
    · next hgone => simp [hgone]
    · next hstays =>
      rw [← StringMap.mem_iff, hadded.known, h.lsi]
      simp [hstays]
  · obtain ⟨c₂, hc₂, hknown₂⟩ := hremoved.compute hstop c' hadded.compute
    refine ⟨c₂, hc₂, fun id => ?_⟩
    rw [hgraph, hidsRest, hids, hknown₂, mem_selectedFor hselected, hknown₀]
    rcases hapart.stopped with hrun | hnone
    · simp [hrun]
    · simp [hnone]
  · rw [hgraph, hasks, hports, hremoved.nfDataOf]
    split
    · next hgone => simp [hgone]
    · next hstays =>
      rw [hadded.nfPortsId, h.nfPortsId]
      simp [hstays]
  · rw [hgraph, hasks, hports, hremoved.nfDataOf]
    split
    · next hgone => simp [hgone]
    · next hstays =>
      rw [hadded.names, h.names, h.nfPortsId]
      simp only [hstays, not_false_eq_true, and_true]
      tauto

/-! ## New graphs -/

/-- The switch manager names exactly the ports that the network functions ask for. -/
def NamesAll (clo : CreateLsiOut) (vnfs : List VNFs) : Prop :=
  ∀ v ∈ vnfs, ∀ ports, v.getPortsId = .ok ports →
    (∀ p ∈ ports, ∃ n ∈ clo.networkFunctionsPortsNameAndID, n.1 = v.id ∧ p ∈ n.2.map Prod.snd) ∧
    ∀ n ∈ clo.networkFunctionsPortsNameAndID, n.1 = v.id → ∀ p ∈ n.2.map Prod.snd, p ∈ ports

theorem NamesAll.namesPort_iff {clo : CreateLsiOut} (h : NamesAll clo vnfs)
    (hdistinct : (vnfs.map VNFs.id).Nodup) (hnumbered : Numbered vnfs) {id : String} {p : Nat} :
    id ∈ vnfs.map VNFs.id ∧ clo.NamesPort id p ↔ AsksPort vnfs id p := by
  constructor
  · rintro ⟨hid, n, hn, hname, hp⟩
    obtain ⟨v, hv, rfl⟩ := List.mem_map.mp hid
    obtain ⟨ports, hports⟩ := hnumbered v hv
    exact (asksPort_of_mem hdistinct hv hports).mpr ((h v hv ports hports).2 n hn hname p hp)
  · rintro ⟨v, hv, rfl, ports, hports, hp⟩
    exact ⟨List.mem_map_of_mem hv, (h v hv ports hports).1 p hp⟩

/-- The condition on a new graph. -/
structure NamesApart (env : Environment) (graph : Highlevel.Graph) : Prop where
  distinct : (graph.vnfs.map VNFs.id).Nodup
  named : ∀ clo ∈ env.createLsi, NamesAll clo graph.vnfs

variable {physicalPorts : StringMap Nat}

/-- The functions that the compute controller knows after the check of a new graph. -/
theorem checked_nfs {graph : Highlevel.Graph} {c : ComputeController}
    (h : checkGraphValidity physicalPorts graph (retrieveDescriptions env) {} = .ok (some true, c))
    (id : String) : id ∈ c.nfs ↔ id ∈ graph.vnfs.map VNFs.id := by
  unfold checkGraphValidity at h
  split at h
  · cases h
  · rw [(Call.of_wp (mem_retrieveDescriptions graph.vnfs {}) h).1 true rfl rfl]
    simp

theorem Agreement.created {graph : Highlevel.Graph} {nextID nextID' : Nat}
    (creation : Creation env physicalPorts graph nextID info nextID') (h : NamesApart env graph) :
    Agreement info := by
  obtain ⟨c, asked, clo, lsi, hchecked, hdescribed, hasks, hanswer, hcreated, -, rfl⟩ := creation
  have htyped := portsTyped_of_portsDescribed hdescribed
  obtain ⟨hadded, hunnamed⟩ := new_added hasks fun nf hnf ports hports => by
    simpa only [portsTyped, hports] using htyped nf hnf
  obtain ⟨hsame, hnamed⟩ := created_added hcreated
  have hboth := hadded.trans hsame
  rw [List.append_nil] at hboth
  have hempty (id : String) : (({} : LSI).nfDataOf id).nfPortsId = [] := rfl
  refine ⟨h.distinct, hadded.numbered, fun id => ?_, ⟨_, rfl, fun id => ?_⟩, fun id p => ?_,
    fun id p => ?_⟩
  · refine (hboth.known id).trans ?_
    simp
  · rw [ComputeController.mem_selectImplementation, checked_nfs hchecked]
  · refine (hboth.nfPortsId id p).trans ?_
    rw [hempty, List.mem_nil_iff, false_or]
  · refine (hnamed id p).trans ?_
    have hknown : id ∈ asked.networkFunctions ↔ id ∈ graph.vnfs.map VNFs.id := by
      refine (hadded.known id).trans ?_
      simp
    rw [hunnamed, hknown, (h.named _ hanswer).namesPort_iff h.distinct hadded.numbered]
    simp

/-! ## Runs -/

/-- The three containers agree for every deployed graph. -/
def AllAgree (s : GraphManager) : Prop :=
  ∀ (graphID : String) info, s.tenantLSIs[graphID]? = some info → Agreement info

/-- Functions are told apart by their identifiers, and the descriptions have all ports that an
update asks for. -/
def VnfsApart (s : GraphManager) : Operation → Prop
  | .newGraph env graph => NamesApart env graph.toGraph
  | .updateGraph env graphID newGraph => ∀ info ∈ s.tenantLSIs[graphID]?,
    AllTyped env (news graphID newGraph.toGraph info.graph).vnfs info ∧
      TellsApart s.runNFs graphID newGraph.toGraph info.graph
  | _ => True

/-- The switch manager answers about what it was asked, and functions can be stopped. -/
def Operation.Cooperative : Operation → Prop
  | .updateGraph env _ _ => env.Answers ∧ ∀ id, env.stopNF id = true
  | _ => True

/-- The condition on a step: the calls of a request succeed, or the request is done or leaves the
records alone; and functions are told apart. -/
structure KeepsAgreement (rofl : Lowlevel.Rofl) (s : GraphManager) (op : Operation) : Prop where
  whole : op.Succeeds ∨
    ∀ o s', call rofl op s = .ok (o, s') → o = some true ∨ s'.tenantLSIs = s.tenantLSIs
  cooperative : op.Cooperative
  apart : VnfsApart s op

/-- An update whose calls succeed, also if it throws. -/
theorem updateGraph_allAgree {graphID : String} {graph : ParsedGraph} (h : s.AllAgree)
    (hop : (Operation.updateGraph env graphID graph).Cooperative)
    (hapart : VnfsApart s (.updateGraph env graphID graph)) (hsucceeds : env.Succeeds) :
    Call.wp (updateGraph rofl env graphID graph.toGraph) (fun _ s' => s'.AllAgree) AllAgree s := by
  refine Call.wp_weaken (updateGraph_everyRecord (P := Agreement) (R := fun _ => True)
    (M := fun grown => ∀ info, s.tenantLSIs[graphID]? = some info → ∃ c c',
      info.computeController = some c ∧
      selectedFor env c (news graphID graph.toGraph info.graph).vnfs = some c' ∧
      PortsAdded (news graphID graph.toGraph info.graph).vnfs
        (news graphID graph.toGraph info.graph).endPointsGre
        { info with computeController := some c' } grown)
    (fun _ controller hinfo => hinfo.withController controller) h (fun info hinfo => ?_)
    (fun info grown reducedGraph removeRuleInfo hinfo hadded hgrown hremove => ?_)
    fun _ _ _ => trivial) fun _ _ hdone => hdone.1
  · refine Call.wp_mono (Call.wp_and (addPieces_added hop.1 (hapart info hinfo).1)
      (addPieces_throws hsucceeds)) (fun _ t ht info' hinfo' => ?_) (fun t ht => ?_)
    · obtain rfl : info = info' := Option.mem_unique hinfo hinfo'
      exact ht.1
    · rw [ht.2]
      exact h graphID info hinfo
  · refine Call.wp_mono (Call.wp_and removePieces_removed (removePieces_spec 0))
      (fun _ reduced hreduced => ⟨?_, trivial⟩) fun _ hthrown => absurd hsucceeds hthrown.2
    obtain ⟨hgre, hfunctions, hcompute⟩ := hreduced.1
    exact (h graphID info hinfo).updated hop.2 hgrown (hadded info hinfo) hremove
      ⟨hgre, hfunctions, hcompute⟩ hreduced.2.graph (hapart info hinfo).2

theorem step_allAgree {s' : GraphManager} {op : Operation} (h : s.AllAgree) (hop : KeepsAgreement rofl s op)
    (hstep : step rofl s op = .ok s') :
    s'.AllAgree := by
  obtain ⟨hwhole, hcooperative, hapart⟩ := hop
  cases op with
  | newGraph env graph =>
    refine step_keeps ?_ hstep
    exact newGraph_everyRecord (fun _ controller hinfo => hinfo.withController controller) h
      fun info nextID' creation => Agreement.created creation hapart
  | updateGraph env graphID graph =>
    rcases hwhole with hsucceeds | hwhole
    · refine step_keeps ?_ hstep
      exact updateGraph_allAgree h hcooperative hapart hsucceeds
    · obtain ⟨o, ho⟩ := step_ok.mp hstep
      rcases hwhole o s' ho with rfl | hrecords
      · obtain ⟨u, rfl⟩ := updateGraph_done ho
        obtain ⟨hanswers, hstops⟩ := hcooperative
        obtain ⟨htyped, hapart⟩ := hapart u.info u.deployed
        have hremove := u.removed
        rw [u.stale_eq] at hremove
        have hreduced : Agreement u.reduced := (h graphID u.info u.deployed).updated hstops
          u.added.graph (u.portsAdded hanswers htyped) hremove u.portsRemoved u.pieces.graph hapart
        exact EveryRecord.insert h rfl (hreduced.withController _)
      · exact EveryRecord.congr h hrecords
  | deleteGraph env graphID =>
    refine step_keeps ?_ hstep
    exact deleteGraph_everyRecord h
  | lsi0DptOpen | lsi0DptClose =>
    cases hstep
    exact h
  | tenantDptOpen graphID | tenantDptClose graphID =>
    cases hstep
    exact onController_everyRecord (fun _ controller hinfo => hinfo.withController controller)
      h graphID _

/-- The condition on the requests of a run in which the calls to the outside succeed. -/
structure NamesFunctions (s : GraphManager) (op : Operation) : Prop where
  succeeds : op.Succeeds
  cooperative : op.Cooperative
  apart : VnfsApart s op

/-- In every state of a run whose steps tell functions apart by identifier, the three containers
of every deployed graph agree. -/
theorem run_vnfsAgree {rofl : Lowlevel.Rofl} {runNFs : Bool} {physicalPorts : StringMap Nat}
    {inBand : Option (String × String)} {s : GraphManager}
    (hcreate : create rofl runNFs physicalPorts inBand = .ok s) {ops : List Operation}
    (hsteps : Run.EveryStep (step rofl) NamesFunctions s ops) :
    Run.Always (step rofl) (fun s => ∀ (graphID : String) info,
      s.tenantLSIs[graphID]? = some info → VnfsAgree info) s ops := by
  refine Run.always_of_invariant (I := AllAgree)
    (fun s op s' h hop => step_allAgree h ⟨.inl hop.succeeds, hop.cooperative, hop.apart⟩)
    (fun s h graphID info hinfo => (h graphID info hinfo).vnfsAgree)
    (everyRecord_of_create hcreate) hsteps

instance (clo : CreateLsiOut) (vnfs : List VNFs) : Decidable (NamesAll clo vnfs) :=
  inferInstanceAs (Decidable (∀ _ ∈ _, ∀ _, _ → _))

instance (env : Environment) (graph : Highlevel.Graph) : Decidable (NamesApart env graph) :=
  decidable_of_iff (_ ∧ _) ⟨fun h => ⟨h.1, h.2⟩, fun h => ⟨h.1, h.2⟩⟩

instance (s : GraphManager) : (op : Operation) → Decidable (VnfsApart s op)
  | .newGraph _ _ => inferInstanceAs (Decidable (NamesApart _ _))
  | .updateGraph _ _ _ => inferInstanceAs (Decidable (∀ _ ∈ _, _ ∧ _))
  | .deleteGraph _ _ | .lsi0DptOpen | .lsi0DptClose | .tenantDptOpen _ | .tenantDptClose _ =>
    .isTrue trivial

/-- A graph of network functions with the given identifiers and names, each with a single port. -/
def functions (vnfs : List (String × String)) : ParsedGraph where
  toGraph := { ID := "g"
               vnfs := vnfs.map fun v => { id := v.1, name := v.2, ports := [{ id := "inout:0" }] } }
  distinct := List.nodup_nil

/-- The switch manager names the port of the first function. -/
def functionsEnvironment : Environment :=
  .obliging { dpid := 1, networkFunctionsPortsNameAndID := [("1", [("1_1_1", 1)])] }

/-- A graph gets a second network function and then loses the first one. -/
theorem run_vnfsAgree_exchanged :
    let s : GraphManager := { runNFs := true, lsi0 := { physicalPorts := twoPorts } }
    let ops := [.newGraph functionsEnvironment (functions [("1", "firewall")]),
      .updateGraph functionsEnvironment "g" (functions [("1", "firewall"), ("2", "nat")]),
      .updateGraph functionsEnvironment "g" (functions [("2", "nat")])]
    Run.EveryStep (step default) NamesFunctions s ops ∧
    Run.Always (step default) (fun s => ∀ (graphID : String) info,
      s.tenantLSIs[graphID]? = some info → VnfsAgree info) s ops := by
  intro s ops
  have hapart : Run.EveryStep (step default) VnfsApart s ops := by
    decide +kernel
  have hsucceeds := Environment.obliging_succeeds
  have hanswers := Environment.obliging_answers
  have hcooperative : ∀ op ∈ ops, op.Succeeds ∧ op.Cooperative := by
    simp [ops, Operation.Succeeds, Operation.Cooperative, functionsEnvironment, hsucceeds, hanswers,
      (hsucceeds _).stopNF]
  have hsteps : Run.EveryStep (step default) NamesFunctions s ops :=
    (hapart.and (Run.everyStep_of_forall hcooperative)).mono fun _ _ h => ⟨h.2.1, h.2.2, h.1⟩
  exact ⟨hsteps, run_vnfsAgree (show create default true twoPorts none = .ok _ from rfl) hsteps⟩

/-- A function is requested under another name. All calls of the update succeed; the stored
graph has the function with the new name then, and neither the LSI nor the compute controller
has one with its identifier. -/
theorem updateGraph_loses_renamed_function :
    ∃ s, Run.exec (step default)
        ({ runNFs := true, lsi0 := { physicalPorts := twoPorts } } : GraphManager)
        [.newGraph functionsEnvironment (functions [("1", "firewall")]),
         .updateGraph functionsEnvironment "g" (functions [("1", "nat")])] = .ok s ∧
      (s.tenantLSIs["g"]?).map (fun info => (info.graph.vnfs.map VNFs.key,
        info.lsi.networkFunctions.keys, info.computeController.map fun c => c.nfs.keys)) =
          some ([("1", "nat")], [], some []) := by
  decide +kernel

end GraphManager

end UnOrchestrator
