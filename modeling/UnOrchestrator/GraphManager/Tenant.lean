import UnOrchestrator.ComputeController
import UnOrchestrator.Controller
import UnOrchestrator.Highlevel.Update
import UnOrchestrator.GraphManager.Vlinks

/-!
# The tenant LSI of a graph

What the graph manager keeps for a deployed graph (`GraphInfo`) and the steps of its
requests that concern this record alone: checking a graph, creating the LSI of a new graph
(`createTenant`), adding the new pieces of an update (`addPieces`) and removing the old
ones (`removePieces`). The answers of the switch manager and of the compute controller to
one request are an `Environment`.

The virtual links are the part that the steps share. `addPieces_spec` and
`removePieces_spec` say what a step has done to the stored graph and to the links when it
returns, and what it leaves behind when it throws.

Network functions are started only in builds with `RUN_NFS`, which is the argument
`runNFs`; GRE endpoints are those of a build with the OVSDB plug-in.
-/

namespace UnOrchestrator

open Call

open Highlevel

/-- `CreateLsiOut`, the answer of the switch manager to a new LSI. -/
structure CreateLsiOut where
  dpid : Nat
  physicalPorts : List (String × Nat) := []
  networkFunctionsPorts : List (String × List (String × Nat)) := []
  endpointsPorts : List (String × Nat) := []
  networkFunctionsPortsNameAndID : List (String × List (String × Nat)) := []
  virtualLinks : List (Nat × Nat) := []

/-- The answers that one request gets: from the name resolver, the execution environments of
the network functions, and the switch manager. Virtual links are asked for by the
identifier of the link, which is never used twice. -/
structure Environment where
  retrieveDescription : String → String → RetrievedDescription
  isSupported : Description → Bool
  startNF : String → Bool
  updateNF : String → Bool
  stopNF : String → Bool
  createLsi : Option CreateLsiOut
  createInternalLsi : String → Option CreateLsiOut
  addVirtualLink : Nat → Option (Nat × Nat)
  addNFPorts : String → List Nat → Option (String × List (String × Nat))
  addEndpoint : String → Option (String × Nat)
  destroyLsi : Nat → Bool
  destroyVirtualLink : Nat → Bool
  destroyNFPorts : String → Bool
  destroyEndpoint : String → Bool

/-- Every call to the switch manager and to the compute controller succeeds. -/
structure Environment.Succeeds (env : Environment) : Prop where
  retrieveDescription : ∀ id name, ∃ descriptions described,
    env.retrieveDescription id name = .ok descriptions described
  isSupported : ∀ descr, env.isSupported descr = true
  startNF : ∀ id, env.startNF id = true
  updateNF : ∀ id, env.updateNF id = true
  stopNF : ∀ id, env.stopNF id = true
  createLsi : env.createLsi.isSome
  createInternalLsi : ∀ group, (env.createInternalLsi group).isSome
  addVirtualLink : ∀ ID, (env.addVirtualLink ID).isSome
  addNFPorts : ∀ id ports, (env.addNFPorts id ports).isSome
  addEndpoint : ∀ id, (env.addEndpoint id).isSome
  destroyLsi : ∀ dpid, env.destroyLsi dpid = true
  destroyVirtualLink : ∀ ID, env.destroyVirtualLink ID = true
  destroyNFPorts : ∀ id, env.destroyNFPorts id = true
  destroyEndpoint : ∀ id, env.destroyEndpoint id = true

/-- An environment in which every network function has two ports, for a given answer to a new
LSI. -/
def Environment.obliging (clo : CreateLsiOut) : Environment where
  retrieveDescription _ name :=
    .ok [{ uri := name, portTypes := [1, 2], supported := true }] (List.cons_ne_nil _ _)
  isSupported _ := true
  startNF _ := true
  updateNF _ := true
  stopNF _ := true
  createLsi := some clo
  createInternalLsi _ := some { dpid := 2, virtualLinks := [(1, 100)] }
  addVirtualLink ID := some (ID + 1, ID + 101)
  addNFPorts id ports := some (id, ports.map fun p : Nat => (nfPortName id p, p + 10))
  addEndpoint id := some (id, 200)
  destroyLsi _ := true
  destroyVirtualLink _ := true
  destroyNFPorts _ := true
  destroyEndpoint _ := true

theorem Environment.obliging_succeeds (clo : CreateLsiOut) : (obliging clo).Succeeds :=
  ⟨fun _ _ => ⟨_, _, rfl⟩, fun _ => rfl, fun _ => rfl, fun _ => rfl, fun _ => rfl, rfl,
    fun _ => rfl, fun _ => rfl, fun _ _ => rfl, fun _ => rfl, fun _ => rfl, fun _ => rfl,
    fun _ => rfl, fun _ => rfl⟩

/-- `GraphInfo` of a deployed graph. The compute controller is `none` once it was deleted while
the record still points to it. -/
structure GraphInfo where
  graph : Highlevel.Graph
  lsi : LSI := {}
  controller : Controller := {}
  computeController : Option ComputeController := some {}

namespace GraphInfo

/-- The part of a record that the steps on network functions and GRE ports leave alone. -/
def core (info : GraphInfo) : Highlevel.Graph × VLinks × Controller :=
  (info.graph, info.lsi.toVLinks, info.controller)

/-- A call on the compute controller of a graph; its object must not have been deleted. -/
def onCompute {α : Type} (x : Call ComputeController α) : Call GraphInfo α := do
  let info ← Call.get
  match info.computeController with
  | none => Call.abort .undefinedBehaviour
  | some c => Call.focus (fun _ => c) (fun c info => { info with computeController := some c }) x

/-- A write to the LSI of a graph. -/
def onLsi (f : LSI → Except Abort LSI) : Call GraphInfo Unit :=
  Call.update (fun info => do
    let lsi ← f info.lsi
    pure { info with lsi := lsi })

/-- A call on the record of a graph, next to the static counter of the virtual links. -/
def lift {α : Type} (x : Call GraphInfo α) : Call (Nat × GraphInfo) α :=
  Call.focus Prod.snd (fun info t => (t.1, info)) x

/-- A call on the counter and the virtual links of the LSI of a graph. -/
def onLinks {α : Type} (x : Call (Nat × VLinks) α) : Call (Nat × GraphInfo) α :=
  Call.focus (fun t => (t.1, t.2.lsi.toVLinks))
    (fun l t => (l.1, { t.2 with lsi := { t.2.lsi with toVLinks := l.2 } })) x

variable {α : Type} {info : GraphInfo}

theorem wp_onCompute {x : Call ComputeController α} {Q : α → GraphInfo → Prop} {E : GraphInfo → Prop} :
    wp (onCompute x) Q E info ↔ ∀ c, info.computeController = some c →
      wp x (fun a c' => Q a { info with computeController := some c' })
        (fun c' => E { info with computeController := some c' }) c := by
  simp only [onCompute, wp_bind, wp_get]
  cases info.computeController with
  | none => simp
  | some c => simp

variable {f : LSI → Except Abort LSI}

theorem wp_onLsi {Q : Unit → GraphInfo → Prop} {E : GraphInfo → Prop} : wp (onLsi f) Q E info ↔
      ∀ lsi, f info.lsi = .ok lsi → Q () { info with lsi := lsi } := by
  simp only [onLsi, wp_update, Abort.bind_eq_ok, Abort.pure_eq_ok]
  constructor
  · exact fun h lsi hlsi => h _ ⟨lsi, hlsi, rfl⟩
  · intro h info' hinfo'
    obtain ⟨lsi, hlsi, rfl⟩ := hinfo'
    exact h lsi hlsi

theorem returns_onCompute {x : Call ComputeController α} {Q : α → GraphInfo → Prop} {c : ComputeController}
    (hc : info.computeController = some c) :
    Returns (onCompute x) Q info ↔
      Returns x (fun a c' => Q a { info with computeController := some c' }) c := by
  simp only [onCompute, returns_bind, returns_get, hc]
  simp

theorem returns_onLsi {Q : Unit → GraphInfo → Prop} :
    Returns (onLsi f) Q info ↔ ∃ lsi, f info.lsi = .ok lsi ∧ Q () { info with lsi := lsi } := by
  simp only [onLsi, returns_update, Abort.bind_eq_ok, Abort.pure_eq_ok]
  constructor
  · rintro ⟨_, ⟨lsi, hlsi, rfl⟩, h⟩
    exact ⟨lsi, hlsi, h⟩
  · rintro ⟨lsi, hlsi, h⟩
    exact ⟨_, ⟨lsi, hlsi, rfl⟩, h⟩

theorem onCompute_preserves (x : Call ComputeController α) :
    Preserves core (onCompute x) := by
  intro info
  rw [wp_onCompute]
  exact fun c _ => wp_of_forall (fun _ _ => rfl) (fun _ => rfl)

theorem onLsi_preserves (h : ∀ lsi lsi', f lsi = .ok lsi' → lsi'.toVLinks = lsi.toVLinks) :
    Preserves core (onLsi f) := by
  refine Preserves.update fun info info' hstep => ?_
  simp only [Abort.bind_eq_ok, Abort.pure_eq_ok] at hstep
  obtain ⟨lsi', hlsi, rfl⟩ := hstep
  simp only [core, h _ _ hlsi]

end GraphInfo

/-! ## Checking a graph -/

/-- The loop of `checkGraphValidity` over the network functions. -/
def retrieveDescriptions (env : Environment) : List VNFs → Call ComputeController Bool
  | [] => pure true
  | nf :: nfs => do
    let c ← Call.get
    if (c.getNFSelectedImplementation nf.id).isSome then retrieveDescriptions env nfs
    else
      match env.retrieveDescription nf.id nf.name with
      | .noNF => pure false
      | .serverError => Call.throw
      | .ok descriptions described => do
        Call.modify (fun c => c.addNF nf.id descriptions described)
        retrieveDescriptions env nfs

/-- `GraphManager::checkGraphValidity`, for the physical ports of LSI-0. The compute
controller, which is asked last, is a new object for a new graph and part of the record of
a deployed one. -/
def checkGraphValidity {σ : Type} (physicalPorts : StringMap Nat) (graph : Highlevel.Graph)
    (retrieveAll : List VNFs → Call σ Bool) : Call σ Bool :=
  if graph.endPointsInterface.any (fun p => (physicalPorts[p.interface]?).isNone) then pure false
  else retrieveAll graph.vnfs

/-- The check of `newGraph` on the ports of the network functions: the selected description
must have a type for each of them. -/
def portsDescribed (c : ComputeController) : List VNFs → Except Abort Bool
  | [] => pure true
  | nf :: nfs => do
    let ports ← nf.getPortsId
    let descr ← Abort.orElse .assertion (c.getNFSelectedImplementation nf.id)
    if ports.length > descr.portTypes.length then pure false
    else if ports.all descr.portTypes.contains then portsDescribed c nfs
    else pure false

/-- The ports that the selected description of a network function gives a type to. -/
def typedPorts (c : ComputeController) (nfId : String) : List Nat :=
  ((c.getNFSelectedImplementation nfId).map Description.portTypes).getD []

/-! ## A new LSI -/

/-- The loop over the links in the answer to a new LSI. -/
def VLinks.setAllVLinkIDs (v : VLinks) : Nat → List (Nat × Nat) → Except Abort VLinks
  | _, [] => pure v
  | currentTranslation, (localID, remoteID) :: vl => do
    let v ← v.setVLinkIDs currentTranslation localID remoteID
    setAllVLinkIDs v (currentTranslation + 1) vl

/-- What the answer of the switch manager adds to a new LSI. -/
def LSI.created (lsi : LSI) (clo : CreateLsiOut) : Except Abort LSI := do
  let lsi ← clo.networkFunctionsPorts.foldlM
    (fun lsi nfp => lsi.setNfSwitchPortsID nfp.1 nfp.2) { lsi with dpid := clo.dpid }
  let lsi ← clo.endpointsPorts.foldlM (fun lsi ep => lsi.setEndpointPortID ep.1 ep.2) lsi
  let lsi := clo.networkFunctionsPortsNameAndID.foldl
    (fun lsi names => lsi.setNetworkFunctionsPortsNameOnSwitch names.1 names.2) lsi
  let links ← lsi.toVLinks.setAllVLinkIDs 0 clo.virtualLinks
  pure { lsi with toVLinks := links }

/-- The part of `newGraph` before the internal endpoints: `none` when the request is refused.
The state is the static counter of the virtual links, which is not set back on failures. -/
def createTenant (env : Environment) (physicalPorts : StringMap Nat) (runNFs : Bool)
    (graph : Highlevel.Graph) : Call Nat (Option GraphInfo) := do
  let (valid, c) ← Call.locally {}
    (checkGraphValidity physicalPorts graph (retrieveDescriptions env))
  if !valid then pure none
  else do
    let (c, selected) := c.selectImplementation env.isSupported
    if !selected then Call.throw
    else do
      let required := identifyVirtualLinksRequired graph.rules (fun _ => false)
      let nextID ← Call.get
      let virtualLinks := newVirtualLinks nextID required.numberOfVLrequired
      Call.modify (fun nextID => nextID + required.numberOfVLrequired)
      let described ← Call.eval (Failure.ofAbort (portsDescribed c graph.vnfs))
      if !described then pure none
      else do
        let lsi ← Call.eval (Failure.ofAbort
          (LSI.new graph.vnfs graph.endPointsGre virtualLinks (typedPorts c)))
        -- the endpoints are handed to the switch manager in a map by identifier
        Call.assert (decide (graph.endPointsGre.map EndPointGre.id).Nodup)
        match env.createLsi with
        | none => Call.throw
        | some clo =>
          if clo.physicalPorts.length > 1 then Call.throw
          else do
            let lsi ← Call.eval (Failure.ofAbort (lsi.created clo))
            let lsi := { lsi with toVLinks := lsi.toVLinks.assignVlinks required }
            Call.assert (!runNFs || graph.vnfs.all (fun nf => c.nfs.contains nf.id))
            if runNFs && !graph.vnfs.all (fun nf => env.startNF nf.id) then Call.throw
            else pure (some { graph := graph, lsi := lsi, computeController := some c })

/-- Numbering a link keeps the identifiers of all links. -/
theorem setVLinkIDs_ok {v v' : VLinks} {position localID remoteID : Nat}
    (h : v.setVLinkIDs position localID remoteID = .ok v') :
    ∃ links, v' = { v with virtualLinks := links } ∧
      links.map VLink.ID = v.virtualLinks.map VLink.ID := by
  simp only [VLinks.setVLinkIDs] at h
  split at h
  · cases h
    refine ⟨_, rfl, List.ext_getElem (by simp) fun i _ _ => ?_⟩
    rw [List.getElem_map, List.getElem_map, List.getElem_modify]
    split <;> rfl
  · cases h

theorem setAllVLinkIDs_ok {vl : List (Nat × Nat)} {v v' : VLinks} {position : Nat}
    (h : v.setAllVLinkIDs position vl = .ok v') :
    ∃ links, v' = { v with virtualLinks := links } ∧
      links.map VLink.ID = v.virtualLinks.map VLink.ID := by
  induction vl generalizing v position with
  | nil =>
    cases h
    exact ⟨_, rfl, rfl⟩
  | cons ids vl ih =>
    simp only [VLinks.setAllVLinkIDs, Abort.bind_eq_ok] at h
    obtain ⟨v₁, hset, hrest⟩ := h
    obtain ⟨links₁, rfl, hlinks₁⟩ := setVLinkIDs_ok hset
    obtain ⟨links, rfl, hlinks⟩ := ih hrest
    exact ⟨links, rfl, hlinks.trans hlinks₁⟩

/-- The answer of the switch manager fills in numbers only. -/
theorem created_ok {lsi lsi' : LSI} {clo : CreateLsiOut} (h : lsi.created clo = .ok lsi') :
    ∃ links, lsi'.toVLinks = { lsi.toVLinks with virtualLinks := links } ∧
      links.map VLink.ID = lsi.virtualLinks.map VLink.ID := by
  simp only [LSI.created, Abort.bind_eq_ok, Abort.pure_eq_ok] at h
  obtain ⟨lsi₁, hnfs, lsi₂, heps, v, hlinks, rfl⟩ := h
  have h₁ : lsi₁.toVLinks = lsi.toVLinks :=
    Abort.foldlM_invariant (P := fun l => l.toVLinks = lsi.toVLinks)
      (fun _ _ _ hstep hl => (LSI.setNfSwitchPortsID_toVLinks hstep).trans hl) _ _ _ hnfs rfl
  have h₂ : lsi₂.toVLinks = lsi.toVLinks :=
    Abort.foldlM_invariant (P := fun l => l.toVLinks = lsi.toVLinks)
      (fun _ _ _ hstep hl => (LSI.setEndpointPortID_toVLinks hstep).trans hl) _ _ _ heps h₁
  have h₃ (names : List (String × List (String × Nat))) (l : LSI) :
      (names.foldl (fun lsi n => lsi.setNetworkFunctionsPortsNameOnSwitch n.1 n.2) l).toVLinks =
        l.toVLinks := by
    induction names generalizing l with
    | nil => rfl
    | cons n names ih =>
      rw [List.foldl_cons, ih, LSI.setNetworkFunctionsPortsNameOnSwitch_toVLinks]
  rw [h₃, h₂] at hlinks
  exact setAllVLinkIDs_ok hlinks

/-- The steps that made the record of a new graph: the compute controller once the functions are
described, the LSI as it was asked for, and the answer of the switch manager with what it
made of the LSI. -/
structure Creation (env : Environment) (physicalPorts : StringMap Nat) (graph : Highlevel.Graph)
    (nextID : Nat) (info : GraphInfo) (nextID' : Nat) where
  c : ComputeController
  asked : LSI
  clo : CreateLsiOut
  lsi : LSI
  checked : checkGraphValidity physicalPorts graph (retrieveDescriptions env) {} = .ok (some true, c)
  described : portsDescribed (c.selectImplementation env.isSupported).1 graph.vnfs = .ok true
  asks : LSI.new graph.vnfs graph.endPointsGre
    (newVirtualLinks nextID
      (identifyVirtualLinksRequired graph.rules (fun _ => false)).numberOfVLrequired)
    (typedPorts (c.selectImplementation env.isSupported).1) = .ok asked
  answer : env.createLsi = some clo
  created : asked.created clo = .ok lsi
  counter : nextID' =
    nextID + (identifyVirtualLinksRequired graph.rules (fun _ => false)).numberOfVLrequired
  record : info = {
    graph := graph
    lsi := { lsi with
      toVLinks := lsi.toVLinks.assignVlinks (identifyVirtualLinksRequired graph.rules (fun _ => false)) }
    computeController := some (c.selectImplementation env.isSupported).1 }

variable {env : Environment} {physicalPorts : StringMap Nat} {runNFs : Bool} {nextID : Nat}

/-- A record that is made has come through all the steps. -/
theorem createTenant_steps {graph : Highlevel.Graph} :
    wp (createTenant env physicalPorts runNFs graph)
      (fun created nextID' => nextID ≤ nextID' ∧ ∀ info, created = some info →
        Nonempty (Creation env physicalPorts graph nextID info nextID'))
      (fun nextID' => nextID ≤ nextID') nextID := by
  have hrefused {nextID' : Nat} (hle : nextID ≤ nextID') : nextID ≤ nextID' ∧
      ∀ info : GraphInfo, none = some info →
        Nonempty (Creation env physicalPorts graph nextID info nextID') :=
    ⟨hle, fun _ h => by cases h⟩
  have hle (number : Nat) : nextID ≤ nextID + number := Nat.le_add_right nextID number
  unfold createTenant
  rw [wp_bind, wp_locally]
  refine wp_mono wp_self (fun valid c hchecked => ?_) (fun _ _ => Nat.le_refl _)
  cases valid with
  | false => exact hrefused (Nat.le_refl _)
  | true =>
    simp only [Bool.not_true, Bool.false_eq_true, if_false]
    split
    · exact Nat.le_refl _
    · simp only [wp_bind, wp_get, wp_modify, wp_eval, Failure.ofAbort_eq_ok]
      refine ⟨fun described hdescribed => ?_, fun _ => hle _⟩
      cases described with
      | false => exact hrefused (hle _)
      | true =>
        simp only [Bool.not_true, Bool.false_eq_true, if_false, wp_bind, wp_eval,
          wp_assert, Failure.ofAbort_eq_ok]
        refine ⟨fun asked hasks _ => ?_, fun _ => hle _⟩
        split
        · exact hle _
        · next clo hanswer =>
          split
          · exact hle _
          · simp only [wp_bind, wp_eval, wp_assert, Failure.ofAbort_eq_ok]
            refine ⟨fun lsi hcreated _ => ?_, fun _ => hle _⟩
            split
            · exact hle _
            · refine ⟨hle _, fun info hinfo => ⟨?_⟩⟩
              exact ⟨c, asked, clo, lsi, hchecked, hdescribed, hasks, hanswer, hcreated, rfl,
                (Option.some.inj hinfo).symm⟩

/-- The record of a new graph: its links are in order and serve the targets of its rules. -/
theorem createTenant_spec {graph : Highlevel.Graph} :
    wp (createTenant env physicalPorts runNFs graph)
      (fun created nextID' => nextID ≤ nextID' ∧ ∀ info, created = some info →
        info.graph = graph ∧ info.controller = {} ∧ info.lsi.InOrder nextID' ∧
          ∀ t, (info.lsi.vlinkOf t).isSome ↔ ∃ r ∈ graph.rules, r.requiredVlink = some t)
      (fun nextID' => nextID ≤ nextID') nextID := by
  refine wp_weaken createTenant_steps (fun created nextID' h => ⟨h.1, fun info hinfo => ?_⟩)
  obtain ⟨c, asked, clo, lsi, -, -, hasks, -, hcreated, rfl, rfl⟩ := h.2 info hinfo
  obtain ⟨links, hlinks, hIDs⟩ := created_ok hcreated
  have hasked := LSI.new_toVLinks hasks
  rw [show asked.virtualLinks = _ from congrArg VLinks.virtualLinks hasked] at hIDs
  rw [hasked] at hlinks
  obtain ⟨hinOrder, hserved⟩ := newLinks_spec hIDs
  simp only [hlinks]
  exact ⟨trivial, trivial, hinOrder, hserved⟩

/-! ## New pieces of a deployed graph -/

/-- The ports of a network function of the LSI. -/
def LSI.portsOf (lsi : LSI) (nfId : String) : Option (List Nat) :=
  (lsi.networkFunctions[nfId]?).map NfData.nfPortsId

/-- One round of the loop of `updateGraph_add` over the network functions. A function that was
on the LSI before gets the ports it did not have; the names of the ports on the switch
start with the identifier of the LSI. -/
def addNFPieces (env : Environment) (nf : VNFs) : Call GraphInfo Unit := do
  let info ← Call.get
  let ports ← Call.eval (Failure.ofAbort nf.getPortsId)
  let descr ← GraphInfo.onCompute (do
    let c ← Call.get
    Call.eval (Failure.orElse (.abort .undefinedBehaviour) (c.getNFSelectedImplementation nf.id)))
  GraphInfo.onLsi (fun lsi => .ok (lsi.addNF nf.id ports descr.portTypes))
  let info' ← Call.get
  let after ← Call.eval (Failure.orElse (.abort .assertion) (info'.lsi.portsOf nf.id))
  let before := (info.lsi.portsOf nf.id).getD []
  let newPorts :=
    if after.length = nf.ports.length then after else after.filter (fun p => !before.contains p)
  match env.addNFPorts nf.id newPorts with
  | none => do
    GraphInfo.onLsi (fun lsi => .ok (lsi.removeNF nf.id))
    Call.throw
  | some (nfId, switchPorts) => do
    GraphInfo.onLsi (fun lsi => lsi.setNfSwitchPortsID nfId switchPorts)
    let names := newPorts.map
      (fun p : Nat => (toString info'.lsi.dpid ++ "_" ++ nfPortName nf.id p, p))
    GraphInfo.onLsi (fun lsi => .ok (lsi.setNetworkFunctionsPortsNameOnSwitch nfId names))

/-- One round of the loop of `updateGraph_add` over the GRE endpoints. -/
def addEndpointPieces (env : Environment) (ep : EndPointGre) : Call GraphInfo Unit := do
  GraphInfo.onLsi (fun lsi => .ok (lsi.addEndpoint ep))
  match env.addEndpoint ep.id with
  | none => do
    GraphInfo.onLsi (fun lsi => lsi.removeEndpoint ep.id)
    Call.throw
  | some (epName, epId) => GraphInfo.onLsi (fun lsi => lsi.setEndpointPortID epName epId)

/-- A function is started when all its ports on the switch are new ones; otherwise the new ones
are added to it. -/
def isStarted (lsi : LSI) (nf : VNFs) : Except Abort Bool := do
  let ports ← nf.getPortsId
  let names := ((lsi.networkFunctions[nf.id]?).map NfData.portsNameOnSwitch).getD ∅
  pure (names.size == ports.length)

/-- The end of `updateGraph_add`: functions that get new ports must accept them, and when a
function cannot be started all of them are stopped. -/
def startPieces (env : Environment) (nfs : List VNFs) : Call GraphInfo Unit := do
  let info ← Call.get
  let decisions ← Call.eval (Failure.ofAbort (nfs.mapM (isStarted info.lsi)))
  let (started, updated) := (nfs.zip decisions).partition Prod.snd
  Call.assert (updated.all (fun nf => env.updateNF nf.1.id))
  GraphInfo.onCompute (do
    let c ← Call.get
    Call.assert (started.all (fun nf => c.nfs.contains nf.1.id)))
  if started.all (fun nf => env.startNF nf.1.id) then pure ()
  else do
    GraphInfo.onCompute (Call.each (fun nf => Call.update (fun c => do
      let (c, _) ← c.stopNF (env.stopNF nf.id) nf.id
      pure c)) nfs)
    Call.throw

/-- The steps of `updateGraph_add` behind the virtual links. Internal endpoints cannot be
added. -/
def addPorts (env : Environment) (runNFs : Bool) (diff : Highlevel.Graph) : Call GraphInfo Unit := do
  Call.each (addNFPieces env) diff.vnfs
  Call.each (addEndpointPieces env) diff.endPointsGre
  Call.assert diff.endPointsInternal.isEmpty
  if runNFs then startPieces env diff.vnfs else pure ()

/-- `selectImplementation`, as a call. -/
def selectImplementation (env : Environment) : Call ComputeController Bool := do
  let c ← Call.get
  Call.modify (fun _ => (c.selectImplementation env.isSupported).1)
  pure (c.selectImplementation env.isSupported).2

/-- `updateGraph_add`. The state is the static counter of the virtual links and the record of
the graph; it returns the pieces that were added. -/
def addPieces (env : Environment) (physicalPorts : StringMap Nat) (runNFs : Bool)
    (graphID : String) (newGraph : Highlevel.Graph) :
    Call (Nat × GraphInfo) Highlevel.Graph := do
  let (_, info) ← Call.get
  let diff := info.graph.calculateDiff newGraph graphID
  let valid ← GraphInfo.lift
    (checkGraphValidity physicalPorts diff
      (fun nfs => GraphInfo.onCompute (retrieveDescriptions env nfs)))
  if !valid then Call.throw
  else do
    GraphInfo.lift (Call.modify (fun info =>
      { info with graph := (info.graph.addGraphToGraph diff).1 }))
    let selected ← GraphInfo.lift (GraphInfo.onCompute (selectImplementation env))
    if !selected then do
      GraphInfo.lift (Call.modify (fun info => { info with computeController := none }))
      Call.throw
    else do
      let required := identifyVirtualLinksRequired diff.rules
        (fun target => (info.lsi.vlinkOf target).isSome)
      GraphInfo.onLinks (addVlinks env.addVirtualLink required)
      GraphInfo.lift (addPorts env runNFs diff)
      pure diff

theorem addNFPieces_preserves (env : Environment) (nf : VNFs) :
    Preserves GraphInfo.core (addNFPieces env nf) := by
  refine Preserves.get_bind fun info => ?_
  refine (Preserves.bind (.eval _) fun ports => ?_) info
  refine .bind (GraphInfo.onCompute_preserves _) fun descr => ?_
  refine .bind (GraphInfo.onLsi_preserves ?_) fun _ => ?_
  · rintro lsi _ ⟨⟩
    exact LSI.addNF_toVLinks
  · refine .get_bind fun info' => (Preserves.bind (.eval _) fun after => ?_) info'
    dsimp only
    split
    · refine .bind (GraphInfo.onLsi_preserves ?_) fun _ => .throw
      rintro lsi _ ⟨⟩
      rfl
    · refine .bind (GraphInfo.onLsi_preserves fun _ _ => LSI.setNfSwitchPortsID_toVLinks) fun _ => ?_
      refine GraphInfo.onLsi_preserves ?_
      rintro lsi _ ⟨⟩
      exact LSI.setNetworkFunctionsPortsNameOnSwitch_toVLinks

theorem addEndpointPieces_preserves (env : Environment) (ep : EndPointGre) :
    Preserves GraphInfo.core (addEndpointPieces env ep) := by
  refine .bind (GraphInfo.onLsi_preserves ?_) fun _ => ?_
  · rintro lsi _ ⟨⟩
    rfl
  · cases env.addEndpoint ep.id with
    | none =>
      exact .bind (GraphInfo.onLsi_preserves fun _ _ => LSI.removeEndpoint_toVLinks) fun _ => .throw
    | some answer => exact GraphInfo.onLsi_preserves fun _ _ => LSI.setEndpointPortID_toVLinks

theorem startPieces_preserves (env : Environment) (nfs : List VNFs) :
    Preserves GraphInfo.core (startPieces env nfs) := by
  refine Preserves.get_bind fun info => ?_
  refine (Preserves.bind (.eval _) fun decisions => ?_) info
  refine .bind (.assert _) fun _ => .bind (GraphInfo.onCompute_preserves _) fun _ => ?_
  split
  · exact .pure ()
  · exact .bind (GraphInfo.onCompute_preserves _) fun _ => .throw

/-- Ports, endpoints and network functions leave the graph, the links and the rules alone. -/
theorem addPorts_preserves (env : Environment) (runNFs : Bool) (diff : Highlevel.Graph) :
    Preserves GraphInfo.core (addPorts env runNFs diff) := by
  refine .bind (.each (addNFPieces_preserves env) _) fun _ => ?_
  refine .bind (.each (addEndpointPieces_preserves env) _) fun _ => ?_
  refine .bind (.assert _) fun _ => ?_
  split
  · exact startPieces_preserves env diff.vnfs
  · exact .pure ()

variable {diff : Highlevel.Graph}

theorem addPorts_spec (info : GraphInfo) :
    wp (addPorts env runNFs diff)
      (fun _ info' => info'.core = info.core ∧ diff.endPointsInternal = [])
      (fun info' => info'.core = info.core) info := by
  have hinternal : wp (addPorts env runNFs diff) (fun _ _ => diff.endPointsInternal = [])
      (fun _ => True) info := by
    simp only [addPorts, wp_bind, wp_assert]
    refine wp_of_forall (fun _ _ => wp_of_forall (fun _ _ hempty => ?_)
      (fun _ => trivial)) (fun _ => trivial)
    exact wp_of_forall (fun _ _ => List.isEmpty_iff.mp hempty) (fun _ => trivial)
  exact wp_mono (wp_and (addPorts_preserves env runNFs diff info) hinternal)
    (fun _ _ h => h) (fun _ h => h.1)

theorem selectImplementation_spec (info : GraphInfo) :
    wp (GraphInfo.onCompute (selectImplementation env))
      (fun selected info' => info'.core = info.core ∧ (env.Succeeds → selected = true))
      (fun _ => False) info := by
  simp only [GraphInfo.wp_onCompute, selectImplementation, wp_bind, wp_get, wp_modify,
    wp_pure]
  exact fun c _ => ⟨rfl, fun h => ComputeController.selectImplementation_of_supported h.isSupported c⟩

theorem checkGraphValidity_preserves : Preserves GraphInfo.core (checkGraphValidity physicalPorts diff
      (fun nfs => GraphInfo.onCompute (retrieveDescriptions env nfs))) := by
  unfold checkGraphValidity
  split
  · exact .pure false
  · exact GraphInfo.onCompute_preserves _

/-- What `addPieces` has done to a record once it is past the virtual links. -/
structure Added (nextID : Nat) (info : GraphInfo) (diff : Highlevel.Graph)
    (t : Nat × GraphInfo) : Prop where
  graph : t.2.graph = (info.graph.addGraphToGraph diff).1
  controller : t.2.controller = info.controller
  links : info.lsi.InOrder nextID → t.2.lsi.InOrder t.1 ∧ nextID ≤ t.1 ∧
    (∀ target, (t.2.lsi.vlinkOf target).isSome ↔
      (info.lsi.vlinkOf target).isSome ∨ ∃ r ∈ diff.rules, r.requiredVlink = some target) ∧
    ∀ target, (info.lsi.vlinkOf target).isSome → t.2.lsi.linkOf target = info.lsi.linkOf target

variable {info : GraphInfo}

theorem Added.of_core {info' : GraphInfo} {t : Nat × GraphInfo} (h : Added nextID info diff t)
    (hcore : info'.core = t.2.core) :
    Added nextID info diff (t.1, info') := by
  simp only [GraphInfo.core, Prod.mk.injEq] at hcore
  obtain ⟨hgraph, hlinks, hcontroller⟩ := hcore
  refine ⟨hgraph.trans h.graph, hcontroller.trans h.controller, fun hinOrder => ?_⟩
  simp only [hlinks]
  exact h.links hinOrder

/-- Adding the pieces of an update. Where every outside call succeeds, an exception leaves the
record as it was or with all pieces but some ports. -/
theorem addPieces_spec {graphID : String} {newGraph : Highlevel.Graph} :
    let diff := info.graph.calculateDiff newGraph graphID
    wp (addPieces env physicalPorts runNFs graphID newGraph)
      (fun added t => added = diff ∧ diff.endPointsInternal = [] ∧ Added nextID info diff t)
      (fun t => env.Succeeds →
        t.1 = nextID ∧ t.2.core = info.core ∨ Added nextID info diff t) (nextID, info) := by
  intro diff
  simp only [addPieces, GraphInfo.lift, GraphInfo.onLinks, wp_bind, wp_get, wp_focus]
  refine checkGraphValidity_preserves.wp (fun valid info₁ h₁ => ?_)
    (fun info₁ h₁ _ => .inl ⟨trivial, h₁⟩)
  cases valid with
  | false => exact fun _ => .inl ⟨rfl, h₁⟩
  | true =>
    simp only [GraphInfo.core, Prod.mk.injEq] at h₁
    obtain ⟨hgraph, hlinks, hcontroller⟩ := h₁
    simp only [Bool.not_true, Bool.false_eq_true, if_false, wp_bind, wp_focus,
      wp_modify, hgraph]
    refine wp_mono (selectImplementation_spec _) ?_ (fun _ h => h.elim)
    rintro selected info₂ ⟨h₂, hselected⟩
    cases selected with
    | false => exact fun hsucceeds => absurd (hselected hsucceeds) (by simp)
    | true =>
      simp only [GraphInfo.core, Prod.mk.injEq] at h₂
      obtain ⟨hgraph₂, hlinks₂, hcontroller₂⟩ := h₂
      simp only [Bool.not_true, Bool.false_eq_true, if_false, wp_bind, wp_focus,
        hlinks₂, hlinks]
      refine wp_mono (wp_and (addVlinks_throws _ _)
        (wp_imp fun h : info.lsi.InOrder nextID => addVlinks_spec h diff.rules)) ?_ ?_
      · rintro _ ⟨nextID', v⟩ ⟨-, hadded⟩
        have hdone : Added nextID info diff (nextID', { info₂ with
            lsi := { info₂.lsi with toVLinks := v } }) :=
          ⟨hgraph₂, hcontroller₂.trans hcontroller, hadded⟩
        refine wp_mono (addPorts_spec _) ?_ (fun info₃ h₃ _ => .inr (hdone.of_core h₃))
        rintro _ info₃ ⟨h₃, hinternal⟩
        exact ⟨rfl, hinternal, hdone.of_core h₃⟩
      · rintro _ ⟨⟨ID, hnone⟩, -⟩ hsucceeds
        have := hsucceeds.addVirtualLink ID
        simp [hnone] at this

/-! ## Old pieces of a deployed graph -/

/-- The first steps of `updateGraph_remove`: what has to go, taken out of the stored graph. It
returns the identifier of the graph with the pieces. -/
def removeFromGraph (graphID : String) (newGraph : Highlevel.Graph) :
    Call GraphInfo (String × Highlevel.Graph × List RuleRemovedInfo) := do
  let info ← Call.get
  let diff := newGraph.calculateDiff info.graph graphID
  let (graph, removeRuleInfo) ← Call.eval (Failure.ofAbort (info.graph.removeGraphFromGraph diff))
  Call.modify (fun info => { info with graph := graph })
  pure (graph.ID, diff, removeRuleInfo)

/-- One round of the loop of `updateGraph_remove` over the GRE endpoints. -/
def removeEndpointPieces (env : Environment) (ep : EndPointGre) : Call GraphInfo Unit :=
  if env.destroyEndpoint ep.id then GraphInfo.onLsi (fun lsi => lsi.removeEndpoint ep.id)
  else Call.throw

/-- One round of the loop of `updateGraph_remove` over the network functions. Whether the
function could be stopped is not looked at. -/
def removeNFPieces (env : Environment) (runNFs : Bool) (vnf : VNFs) : Call GraphInfo Unit := do
  if runNFs then
    GraphInfo.onCompute (Call.update (fun c => do
      let (c, _) ← c.stopNF (env.stopNF vnf.id) vnf.id
      pure c))
  else pure ()
  if env.destroyNFPorts vnf.id then GraphInfo.onLsi (fun lsi => .ok (lsi.removeNF vnf.id))
  else Call.throw

/-- The steps of `updateGraph_remove` on the tenant LSI: its rules, the virtual links that are
no longer used, the GRE endpoints and the network functions. -/
def removePieces (rofl : Lowlevel.Rofl) (env : Environment) (runNFs : Bool)
    (diff : Highlevel.Graph) (removeRuleInfo : List RuleRemovedInfo) : Call GraphInfo Unit := do
  Call.modify (fun info => { info with
    controller := diff.rules.foldl (fun c rule => c.removeRuleFromID rofl rule.ruleID)
      info.controller })
  let info ← Call.get
  Call.focus (fun info => info.lsi.toVLinks)
    (fun links info => { info with lsi := { info.lsi with toVLinks := links } })
    (Call.each (removeUselessVlinks env.destroyVirtualLink info.graph.rules) removeRuleInfo)
  Call.each (removeEndpointPieces env) diff.endPointsGre
  Call.each (removeNFPieces env runNFs) diff.vnfs

theorem removeEndpointPieces_preserves (env : Environment) (ep : EndPointGre) :
    Preserves GraphInfo.core (removeEndpointPieces env ep) := by
  unfold removeEndpointPieces
  split
  · exact GraphInfo.onLsi_preserves fun _ _ => LSI.removeEndpoint_toVLinks
  · exact .throw

theorem removeNFPieces_preserves (env : Environment) (runNFs : Bool) (vnf : VNFs) :
    Preserves GraphInfo.core (removeNFPieces env runNFs vnf) := by
  have hdestroy : Preserves GraphInfo.core (if env.destroyNFPorts vnf.id then
      GraphInfo.onLsi (fun lsi => .ok (lsi.removeNF vnf.id)) else Call.throw) := by
    split
    · refine GraphInfo.onLsi_preserves ?_
      rintro lsi _ ⟨⟩
      rfl
    · exact .throw
  cases runNFs with
  | false => exact .bind (.pure ()) fun _ => hdestroy
  | true => exact .bind (GraphInfo.onCompute_preserves _) fun _ => hdestroy

/-- What `removePieces` does to a record. -/
structure Reduced (rofl : Lowlevel.Rofl) (nextID : Nat) (info : GraphInfo)
    (diff : Highlevel.Graph) (removeRuleInfo : List RuleRemovedInfo) (info' : GraphInfo) :
    Prop where
  graph : info'.graph = info.graph
  controller : info'.controller =
    diff.rules.foldl (fun c rule => c.removeRuleFromID rofl rule.ruleID) info.controller
  links : info.lsi.InOrder nextID → info'.lsi.InOrder nextID ∧
    (∀ target, (info'.lsi.vlinkOf target).isSome ↔ (info.lsi.vlinkOf target).isSome ∧
      (target ∈ removeRuleInfo →
        info.graph.rules.any (fun again => again.keepsVlink target) = true)) ∧
    ∀ target, (info'.lsi.vlinkOf target).isSome →
      info'.lsi.linkOf target = info.lsi.linkOf target

/-- The loops over endpoints and network functions throw only when an outside call fails. -/
theorem removePorts_spec (eps : List EndPointGre) (vnfs : List VNFs) (info : GraphInfo) :
    wp (do
        each (removeEndpointPieces env) eps
        each (removeNFPieces env runNFs) vnfs)
      (fun _ info' => info'.core = info.core) (fun _ => ¬ env.Succeeds) info := by
  have hframe : Preserves GraphInfo.core (do
      each (removeEndpointPieces env) eps
      each (removeNFPieces env runNFs) vnfs) :=
    .bind (.each (removeEndpointPieces_preserves env) _) fun _ =>
      .each (removeNFPieces_preserves env runNFs) _
  have hthrows : wp (do
      each (removeEndpointPieces env) eps
      each (removeNFPieces env runNFs) vnfs)
      (fun _ _ => True) (fun _ => ¬ env.Succeeds) info := by
    rw [wp_bind]
    refine wp_weaken (wp_each (I := fun _ _ => True) (fun ep _ s _ => ?_) eps info trivial)
      (fun _ s _ => wp_each (I := fun _ _ => True) (fun vnf _ s' _ => ?_) vnfs s trivial)
    · unfold removeEndpointPieces
      split
      · simp only [GraphInfo.wp_onLsi, implies_true]
      · next h => exact fun hsucceeds => h (hsucceeds.destroyEndpoint ep.id)
    · have hdestroy (s : GraphInfo) : wp (if env.destroyNFPorts vnf.id then
          GraphInfo.onLsi (fun lsi => .ok (lsi.removeNF vnf.id)) else Call.throw)
          (fun _ _ => True) (fun _ => ¬ env.Succeeds) s := by
        split
        · simp only [GraphInfo.wp_onLsi, implies_true]
        · next h => exact fun hsucceeds => h (hsucceeds.destroyNFPorts vnf.id)
      simp only [removeNFPieces]
      cases runNFs with
      | false => exact hdestroy s'
      | true =>
        simp only [if_true, wp_bind, GraphInfo.wp_onCompute, wp_update]
        exact fun c _ c' _ => hdestroy _
  exact wp_mono (wp_and (hframe info) hthrows) (fun _ _ h => h.1) (fun _ h => h.2)

/-- Removing the pieces of an update. -/
theorem removePieces_spec {rofl : Lowlevel.Rofl} {removeRuleInfo : List RuleRemovedInfo} (nextID : Nat) :
    wp (removePieces rofl env runNFs diff removeRuleInfo)
      (fun _ info' => Reduced rofl nextID info diff removeRuleInfo info')
      (fun _ => ¬ env.Succeeds) info := by
  simp only [removePieces, wp_bind, wp_modify, wp_get, wp_focus]
  refine wp_mono (wp_and (each_removeUselessVlinks_throws _ _)
    (wp_imp fun h : info.lsi.InOrder nextID =>
      each_removeUselessVlinks_spec h removeRuleInfo)) ?_ ?_
  · rintro _ v ⟨-, hlinks⟩
    rw [← wp_bind]
    refine wp_weaken (removePorts_spec _ _ _) (fun _ info' h => ?_)
    simp only [GraphInfo.core, Prod.mk.injEq] at h
    obtain ⟨hgraph, hv, hcontroller⟩ := h
    refine ⟨hgraph, hcontroller, fun hinOrder => ?_⟩
    simp only [hv]
    exact hlinks hinOrder
  · rintro _ ⟨⟨ID, hfalse⟩, -⟩ hsucceeds
    rw [hsucceeds.destroyVirtualLink ID] at hfalse
    cases hfalse

end UnOrchestrator
