import UnOrchestrator.GraphManager.Tenant

/-!
# The calls of an update

`updateGraph_add` asks the switch for the new ports of network functions, and the compute controller
to start a function or to give it ports while it runs. `addPiecesCalls` is `addPieces` with these
calls as its result, and `addPieces_eq` says that nothing else differs. A round of the loop over the
network functions is in two halves here.
-/

namespace UnOrchestrator

open GraphInfo (lift)

open Call

open Highlevel

/-- What `updateGraph_add` asks of the compute controller. -/
inductive ComputeCall where
  | startNF (id : String)
  | updateNF (id : String) (newPorts : List Nat)
  deriving DecidableEq, Repr

namespace ComputeCall

/-- The function that a call is about. -/
def id : ComputeCall → String
  | startNF id => id
  | updateNF id _ => id

/-- Ports that are added must be accepted. -/
def isUpdated (env : Environment) : ComputeCall → Bool
  | startNF _ => true
  | updateNF id _ => env.updateNF id

/-- Functions that are started must be known. -/
def isKnown (c : ComputeController) : ComputeCall → Bool
  | startNF id => c.nfs.contains id
  | updateNF _ _ => true

def succeeds (env : Environment) : ComputeCall → Bool
  | startNF id => env.startNF id
  | updateNF _ _ => true

end ComputeCall

/-- The decision for one function. -/
def startCall (lsi : LSI) (nf : VNFs) : Except Abort ComputeCall := do
  let started ← isStarted lsi nf
  let ports ← nf.getPortsId
  pure (if started then .startNF nf.id else .updateNF nf.id ports)

/-- The decisions for all functions, carried out. -/
def startCalls (env : Environment) (nfs : List VNFs) : Call GraphInfo (List ComputeCall) := do
  let info ← Call.get
  let calls ← Call.eval (Failure.ofAbort (nfs.mapM (startCall info.lsi)))
  Call.assert (calls.all (ComputeCall.isUpdated env))
  GraphInfo.onCompute (do
    let c ← Call.get
    Call.assert (calls.all (ComputeCall.isKnown c)))
  if calls.all (ComputeCall.succeeds env) then pure calls
  else do
    GraphInfo.onCompute (Call.each (fun nf => Call.update (fun c => do
      let (c, _) ← c.stopNF (env.stopNF nf.id) nf.id
      pure c)) nfs)
    Call.throw

/-- The first half of a round of the loop of `updateGraph_add` over the network functions: the
function gets its ports on the LSI. It returns `newPortList`, the ports that are requested from
the switch. -/
def newPortList (nf : VNFs) : Call GraphInfo (List Nat) := do
  let info ← Call.get
  let ports ← Call.eval (Failure.ofAbort nf.getPortsId)
  let descr ← GraphInfo.onCompute (do
    let c ← Call.get
    Call.eval (Failure.orElse (.abort .undefinedBehaviour) (c.getNFSelectedImplementation nf.id)))
  GraphInfo.onLsi (fun lsi => .ok (lsi.addNF nf.id ports descr.portTypes))
  let info' ← Call.get
  let after ← Call.eval (Failure.orElse (.abort .assertion) (info'.lsi.portsOf nf.id))
  let before := (info.lsi.portsOf nf.id).getD []
  pure (if after.length = nf.ports.length then after
    else after.filter (fun p => !before.contains p))

/-- The second half: the switch is asked for the ports. -/
def attachPorts (env : Environment) (nf : VNFs) (newPorts : List Nat) : Call GraphInfo Unit := do
  let info ← Call.get
  match env.addNFPorts nf.id newPorts with
  | none => do
    GraphInfo.onLsi (fun lsi => .ok (lsi.removeNF nf.id))
    Call.throw
  | some (nfId, switchPorts) => do
    GraphInfo.onLsi (fun lsi => lsi.setNfSwitchPortsID nfId switchPorts)
    let names := newPorts.map
      (fun p : Nat => (toString info.lsi.dpid ++ "_" ++ nfPortName nf.id p, p))
    GraphInfo.onLsi (fun lsi => .ok (lsi.setNetworkFunctionsPortsNameOnSwitch nfId names))

/-- The loop over the network functions, with the ports that are requested from the switch. -/
def portRequests (env : Environment) : List VNFs → Call GraphInfo (List (String × List Nat))
  | [] => pure []
  | nf :: nfs => do
    let newPorts ← newPortList nf
    attachPorts env nf newPorts
    let rest ← portRequests env nfs
    pure ((nf.id, newPorts) :: rest)

theorem startCall_id {lsi : LSI} {nf : VNFs} {call : ComputeCall}
    (h : startCall lsi nf = .ok call) : call.id = nf.id := by
  simp only [startCall, Abort.bind_eq_ok, Abort.pure_eq_ok] at h
  obtain ⟨started, -, ports, -, rfl⟩ := h
  cases started <;> rfl

/-- The calls of an update: the ports requested from the switch, and what is asked of the compute
controller. -/
structure UpdateCalls where
  requests : List (String × List Nat)
  compute : List ComputeCall
  deriving DecidableEq

def addPortsCalls (env : Environment) (runNFs : Bool) (diff : Highlevel.Graph) :
    Call GraphInfo UpdateCalls := do
  let requests ← portRequests env diff.vnfs
  Call.each (addEndpointPieces env) diff.endPointsGre
  Call.assert diff.endPointsInternal.isEmpty
  let compute ← if runNFs then startCalls env diff.vnfs else pure []
  pure ⟨requests, compute⟩

/-- `addPieces`, with its calls. -/
def addPiecesCalls (env : Environment) (physicalPorts : StringMap Nat) (runNFs : Bool)
    (graphID : String) (newGraph : Highlevel.Graph) :
    Call (Nat × GraphInfo) (Highlevel.Graph × UpdateCalls) := do
  let (_, info) ← Call.get
  let diff := info.graph.calculateDiff newGraph graphID
  let valid ← GraphInfo.lift
    (checkGraphValidity physicalPorts diff
      (fun nfs => GraphInfo.onCompute (retrieveDescriptions env nfs)))
  if !valid then Call.throw
  else do
    GraphInfo.lift (Call.modify (fun info =>
      { info with graph := (info.graph.addGraphToGraph diff).1 }))
    let selected ← GraphInfo.lift (GraphInfo.onCompute (selectImplementation env))
    if !selected then do
      GraphInfo.lift (Call.modify (fun info => { info with computeController := none }))
      Call.throw
    else do
      let required := identifyVirtualLinksRequired diff.rules
        (fun target => (info.lsi.vlinkOf target).isSome)
      GraphInfo.onLinks (addVlinks env.addVirtualLink required)
      let calls ← GraphInfo.lift (addPortsCalls env runNFs diff)
      pure (diff, calls)

/-! ## The calls are those of the model -/

theorem addNFPieces_eq (env : Environment) (nf : VNFs) :
    addNFPieces env nf = newPortList nf >>= attachPorts env nf := by
  simp only [newPortList, addNFPieces, bind_assoc, pure_bind]
  refine bind_congr fun info => bind_congr fun ports => bind_congr fun descr => ?_
  refine bind_congr fun _ => ?_
  -- reading the ports of the function leaves the state alone
  funext info'
  simp only [bind_apply, Call.get, eval]
  cases Failure.orElse (.abort .assertion) (info'.lsi.portsOf nf.id) with
  | ok after => rfl
  | error failure => cases failure <;> rfl

theorem each_addNFPieces_eq (env : Environment) (nfs : List VNFs) :
    each (addNFPieces env) nfs = (fun _ => ()) <$> portRequests env nfs := by
  induction nfs with
  | nil => rfl
  | cons nf nfs ih =>
    simp only [each, portRequests, addNFPieces_eq, ih, map_eq_pure_bind, bind_assoc, pure_bind]

/-- The call that a decision leads to. -/
def callFor (nf : VNFs × Bool) : ComputeCall :=
  if nf.2 then .startNF nf.1.id else .updateNF nf.1.id (nf.1.getPortsId.toOption.getD [])

theorem mapM_startCall (lsi : LSI) (nfs : List VNFs) :
    nfs.mapM (startCall lsi) =
      (nfs.mapM (isStarted lsi)).map fun decisions => (nfs.zip decisions).map callFor := by
  induction nfs with
  | nil => rfl
  | cons nf nfs ih =>
    simp only [List.mapM_cons, ih, startCall, isStarted]
    cases hports : nf.getPortsId with
    | error why => rfl
    | ok ports =>
      cases nfs.mapM (isStarted lsi) with
      | error why => rfl
      | ok decisions => simp [pure, Except.pure, bind, Except.bind, Except.map, hports, callFor]

theorem startPieces_eq (env : Environment) (nfs : List VNFs) :
    startPieces env nfs = (fun _ => ()) <$> startCalls env nfs := by
  simp only [startPieces, startCalls, map_eq_pure_bind, bind_assoc]
  refine bind_congr fun info => ?_
  rw [mapM_startCall]
  cases nfs.mapM (isStarted info.lsi) with
  | error why => rfl
  | ok decisions =>
    simp only [Except.map, Failure.ofAbort, eval_ok, pure_bind, List.partition_eq_filter_filter,
      List.all_filter, List.all_map]
    -- each question is asked of the calls it is about
    have hupdated : ComputeCall.isUpdated env ∘ callFor =
        fun nf => !(not ∘ Prod.snd) nf || env.updateNF nf.1.id := by
      ext ⟨nf, started⟩
      cases started <;> rfl
    have hknown (c : ComputeController) : ComputeCall.isKnown c ∘ callFor =
        fun nf => !nf.2 || c.nfs.contains nf.1.id := by
      ext ⟨nf, started⟩
      cases started <;> rfl
    have hstarts : ComputeCall.succeeds env ∘ callFor = fun nf => !nf.2 || env.startNF nf.1.id := by
      ext ⟨nf, started⟩
      cases started <;> rfl
    simp only [hupdated, hknown, hstarts]
    refine bind_congr fun _ => bind_congr fun _ => ?_
    split
    · rfl
    · rw [bind_assoc]
      rfl

theorem addPorts_eq (env : Environment) (runNFs : Bool) (diff : Highlevel.Graph) :
    addPorts env runNFs diff = (fun _ => ()) <$> addPortsCalls env runNFs diff := by
  simp only [addPorts, addPortsCalls, each_addNFPieces_eq, startPieces_eq, map_eq_pure_bind, bind_assoc,
    pure_bind]
  cases runNFs with
  | false => rfl
  | true => simp only [if_true, bind_assoc, pure_bind]

theorem addPieces_eq (env : Environment) (physicalPorts : StringMap Nat) (runNFs : Bool)
    (graphID : String) (newGraph : Highlevel.Graph) :
    addPieces env physicalPorts runNFs graphID newGraph =
      Prod.fst <$> addPiecesCalls env physicalPorts runNFs graphID newGraph := by
  simp only [addPieces, addPiecesCalls, addPorts_eq, lift, focus_map]
  simp only [map_eq_pure_bind, bind_assoc]
  refine bind_congr fun state => bind_congr fun valid => ?_
  cases valid with
  | false => rfl
  | true =>
    simp only [Bool.not_true, Bool.false_eq_true, if_false, bind_assoc]
    refine bind_congr fun _ => bind_congr fun selected => ?_
    cases selected with
    | false => rfl
    | true =>
      simp only [Bool.not_true, Bool.false_eq_true, if_false, bind_assoc, pure_bind]

end UnOrchestrator
