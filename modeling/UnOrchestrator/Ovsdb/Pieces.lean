import UnOrchestrator.Lib.Pieces
import UnOrchestrator.Ovsdb.Numbering

/-!
# The pieces of the operations

Every operation is a list of pieces: one bridge, one port with what is noted for it, one end of a
virtual link, one removal. `Done` says what a piece does. `perform_performs` takes the operations
apart once and for all; invariants over runs only look at pieces.
-/

namespace UnOrchestrator.Ovsdb

open Call

variable {env : Env} {s : State}

inductive Piece where
  | bridge (cli : CreateLsiIn)
  | physical (d : Nat) (p : String)
  | nf (d : Nat) (info : NfPortInfo)
  | tunnel (d : Nat) (id : String)
  | near (d count remote : Nat)
  /-- Between the two loops over the virtual links of a new switch. -/
  | turn (pnumber : Nat)
  | far (d : Nat) (name : String)
  | link (dA dB : Nat)
  | unlink (d idp : Nat)
  | unlinkBoth (id : Nat)
  | unwire (dA idA dB idB : Nat)
  | forget (d : Nat)
  | touch (d : Nat)
  | drop (d : Nat) (name : String)
  | write (d : Nat)
  | dropTunnel (d : Nat) (id : String)

/-! ## States after pieces -/

/-- The ports of a switch are written. -/
def State.writePorts (env : Env) (s : State) (d : Nat) : State :=
  s.written env (.setPorts (s.bridgeOf d) (s.bridgePorts d))

/-- The switch gets a number for a tunnel. -/
def State.countTunnel (s : State) : State := { s with gnumber := s.gnumber + 1 }

/-- A tunnel that is inserted. -/
def State.tunnelSpec (s : State) (d : Nat) (id type : String) (options : List (String × String)) :
    PortSpec :=
  s.spec d (greName s.gnumber) type options (.gre id)

/-- The end of a virtual link is removed. -/
def State.unlinked (env : Env) (s : State) (d idp : Nat) (o : Option String) : State :=
  ((s.touch d).dropLink d (s.portId idp) o).writePorts env d

/-- The port that the walk found is taken out of the lists. -/
def State.dropPort (s : State) (d : Nat) (name : String) : Option String → State :=
  s.take (.port, d) ((s.portL d).filter (· ≠ name))

/-- The tunnel that the walk found is taken out of the lists. -/
def State.dropEndpoint (s : State) (d : Nat) (id : String) : Option String → State :=
  s.take (.gport, d) ((s.endpointL d).erase id)

/-- The switches of two ports are forgotten. -/
def State.clearSwitches (s : State) (idA idB : Nat) : State :=
  { s with vlPortIDtoSwitchID := Function.update (Function.update s.vlPortIDtoSwitchID idA 0) idB 0 }

/-- What the maps forget about a link. -/
def State.unwired (s : State) (dA idA dB idB : Nat) : State :=
  ((((s.clearSwitches idA idB).removeEmptyName dA).removeEmptyName dB).removeLink dA idA).removeLink dB idB

theorem State.unwired_eq (s : State) (dA idA dB idB : Nat) : ∃ names virtualLinkId switches,
    s.unwired dA idA dB idB = { s with
      names := names, virtualLinkId := virtualLinkId, vlPortIDtoSwitchID := switches } :=
  ⟨_, _, _, rfl⟩

theorem foldl_eraseRing (names : List String) (s : State) : ∃ toUuid fromUuid,
    names.foldl eraseRing s = { s with dpdkrToUuid := toUuid, dpdkrFromUuid := fromUuid } := by
  induction names generalizing s with
  | nil => exact ⟨_, _, rfl⟩
  | cons name names ih =>
    obtain ⟨_, _, hrest⟩ := ih (eraseRing s name)
    rw [List.foldl_cons, hrest]
    unfold eraseRing
    split
    · exact ⟨_, _, rfl⟩
    · exact ⟨_, _, rfl⟩

/-- The maps of a switch that goes away. -/
def State.forgotten (s : State) (d : Nat) : State := ((s.portL d).foldl eraseRing s).forget d

/-- A switch goes away. -/
def State.withoutSwitch (env : Env) (s : State) (d : Nat) : State :=
  (s.forgotten d).written env (.setBridges ((s.forgotten d).switchUuid.toList.map Prod.snd))

/-! ## Pieces -/

/-- What a piece does. -/
inductive Done (env : Env) : Piece → State → State → Prop where
  | bridge {cli : CreateLsiIn} {s : State}
      (hverdict : s.server.verdict env (.createBridge (bridgeName s.dnumber)) = none) :
      Done env (.bridge cli) s (s.newSwitch env cli)
  | physical {d : Nat} {p : String} {s : State}
      (hverdict : s.server.verdict env ((s.named d (physicalChoice p)).insertion
        (s.chosenSpec d (physicalChoice p))) = none) :
      Done env (.physical d p) s
        (((s.named d (physicalChoice p)).inserted env (s.chosenSpec d (physicalChoice p))).pushName
          (.port, d) p)
  | nf {d : Nat} {info : NfPortInfo} {s s₁ s' : State} {choice : PortChoice}
      (hchosen : Chosen env info.name d s (some info.type) choice s₁)
      (hverdict : s₁.server.verdict env ((s₁.named d choice).insertion (s₁.chosenSpec d choice)) = none)
      (hs' : s' = (s₁.named d choice).inserted env (s₁.chosenSpec d choice) ∨
        s' = ((s₁.named d choice).inserted env (s₁.chosenSpec d choice)).tick) :
      Done env (.nf d info) s s'
  | tunnel {d : Nat} {id type : String} {options : List (String × String)} {s : State}
      (hverdict : s.server.verdict env
        (s.countTunnel.insertion (s.tunnelSpec d id type options)) = none) :
      Done env (.tunnel d id) s
        ((s.countTunnel.inserted env (s.tunnelSpec d id type options)).pushName (.gport, d) id)
  | near {d count remote : Nat} {s : State}
      (hverdict : s.server.verdict env (s.startLink.insertion (s.localSpec d)) = none) :
      Done env (.near d count remote) s (s.localEnd env d count remote)
  | turn {pnumber : Nat} {s : State} :
      Done env (.turn pnumber) s { s with pnumber := pnumber, dnumber := s.dnumber + 1 }
  | far {d : Nat} {name : String} {s : State}
      (hverdict : s.server.verdict env ((s.beforeRemote d name).insertion
        (s.linkEnd d name (s.peerN name))) = none) :
      Done env (.far d name) s (s.remoteEnd env d name)
  | link {dA dB : Nat} {s : State}
      (hfirst : s.server.verdict env (s.takeNames.insertion (s.firstSpec dA)) = none)
      (hsecond : (s.firstEnd env dA).server.verdict env
        ((s.firstEnd env dA).insertion (s.secondSpec dB)) = none) :
      Done env (.link dA dB) s (s.linked env dA dB)
  | unlink {d idp : Nat} {o : Option String} {s : State}
      (hfind : Paired.find (s.portId idp) (s.vportL d) (s.vportUuid d) = .ok o) :
      Done env (.unlink d idp) s (s.unlinked env d idp o)
  | unlinkBoth {id : Nat} {s s₁ s' : State}
      (hnear : Done env (.unlink (s.vlPortIDtoSwitchID id) id) s s₁)
      (hfar : Done env (.unlink (s₁.vlPortIDtoSwitchID (s₁.vlLocalPortIDtoRemotePortID id))
        (s₁.vlLocalPortIDtoRemotePortID id)) s₁ s') :
      Done env (.unlinkBoth id) s s'
  | unwire {dA idA dB idB : Nat} {s : State} :
      Done env (.unwire dA idA dB idB) s (s.unwired dA idA dB idB)
  | forget {d : Nat} {s : State} :
      Done env (.forget d) s (s.withoutSwitch env d)
  | touch {d : Nat} {s : State} : Done env (.touch d) s (s.touch d)
  | drop {d : Nat} {name : String} {o : Option String} {s : State}
      (hfind : Paired.find name (s.portL d) (s.portUuid d) = .ok o) :
      Done env (.drop d name) s (s.dropPort d name o)
  | write {d : Nat} {s : State} : Done env (.write d) s (s.writePorts env d)
  | dropTunnel {d : Nat} {id : String} {o : Option String} {s : State}
      (hfind : Paired.find id (s.endpointL d) (s.gportUuid d) = .ok o) :
      Done env (.dropTunnel d id) s (((s.touch d).dropEndpoint d id o).writePorts env d)

/-- A call that is made of pieces. -/
abbrev MadeOf (env : Env) {α : Type} (pieces : List Piece) (x : Call State α) (s : State) : Prop :=
  Performs (Done env) pieces x s

variable {d : Nat}

theorem addPhysicalPort_madeOf {p : String} :
    MadeOf env [.physical d p] (addPhysicalPort env d p) s := by
  refine .single ?_
  simp only [addPhysicalPort, addPort, choosePort, activated, lastPort, wp_bind, wp_modify, wp_get,
    wp_pure, wp_insertPort, Bool.false_eq_true, if_false]
  exact fun hverdict _ => .physical hverdict

theorem addNfPort_madeOf {info : NfPortInfo} :
    MadeOf env [.nf d info] (addNfPort env d info) s := by
  refine .single ?_
  simp only [addNfPort, lastPort, wp_bind, wp_get, wp_pure]
  exact wp_addPort fun choice s₁ hchosen hverdict s' hs' => .nf hchosen hverdict hs'

theorem addLsiEndpoint_madeOf {ep : String × (Fin 5 → String)} :
    MadeOf env [.tunnel d ep.1] (addLsiEndpoint env d ep) s := by
  refine .single ?_
  simp only [addLsiEndpoint, addEndpointPort, lastPort, wp_bind, wp_modify, wp_get, wp_pure,
    wp_incGnumber, wp_insertPort]
  exact fun _ hverdict _ => .tunnel hverdict

theorem addEndpoint_madeOf {id : String} {params : Fin 5 → String} :
    MadeOf env [.tunnel d id] (addEndpoint env d id params) s := by
  refine .single ?_
  simp only [addEndpoint, addEndpointPort, lastPort, wp_bind, wp_modify, wp_get, wp_pure,
    wp_incGnumber, wp_insertPort]
  exact fun _ hverdict _ => .tunnel hverdict

theorem addLocalEnd_madeOf {count remote : Nat} :
    MadeOf env [.near d count remote] (addLocalEnd env d count remote) s := by
  refine .single ?_
  rw [wp_addLocalEnd]
  exact fun _ hverdict _ _ => .near hverdict

theorem addRemoteEnd_madeOf {link : Nat × String} :
    MadeOf env [.far link.1 link.2] (addRemoteEnd env link) s := by
  refine .single ?_
  rw [wp_addRemoteEnd]
  exact fun _ hverdict _ _ => .far hverdict

theorem addVirtualLink_madeOf {dA dB : Nat} :
    MadeOf env [.link dA dB] (addVirtualLink env dA dB) s := by
  refine .single ?_
  rw [wp_addVirtualLink]
  exact fun _ _ hfirst _ hsecond _ => .link hfirst hsecond

theorem State.bridgeOf_take (s : State) (key : Family × Nat) (names : List String)
    (o : Option String) (d : Nat) : (s.take key names o).bridgeOf d = s.bridgeOf d := by
  cases o <;> rfl

theorem State.bridgePorts_dropLink_touch (s : State) (d : Nat) (name : String) (o : Option String) :
    ((s.touch d).dropLink d name o).bridgePorts d = (s.dropLink d name o).bridgePorts d := by
  cases o <;> rfl

theorem cmdDeleteVirtualLink_done {idp : Nat} :
    wp (cmdDeleteVirtualLink env d idp) (fun _ s' => Done env (.unlink d idp) s s') (fun _ => False) s := by
  rw [wp_cmdDeleteVirtualLink]
  intro o hfind
  have hdone : Done env (.unlink d idp) s _ := .unlink hfind
  rwa [State.unlinked, State.writePorts, State.bridgePorts_dropLink_touch, State.dropLink,
    State.bridgeOf_take, State.bridgeOf_touch] at hdone

theorem cmdDeleteVirtualLink_madeOf {idp : Nat} :
    MadeOf env [.unlink d idp] (cmdDeleteVirtualLink env d idp) s :=
  .single (wp_mono cmdDeleteVirtualLink_done (fun _ _ h => h) fun _ h => h.elim)

theorem deleteLinkOf_madeOf {id : Nat} : MadeOf env [.unlinkBoth id] (deleteLinkOf env id) s := by
  refine .single ?_
  simp only [deleteLinkOf, wp_bind, wp_get]
  refine wp_mono cmdDeleteVirtualLink_done (fun _ s₁ hnear => ?_) fun _ h => h.elim
  exact wp_mono cmdDeleteVirtualLink_done (fun _ s' hfar => .unlinkBoth hnear hfar) fun _ h => h.elim

theorem removePort_madeOf {name : String} :
    MadeOf env [.drop d name] (removePort d name) s := by
  refine .single ?_
  simp only [removePort, wp_bind, wp_get, wp_eval_ofAbort]
  intro o hfind
  have hdone : Done env (.drop d name) s _ := .drop hfind
  cases o with
  | none => exact hdone
  | some u => exact hdone

/-! ## Operations -/

/-- The ports of a new switch that are not ends of virtual links. -/
def portPieces (d : Nat) (cli : CreateLsiIn) : List Piece :=
  cli.physicalPorts.map (.physical d) ++
    (cli.networkFunctions.toList.flatMap fun nf => nf.2.map (.nf d)) ++
    cli.endpoints.toList.map fun ep => .tunnel d ep.1

/-- The two loops over the links of a new switch. -/
def linkPieces (d pnumber : Nat) (remotes : List Nat) : List Piece :=
  remotes.map (.near d remotes.length) ++
    .turn pnumber :: remotes.mapIdx fun i remote => .far remote (vportName (pnumber + 2 * i + 1))

/-- The pieces of a new switch. -/
def lsiPieces (s : State) (cli : CreateLsiIn) : List Piece :=
  .bridge cli :: (portPieces s.dnumber cli ++ linkPieces s.dnumber s.pnumber cli.virtualLinksRemoteLSI)

/-- The pieces of an operation. -/
def Operation.pieces (s : State) : Operation → List Piece
  | .createLsi cli => lsiPieces s cli
  | .destroyLsi d => (s.virtualLinkId (s.switchId d)).map .unlinkBoth ++ [.forget d]
  | .addNFPorts d _ ports => ports.map (.nf d)
  | .destroyNFPorts d nfPorts =>
    if nfPorts.isEmpty then [] else
      .touch d :: (nfPorts.toList.map fun port => (s.peersNames port).getD port).map (.drop d) ++
        [.write d]
  | .addEndpoint d id _ => [.tunnel d id]
  | .destroyEndpoint d id => if id = "" then [] else [.dropTunnel d id]
  | .addVirtualLink dA dB => [.link dA dB]
  | .destroyVirtualLink dA idA dB idB =>
    [.unlink dA idA, .unlink dB idB, .unwire dA idA dB idB]

theorem destroyVirtualLink_madeOf {dA idA dB idB : Nat} :
    MadeOf env [.unlink dA idA, .unlink dB idB, .unwire dA idA dB idB]
      (destroyVirtualLink env dA idA dB idB) s := by
  refine cmdDeleteVirtualLink_madeOf.bind fun _ s₁ _ => ?_
  refine cmdDeleteVirtualLink_madeOf.bind fun _ s₂ _ => .single ?_
  simp only [wp_bind, wp_modify]
  exact .unwire

theorem destroyEndpoint_madeOf {id : String} :
    MadeOf env (Operation.pieces s (.destroyEndpoint d id)) (destroyEndpoint env d id) s := by
  rw [destroyEndpoint, Operation.pieces]
  split_ifs
  · exact .pure
  · refine .single ?_
    simp only [wp_bind, wp_switchUuidAt, wp_get, wp_eval_ofAbort]
    intro o hfind
    have hdone : Done env (.dropTunnel d id) s _ := .dropTunnel hfind
    rw [State.writePorts, State.dropEndpoint, State.bridgeOf_take, State.bridgeOf_touch] at hdone
    cases o with
    | none =>
      simp only [wp_bind, wp_pure, wp_get]
      exact wp_transact_ignored.mpr hdone
    | some u =>
      simp only [wp_bind, wp_modify, wp_get]
      exact wp_transact_ignored.mpr hdone

theorem destroyLsi_madeOf :
    MadeOf env (Operation.pieces s (.destroyLsi d)) (destroyLsi env d) s := by
  have hlinks : MadeOf env ((s.virtualLinkId (s.switchId d)).map .unlinkBoth)
      (each (deleteLinkOf env) (s.virtualLinkId (s.switchId d))) s := by
    rw [List.map_eq_flatMap]
    exact .each (fun _ _ => deleteLinkOf_madeOf) _
  refine hlinks.bind fun _ s₁ _ => .single ?_
  simp only [wp_bind, wp_modify, wp_get]
  exact wp_transact_ignored.mpr .forget

theorem State.bridgeOf_dropPort (s : State) (d e : Nat) (name : String) (o : Option String) :
    (s.dropPort d name o).bridgeOf e = s.bridgeOf e := by
  cases o <;> rfl

theorem destroyNFPorts_madeOf {nfPorts : StringSet} :
    MadeOf env (Operation.pieces s (.destroyNFPorts d nfPorts)) (destroyNFPorts env d nfPorts) s := by
  rw [destroyNFPorts, Operation.pieces]
  split_ifs
  · exact .pure
  · have htouch : MadeOf env [.touch d] (switchUuidAt d) s := by
      refine .single ?_
      rw [wp_switchUuidAt]
      exact .touch
    have hbridge : wp (switchUuidAt d) (fun bridge s₁ => bridge = s₁.bridgeOf d) (fun _ => True) s := by
      rw [wp_switchUuidAt]
      exact (s.bridgeOf_touch d).symm
    have hloop (names : List String) (s₁ : State) :
        MadeOf env (names.map (.drop d)) (each (removePort d) names) s₁ := by
      rw [List.map_eq_flatMap]
      exact .each (fun _ _ => removePort_madeOf) names
    refine Performs.get_bind ?_
    rw [List.cons_append, ← List.singleton_append]
    refine htouch.bind_of_wp hbridge fun bridge s₁ _ hbridge => ?_
    refine (hloop _ s₁).bind fun _ s₂ hdropped => .single ?_
    -- the removals do not change where the bridge is
    have hsame : s₂.bridgeOf d = s₁.bridgeOf d := by
      refine hdropped.keeps (I := fun s => s.bridgeOf d = s₁.bridgeOf d) ?_ rfl
      intro piece hpiece s s' hdone hs
      obtain ⟨name, -, rfl⟩ := List.mem_map.mp hpiece
      cases hdone with
      | drop hfind => rw [State.bridgeOf_dropPort, hs]
    simp only [wp_bind, wp_get, wp_pure]
    rw [hbridge, ← hsame]
    exact wp_transact_ignored.mpr .write

theorem addLsiPorts_madeOf {cli : CreateLsiIn} :
    MadeOf env (portPieces d cli) (addLsiPorts env d cli) s := by
  have hphysical (s : State) : MadeOf env (cli.physicalPorts.map (.physical d))
      (gather (addPhysicalPort env d) cli.physicalPorts) s := by
    rw [List.map_eq_flatMap]
    exact .gather (fun _ _ => addPhysicalPort_madeOf) _
  have hfunction (nf : String × List NfPortInfo) (s : State) :
      MadeOf env (nf.2.map (.nf d)) (addNetworkFunction env d nf) s := by
    rw [List.map_eq_flatMap, ← List.append_nil (List.flatMap _ _)]
    exact (Performs.gather (fun _ _ => addNfPort_madeOf) nf.2).bind fun _ _ _ => .pure
  have hendpoints (s : State) : MadeOf env (cli.endpoints.toList.map fun ep => .tunnel d ep.1)
      (gather (addLsiEndpoint env d) cli.endpoints.toList) s := by
    rw [List.map_eq_flatMap]
    exact .gather (fun _ _ => addLsiEndpoint_madeOf) _
  rw [portPieces, List.append_assoc, ← List.append_nil (List.map _ cli.endpoints.toList)]
  refine (hphysical s).bind fun physical s₁ _ => ?_
  refine (Performs.gather hfunction _).bind fun functions s₂ _ => ?_
  exact (hendpoints s₂).bind fun endpoints s₃ _ => .pure

theorem addLsiLinks_madeOf {remotes : List Nat} :
    MadeOf env (linkPieces d s.pnumber remotes) (addLsiLinks env d remotes) s := by
  have hnear : MadeOf env (remotes.map (.near d remotes.length))
      (gather (addLocalEnd env d remotes.length) remotes) s := by
    rw [List.map_eq_flatMap]
    exact .gather (fun _ _ => addLocalEnd_madeOf) _
  refine .get_bind ?_
  refine hnear.bind_of_wp (gather_addLocalEnd remotes le_rfl s) fun links s₁ _ hlinks => ?_
  have hfars : (remotes.zip (links.map Prod.fst)).flatMap (fun link => [Piece.far link.1 link.2]) =
      remotes.mapIdx fun i remote => .far remote (vportName (s.pnumber + 2 * i + 1)) := by
    rw [hlinks.links, ← List.map_eq_flatMap]
    apply List.ext_getElem
    · simp
    · simp
  have hfar (s₂ : State) : MadeOf env _ (each (addRemoteEnd env) (remotes.zip (links.map Prod.fst))) s₂ :=
    .each (fun _ _ => addRemoteEnd_madeOf) _
  rw [hfars] at hfar
  unfold Performs
  simp only [wp_bind, wp_modify, wp_incDnumber, wp_pure]
  intro _
  have hturn : Done env (.turn s.pnumber) s₁ _ := .turn
  exact wp_weaken (hfar _) (fun _ s' hchain => .cons hturn hchain)

theorem createLsi_madeOf {cli : CreateLsiIn} : MadeOf env (lsiPieces s cli) (createLsi env cli) s := by
  unfold MadeOf Performs
  rw [wp_createLsi]
  intro hverdict
  have hbridge : Done env (.bridge cli) s (s.newSwitch env cli) := .bridge hverdict
  have hlinks : wp (addLsiPorts env s.dnumber cli) (fun _ s₁ => s₁.pnumber = s.pnumber)
      (fun _ => True) (s.newSwitch env cli) := by
    refine wp_weaken (addLsiPorts_numbers _) (fun ports s₁ h => ?_)
    obtain ⟨new, hnew, -⟩ := h
    exact congrArg LinkPart.pnumber hnew.1
  have hports : MadeOf env (portPieces s.dnumber cli) (addLsiPorts env s.dnumber cli)
      (s.newSwitch env cli) := addLsiPorts_madeOf
  refine wp_mono (wp_and hports hlinks) (fun ports s₁ h => ?_) (fun _ _ => trivial)
  obtain ⟨hchain, hpnumber⟩ := h
  have hrest : MadeOf env _ (addLsiLinks env s.dnumber cli.virtualLinksRemoteLSI) s₁ :=
    addLsiLinks_madeOf
  rw [hpnumber] at hrest
  exact wp_weaken hrest (fun _ s' hchain' => .cons hbridge (hchain.append hchain'))

theorem perform_performs {op : Operation} : MadeOf env (op.pieces s) (perform env op) s := by
  cases op with
  | createLsi => exact createLsi_madeOf.map
  | destroyLsi => exact destroyLsi_madeOf.map
  | addNFPorts d nfId ports =>
    refine Performs.map ?_
    rw [Operation.pieces, List.map_eq_flatMap, ← List.append_nil (List.flatMap _ _)]
    exact (Performs.gather (fun _ _ => addNfPort_madeOf) ports).bind fun _ _ _ => .pure
  | destroyNFPorts => exact destroyNFPorts_madeOf.map
  | addEndpoint => exact addEndpoint_madeOf.map
  | destroyEndpoint => exact destroyEndpoint_madeOf.map
  | addVirtualLink => exact addVirtualLink_madeOf.map
  | destroyVirtualLink => exact destroyVirtualLink_madeOf.map

end UnOrchestrator.Ovsdb
