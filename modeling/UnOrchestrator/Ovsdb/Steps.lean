import UnOrchestrator.Ovsdb.Commands

/-!
# What the steps of the commands do

One rule for each step that the commands are built from. The main one is `wp_insertPort`: an
insertion that does not throw adds a row and its uuid and moves the counter on.
-/

namespace UnOrchestrator.Ovsdb

open Call

variable {env : Env} {s : State} {α : Type}

section Counters

variable {Q : Unit → State → Prop} {E : State → Prop}

private theorem wp_bump {get : State → Nat} {set : Nat → State → State} :
    wp (Call.update fun s => (next (get s)).map fun n => set n s) Q E s ↔
      (get s + 1 < intLimit → Q () (set (get s + 1) s)) := by
  rw [wp_update]
  unfold next
  split_ifs with h
  · simp [Except.map, h]
  · simp [Except.map, h]

@[simp] theorem wp_incRnumber :
    wp incRnumber Q E s ↔ (s.rnumber + 1 < intLimit → Q () { s with rnumber := s.rnumber + 1 }) :=
  wp_bump

@[simp] theorem wp_incDnumber :
    wp incDnumber Q E s ↔ (s.dnumber + 1 < intLimit → Q () { s with dnumber := s.dnumber + 1 }) :=
  wp_bump

@[simp] theorem wp_incPnumber :
    wp incPnumber Q E s ↔ (s.pnumber + 1 < intLimit → Q () { s with pnumber := s.pnumber + 1 }) :=
  wp_bump

@[simp] theorem wp_incGnumber :
    wp incGnumber Q E s ↔ (s.gnumber + 1 < intLimit → Q () { s with gnumber := s.gnumber + 1 }) :=
  wp_bump

end Counters

/-- An entry of `switch_uuid` that is read. -/
def State.touch (s : State) (d : Nat) : State :=
  { s with switchUuid := s.switchUuid.insertIfNew d "" }

/-- The uuid that `switch_uuid` has for a switch. -/
def State.bridgeOf (s : State) (d : Nat) : String := s.switchUuid.getD d ""

theorem State.bridgeOf_touch (s : State) (d : Nat) : (s.touch d).bridgeOf d = s.bridgeOf d := by
  rw [State.bridgeOf, State.touch, State.bridgeOf, Std.ExtTreeMap.getD_insertIfNew]
  by_cases h : d ∈ s.switchUuid
  · simp [h]
  · simp [h, Std.ExtTreeMap.getD_eq_fallback]

variable {E : State → Prop} {d : Nat} {p : String} {nfPort : Option PortType}
  {Q : Unit → State → Prop}

@[simp] theorem wp_switchUuidAt {Q : String → State → Prop} :
    wp (switchUuidAt d) Q E s ↔ Q (s.bridgeOf d) (s.touch d) := by
  simp only [switchUuidAt, wp_bind, wp_modify, wp_get, wp_pure]
  exact iff_of_eq (congrArg (fun u => Q u (s.touch d)) (s.bridgeOf_touch d))

/-- A script takes time. -/
def State.tick (s : State) : State :=
  { s with server := { s.server with clock := s.server.clock + 1 } }

@[simp] theorem wp_runScript {Q : Bool → State → Prop} :
    wp (runScript env) Q E s ↔ Q (env.script s.server.clock) s.tick := Iff.rfl

theorem wp_transact {txn : Transaction} {Q : List Result → State → Prop} :
    wp (transact env txn) Q E s ↔
      (s.server.verdict env txn = none →
        Q (s.server.results env txn) { s with server := s.server.commit env txn }) ∧
      ∀ k, s.server.verdict env txn = some k →
        Q ((s.server.results env txn).take k ++ [.details]) { s with server := s.server.refuse txn } := by
  unfold transact
  simp only [wp_bind, wp_get]
  cases s.server.verdict env txn with
  | none => simp only [wp_bind, wp_modify, wp_pure, forall_const, reduceCtorEq, false_imp_iff, and_true]
  | some k => simp only [wp_bind, wp_modify, wp_pure, reduceCtorEq, false_imp_iff, true_and,
      Option.some.injEq, forall_eq']

/-- What is chosen for a port, and what is noted for it. -/
inductive Chosen (env : Env) (p : String) (d : Nat) (s : State) :
    Option PortType → PortChoice → State → Prop where
  | physical : Chosen env p d s none (physicalChoice p) s
  | ring {type : PortType} {ring : String} (htype : type = .ivshmem ∨ type = .dpdkr)
      (hdpdk : env.dpdk = true) (hfree : s.findFreeDpdkr = some ring) :
      Chosen env p d s (some type) (ringChoice ring) (s.takeRing p ring)
  | usvhost (hdpdk : env.dpdk = true) :
      Chosen env p d s (some .usvhost) (plainChoice (lsiPortName d p) "dpdkvhostuser") s.tick
  | veth : Chosen env p d s (some .veth) (vethChoice (lsiPortName d p))
      (s.tick.storePeer (lsiPortName d p))
  | vhost : Chosen env p d s (some .vhost) (plainChoice (lsiPortName d p) "internal") s

private theorem chooseRing_chosen {type : PortType} (htype : type = .ivshmem ∨ type = .dpdkr) :
    wp (chooseRing env p) (Chosen env p d s (some type)) (fun _ => True) s := by
  unfold chooseRing
  split_ifs with hdpdk
  · simp only [wp_bind, wp_get]
    split
    · trivial
    next ring hfree =>
      simp only [wp_bind, wp_modify, wp_pure]
      exact .ring htype hdpdk hfree
  · trivial

theorem choosePort_chosen (nfPort : Option PortType) :
    wp (choosePort env p d nfPort) (Chosen env p d s nfPort) (fun _ => True) s := by
  match nfPort with
  | none => exact .physical
  | some .ivshmem =>
    rw [choosePort]
    exact chooseRing_chosen (.inl rfl)
  | some .dpdkr =>
    rw [choosePort]
    exact chooseRing_chosen (.inr rfl)
  | some .usvhost =>
    rw [choosePort, chooseUsvhost]
    split_ifs with hdpdk
    · simp only [wp_bind, wp_runScript]
      split_ifs
      · exact .usvhost hdpdk
      · trivial
    · trivial
  | some .veth =>
    rw [choosePort, chooseVeth]
    simp only [wp_bind, wp_runScript]
    split_ifs
    · exact .veth
    · trivial
  | some .vhost => exact .vhost

/-- What noting the choice of a port does not touch. -/
theorem Chosen.preserves {τ : Type} {choice : PortChoice} {s' : State}
    (h : Chosen env p d s nfPort choice s') (part : State → τ)
    (htick : ∀ s : State, part s.tick = part s)
    (hrings : ∀ (s : State) p ring, part (s.takeRing p ring) = part s)
    (hpeers : ∀ (s : State) base, part (s.storePeer base) = part s) : part s' = part s := by
  cases h with
  | physical => rfl
  | ring => exact hrings s _ _
  | usvhost => exact htick s
  | veth => exact (hpeers _ _).trans (htick s)
  | vhost => rfl

theorem Chosen.family {choice : PortChoice} {s' : State} (h : Chosen env p d s nfPort choice s') :
    choice.purpose.family = .port := by
  cases h <;> rfl

/-! ## Insertions -/

/-- The port that an insertion describes. -/
def State.spec (s : State) (d : Nat) (name type : String) (options : List (String × String))
    (purpose : Purpose) : PortSpec :=
  { name := name, ofport := s.rnumber, type := type, options := options, switch := d
    purpose := purpose }

def PortSpec.key (spec : PortSpec) : Family × Nat := (spec.purpose.family, spec.switch)

/-- The transaction of an insertion. -/
def State.insertion (s : State) (spec : PortSpec) : Transaction :=
  .insertPort (s.bridgeOf spec.switch) (s.bridgePorts spec.switch) spec

/-- After an insertion. -/
def State.inserted (env : Env) (s : State) (spec : PortSpec) : State :=
  { s.touch spec.switch with
    uuids := Paired.push s.uuids spec.key (env.uuid (s.server.issued + 1))
    rnumber := s.rnumber + 1
    server := s.server.commit env (s.insertion spec) }

theorem wp_insertPort {name type : String} {options : List (String × String)} {purpose : Purpose} :
    wp (insertPort env d name type options purpose) Q (fun _ => True) s ↔
      (s.server.verdict env (s.insertion (s.spec d name type options purpose)) = none →
        s.rnumber + 1 < intLimit → Q () (s.inserted env (s.spec d name type options purpose))) := by
  unfold insertPort
  simp only [wp_bind, wp_switchUuidAt, wp_get, wp_transact]
  refine Iff.trans (and_iff_left fun k _ => ?_) (imp_congr Iff.rfl ?_)
  · -- the details of the error are the last answer
    rcases k with _ | _ | _ | _ | k <;> simp [Server.results, readResults]
  · simp only [Server.results, readResults, wp_bind, wp_modify, wp_pure, wp_incRnumber]
    exact Iff.rfl

/-! ## Bridges -/

theorem readBridge_details {results : List Result} :
    readBridge (results ++ [.details]) = Call.throw := by
  simp [readBridge]

/-- The state with a new bridge. -/
def State.withBridge (env : Env) (s : State) (d : Nat) : State :=
  { s with switchUuid := s.switchUuid.insert d (env.uuid (s.server.issued + 1))
           server := s.server.commit env (.createBridge (bridgeName d)) }

/-- The state in which the bridge of a new switch is inserted. -/
def State.announced (s : State) (cli : CreateLsiIn) : State :=
  { s with ipsecCertificate := cli.ipsecCertificate
           switchId := Function.update s.switchId s.dnumber (bridgeName s.dnumber) }

/-- The state in which the ports of a new switch are inserted. -/
def State.newSwitch (env : Env) (s : State) (cli : CreateLsiIn) : State :=
  (s.announced cli).withBridge env s.dnumber

/-- The ports of a new switch that are not ends of virtual links. -/
def addLsiPorts (env : Env) (d : Nat) (cli : CreateLsiIn) :
    Call State (List (String × Nat) × List (String × List AddedPort) × List (String × Nat)) := do
  let physical ← Call.gather (addPhysicalPort env d) cli.physicalPorts
  let functions ← Call.gather (addNetworkFunction env d) cli.networkFunctions.toList
  let endpoints ← Call.gather (addLsiEndpoint env d) cli.endpoints.toList
  pure (physical, functions, endpoints)

/-- The two loops over the virtual links of a new switch. -/
def addLsiLinks (env : Env) (d : Nat) (remotes : List Nat) : Call State (List (Nat × Nat)) := do
  let s ← get
  let links ← Call.gather (addLocalEnd env d remotes.length) remotes
  modify fun s' => { s' with pnumber := s.pnumber }
  incDnumber
  Call.each (addRemoteEnd env) (remotes.zip (links.map Prod.fst))
  pure (links.map Prod.snd)

def lsiOut (d : Nat) (physical : List (String × Nat)) (functions : List (String × List AddedPort))
    (endpoints : List (String × Nat)) (links : List (Nat × Nat)) : CreateLsiOut where
  dpid := d
  physicalPorts := idMap physical
  networkFunctionsPorts := functions.foldl (fun m nf =>
    m.insert nf.1 (idMap (nf.2.map fun port => (port.info.name, port.id)))) ∅
  endpointsPorts := idMap endpoints
  nfPortsNameOnSwitch := functions.foldl (fun m nf =>
    m.insert nf.1 (nf.2.map AddedPort.nameOnSwitch)) ∅
  virtualLinks := links
  nfPortsNameAndId := functions.foldl (fun m nf =>
    m.insert nf.1 (idMap (nf.2.map fun port => (port.nameOnSwitch, port.info.id)))) ∅

/-- A new switch in its parts: the bridge, the ports, the links. -/
theorem wp_createLsi {cli : CreateLsiIn} {Q : CreateLsiOut → State → Prop} :
    wp (createLsi env cli) Q (fun _ => True) s ↔
      ((s.announced cli).server.verdict env (.createBridge (bridgeName s.dnumber)) = none →
        wp (addLsiPorts env s.dnumber cli) (fun ports => wp
          (addLsiLinks env s.dnumber cli.virtualLinksRemoteLSI) (fun links s' =>
            Q (lsiOut s.dnumber ports.1 ports.2.1 ports.2.2 links) s') (fun _ => True))
          (fun _ => True) (s.newSwitch env cli)) := by
  simp only [createLsi, addLsiPorts, addLsiLinks, wp_bind, wp_get, wp_modify, wp_pure, wp_transact,
    readBridge_details, wp_throw, implies_true, and_true]
  exact Iff.rfl

/-! ## Ends of virtual links -/

/-- The end of a virtual link that is inserted. -/
def State.linkEnd (s : State) (d : Nat) (name peer : String) : PortSpec :=
  s.spec d name "patch" [("peer", peer)] .vlink

theorem wp_cmdAddVirtualLink {vrt trv : String} :
    wp (cmdAddVirtualLink env vrt trv d) Q (fun _ => True) s ↔
      (s.server.verdict env (s.insertion (s.linkEnd d vrt trv)) = none →
        s.rnumber + 1 < intLimit → Q () (s.inserted env (s.linkEnd d vrt trv))) :=
  wp_insertPort

/-- The names of a new link are taken. -/
def State.startLink (s : State) : State :=
  { s with pnumber := s.pnumber + 1
           peerN := Function.update s.peerN (vportName (s.pnumber + 1)) (vportName s.pnumber) }

/-- What the first loop stores about a link of a new switch. -/
def State.storeLink (s : State) (d remote idLocal idRemote : Nat) (vrt trv : String) : State :=
  { s with
    portId := Function.update (Function.update s.portId idLocal vrt) idRemote trv
    virtualLinkId := Paired.push s.virtualLinkId (bridgeName d) idLocal
    vlPortIDtoSwitchID :=
      Function.update (Function.update s.vlPortIDtoSwitchID idLocal d) idRemote remote
    vlLocalPortIDtoRemotePortID :=
      Function.update s.vlLocalPortIDtoRemotePortID idLocal idRemote
    names := Paired.push s.names (.vport, d) vrt
    pnumber := s.pnumber + 1 }

/-- The end on a new switch that is inserted in a state. -/
def State.localSpec (s : State) (d : Nat) : PortSpec :=
  s.linkEnd d (vportName s.pnumber) (vportName (s.pnumber + 1))

/-- After a round of the first loop. -/
def State.localEnd (env : Env) (s : State) (d count remote : Nat) : State :=
  (s.startLink.inserted env (s.localSpec d)).storeLink d remote s.rnumber (s.rnumber + count)
    (vportName s.pnumber) (vportName (s.pnumber + 1))

theorem wp_addLocalEnd {count remote : Nat} {Q : String × Nat × Nat → State → Prop} :
    wp (addLocalEnd env d count remote) Q (fun _ => True) s ↔ (s.pnumber + 1 < intLimit →
      s.server.verdict env (s.startLink.insertion (s.localSpec d)) = none →
      s.rnumber + 1 < intLimit → s.pnumber + 2 < intLimit →
      Q (vportName (s.pnumber + 1), s.rnumber, s.rnumber + count) (s.localEnd env d count remote)) := by
  have hremote : s.rnumber + 1 + count - 1 = s.rnumber + count := by omega
  simp only [addLocalEnd, wp_bind, wp_get, wp_modify, wp_incPnumber, wp_cmdAddVirtualLink, wp_pure]
  rw [State.localEnd, ← hremote]
  exact Iff.rfl

/-- The state in which the second loop inserts an end. -/
def State.beforeRemote (s : State) (d : Nat) (name : String) : State :=
  State.pushName { s with pnumber := s.pnumber + 1 } (.vport, d) name

/-- After a round of the second loop. -/
def State.remoteEnd (env : Env) (s : State) (d : Nat) (name : String) : State :=
  { (s.beforeRemote d name).inserted env (s.linkEnd d name (s.peerN name)) with
    pnumber := s.pnumber + 2 }

theorem wp_addRemoteEnd {link : Nat × String} :
    wp (addRemoteEnd env link) Q (fun _ => True) s ↔ (s.pnumber + 1 < intLimit →
      s.server.verdict env ((s.beforeRemote link.1 link.2).insertion
        (s.linkEnd link.1 link.2 (s.peerN link.2))) = none →
      s.rnumber + 1 < intLimit → s.pnumber + 2 < intLimit →
      Q () (s.remoteEnd env link.1 link.2)) := by
  simp only [addRemoteEnd, wp_bind, wp_get, wp_modify, wp_incPnumber, wp_cmdAddVirtualLink]
  exact Iff.rfl

/-- The names of a link between two switches are taken. -/
def State.takeNames (s : State) : State := { s with pnumber := s.pnumber + 2 }

/-- The first end of a link between two switches. -/
def State.firstSpec (s : State) (dA : Nat) : PortSpec :=
  s.linkEnd dA (vportName s.pnumber) (vportName (s.pnumber + 1))

/-- The state with the first end. -/
def State.firstEnd (env : Env) (s : State) (dA : Nat) : State :=
  s.takeNames.inserted env (s.firstSpec dA)

/-- The second end. -/
def State.secondSpec (s : State) (dB : Nat) : PortSpec :=
  { s.linkEnd dB (vportName (s.pnumber + 1)) (vportName s.pnumber) with ofport := s.rnumber + 1 }

/-- The state with both ends. -/
def State.secondEnd (env : Env) (s : State) (dA dB : Nat) : State :=
  (s.firstEnd env dA).inserted env (s.secondSpec dB)

/-- What is stored about a link between two switches. -/
def State.storeBoth (s : State) (dA dB idA idB : Nat) (vrt trv : String) : State :=
  { s with
    virtualLinkId := Paired.push s.virtualLinkId (s.switchId dA) idA
    portId := Function.update (Function.update s.portId idA vrt) idB trv
    vlPortIDtoSwitchID := Function.update (Function.update s.vlPortIDtoSwitchID idA dA) idB dB
    vlLocalPortIDtoRemotePortID := Function.update s.vlLocalPortIDtoRemotePortID idA idB
    names := Paired.push (Paired.push s.names (.vport, dA) vrt) (.vport, dB) trv
    peerN := Function.update (Function.update s.peerN trv vrt) vrt trv }

/-- After a link between two switches was added. -/
def State.linked (env : Env) (s : State) (dA dB : Nat) : State :=
  (s.secondEnd env dA dB).storeBoth dA dB s.rnumber (s.rnumber + 1) (vportName s.pnumber)
    (vportName (s.pnumber + 1))

theorem wp_addVirtualLink {dA dB : Nat} {Q : Nat × Nat → State → Prop} :
    wp (addVirtualLink env dA dB) Q (fun _ => True) s ↔
      (s.pnumber + 1 < intLimit → s.pnumber + 2 < intLimit →
      s.server.verdict env (s.takeNames.insertion (s.firstSpec dA)) = none →
      s.rnumber + 1 < intLimit → (s.firstEnd env dA).server.verdict env
        ((s.firstEnd env dA).insertion (s.secondSpec dB)) = none →
      s.rnumber + 2 < intLimit → Q (s.rnumber, s.rnumber + 1) (s.linked env dA dB)) := by
  simp only [addVirtualLink, wp_bind, wp_get, wp_modify, wp_incPnumber, wp_cmdAddVirtualLink, wp_pure]
  exact Iff.rfl

/-! ## Removals -/

/-- The lists of a key are replaced. -/
def State.setLists (s : State) (key : Family × Nat) (names uuids : List String) : State :=
  { s with names := Function.update s.names key names, uuids := Function.update s.uuids key uuids }

/-- The state in which the column of a bridge was written, or was not. -/
def State.written (env : Env) (s : State) (txn : Transaction) : State :=
  { s with server := if s.server.verdict env txn = none then s.server.commit env txn
                     else s.server.refuse txn }

/-- A transaction whose answer is not looked at. -/
theorem wp_transact_ignored {txn : Transaction} {Q : State → Prop} :
    wp (transact env txn) (fun _ s' => Q s') E s ↔ Q (s.written env txn) := by
  rw [wp_transact]
  cases hverdict : s.server.verdict env txn with
  | none => simp [State.written, hverdict]
  | some k => simp [State.written, hverdict]

/-- What a walk found is taken out of the uuids of a key, and the names are replaced. -/
def State.take (s : State) (key : Family × Nat) (names : List String) : Option String → State
  | none => s
  | some u => s.setLists key names ((s.uuids key).filter (· ≠ u))

/-- The end of a virtual link that the walk found is taken out of the lists. -/
def State.dropLink (s : State) (d : Nat) (name : String) : Option String → State :=
  s.take (.vport, d) ((s.vportL d).filter (· ≠ name))

theorem wp_cmdDeleteVirtualLink {idp : Nat} :
    wp (cmdDeleteVirtualLink env d idp) Q E s ↔
      ∀ o, Paired.find (s.portId idp) (s.vportL d) (s.vportUuid d) = .ok o →
        Q () (((s.touch d).dropLink d (s.portId idp) o).written env
          (.setPorts (s.bridgeOf d) ((s.dropLink d (s.portId idp) o).bridgePorts d))) := by
  simp only [cmdDeleteVirtualLink, wp_bind, wp_switchUuidAt, wp_get, wp_eval_ofAbort]
  refine forall_congr' fun o => imp_congr Iff.rfl ?_
  cases o with
  | none =>
    simp only [wp_bind, wp_pure, wp_get]
    exact wp_transact_ignored
  | some u =>
    simp only [wp_bind, wp_modify, wp_get]
    exact wp_transact_ignored

/-! ## Ports of networks and of network functions -/

/-- The state in which a chosen port is inserted. -/
def State.named (s : State) (d : Nat) (choice : PortChoice) : State :=
  s.pushName (.port, d) choice.portName

/-- The port that is inserted for a choice. -/
def State.chosenSpec (s : State) (d : Nat) (choice : PortChoice) : PortSpec :=
  s.spec d choice.portName choice.type [] choice.purpose

theorem wp_addPort {Q : String → State → Prop}
    (hreturns : ∀ choice s₁, Chosen env p d s nfPort choice s₁ →
      s₁.server.verdict env ((s₁.named d choice).insertion (s₁.chosenSpec d choice)) = none →
      ∀ s', s' = (s₁.named d choice).inserted env (s₁.chosenSpec d choice) ∨
        s' = ((s₁.named d choice).inserted env (s₁.chosenSpec d choice)).tick →
      Q choice.nameOnSwitch s') :
    wp (addPort env p d nfPort) Q (fun _ => True) s := by
  unfold addPort
  simp only [wp_bind, wp_modify]
  refine wp_weaken (choosePort_chosen nfPort) (fun choice s₁ hchosen => ?_)
  rw [wp_insertPort]
  intro hverdict _
  split_ifs
  · simp only [wp_bind, wp_runScript, wp_assert, wp_pure]
    exact fun _ => hreturns choice s₁ hchosen hverdict _ (.inr rfl)
  · exact hreturns choice s₁ hchosen hverdict _ (.inl rfl)

end UnOrchestrator.Ovsdb
