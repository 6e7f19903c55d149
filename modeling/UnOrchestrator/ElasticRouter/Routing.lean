import UnOrchestrator.ElasticRouter.Topology

/-!
# The routing table on a new datapath

When a datapath registers, the routing table of the configuration is turned into flows for it. An entry
gets an output port by a search among the ports: one that is linked to the SAP of the entry, or whose
peer forwards to it. An entry for which there is none ends the loop, so the entries behind it are not
routed either.

On a topology that `scale` built every port leads to one SAP (`Wired.leads`). The entries are
independent exactly if each net of an entry with a SAP nearby is also found before the loop ends
(`routing_independent_iff`).
-/

namespace UnOrchestrator.ElasticRouter

open Option (bind_eq_some_iff bind_some getD_some map_some mem_unique some_inj)

open Peering

/-! ## Registration keeps the topology -/

/-- A port without its number. -/
def DPPort.bare (port : DPPort) : DPPort :=
  { port with number := none }

/-- A datapath without the numbers of its ports, without learned addresses and without flows. -/
def DP.bare (dp : DP) : DP :=
  { dp with ports := dp.ports.map DPPort.bare, macToPort := ∅, oftable := [] }

/-- The objects differ in the numbers of ports, in learned addresses and in flows only. -/
def SameTopology (dps dps' : List DP) : Prop :=
  dps'.map DP.bare = dps.map DP.bare

section SameTopology

variable {dps dps' : List DP}

theorem SameTopology.symm (h : SameTopology dps dps') : SameTopology dps' dps :=
  Eq.symm h

theorem SameTopology.length (h : SameTopology dps dps') : dps'.length = dps.length := by
  simpa using congrArg List.length h

theorem SameTopology.datapath (h : SameTopology dps dps') {d : Nat} {dp' : DP} (hdp' : dps'[d]? = some dp') :
    ∃ dp, dps[d]? = some dp ∧ dp.bare = dp'.bare := by
  have hget := congrArg (·[d]?) h
  simp only [List.getElem?_map, hdp', map_some] at hget
  obtain ⟨dp, hdp, hbare⟩ := Option.map_eq_some_iff.mp hget.symm
  exact ⟨dp, hdp, hbare⟩

variable {port' : DPPort}

theorem getElem?_of_bare {dp dp' : DP} (h : dp.bare = dp'.bare) {p : Nat}
    (hport' : dp'.ports[p]? = some port') :
    ∃ port, dp.ports[p]? = some port ∧ port.bare = port'.bare := by
  have hget := congrArg (fun x : DP => x.ports[p]?) h
  simp only [DP.bare, List.getElem?_map, hport', map_some] at hget
  obtain ⟨port, hport, hbare⟩ := Option.map_eq_some_iff.mp hget
  exact ⟨port, hport, hbare⟩

theorem DPPort.eq_of_bare {port : DPPort} (h : port.bare = port'.bare) :
    port.portType = port'.portType ∧ port.linkedPort = port'.linkedPort ∧
      port.forwardExtport = port'.forwardExtport := by
  have ht := congrArg DPPort.portType h
  have hl := congrArg DPPort.linkedPort h
  have hf := congrArg DPPort.forwardExtport h
  exact ⟨ht, hl, hf⟩

theorem SameTopology.portAt (h : SameTopology dps dps') {e : PortRef}
    (hport' : portAt dps' e = some port') :
    ∃ port, portAt dps e = some port ∧ port.bare = port'.bare := by
  obtain ⟨dp', hdp', hport'⟩ := bind_eq_some_iff.mp hport'
  obtain ⟨dp, hdp, hbare⟩ := h.datapath hdp'
  obtain ⟨port, hport, hsame⟩ := getElem?_of_bare hbare hport'
  exact ⟨port, bind_eq_some_iff.mpr ⟨dp, hdp, hport⟩, hsame⟩

end SameTopology

/-! ## Where ports lead to -/

/-- The SAP that a port leads to: the one that it is linked to, or the one behind the port that its peer
forwards to. -/
def destination (dps : List DP) (port : DPPort) : Option String :=
  match port.linkedPort with
  | none => none
  | some (.sap ifname) => some ifname
  | some (.port f) =>
    (portAt dps f).bind fun peer => peer.forwardExtport.bind fun e => (portAt dps e).bind fun ext =>
      match ext.linkedPort with
      | some (.sap ifname) => some ifname
      | _ => none

/-- A SAP is linked to a port of the datapath. -/
def Attached (dps : List DP) (d : Nat) (sap : String) : Prop :=
  ∃ dp port, dps[d]? = some dp ∧ port ∈ dp.ports ∧ port.portType = some .external ∧
    port.linkedPort = some (.sap sap)

/-- The SAP is attached to the datapath or to one that it is linked to. -/
def Nearby (dps : List DP) (d : Nat) (sap : String) : Prop :=
  Attached dps d sap ∨ ∃ p f, LinkedTo dps ⟨d, p⟩ f ∧ Attached dps f.dp sap

/-- The datapaths from a position on have external ports that are linked to SAPs, first of all the first
port, and internal ports that are linked to each other and forward to the first port. -/
structure Wired (n : Nat) (dps : List DP) : Prop where
  first : ∀ (d : Nat) (dp : DP), n ≤ d → dps[d]? = some dp → ∃ port ifname, dp.ports[0]? = some port ∧
    port.portType = some .external ∧ port.linkedPort = some (.sap ifname)
  port : ∀ (d : Nat) (dp : DP) (p : Nat) (port : DPPort), n ≤ d → dps[d]? = some dp →
    dp.ports[p]? = some port →
    (port.portType = some .external ∧ ∃ ifname, port.linkedPort = some (.sap ifname)) ∨
    (port.portType = some .internal ∧ port.forwardExtport = some ⟨d, 0⟩ ∧ ∃ f peer,
      port.linkedPort = some (.port f) ∧ n ≤ f.dp ∧ portAt dps f = some peer ∧
      peer.portType = some .internal ∧ peer.linkedPort = some (.port ⟨d, p⟩) ∧
      peer.forwardExtport = some ⟨f.dp, 0⟩)

variable {dps : List DP} {r : Router} {scalingPorts : List (List PortRef)}

theorem Wired.of_same {n : Nat} {dps' : List DP} (h : Wired n dps) (hsame : SameTopology dps dps') :
    Wired n dps' := by
  have hback := hsame.symm
  constructor
  · intro d dp' hn hdp'
    obtain ⟨dp, hdp, hbare⟩ := hsame.datapath hdp'
    obtain ⟨port, ifname, hport, ht, hlink⟩ := h.first d dp hn hdp
    obtain ⟨port', hport', hbare'⟩ := getElem?_of_bare hbare.symm hport
    obtain ⟨ht', hl', -⟩ := DPPort.eq_of_bare hbare'
    exact ⟨port', ifname, hport', ht'.trans ht, hl'.trans hlink⟩
  · intro d dp' p port' hn hdp' hport'
    obtain ⟨dp, hdp, hbare⟩ := hsame.datapath hdp'
    obtain ⟨port, hport, hbare'⟩ := getElem?_of_bare hbare hport'
    obtain ⟨ht, hl, hf⟩ := DPPort.eq_of_bare hbare'
    rw [← ht, ← hl, ← hf]
    rcases h.port d dp p port hn hdp hport with hext | ⟨hint, hforward, f, peer, hlink, hfn, hpeer, hpt, hpl, hpf⟩
    · exact .inl hext
    · obtain ⟨peer', hpeer', hsame'⟩ := hback.portAt hpeer
      obtain ⟨ht', hl', hf'⟩ := DPPort.eq_of_bare hsame'
      exact .inr ⟨hint, hforward, f, peer', hlink, hfn, hpeer', ht'.trans hpt, hl'.trans hpl, hf'.trans hpf⟩

/-- A topology that was built is wired. -/
theorem Built.wired {ovsId : Int} {dict : PortDict} (h : Built r ovsId scalingPorts dict dps)
    (hgroups : ScalesExternal r.dps scalingPorts) :
    Wired r.dps.length dps := by
  have hat : ∀ {d : Nat} {dp : DP}, r.dps.length ≤ d → dps[d]? = some dp → ∃ i ints,
      ∃ hi : i < scalingPorts.length, NewDP r.dps d (ovsId + i) scalingPorts[i] dict dp ints := by
    intro d dp hn hdp
    obtain ⟨i, dp', ints, hi, -, hdp', hnew⟩ := h.datapath hn (List.getElem?_eq_some_iff.mp hdp).1
    obtain rfl := mem_unique hdp hdp'
    exact ⟨i, ints, hi, hnew⟩
  have hexternal : ∀ {i p : Nat} (hi : i < scalingPorts.length) (hp : p < scalingPorts[i].length),
      ∃ ifname, (portAt r.dps scalingPorts[i][p]).bind DPPort.linkedPort = some (.sap ifname) := by
    intro i p hi hp
    obtain ⟨old, ifname, hold, -, hsap⟩ := (hgroups _ (List.getElem_mem hi)).2 _ (List.getElem_mem hp)
    exact ⟨ifname, by rw [hold, bind_some, hsap]⟩
  constructor
  · intro d dp hn hdp
    obtain ⟨i, ints, hi, hnew⟩ := hat hn hdp
    have hlength : 0 < scalingPorts[i].length :=
      List.length_pos_iff.mpr (hgroups _ (List.getElem_mem hi)).1
    have hlt : 0 < dp.ports.length := by
      rw [hnew.ports, List.length_append, externalPorts, List.length_mapIdx]
      omega
    rcases hnew.port (List.getElem?_eq_getElem hlt) with ⟨hp, heq⟩ | ⟨hle, -⟩
    · obtain ⟨ifname, hsap⟩ := hexternal hi hp
      exact ⟨_, ifname, List.getElem?_eq_getElem hlt, by rw [heq], by rw [heq]; exact hsap⟩
    · omega
  · intro d dp p port hn hdp hport
    obtain ⟨i, ints, hi, hnew⟩ := hat hn hdp
    rcases hnew.port hport with ⟨hp, rfl⟩ | ⟨-, ht, ⟨f, hf⟩, hforward⟩
    · exact .inl ⟨rfl, hexternal hi hp⟩
    · have hpeer : peerOf r.dps.length dps ⟨d, p⟩ = some f := peerOf_eq_some.mpr ⟨hn, dp, hdp, port, hport, hf⟩
      obtain ⟨hfn, linked, hlinked, peer, hpeerAt, hback⟩ := peerOf_eq_some.mp (h.paired.back hpeer)
      obtain ⟨j, ints', hj, hnew'⟩ := hat hfn hlinked
      refine .inr ⟨ht, hforward, f, peer, hf, hfn, bind_eq_some_iff.mpr ⟨linked, hlinked, hpeerAt⟩, ?_⟩
      rcases hnew'.port hpeerAt with ⟨hp', rfl⟩ | ⟨-, ht', -, hforward'⟩
      · obtain ⟨ifname, hsap⟩ := hexternal hj hp'
        rw [hsap] at hback
        cases hback
      · exact ⟨ht', hback, hforward'⟩

/-- A port that is linked to another one is internal and forwards to the first port, and its peer is linked
back to it. -/
theorem Wired.linked {n : Nat} (h : Wired n dps) {d p : Nat} {dp : DP} {port : DPPort} {f : PortRef}
    (hn : n ≤ d) (hdp : dps[d]? = some dp) (hport : dp.ports[p]? = some port)
    (hlink : port.linkedPort = some (.port f)) :
    port.portType = some .internal ∧ port.forwardExtport = some ⟨d, 0⟩ ∧ n ≤ f.dp ∧
      ∃ peer, portAt dps f = some peer ∧ peer.linkedPort = some (.port ⟨d, p⟩) := by
  rcases h.port d dp p port hn hdp hport with
    ⟨-, ifname, hsap⟩ | ⟨ht, hforward, f', peer, hf, hfn, hpeer, -, hback, -⟩
  · rw [hsap] at hlink
    cases hlink
  · obtain ⟨rfl⟩ := mem_unique hlink hf
    exact ⟨ht, hforward, hfn, peer, hpeer, hback⟩

/-- Every port leads to a SAP that is nearby, and the test of the routing table asks for it. -/
theorem Wired.leads {n : Nat} (h : Wired n dps) {d p : Nat} {dp : DP} {port : DPPort} (hn : n ≤ d)
    (hdp : dps[d]? = some dp) (hport : dp.ports[p]? = some port) :
    ∃ sap, destination dps port = some sap ∧
      (∀ destSap, reaches dps destSap port = some (sap == destSap)) ∧ Nearby dps d sap := by
  rcases h.port d dp p port hn hdp hport with ⟨ht, ifname, hlink⟩ | ⟨ht, -, f, peer, hlink, hfn, hpeer, hpt, -, hpf⟩
  · refine ⟨ifname, by rw [destination, hlink], fun destSap => ?_,
      .inl ⟨dp, port, hdp, List.mem_of_getElem? hport, ht, hlink⟩⟩
    simp [reaches, hlink, ht]
  · obtain ⟨linked, hlinked, -⟩ := bind_eq_some_iff.mp hpeer
    obtain ⟨ext, ifname, hext, het, hel⟩ := h.first f.dp linked hfn hlinked
    have hat : portAt dps ⟨f.dp, 0⟩ = some ext := bind_eq_some_iff.mpr ⟨linked, hlinked, hext⟩
    refine ⟨ifname, ?_, fun destSap => ?_,
      .inr ⟨p, f, ⟨port, bind_eq_some_iff.mpr ⟨dp, hdp, hport⟩, ht, hlink⟩,
        ⟨linked, ext, hlinked, List.mem_of_getElem? hext, het, hel⟩⟩⟩
    · simp only [destination, hlink, hpeer, hpf, hat, hel, bind_some]
    · simp [reaches, hlink, hpeer, ht, hpt, hpf, hat, hel]

/-! ## The flows of the table -/

/-- The number of the first port that leads to a SAP. -/
def outNumber (dps : List DP) (dp : DP) (sap : String) : Option Nat :=
  (dp.ports.find? (fun port => destination dps port == some sap)).bind DPPort.number

theorem findOutPort_eq {ports : List DPPort} {destSap : String}
    (h : ∀ port ∈ ports, ∃ sap, destination dps port = some sap ∧
      ∀ destSap, reaches dps destSap port = some (sap == destSap)) :
    findOutPort dps destSap ports =
      some ((ports.find? (fun port => destination dps port == some destSap)).bind DPPort.number) := by
  induction ports with
  | nil => rfl
  | cons port ports ih =>
    obtain ⟨sap, hsap, hreaches⟩ := h port List.mem_cons_self
    have hrest := ih fun q hq => h q (List.mem_cons_of_mem port hq)
    simp only [findOutPort, hreaches, Option.bind_eq_bind, bind_some]
    by_cases heq : sap = destSap
    · subst heq
      simp [hsap]
    · rw [if_neg (by simpa using heq), hrest, List.find?_cons_of_neg (by simpa [hsap] using heq)]

/-- The entries before the first one without an output port are routed. -/
theorem setRoutingTable_eq {dp : DP}
    (h : ∀ port ∈ dp.ports, ∃ sap, destination dps port = some sap ∧
      ∀ destSap, reaches dps destSap port = some (sap == destSap)) (table : List RoutingEntry) :
    setRoutingTable dps dp table = some { dp with
      oftable := dp.oftable ++
        (table.takeWhile (fun entry => (outNumber dps dp entry.sap).isSome)).flatMap
          (fun entry => routingFlows ((outNumber dps dp entry.sap).getD 0) entry) } := by
  induction table generalizing dp with
  | nil => simp [setRoutingTable]
  | cons entry table ih =>
    have hfind : findOutPort dps entry.sap dp.ports = some (outNumber dps dp entry.sap) := findOutPort_eq h
    simp only [setRoutingTable, hfind, Option.bind_eq_bind, bind_some]
    rcases hout : outNumber dps dp entry.sap with _ | outPort
    · rw [List.takeWhile_cons_of_neg (by simp [hout])]
      simp
    · rw [List.takeWhile_cons_of_pos (by simp [hout]), List.flatMap_cons, hout]
      have hstep := @ih { dp with oftable := dp.oftable ++ routingFlows outPort entry } h
      simp only [hstep, getD_some, List.append_assoc]
      rfl

/-! ## Independent entries -/

/-- The ports of a registered datapath have numbers of their own. -/
def KnownNumbers (dp : DP) : Prop :=
  (∀ port ∈ dp.ports, port.number ≠ none) ∧ (dp.ports.map DPPort.number).Nodup

/-- What the routing table should do to a datapath: each net of an entry with a SAP nearby has a flow to a
port that leads there, and no flow comes from other entries. -/
structure RoutesEach (dps : List DP) (d : Nat) (dp dp' : DP) (table : List RoutingEntry) : Prop where
  routed : ∀ entry ∈ table, Nearby dps d entry.sap → ∀ net ∈ entry.net, ∃ flow ∈ dp'.oftable,
    flow.matchDict.ipv4Dst = some net ∧ ∃ port ∈ dp.ports, flow.actions = [.port port.number] ∧
      destination dps port = some entry.sap
  nothingElse : ∀ flow ∈ dp'.oftable, flow ∈ dp.oftable ∨ ∃ entry ∈ table, Nearby dps d entry.sap ∧
    ∃ net ∈ entry.net, flow.matchDict.ipv4Dst = some net

/-- Each net of an entry with a SAP nearby is among the entries before the first one without an output
port, for the same SAP. -/
def FoundInTime (dps : List DP) (d : Nat) (dp : DP) (table : List RoutingEntry) : Prop :=
  ∀ entry ∈ table, Nearby dps d entry.sap → ∀ net ∈ entry.net,
    ∃ entry' ∈ table.takeWhile (fun entry => (outNumber dps dp entry.sap).isSome),
      entry'.sap = entry.sap ∧ net ∈ entry'.net

section Independent

variable {n d : Nat} {dps : List DP} {dp : DP}

/-- A port leads to a SAP that is nearby. -/
theorem Wired.nearby (h : Wired n dps) (hn : n ≤ d) (hdp : dps[d]? = some dp) {port : DPPort} {sap : String}
    (hport : port ∈ dp.ports) (hsap : destination dps port = some sap) : Nearby dps d sap := by
  obtain ⟨p, hp⟩ := List.mem_iff_getElem?.mp hport
  obtain ⟨sap', hsap', -, hnearby⟩ := h.leads hn hdp hp
  obtain rfl := Option.some.inj (hsap.symm.trans hsap')
  exact hnearby

theorem outNumber_eq_some {sap : String} {out : Nat} (h : outNumber dps dp sap = some out) :
    ∃ port ∈ dp.ports, port.number = some out ∧ destination dps port = some sap := by
  obtain ⟨port, hfind, hnumber⟩ := bind_eq_some_iff.mp h
  exact ⟨port, List.mem_of_find?_eq_some hfind, hnumber, by simpa using List.find?_some hfind⟩

theorem mem_routingFlows {out : Nat} {entry : RoutingEntry} {flow : Flow} :
    flow ∈ routingFlows out entry ↔ ∃ net ∈ entry.net,
      flow = { matchDict := { ethType := some ethTypeIP, ipv4Dst := some net },
               actions := [.port (some out)], priority := 30 } := by
  simp only [routingFlows, List.mem_map, eq_comm]

/-- The flows for the entries are there exactly if the entries are found in time. -/
theorem Wired.routesEach_iff (h : Wired n dps) (hn : n ≤ d) (hdp : dps[d]? = some dp)
    (hnumbers : KnownNumbers dp) (hnet : ∀ flow ∈ dp.oftable, flow.matchDict.ipv4Dst = none)
    (table : List RoutingEntry) :
    ∃ dp', setRoutingTable dps dp table = some dp' ∧
      (RoutesEach dps d dp dp' table ↔ FoundInTime dps d dp table) := by
  have hports : ∀ port ∈ dp.ports, ∃ sap, destination dps port = some sap ∧
      ∀ destSap, reaches dps destSap port = some (sap == destSap) := by
    intro port hport
    obtain ⟨p, hp⟩ := List.mem_iff_getElem?.mp hport
    obtain ⟨sap, hsap, hreaches, -⟩ := h.leads hn hdp hp
    exact ⟨sap, hsap, hreaches⟩
  have hserved : ∀ entry ∈ table.takeWhile (fun entry => (outNumber dps dp entry.sap).isSome),
      ∃ out, outNumber dps dp entry.sap = some out := by
    intro entry hentry
    have hsome := List.mem_takeWhile_imp hentry
    exact Option.isSome_iff_exists.mp hsome
  refine ⟨_, setRoutingTable_eq hports table, ?_⟩
  constructor
  · intro hroutes entry hentry hnear net hnetmem
    obtain ⟨flow, hflow, hdst, port, hport, hactions, hsap⟩ := hroutes.routed entry hentry hnear net hnetmem
    rcases List.mem_append.mp hflow with hold | hadded
    · rw [hnet flow hold] at hdst
      cases hdst
    · obtain ⟨entry', hentry', hflow'⟩ := List.mem_flatMap.mp hadded
      obtain ⟨net', hnet', rfl⟩ := mem_routingFlows.mp hflow'
      obtain rfl : net' = net := some_inj.mp hdst
      refine ⟨entry', hentry', ?_, hnet'⟩
      -- both ports have the number of the flow
      obtain ⟨out, hout⟩ := hserved entry' hentry'
      obtain ⟨port', hport', hnumber', hsap'⟩ := outNumber_eq_some hout
      have hnumber : port.number = port'.number := by
        simp only [hout, getD_some, List.cons.injEq, Output.port.injEq, and_true] at hactions
        rw [← hactions, hnumber']
      have heq : port = port' := List.inj_on_of_nodup_map hnumbers.2 hport hport' hnumber
      rw [heq, hsap'] at hsap
      exact some_inj.mp hsap
  · intro hfound
    constructor
    · intro entry hentry hnear net hnetmem
      obtain ⟨entry', hentry', hsap, hnet'⟩ := hfound entry hentry hnear net hnetmem
      obtain ⟨out, hout⟩ := hserved entry' hentry'
      obtain ⟨port, hport, hnumber, hdest⟩ := outNumber_eq_some hout
      refine ⟨_, List.mem_append_right _ (List.mem_flatMap.mpr ⟨entry', hentry',
        mem_routingFlows.mpr ⟨net, hnet', rfl⟩⟩), rfl, port, hport, ?_, hsap ▸ hdest⟩
      rw [hout, hnumber]
      rfl
    · intro flow hflow
      rcases List.mem_append.mp hflow with hold | hadded
      · exact .inl hold
      · obtain ⟨entry, hentry, hflow⟩ := List.mem_flatMap.mp hadded
        obtain ⟨net, hnet, rfl⟩ := mem_routingFlows.mp hflow
        obtain ⟨out, hout⟩ := hserved entry hentry
        obtain ⟨port, hport, -, hdest⟩ := outNumber_eq_some hout
        exact .inr ⟨entry, (List.takeWhile_prefix _).subset hentry, h.nearby hn hdp hport hdest, net, hnet, rfl⟩

end Independent

/-- What scaling returned is what it builds. -/
theorem built_of_scale {answer : List Vnf → List Vnf} {s : Scaled}
    (hgroups : ScalesExternal r.dps scalingPorts) (hs : scale answer r scalingPorts = some s) :
    ∃ ovsId, s.newDPs = List.range' r.dps.length scalingPorts.length ∧
      s.scalePortDict = (addDatapaths r ovsId scalingPorts).2.2 ∧
      Built r ovsId scalingPorts s.scalePortDict s.router.dps := by
  obtain ⟨ovsId, hid, -⟩ := bind_eq_some_iff.mp hs
  obtain ⟨s', hs', hnew, hdict, -, -, hbuilt⟩ := scale_built answer hgroups hid
  obtain rfl := mem_unique hs hs'
  exact ⟨ovsId, hnew, hdict, hbuilt⟩

/-- What a new datapath still is when it registers. -/
theorem Built.datapath_same {ovsId : Int} {dict : PortDict} {built : List DP}
    (h : Built r ovsId scalingPorts dict built) (hsame : SameTopology built dps) {d : Nat} {dp : DP}
    (hd : r.dps.length ≤ d) (hdp : dps[d]? = some dp) :
    ∃ i : Nat, d = r.dps.length + i ∧ dp.name = ovsName (ovsId + i) ∧ dp.scalePortDict = dict := by
  obtain ⟨dp₀, hdp₀, hbare⟩ := hsame.datapath hdp
  obtain ⟨i, dp₁, ints, hlt, hi, hdp₁, hnew⟩ := h.datapath hd (List.getElem?_eq_some_iff.mp hdp₀).1
  obtain rfl := mem_unique hdp₀ hdp₁
  exact ⟨i, hi, (congrArg DP.name hbare).symm.trans hnew.name,
    (congrArg DP.scalePortDict hbare).symm.trans hnew.scalePortDict⟩

/-- On a new datapath that registers and has no flows for nets yet, entries of the routing table are
independent exactly if they are found in time. -/
theorem routing_independent_iff (answer : List Vnf → List Vnf) (r : Router)
    (scalingPorts : List (List PortRef)) (hgroups : ScalesExternal r.dps scalingPorts) (s : Scaled)
    (hs : scale answer r scalingPorts = some s) (dps : List DP) (hsame : SameTopology s.router.dps dps)
    (d : Nat) (hd : d ∈ s.newDPs) (dp : DP) (hdp : dps[d]? = some dp) (hnumbers : KnownNumbers dp)
    (hnet : ∀ flow ∈ dp.oftable, flow.matchDict.ipv4Dst = none) (table : List RoutingEntry) :
    ∃ dp', setRoutingTable dps dp table = some dp' ∧
      (RoutesEach dps d dp dp' table ↔ FoundInTime dps d dp table) := by
  obtain ⟨ovsId, hnew, -, hbuilt⟩ := built_of_scale hgroups hs
  rw [hnew, List.mem_range'_1] at hd
  exact ((hbuilt.wired hgroups).of_same hsame).routesEach_iff hd.1 hdp hnumbers hnet table

/-- Every port gets its position, from 1 on, as its number. -/
def numberPorts (dps : List DP) : List DP :=
  dps.map fun dp => { dp with ports := dp.ports.mapIdx fun i port => { port with number := some (i + 1) } }

theorem sameTopology_numberPorts (dps : List DP) : SameTopology dps (numberPorts dps) := by
  unfold SameTopology numberPorts
  rw [List.map_map]
  refine List.map_congr_left fun dp _ => ?_
  have hports : (dp.ports.mapIdx fun i port => { port with number := some (i + 1) }).map DPPort.bare =
      dp.ports.map DPPort.bare := by
    apply List.ext_getElem
    · simp
    intro p h₁ h₂
    simp [DPPort.bare]
  simp only [Function.comp, DP.bare, hports]

/-- A datapath with two ports, scaled out to two datapaths. -/
def twoScaledOut : Scaled :=
  (scale id (singleDatapath ["sap1", "sap2"]) [[⟨0, 0⟩], [⟨0, 1⟩]]).get (by decide +kernel)

/-- The two datapaths when they are registered. -/
def twoRegistered : List DP :=
  numberPorts twoScaledOut.router.dps

/-- The first of the two. -/
def firstOfTwo : DP :=
  twoRegistered[1]?.get (by decide +kernel)

theorem routing_independent_two :
    ∃ dp', setRoutingTable twoRegistered firstOfTwo [⟨"sap2", [⟨"10.0.2.0", "255.255.255.0"⟩]⟩] = some dp' ∧
      (RoutesEach twoRegistered 1 firstOfTwo dp' [⟨"sap2", [⟨"10.0.2.0", "255.255.255.0"⟩]⟩] ↔
        FoundInTime twoRegistered 1 firstOfTwo [⟨"sap2", [⟨"10.0.2.0", "255.255.255.0"⟩]⟩]) :=
  routing_independent_iff id (singleDatapath ["sap1", "sap2"]) [[⟨0, 0⟩], [⟨0, 1⟩]]
    (scalesExternal_singleDatapath _ (by decide)) twoScaledOut (Option.some_get _).symm twoRegistered
    (sameTopology_numberPorts _) 1 (by decide +kernel) firstOfTwo (Option.some_get _).symm
    (by unfold KnownNumbers; decide +kernel) (by decide +kernel) _

/-- An entry for an unknown SAP keeps the one behind it out of the table, though its SAP is attached to the
datapath. -/
theorem later_entry_not_routed :
    ∃ dp', setRoutingTable twoRegistered firstOfTwo
        [⟨"sap9", [⟨"10.0.9.0", "255.255.255.0"⟩]⟩, ⟨"sap1", [⟨"10.0.1.0", "255.255.255.0"⟩]⟩] = some dp' ∧
      Attached twoRegistered 1 "sap1" ∧
      ¬ RoutesEach twoRegistered 1 firstOfTwo dp'
        [⟨"sap9", [⟨"10.0.9.0", "255.255.255.0"⟩]⟩, ⟨"sap1", [⟨"10.0.1.0", "255.255.255.0"⟩]⟩] := by
  have hattached : Attached twoRegistered 1 "sap1" :=
    ⟨firstOfTwo, firstOfTwo.ports[0]?.get (by decide +kernel), (Option.some_get _).symm,
      List.mem_of_getElem? (Option.some_get _).symm, by decide +kernel, by decide +kernel⟩
  refine ⟨firstOfTwo, ?_, hattached, ?_⟩
  · have hfind : findOutPort twoRegistered "sap9" firstOfTwo.ports = some none := by decide +kernel
    simp only [setRoutingTable, hfind, Option.bind_eq_bind, Option.bind_some]
  · intro h
    obtain ⟨flow, hflow, hdst, -⟩ := h.routed _ (List.mem_cons_of_mem _ List.mem_cons_self) (.inl hattached)
      _ List.mem_cons_self
    have hnone : ∀ flow ∈ firstOfTwo.oftable, flow.matchDict.ipv4Dst = none := by decide +kernel
    rw [hnone flow hflow] at hdst
    cases hdst

end UnOrchestrator.ElasticRouter
