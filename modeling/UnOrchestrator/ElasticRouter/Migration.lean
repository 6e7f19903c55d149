import UnOrchestrator.ElasticRouter.Routing

/-!
# Learned addresses move to the new datapaths

When a new datapath registers, it takes over what the old datapaths have learned: an address that an old
datapath has on one of its ports is to be reached on a port of the new one. The port of the new topology
behind the address is looked up in the dictionary of `scale`. If it is on another datapath, the port of
this one that is linked there is taken.

If the groups have one port each, or there is one group, and the old datapaths agree about an address,
the new datapath has it on a port that leads to the same SAP (`macTable_migrated`). This covers a
datapath that is scaled out, and the datapaths of a topology that are scaled in again
(`Wired.oldTopology`).
-/

namespace UnOrchestrator.ElasticRouter

open Option (bind_eq_bind bind_eq_some_iff bind_some ext map_some mem_unique some_inj)

open Peering

/-! ## The dictionary of ports -/

theorem lookup_of_mem {α β : Type} [DecidableEq α] {l : List (α × β)} (h : (l.map Prod.fst).Nodup) {a : α} {b : β}
    (hmem : (a, b) ∈ l) : l.lookup a = some b := by
  induction l with
  | nil => cases hmem
  | cons entry l ih =>
    obtain ⟨x, y⟩ := entry
    obtain ⟨hx, hl⟩ := List.nodup_cons.mp h
    rcases List.mem_cons.mp hmem with heq | hrest
    · obtain ⟨rfl, rfl⟩ := Prod.mk.injEq .. ▸ heq
      exact List.lookup_cons_self
    · have hne : (a == x) = false := by
        rw [beq_eq_false_iff_ne]
        intro heq
        exact hx (List.mem_map.mpr ⟨(a, b), hrest, heq⟩)
      rw [List.lookup_cons, hne]
      exact ih hl hrest

/-- The dictionary has the ports of the groups as keys, and leads to the ports at their positions. -/
theorem addDatapaths_dict (r : Router) (ovsId : Int) (scalingPorts : List (List PortRef)) :
    ((addDatapaths r ovsId scalingPorts).2.2.map Prod.fst).Perm scalingPorts.flatten ∧
      ∀ i k (hi : i < scalingPorts.length) (hk : k < scalingPorts[i].length),
        (scalingPorts[i][k], ⟨r.dps.length + i, k⟩) ∈ (addDatapaths r ovsId scalingPorts).2.2 := by
  induction scalingPorts generalizing r ovsId with
  | nil => exact ⟨.refl _, fun i k hi => absurd hi (Nat.not_lt_zero i)⟩
  | cons portList scalingPorts ih =>
    obtain ⟨hperm, hmem⟩ := ih
      { r with
        dps := r.dps ++ [newDatapath r.dps ovsId portList]
        dpInstances := r.dpInstances.insert (ovsName ovsId) r.dps.length } (ovsId + 1)
    constructor
    · show ((_ ++ List.reverse _).map Prod.fst).Perm _
      rw [List.map_append, List.map_reverse, List.map_map, List.flatten_cons]
      show (_ ++ (portList.zipIdx.map Prod.fst).reverse).Perm _
      rw [List.zipIdx_map_fst]
      exact (hperm.append (List.reverse_perm portList)).trans List.perm_append_comm
    · intro i k hi hk
      show _ ∈ _ ++ List.reverse _
      rw [List.mem_append, List.mem_reverse]
      cases i with
      | zero =>
        refine .inr (List.mem_map.mpr ⟨(portList[k], k), ?_, rfl⟩)
        exact List.mem_zipIdx_iff_getElem?.mpr (List.getElem?_eq_getElem hk)
      | succ i =>
        have hthis := hmem i k (by simpa using hi) hk
        refine .inl ?_
        simpa [Nat.add_assoc, Nat.add_comm 1] using hthis

/-! ## Old and new ports -/

/-- The ports of the old datapaths: an external one is among those that are scaled, and an internal one
leads to a port that is. -/
structure OldTopology (dps : List DP) (refs : List PortRef) : Prop where
  distinct : refs.Nodup
  port : ∀ ref ∈ refs, ∀ (dp : DP) (p : Nat) (port : DPPort), dps[ref.dp]? = some dp →
    dp.ports[p]? = some port →
    (port.portType = some .external ∧ ⟨ref.dp, p⟩ ∈ refs) ∨
    (port.portType = some .internal ∧ ∃ f peer e, port.linkedPort = some (.port f) ∧
      portAt dps f = some peer ∧ peer.forwardExtport = some e ∧ e ∈ refs)

/-- The SAP behind an address that a datapath has learned. -/
def macSap (dps : List DP) (d : Nat) (mac : String) : Option String := do
  let dp ← dps[d]?
  let number ← dp.macToPort[mac]?
  let index ← dp.getPortByNumber number
  let port ← dp.ports[index]?
  destination dps port

/-- The new datapath has an address on a port that leads to a SAP. -/
def HasMac (dps : List DP) (ports : List DPPort) (table : StringMap Nat) (mac sap : String) : Prop :=
  ∃ number, table[mac]? = some number ∧ ∃ port ∈ ports, port.number = some number ∧
    destination dps port = some sap

section Migration

variable {r : Router} {ovsId : Int} {scalingPorts : List (List PortRef)} {dict : PortDict}
  {built dps : List DP}

variable {port : DPPort} {ref : PortRef} {sap : String}

theorem SameTopology.peerOf_eq (h : SameTopology built dps) (n : Nat) : peerOf n dps = peerOf n built := by
  have hle : ∀ {x y : List DP}, SameTopology x y → ∀ e f, peerOf n y e = some f → peerOf n x e = some f := by
    intro x y hxy e f hef
    obtain ⟨hn, dp, hdp, port, hport, hlink⟩ := peerOf_eq_some.mp hef
    obtain ⟨dp', hdp', hbare⟩ := hxy.datapath hdp
    obtain ⟨port', hport', hport_bare⟩ := getElem?_of_bare hbare hport
    exact peerOf_eq_some.mpr ⟨hn, dp', hdp', port', hport', (DPPort.eq_of_bare hport_bare).2.1.trans hlink⟩
  funext e
  apply ext
  intro f
  exact ⟨hle h e f, hle h.symm e f⟩

/-- The search on another datapath finds the port that is linked to this one. -/
theorem findLocalOutport_eq {self : String} {newOut : PortRef} {d : Nat} {ports : List DPPort}
    (hself : ∀ (l : Nat) (linked : DP), dps[l]? = some linked → (∃ port ∈ ports, port.linkedPort.bind Link.dp = some l) →
      (linked.name = self ↔ l = d))
    (hports : ∀ port ∈ ports, port.portType = some .external ∨ (port.portType = some .internal ∧
      port.forwardExtport = some newOut ∧ ∃ f peer, port.linkedPort = some (.port f) ∧ portAt dps f = some peer))
    (hlinked : ∃ port ∈ ports, port.portType = some .internal ∧ port.linkedPort.bind Link.dp = some d) :
    ∃ port ∈ ports, ∃ f peer, port.linkedPort = some (.port f) ∧ f.dp = d ∧ portAt dps f = some peer ∧
      findLocalOutport dps self newOut ports = some peer.number := by
  induction ports with
  | nil =>
    obtain ⟨port, hport, -⟩ := hlinked
    cases hport
  | cons port ports ih =>
    have hself' : ∀ (l : Nat) (linked : DP), dps[l]? = some linked →
        (∃ port ∈ ports, port.linkedPort.bind Link.dp = some l) → (linked.name = self ↔ l = d) := by
      rintro l linked hl ⟨q, hq, hqd⟩
      exact hself l linked hl ⟨q, List.mem_cons_of_mem port hq, hqd⟩
    have hports' := fun q hq => hports q (List.mem_cons_of_mem port hq)
    rcases hports port List.mem_cons_self with hext | ⟨hint, hforward, f, peer, hlink, hpeer⟩
    · have hlinked' : ∃ q ∈ ports, q.portType = some .internal ∧ q.linkedPort.bind Link.dp = some d := by
        obtain ⟨q, hq, hqt, hqd⟩ := hlinked
        rcases List.mem_cons.mp hq with rfl | hq
        · rw [hext] at hqt
          cases hqt
        · exact ⟨q, hq, hqt, hqd⟩
      obtain ⟨q, hq, f, peer, hfound⟩ := ih hself' hports' hlinked'
      refine ⟨q, List.mem_cons_of_mem port hq, f, peer, ?_⟩
      rwa [findLocalOutport, if_pos hext]
    · obtain ⟨linked, hlinkedDP, -⟩ := bind_eq_some_iff.mp hpeer
      have hname := hself f.dp linked hlinkedDP ⟨port, List.mem_cons_self, by rw [hlink]; rfl⟩
      have hnot : ¬ port.portType = some .external := by simp [hint]
      by_cases hd : f.dp = d
      · refine ⟨port, List.mem_cons_self, f, peer, hlink, hd, hpeer, ?_⟩
        rw [findLocalOutport, if_neg hnot]
        simp only [hlink, hlinkedDP, bind_eq_bind, bind_some, hname.mpr hd, hforward, and_self,
          if_true, hpeer]
      · have hlinked' : ∃ q ∈ ports, q.portType = some .internal ∧ q.linkedPort.bind Link.dp = some d := by
          obtain ⟨q, hq, hqt, hqd⟩ := hlinked
          rcases List.mem_cons.mp hq with rfl | hq
          · rw [hlink] at hqd
            exact absurd (some_inj.mp hqd) hd
          · exact ⟨q, hq, hqt, hqd⟩
        obtain ⟨q, hq, g, peer', hfound⟩ := ih hself' hports' hlinked'
        refine ⟨q, List.mem_cons_of_mem port hq, g, peer', ?_⟩
        rw [findLocalOutport, if_neg hnot]
        simpa only [hlink, hlinkedDP, bind_eq_bind, bind_some, mt hname.mp hd, false_and,
          if_false] using hfound

/-- The SAP behind an address, taken apart. -/
theorem macSap_eq_some {o : Nat} {mac : String} (h : macSap dps o mac = some sap) :
    ∃ oldDP portno index port, dps[o]? = some oldDP ∧ oldDP.macToPort[mac]? = some portno ∧
      oldDP.getPortByNumber portno = some index ∧ oldDP.ports[index]? = some port ∧
      destination dps port = some sap := by
  simp only [macSap, bind_eq_bind, bind_eq_some_iff] at h
  obtain ⟨oldDP, holdDP, portno, hportno, index, hindex, port, hport, hsap⟩ := h
  exact ⟨oldDP, portno, index, port, holdDP, hportno, hindex, hport, hsap⟩

/-- The table has an address on a port that leads to the SAP behind it, if an old datapath knows one. -/
def Migrated (dps : List DP) (oldDPs : List Nat) (ports : List DPPort) (table : StringMap Nat) (mac : String) :
    Prop :=
  ∀ o ∈ oldDPs, ∀ sap, macSap dps o mac = some sap → HasMac dps ports table mac sap

variable (h : Built r ovsId scalingPorts dict built) (hsame : SameTopology built dps)

include h hsame

/-- An old port is found in the state that was built, up to its number. -/
theorem Built.portAt_old {e : PortRef} (hport : portAt r.dps e = some port) :
    ∃ port', portAt dps e = some port' ∧ port'.bare = port.bare := by
  obtain ⟨dp, hdp, hp⟩ := bind_eq_some_iff.mp hport
  have hlt := (List.getElem?_eq_some_iff.mp hdp).1
  have hbuilt : portAt built e = some port :=
    bind_eq_some_iff.mpr ⟨dp, (h.old e.dp hlt).trans hdp, hp⟩
  exact hsame.symm.portAt hbuilt

/-- The port of the new topology that replaces a port. -/
theorem Built.newPort
    (hdict : dict = (addDatapaths r ovsId scalingPorts).2.2)
    (hdistinct : scalingPorts.flatten.Nodup) (href : ref ∈ scalingPorts.flatten) :
    ∃ i k, ∃ hi : i < scalingPorts.length, k < scalingPorts[i].length ∧
      dict.lookup ref = some ⟨r.dps.length + i, k⟩ ∧
      ∃ dp port, dps[r.dps.length + i]? = some dp ∧ dp.ports[k]? = some port ∧
        port.portType = some .external ∧ port.linkedPort = (portAt r.dps ref).bind DPPort.linkedPort := by
  obtain ⟨portList, hportList, hrefmem⟩ := List.mem_flatten.mp href
  obtain ⟨i, hi, rfl⟩ := List.mem_iff_getElem.mp hportList
  obtain ⟨k, hk, rfl⟩ := List.mem_iff_getElem.mp hrefmem
  obtain ⟨hperm, hmem⟩ := addDatapaths_dict r ovsId scalingPorts
  refine ⟨i, k, hi, hk, ?_, ?_⟩
  · rw [hdict]
    exact lookup_of_mem (hperm.nodup_iff.mpr hdistinct) (hmem i k hi hk)
  · obtain ⟨dp₀, ints, hdp₀, hnew⟩ := h.new i hi
    obtain ⟨dp, hdp, hbare⟩ := hsame.symm.datapath hdp₀
    have hport₀ : dp₀.ports[k]? = some
        { ifname := DP.ifname (ovsName (ovsId + i)) k, id := k + 2, portType := some .external,
          linkedPort := (portAt r.dps scalingPorts[i][k]).bind DPPort.linkedPort } := by
      rw [hnew.ports, List.getElem?_append_left (by simpa [externalPorts] using hk)]
      simp only [externalPorts, List.getElem?_mapIdx, List.getElem?_eq_getElem hk, map_some]
    obtain ⟨port, hport, hport_bare⟩ := getElem?_of_bare hbare hport₀
    obtain ⟨ht, hl, -⟩ := DPPort.eq_of_bare hport_bare
    exact ⟨dp, port, hdp, hport, ht, hl⟩

/-- The name of a new datapath tells which one it is. -/
theorem Built.name_inj {a b : Nat}
    {x y : DP} (ha : r.dps.length ≤ a) (hb : r.dps.length ≤ b) (hx : dps[a]? = some x) (hy : dps[b]? = some y)
    (hname : x.name = y.name) : a = b := by
  obtain ⟨i, rfl, hi, -⟩ := h.datapath_same hsame ha hx
  obtain ⟨j, rfl, hj, -⟩ := h.datapath_same hsame hb hy
  rw [hi, hj, ovsName_inj] at hname
  omega

variable (hdict : dict = (addDatapaths r ovsId scalingPorts).2.2) (hgroups : ScalesExternal r.dps scalingPorts)
  (hold : OldTopology r.dps scalingPorts.flatten)

include hdict hgroups hold

/-- The new port behind an address of an old datapath leads to the same SAP. -/
theorem Built.newOutport
    (href : ref ∈ scalingPorts.flatten) {dp : DP} {p : Nat} (hdp : dps[ref.dp]? = some dp)
    (hport : dp.ports[p]? = some port) (hsap : destination dps port = some sap) :
    ∃ i k, ∃ hi : i < scalingPorts.length, k < scalingPorts[i].length ∧
      newOutport dps dict ref.dp port p = some ⟨r.dps.length + i, k⟩ ∧
      ∃ dp' port', dps[r.dps.length + i]? = some dp' ∧ dp'.ports[k]? = some port' ∧
        port'.portType = some .external ∧ port'.linkedPort = some (.sap sap) := by
  have hexternal : ∀ {e : PortRef}, e ∈ scalingPorts.flatten → ∃ old ifname,
      portAt r.dps e = some old ∧ old.linkedPort = some (.sap ifname) := by
    intro e he
    obtain ⟨portList, hportList, hmem⟩ := List.mem_flatten.mp he
    obtain ⟨old, ifname, hat, -, hlink⟩ := (hgroups portList hportList).2 e hmem
    exact ⟨old, ifname, hat, hlink⟩
  obtain ⟨old, -, hat, -⟩ := hexternal href
  obtain ⟨dp₀, hdp₀, -⟩ := bind_eq_some_iff.mp hat
  have hlt := (List.getElem?_eq_some_iff.mp hdp₀).1
  obtain ⟨dp₁, hdp₁, hbare⟩ := hsame.datapath hdp
  rw [h.old ref.dp hlt] at hdp₁
  obtain ⟨port₁, hport₁, hport_bare⟩ := getElem?_of_bare hbare hport
  obtain ⟨ht, hl, hf⟩ := DPPort.eq_of_bare hport_bare
  rcases hold.port ref href dp₁ p port₁ hdp₁ hport₁ with ⟨hext, hmem⟩ | ⟨hint, f, peer, e, hlink, hpeer, hforward, he⟩
  · obtain ⟨i, k, hi, hk, hlookup, dp', port', hdp', hport', ht', hl'⟩ :=
      h.newPort hsame hdict hold.distinct hmem
    obtain ⟨old', ifname, hat', hlink'⟩ := hexternal hmem
    have heq : old' = port₁ := by
      rw [portAt, hdp₁, bind_some, hport₁] at hat'
      exact (some_inj.mp hat').symm
    subst heq
    refine ⟨i, k, hi, hk, ?_, dp', port', hdp', hport', ht', ?_⟩
    · simp only [ElasticRouter.newOutport, ← ht, hext, hlookup]
    · rw [hl', hat', bind_some, hl]
      rw [hl] at hlink'
      rw [destination, hlink'] at hsap
      rw [hlink', ← some_inj.mp hsap]
  · obtain ⟨i, k, hi, hk, hlookup, dp', port', hdp', hport', ht', hl'⟩ := h.newPort hsame hdict hold.distinct he
    obtain ⟨ext, ifname, hextAt, hextLink⟩ := hexternal he
    obtain ⟨peer', hpeer', hpeer_bare⟩ := h.portAt_old hsame hpeer
    obtain ⟨ext', hext', hext_bare⟩ := h.portAt_old hsame hextAt
    have hforward' : peer'.forwardExtport = some e := (DPPort.eq_of_bare hpeer_bare).2.2.trans hforward
    have hextLink' : ext'.linkedPort = some (.sap ifname) := (DPPort.eq_of_bare hext_bare).2.1.trans hextLink
    refine ⟨i, k, hi, hk, ?_, dp', port', hdp', hport', ht', ?_⟩
    · simp only [ElasticRouter.newOutport, ← ht, hint, ← hl, hlink, hpeer', hforward', hlookup,
        bind_eq_bind, bind_some]
    · rw [hl', hextAt, bind_some, hextLink]
      simp only [destination, ← hl, hlink, hpeer', hforward', hext', hextLink', bind_some,
        Option.some.injEq] at hsap
      rw [hsap]

variable (hsingle : (∀ portList ∈ scalingPorts, portList.length = 1) ∨ scalingPorts.length = 1) {d : Nat}
  {dp self : DP} (hd : r.dps.length ≤ d) (hdp : dps[d]? = some dp) (hnumbers : KnownNumbers dp)
  (hname : self.name = dp.name) (hself : self.scalePortDict = dict)

include hsingle hd hdp hnumbers hname hself

/-- An address of an old datapath is reached on a port of the new one that leads to the same SAP. -/
theorem Built.translateMac
    (href : ref ∈ scalingPorts.flatten) {oldDP : DP} {portno index : Nat}
    (holdDP : dps[ref.dp]? = some oldDP) (hindex : oldDP.getPortByNumber portno = some index)
    (hport : oldDP.ports[index]? = some port) (hsap : destination dps port = some sap) :
    ∃ number, translateMac dps self ref.dp portno = some (some number) ∧
      ∃ port ∈ dp.ports, port.number = some number ∧ destination dps port = some sap := by
  obtain ⟨i, k, hi, hk, hout, destDP, ext, hdest, hext, het, hel⟩ :=
    h.newOutport hsame hdict hgroups hold href holdDP hport hsap
  have hwired := (h.wired hgroups).of_same hsame
  have hextAt : portAt dps ⟨r.dps.length + i, k⟩ = some ext :=
    bind_eq_some_iff.mpr ⟨destDP, hdest, hext⟩
  have hlength := h.length
  have hlt : d < built.length := hsame.length ▸ (List.getElem?_eq_some_iff.mp hdp).1
  simp only [ElasticRouter.translateMac, holdDP, hindex, hport, hself, hout, hdest, hname, bind_eq_bind,
    bind_some]
  by_cases heq : r.dps.length + i = d
  · -- the port is on this datapath
    subst heq
    obtain rfl := mem_unique hdp hdest
    rw [if_pos rfl, hextAt, bind_some]
    have hmem := List.mem_of_getElem? hext
    obtain ⟨number, hnumber⟩ := Option.ne_none_iff_exists'.mp (hnumbers.1 ext hmem)
    exact ⟨number, by rw [hnumber], ext, hmem, hnumber, by rw [destination, hel]⟩
  · have hne : ¬ destDP.name = dp.name := fun hn =>
      heq (h.name_inj hsame (Nat.le_add_right _ _) hd hdest hdp hn)
    rw [if_neg hne]
    -- there are several groups, so the port is the only external one of its datapath
    obtain rfl : k = 0 := by
      rcases hsingle with hone | hone
      · have := hone _ (List.getElem_mem hi)
        omega
      · omega
    obtain ⟨e, f, hef, he, hf⟩ := h.joined (r.dps.length + i) d (Nat.le_add_right _ _) (by omega) hd hlt heq
    rw [← hsame.peerOf_eq] at hef
    obtain ⟨-, x, hx, port₁, hport₁, hlink₁⟩ := peerOf_eq_some.mp hef
    rw [he, hdest] at hx
    obtain rfl := some_inj.mp hx
    have hports : ∀ q ∈ destDP.ports, q.portType = some .external ∨ (q.portType = some .internal ∧
        q.forwardExtport = some ⟨r.dps.length + i, 0⟩ ∧
        ∃ f peer, q.linkedPort = some (.port f) ∧ portAt dps f = some peer) := by
      intro q hq
      obtain ⟨p, hp⟩ := List.mem_iff_getElem?.mp hq
      rcases hwired.port _ destDP p q (Nat.le_add_right _ _) hdest hp with
        ⟨ht, -⟩ | ⟨ht, hforward, f, peer, hlink, -, hpeer, -⟩
      · exact .inl ht
      · exact .inr ⟨ht, hforward, f, peer, hlink, hpeer⟩
    have hint₁ := (hwired.linked (Nat.le_add_right _ _) hdest hport₁ hlink₁).1
    have hselfName : ∀ (l : Nat) (linked : DP), dps[l]? = some linked →
        (∃ port ∈ destDP.ports, port.linkedPort.bind Link.dp = some l) → (linked.name = dp.name ↔ l = d) := by
      rintro l linked hl ⟨q, hq, hqd⟩
      obtain ⟨p, hp⟩ := List.mem_iff_getElem?.mp hq
      have hle : r.dps.length ≤ l := by
        obtain ⟨link, hlink, hlinkDP⟩ := bind_eq_some_iff.mp hqd
        cases link with
        | sap => cases hlinkDP
        | port g =>
          obtain rfl := some_inj.mp hlinkDP
          exact (hwired.linked (Nat.le_add_right _ _) hdest hp hlink).2.2.1
      constructor
      · exact fun hn => h.name_inj hsame hle hd hl hdp hn
      · rintro rfl
        exact congrArg DP.name (mem_unique hl hdp)
    obtain ⟨q, hq, g, peer, hqlink, hgd, hpeer, hfind⟩ := findLocalOutport_eq hselfName hports
      ⟨port₁, List.mem_of_getElem? hport₁, hint₁, by rw [hlink₁]; exact congrArg some hf⟩
    -- the port at this end leads back to the datapath of the port
    obtain ⟨p, hp⟩ := List.mem_iff_getElem?.mp hq
    obtain ⟨-, hforward, -, peer', hpeer', hback⟩ := hwired.linked (Nat.le_add_right _ _) hdest hp hqlink
    obtain rfl := mem_unique hpeer hpeer'
    obtain ⟨y, hy, hpeerPort⟩ := bind_eq_some_iff.mp hpeer
    rw [hgd, hdp] at hy
    obtain rfl := some_inj.mp hy
    have hmem := List.mem_of_getElem? hpeerPort
    obtain ⟨number, hnumber⟩ := Option.ne_none_iff_exists'.mp (hnumbers.1 peer hmem)
    refine ⟨number, by rw [hfind, hnumber], peer, hmem, hnumber, ?_⟩
    have hqAt : portAt dps ⟨r.dps.length + i, p⟩ = some q :=
      bind_eq_some_iff.mpr ⟨destDP, hdest, hp⟩
    simp only [destination, hback, hqAt, hforward, hextAt, hel, bind_some]

/-- The addresses of an old datapath are moved, and those that were moved before stay where they are. -/
theorem Built.translateMactable {oldDPs : List Nat}
    (hagree : ∀ o ∈ oldDPs, ∀ o' ∈ oldDPs, ∀ mac sap sap', macSap dps o mac = some sap →
      macSap dps o' mac = some sap' → sap = sap') (href : ref ∈ scalingPorts.flatten)
    (hrefOld : ref.dp ∈ oldDPs)
    (hknown : ∀ oldDP, dps[ref.dp]? = some oldDP → ∀ mac ∈ oldDP.macToPort, (macSap dps ref.dp mac).isSome) :
    ∃ self', translateMactable dps ref.dp self = some self' ∧
      (self'.name = dp.name ∧ self'.scalePortDict = dict) ∧
      (∀ sap mac, macSap dps ref.dp mac = some sap → Migrated dps oldDPs dp.ports self'.macToPort mac) ∧
      ∀ mac, Migrated dps oldDPs dp.ports self.macToPort mac →
        Migrated dps oldDPs dp.ports self'.macToPort mac := by
  obtain ⟨portList, hportList, hmem⟩ := List.mem_flatten.mp href
  obtain ⟨old, -, hat, -⟩ := (hgroups portList hportList).2 ref hmem
  obtain ⟨old', hat', -⟩ := h.portAt_old hsame hat
  obtain ⟨oldDP, holdDP, -⟩ := bind_eq_some_iff.mp hat'
  obtain ⟨self', hfold, hframe, hall, hkeep⟩ := @foldlM_progress DP (String × Nat)
    (fun self entry => do
      let number ← ElasticRouter.translateMac dps self ref.dp entry.2
      number.elim (some self) fun number =>
        some { self with macToPort := self.macToPort.insert entry.1 number })
    (fun s => s.name = dp.name ∧ s.scalePortDict = dict)
    (fun entry s => Migrated dps oldDPs dp.ports s.macToPort entry.1) oldDP.macToPort.toList (by
      rintro ⟨mac, portno⟩ hentry s ⟨hs, hsdict⟩
      have hget : oldDP.macToPort[mac]? = some portno :=
        Std.ExtTreeMap.mem_toList_iff_getElem?_eq_some.mp hentry
      obtain ⟨sap, hsap⟩ := Option.isSome_iff_exists.mp (hknown oldDP holdDP mac
        (Std.ExtTreeMap.mem_iff_isSome_getElem?.mpr (by rw [hget]; rfl)))
      obtain ⟨oldDP', portno', index, port, holdDP', hportno', hindex, hport, hdest⟩ := macSap_eq_some hsap
      obtain rfl := mem_unique holdDP holdDP'
      obtain rfl := mem_unique hget hportno'
      obtain ⟨number, htranslate, newPort, hnewPort, hnumber, hleads⟩ := h.translateMac hsame hdict hgroups
        hold hsingle hd hdp hnumbers hs hsdict href holdDP hindex hport hdest
      have hmoved : Migrated dps oldDPs dp.ports (s.macToPort.insert mac number) mac := by
        intro o ho sap' hsap'
        obtain rfl := hagree _ hrefOld o ho mac sap sap' hsap hsap'
        exact ⟨number, by rw [StringMap.getElem?_insert, if_pos rfl], newPort, hnewPort, hnumber, hleads⟩
      refine ⟨{ s with macToPort := s.macToPort.insert mac number }, ?_, ⟨hs, hsdict⟩, ?_, ?_⟩
      · simp only [htranslate, bind_eq_bind, bind_some, Option.elim_some]
      · exact hmoved
      · rintro ⟨mac', _⟩ hmigrated o ho sap' hsap'
        by_cases hmac : mac = mac'
        · exact hmac ▸ hmoved o ho sap' (hmac ▸ hsap')
        · obtain ⟨number', hnumber', hport'⟩ := hmigrated o ho sap' hsap'
          exact ⟨number', by rw [StringMap.getElem?_insert, if_neg hmac, hnumber'], hport'⟩)
    self ⟨hname, hself⟩
  refine ⟨self', ?_, hframe, ?_, fun mac hm => hkeep (mac, 0) hm⟩
  · rw [ElasticRouter.translateMactable, holdDP, ← hfold]
    refine congrArg (List.foldlM · self _) (funext fun self => funext fun entry => ?_)
    refine bind_congr fun number => ?_
    cases number <;> rfl
  · intro sap mac hsap
    obtain ⟨oldDP', portno, -, -, holdDP', hportno, -⟩ := macSap_eq_some hsap
    obtain rfl := mem_unique holdDP holdDP'
    exact hall (mac, portno) (Std.ExtTreeMap.mem_toList_iff_getElem?_eq_some.mpr hportno)

end Migration

/-! ## Scaling out and in -/

variable {dps : List DP}

/-- A datapath with external ports only, all of which are scaled. -/
theorem oldTopology_of_external {refs : List PortRef} {d : Nat} (hdistinct : refs.Nodup)
    (hrefs : ∀ e, e ∈ refs ↔ e.dp = d ∧ (portAt dps e).isSome)
    (hexternal : ∀ (dp : DP) (port : DPPort), dps[d]? = some dp → port ∈ dp.ports → port.portType = some .external) :
    OldTopology dps refs := by
  refine ⟨hdistinct, ?_⟩
  intro ref href dp p port hdp hport
  obtain ⟨hd, -⟩ := (hrefs ref).mp href
  rw [hd] at hdp ⊢
  refine .inl ⟨hexternal dp port hdp (List.mem_of_getElem? hport), (hrefs _).mpr ⟨rfl, ?_⟩⟩
  rw [portAt, hdp, bind_some, hport]
  rfl

/-- The datapaths of a topology that scaling built, all of whose external ports are scaled. -/
theorem Wired.oldTopology {n : Nat} (h : Wired n dps) {refs : List PortRef} (hdistinct : refs.Nodup)
    (hrefs : ∀ e, e ∈ refs ↔ n ≤ e.dp ∧ ∃ port, portAt dps e = some port ∧ port.portType = some .external) :
    OldTopology dps refs := by
  refine ⟨hdistinct, ?_⟩
  intro ref href dp p port hdp hport
  obtain ⟨hn, -⟩ := (hrefs ref).mp href
  rcases h.port ref.dp dp p port hn hdp hport with ⟨ht, -⟩ | ⟨ht, -, f, peer, hlink, hfn, hpeer, -, -, hforward⟩
  · exact .inl ⟨ht, (hrefs _).mpr ⟨hn, port, bind_eq_some_iff.mpr ⟨dp, hdp, hport⟩, ht⟩⟩
  · obtain ⟨linked, hlinked, -⟩ := bind_eq_some_iff.mp hpeer
    obtain ⟨ext, ifname, hext, het, -⟩ := h.first f.dp linked hfn hlinked
    exact .inr ⟨ht, f, peer, ⟨f.dp, 0⟩, hlink, hpeer, hforward,
      (hrefs _).mpr ⟨hfn, ext, bind_eq_some_iff.mpr ⟨linked, hlinked, hext⟩, het⟩⟩

/-- These external ports can be scaled. -/
theorem Wired.scalesExternal {n : Nat} (h : Wired n dps) {groups : List (List PortRef)}
    (hrefs : ∀ portList ∈ groups, portList ≠ [] ∧ ∀ ref ∈ portList,
      n ≤ ref.dp ∧ ∃ port, portAt dps ref = some port ∧ port.portType = some .external) :
    ScalesExternal dps groups := by
  intro portList hportList
  refine ⟨(hrefs portList hportList).1, fun ref href => ?_⟩
  obtain ⟨hn, port, hat, ht⟩ := (hrefs portList hportList).2 ref href
  obtain ⟨dp, hdp, hport⟩ := bind_eq_some_iff.mp hat
  rcases h.port ref.dp dp ref.index port hn hdp hport with ⟨-, ifname, hsap⟩ | ⟨hint, -⟩
  · exact ⟨port, ifname, hat, ht, hsap⟩
  · rw [ht] at hint
    cases hint

/-- Every address that an old datapath has learned is reached by a new datapath on a port that leads to the
same SAP. -/
theorem macTable_migrated (answer : List Vnf → List Vnf) (r : Router) (scalingPorts : List (List PortRef))
    (hgroups : ScalesExternal r.dps scalingPorts) (hold : OldTopology r.dps scalingPorts.flatten)
    (hsingle : (∀ portList ∈ scalingPorts, portList.length = 1) ∨ scalingPorts.length = 1) (s : Scaled)
    (hs : scale answer r scalingPorts = some s) (dps : List DP) (hsame : SameTopology s.router.dps dps)
    (oldDPs : List Nat) (horder : ∀ o, o ∈ oldDPs ↔ ∃ entry ∈ s.scalePortDict, entry.1.dp = o)
    (hknown : ∀ o ∈ oldDPs, ∀ oldDP, dps[o]? = some oldDP → ∀ mac ∈ oldDP.macToPort, (macSap dps o mac).isSome)
    (hagree : ∀ o ∈ oldDPs, ∀ o' ∈ oldDPs, ∀ mac sap sap', macSap dps o mac = some sap →
      macSap dps o' mac = some sap' → sap = sap')
    (d : Nat) (hd : d ∈ s.newDPs) (dp : DP) (hdp : dps[d]? = some dp) (hnumbers : KnownNumbers dp) :
    ∃ dp', translateMactableScale dps oldDPs dp = some dp' ∧
      ∀ o ∈ oldDPs, ∀ mac sap, macSap dps o mac = some sap → HasMac dps dp.ports dp'.macToPort mac sap := by
  obtain ⟨ovsId, hnew, hdict, hbuilt⟩ := built_of_scale hgroups hs
  rw [hnew, List.mem_range'_1] at hd
  have hkeys := (addDatapaths_dict r ovsId scalingPorts).1
  rw [← hdict] at hkeys
  have hrefs : ∀ o ∈ oldDPs, ∃ ref ∈ scalingPorts.flatten, ref.dp = o := by
    intro o ho
    obtain ⟨entry, hentry, rfl⟩ := (horder o).mp ho
    exact ⟨entry.1, hkeys.mem_iff.mp (List.mem_map_of_mem hentry), rfl⟩
  obtain ⟨-, -, -, hdpDict⟩ := hbuilt.datapath_same hsame hd.1 hdp
  obtain ⟨dp', hfold, -, hall, -⟩ := @foldlM_progress DP Nat (fun self old => translateMactable dps old self)
    (fun x => x.name = dp.name ∧ x.scalePortDict = s.scalePortDict)
    (fun o x => ∀ sap mac, macSap dps o mac = some sap → Migrated dps oldDPs dp.ports x.macToPort mac) oldDPs
    (by
      rintro o ho x ⟨hxname, hxdict⟩
      obtain ⟨ref, href, rfl⟩ := hrefs o ho
      obtain ⟨x', hx', hframe, hmoved, hkeep⟩ := hbuilt.translateMactable hsame hdict hgroups hold hsingle hd.1 hdp
        hnumbers hxname hxdict hagree href ho (hknown ref.dp ho)
      exact ⟨x', hx', hframe, hmoved, fun b hb sap mac hsap => hkeep mac (hb sap mac hsap)⟩)
    dp ⟨rfl, hdpDict⟩
  refine ⟨dp', hfold, fun o ho mac sap hsap => hall o ho sap mac hsap o ho sap hsap⟩

theorem sameTopology_modify {dps' : List DP} (h : SameTopology dps dps') (d : Nat) {f : DP → DP}
    (hf : ∀ dp, (f dp).bare = dp.bare) : SameTopology dps (dps'.modify d f) := by
  have hmap : (dps'.modify d f).map DP.bare = dps'.map DP.bare := by
    apply List.ext_getElem?
    intro i
    rw [List.getElem?_map, List.getElem?_map, List.getElem?_modify]
    rcases dps'[i]? with _ | dp
    · rfl
    · simp only [Option.map_eq_map, map_some]
      split
      · rw [hf]
      · rfl
  exact hmap.trans h

/-- The conditions on the learned addresses, for the keys of the tables. -/
theorem known_and_agree {oldDPs : List Nat}
    (h : ∀ o ∈ oldDPs, ∀ oldDP ∈ dps[o]?, ∀ mac ∈ oldDP.macToPort.keys, ∃ sap ∈ macSap dps o mac,
      ∀ o' ∈ oldDPs, ∀ sap' ∈ macSap dps o' mac, sap = sap') :
    (∀ o ∈ oldDPs, ∀ oldDP, dps[o]? = some oldDP → ∀ mac ∈ oldDP.macToPort, (macSap dps o mac).isSome) ∧
      ∀ o ∈ oldDPs, ∀ o' ∈ oldDPs, ∀ mac sap sap', macSap dps o mac = some sap →
        macSap dps o' mac = some sap' → sap = sap' := by
  constructor
  · intro o ho oldDP holdDP mac hmac
    obtain ⟨sap, hsap, -⟩ := h o ho oldDP holdDP mac (Std.ExtTreeMap.mem_keys.mpr hmac)
    exact Option.isSome_of_mem hsap
  · intro o ho o' ho' mac sap sap' hsap hsap'
    obtain ⟨oldDP, portno, -, -, holdDP, hportno, -⟩ := macSap_eq_some hsap
    have hmac : mac ∈ oldDP.macToPort := Std.ExtTreeMap.mem_iff_isSome_getElem?.mpr (by rw [hportno]; rfl)
    obtain ⟨sap₀, hsap₀, hagree⟩ := h o ho oldDP holdDP mac (Std.ExtTreeMap.mem_keys.mpr hmac)
    rw [← mem_unique hsap₀ hsap]
    exact hagree o' ho' sap' hsap'

/-- A datapath has learned an address behind the port of the number. -/
def learns (dps : List DP) (d number : Nat) : List DP :=
  dps.modify d fun dp => { dp with macToPort := .ofList [("0a:00:00:00:00:02", number)] compare }

/-- The two datapaths, scaled in to one again. -/
def twoScaledIn : Scaled :=
  (scale id twoScaledOut.router [[⟨1, 0⟩, ⟨2, 0⟩]]).get (by decide +kernel)

/-- The external ports of the two datapaths. -/
theorem external_twoScaledOut (e : PortRef) : e ∈ [⟨1, 0⟩, ⟨2, 0⟩] ↔
    1 ≤ e.dp ∧ ∃ port, portAt twoScaledOut.router.dps e = some port ∧ port.portType = some .external := by
  have htypes : twoScaledOut.router.dps.map (fun dp => dp.ports.map DPPort.portType) =
      [[some .external, some .external], [some .external, some .internal], [some .external, some .internal]] := by
    decide +kernel
  have hat : (portAt twoScaledOut.router.dps e).map DPPort.portType =
      ((twoScaledOut.router.dps.map fun dp => dp.ports.map DPPort.portType)[e.dp]?).bind (·[e.index]?) := by
    rw [portAt, List.getElem?_map]
    cases twoScaledOut.router.dps[e.dp]? <;> simp
  rw [← Option.map_eq_some_iff, hat, htypes]
  obtain ⟨_ | _ | _ | d, _ | _ | i⟩ := e <;> simp

/-- An address behind the second of two ports. When the datapath is scaled out, the first of the new ones
gets it on the port to the second; when they are scaled in again, the joint one gets it on its second port. -/
theorem macTable_migrated_two :
    (∃ dp', translateMactableScale (learns twoRegistered 0 2) [0] firstOfTwo = some dp' ∧
      ∀ o ∈ [0], ∀ mac sap, macSap (learns twoRegistered 0 2) o mac = some sap →
        HasMac (learns twoRegistered 0 2) firstOfTwo.ports dp'.macToPort mac sap) ∧
    ∃ dp dp', translateMactableScale (learns (numberPorts twoScaledIn.router.dps) 1 2) [1, 2] dp = some dp' ∧
      ∀ o ∈ [1, 2], ∀ mac sap, macSap (learns (numberPorts twoScaledIn.router.dps) 1 2) o mac = some sap →
        HasMac (learns (numberPorts twoScaledIn.router.dps) 1 2) dp.ports dp'.macToPort mac sap := by
  have hlearns (dps : List DP) (d number : Nat) : SameTopology dps (learns (numberPorts dps) d number) :=
    sameTopology_modify (sameTopology_numberPorts _) d fun _ => rfl
  have hgroups : ScalesExternal (singleDatapath ["sap1", "sap2"]).dps [[⟨0, 0⟩], [⟨0, 1⟩]] :=
    scalesExternal_singleDatapath _ (by decide)
  constructor
  · have hdict : twoScaledOut.scalePortDict = [(⟨0, 1⟩, ⟨2, 0⟩), (⟨0, 0⟩, ⟨1, 0⟩)] := by decide +kernel
    have hagree := @known_and_agree (learns twoRegistered 0 2) [0] (by decide +kernel)
    refine macTable_migrated id (singleDatapath ["sap1", "sap2"]) [[⟨0, 0⟩], [⟨0, 1⟩]] hgroups ?_ (.inl (by decide))
      twoScaledOut (Option.some_get _).symm _ (hlearns _ 0 2) [0] ?_ hagree.1 hagree.2 1 (by decide +kernel)
      firstOfTwo ?_ (by unfold KnownNumbers; decide +kernel)
    · refine oldTopology_of_external (d := 0) (by decide) ?_ ?_
      · rintro ⟨_ | a, _ | _ | b⟩ <;> simp [portAt, singleDatapath]
      · intro dp port hdp hport
        obtain rfl := Option.some_inj.mp hdp
        obtain ⟨i, hi, rfl⟩ := List.mem_mapIdx.mp hport
        rfl
    · intro o
      rw [hdict]
      simp [eq_comm]
    · exact (List.getElem?_modify_ne _ _ (by decide)).trans (Option.some_get _).symm
  · have hdict : twoScaledIn.scalePortDict = [(⟨2, 0⟩, ⟨3, 1⟩), (⟨1, 0⟩, ⟨3, 0⟩)] := by decide +kernel
    have hagree := @known_and_agree (learns (numberPorts twoScaledIn.router.dps) 1 2) [1, 2] (by decide +kernel)
    have hout : scale id (singleDatapath ["sap1", "sap2"]) [[⟨0, 0⟩], [⟨0, 1⟩]] = some twoScaledOut :=
      (Option.some_get _).symm
    obtain ⟨_, -, -, hbuilt⟩ := built_of_scale hgroups hout
    refine ⟨(learns (numberPorts twoScaledIn.router.dps) 1 2)[3]?.get (by decide +kernel), ?_⟩
    have hwired := hbuilt.wired hgroups
    refine macTable_migrated id twoScaledOut.router [[⟨1, 0⟩, ⟨2, 0⟩]] (hwired.scalesExternal ?_)
      (hwired.oldTopology (by decide) external_twoScaledOut) (.inr rfl) twoScaledIn (Option.some_get _).symm _
      (hlearns _ 1 2) [1, 2] ?_ hagree.1 hagree.2 3 (by decide +kernel) _ (Option.some_get _).symm
      (by unfold KnownNumbers; decide +kernel)
    · intro portList hportList
      obtain rfl := List.mem_singleton.mp hportList
      exact ⟨by decide, fun ref href => (external_twoScaledOut ref).mp href⟩
    · intro o
      rw [hdict]
      simp [eq_comm, or_comm]

end UnOrchestrator.ElasticRouter
