import UnOrchestrator.ElasticRouter.Names
import UnOrchestrator.Lib.Peering

/-!
# The topology that scaling builds

`scale` links the new datapaths pairwise: it goes over all pairs and links those that are not connected
yet. While it does so, the links of the new datapaths are in order (`Meshing`): each can be followed back
and no two datapaths have two of them. In the end all pairs are linked. The internal ports then get the
external port to forward to; since there is one of them for each other datapath, the first external port
takes them all.

Names and identifiers of ports follow from the positions, on the datapath as in the NF-FG
(`scale_topology`).
-/

namespace UnOrchestrator.ElasticRouter

open List (Nodup getElem?_eq_getElem getElem?_map getElem?_modify getElem?_modify_eq getElem?_modify_ne
  getElem_mem mem_cons_self mem_of_getElem?)

open Option (bind_eq_bind bind_eq_some_iff bind_some ext map_eq_map map_eq_some_iff map_some mem_unique some
  some_inj)

open Peering

/-! ## Ports by position -/

/-- The ports have the names and identifiers of their positions. -/
def Numbered (dp : DP) : Prop :=
  ∀ p port, dp.ports[p]? = some port → port.ifname = DP.ifname dp.name p ∧ port.id = p + 2

theorem ifname_inj {name : String} {i j : Nat} : DP.ifname name i = DP.ifname name j ↔ i = j := by
  unfold DP.ifname
  rw [String.append_right_inj]
  exact Nat.repr_inj

@[simp] theorem ports_addPort (dp : DP) (ifname : String) (t : PortType) (l : Option Link) :
    (dp.addPort ifname t l).ports = dp.ports ++ [{ ifname := ifname, id := dp.ports.length + 2,
                                                   portType := some t, linkedPort := l }] := rfl

theorem Numbered.addPort {dp : DP} (h : Numbered dp) (t : PortType) (l : Option Link) :
    Numbered (dp.addPort (DP.ifname dp.name dp.ports.length) t l) := by
  intro p port hport
  rw [ports_addPort, List.getElem?_append] at hport
  split at hport
  next hlt => exact h p port hport
  next hge =>
    rw [List.getElem?_singleton] at hport
    split at hport
    next heq =>
      obtain rfl := some_inj.mp hport
      have hp : p = dp.ports.length := by omega
      exact ⟨by rw [hp]; rfl, by rw [hp]⟩
    next => cases hport

/-- The port that was added last is the one that is found by its name. -/
theorem Numbered.getPort_addPort {dp : DP} (h : Numbered dp) (t : PortType) (l : Option Link) :
    (dp.addPort (DP.ifname dp.name dp.ports.length) t l).getPort (DP.ifname dp.name dp.ports.length) =
      some dp.ports.length := by
  have hnone : dp.ports.findIdx? (fun port => port.ifname == DP.ifname dp.name dp.ports.length) = none := by
    rw [List.findIdx?_eq_none_iff]
    intro port hport
    obtain ⟨p, hp⟩ := List.mem_iff_getElem?.mp hport
    have hlt := (List.getElem?_eq_some_iff.mp hp).1
    rw [(h p port hp).1, beq_eq_false_iff_ne, Ne, ifname_inj]
    omega
  rw [DP.getPort, ports_addPort, List.findIdx?_append, hnone]
  simp

theorem modify_append_singleton {α : Type} (xs : List α) (x : α) (f : α → α) :
    (xs ++ [x]).modify xs.length f = xs ++ [f x] := by
  induction xs with
  | nil => rfl
  | cons y xs ih => simpa using ih

/-- Linking two datapaths gives each of them a port that leads to the port of the other. -/
theorem link_eq {dps : List DP} {d l : Nat} {dp dp' : DP} (hd : dps[d]? = some dp)
    (hl : dps[l]? = some dp') (hne : d ≠ l) (h : Numbered dp) (h' : Numbered dp') :
    ∃ dps', link dps d l = some dps' ∧ dps'.length = dps.length ∧
      dps'[d]? = some (dp.addPort (DP.ifname dp.name dp.ports.length) .internal
        (some (.port ⟨l, dp'.ports.length⟩))) ∧
      dps'[l]? = some (dp'.addPort (DP.ifname dp'.name dp'.ports.length) .internal
        (some (.port ⟨d, dp.ports.length⟩))) ∧
      ∀ i, i ≠ d → i ≠ l → dps'[i]? = dps[i]? := by
  let ifname1 := DP.ifname dp.name dp.ports.length
  let ifname2 := DP.ifname dp'.name dp'.ports.length
  let dps₁ := dps.modify d (fun dp => dp.addPort ifname1 .internal none)
  let port1 : PortRef := ⟨d, dp.ports.length⟩
  let dps₂ := dps₁.modify l (fun dp => dp.addPort ifname2 .internal (some (.port port1)))
  let port2 : PortRef := ⟨l, dp'.ports.length⟩
  have h₁ : dps₁[d]? = some (dp.addPort ifname1 .internal none) := by
    rw [getElem?_modify_eq, hd]
    rfl
  have h₂ : dps₂[d]? = some (dp.addPort ifname1 .internal none) :=
    (getElem?_modify_ne _ _ hne.symm).trans h₁
  have h₂' : dps₂[l]? = some (dp'.addPort ifname2 .internal (some (.port port1))) := by
    have hother : dps₁[l]? = some dp' := (getElem?_modify_ne _ _ hne).trans hl
    rw [getElem?_modify_eq, hother]
    rfl
  have hget₁ : getPort dps₁ d ifname1 = some port1 := by
    rw [getPort, h₁, bind_some, h.getPort_addPort]
    rfl
  have hget₂ : getPort dps₂ d ifname1 = some port1 := by
    rw [getPort, h₂, bind_some, h.getPort_addPort]
    rfl
  have hget₂' : getPort dps₂ l ifname2 = some port2 := by
    rw [getPort, h₂', bind_some, h'.getPort_addPort]
    rfl
  refine ⟨modifyPort dps₂ port1 (fun port => { port with linkedPort := some (.port port2) }), ?_, ?_, ?_, ?_, ?_⟩
  · simp only [link, hd, hl, bind_eq_bind, bind_some]
    rw [show getPort (dps.modify d _) d _ = some port1 from hget₁]
    simp only [map_some]
    rw [show getPort (List.modify _ l _) d _ = some port1 from hget₂,
      show getPort (List.modify _ l _) l _ = some port2 from hget₂']
    rfl
  · simp [modifyPort, dps₂, dps₁]
  · rw [modifyPort, getElem?_modify_eq, h₂, map_eq_map, map_some, ports_addPort,
      modify_append_singleton]
    rfl
  · exact (getElem?_modify_ne _ _ hne).trans h₂'
  · intro i hi hi'
    rw [modifyPort, getElem?_modify_ne _ _ hi.symm, getElem?_modify_ne _ _ hi'.symm,
      getElem?_modify_ne _ _ hi.symm]

/-! ## Linking -/

/-- The other end of a port of the datapaths from a position on, if it is a port. -/
def peerOf (n : Nat) (dps : List DP) (e : PortRef) : Option PortRef :=
  if n ≤ e.dp then
    (portAt dps e).bind fun port =>
      match port.linkedPort with
      | some (.port f) => some f
      | _ => none
  else none

/-- The datapaths with their external ports, before they are linked. -/
structure Unlinked (n : Nat) (base : List DP) : Prop where
  numbered : ∀ i dp, n ≤ i → base[i]? = some dp → Numbered dp
  external : ∀ i dp, n ≤ i → base[i]? = some dp → ∀ port ∈ dp.ports,
    port.portType = some .external ∧ (∃ ifname, port.linkedPort = some (.sap ifname)) ∧
      port.forwardExtport = none
  names : ∀ i j dp dp', n ≤ i → n ≤ j → base[i]? = some dp → base[j]? = some dp' → dp.name = dp'.name → i = j

/-- A port that leads to a port of another datapath and forwards to no port yet. -/
structure Free (port : DPPort) : Prop where
  internal : port.portType = some .internal
  linked : ∃ f, port.linkedPort = some (.port f)
  forward : port.forwardExtport = none

/-- A datapath that has got internal ports. -/
structure Extends (dp₀ dp : DP) (ints : List DPPort) : Prop where
  name : dp.name = dp₀.name
  id : dp.id = dp₀.id
  macToPort : dp.macToPort = dp₀.macToPort
  ports : dp.ports = dp₀.ports ++ ints
  free : ∀ port ∈ ints, Free port
  numbered : Numbered dp

/-- The datapaths while they are linked. -/
structure Meshing (n : Nat) (base dps : List DP) : Prop where
  length : dps.length = base.length
  old : ∀ i < n, dps[i]? = base[i]?
  new : ∀ i dp₀, n ≤ i → base[i]? = some dp₀ → ∃ dp ints, dps[i]? = some dp ∧ Extends dp₀ dp ints
  paired : Paired PortRef.dp (peerOf n dps)

section Linking

variable {n : Nat} {base dps dps' : List DP}

theorem peerOf_eq_some {e f : PortRef} : peerOf n dps e = some f ↔
    n ≤ e.dp ∧ ∃ dp, dps[e.dp]? = some dp ∧ ∃ port, dp.ports[e.index]? = some port ∧
      port.linkedPort = some (.port f) := by
  unfold peerOf
  constructor
  · intro h
    split at h
    next hle =>
      obtain ⟨port, hport, hlink⟩ := bind_eq_some_iff.mp h
      obtain ⟨dp, hdp, hport⟩ := bind_eq_some_iff.mp hport
      refine ⟨hle, dp, hdp, port, hport, ?_⟩
      split at hlink
      next g hg => rw [hg, some_inj.mp hlink]
      next => cases hlink
    next => cases h
  · rintro ⟨hle, dp, hdp, port, hport, hlink⟩
    rw [if_pos hle, portAt, hdp, bind_some, hport, bind_some, hlink]

variable {d : Nat} {newDPs : List Nat}

/-- Two datapaths are connected if a port of one leads to the other. -/
theorem checkConnected_iff {l : Nat} {dp : DP} (hn : n ≤ d) (hd : dps[d]? = some dp) :
    dp.checkConnected l ↔ Joined PortRef.dp (peerOf n dps) d l := by
  rw [DP.checkConnected, List.any_eq_true]
  constructor
  · rintro ⟨port, hport, hlinked⟩
    obtain ⟨p, hp⟩ := List.mem_iff_getElem?.mp hport
    rw [beq_iff_eq, bind_eq_some_iff] at hlinked
    obtain ⟨link, hlink, hdp⟩ := hlinked
    cases link with
    | sap _ => cases hdp
    | port f =>
      obtain rfl := some_inj.mp hdp
      exact ⟨⟨d, p⟩, f, peerOf_eq_some.mpr ⟨hn, dp, hd, port, hp, hlink⟩, rfl, rfl⟩
  · rintro ⟨e, f, hef, rfl, rfl⟩
    obtain ⟨-, dp', hdp', port, hport, hlink⟩ := peerOf_eq_some.mp hef
    obtain rfl := mem_unique hd hdp'
    refine ⟨port, mem_of_getElem? hport, ?_⟩
    rw [hlink]
    simp [Link.dp]

theorem Extends.addPort {dp₀ dp : DP} {ints : List DPPort} (h : Extends dp₀ dp ints) (f : PortRef) :
    ∃ ints', Extends dp₀ (dp.addPort (DP.ifname dp.name dp.ports.length) .internal (some (.port f))) ints' := by
  refine ⟨ints ++ [{ ifname := DP.ifname dp.name dp.ports.length, id := dp.ports.length + 2,
                     portType := some .internal, linkedPort := some (.port f) }],
    h.name, h.id, h.macToPort, ?_, ?_, h.numbered.addPort _ _⟩
  · rw [ports_addPort, h.ports, List.append_assoc]
  · intro port hport
    rcases List.mem_append.mp hport with hport | hport
    · exact h.free port hport
    · obtain rfl := List.mem_singleton.mp hport
      exact ⟨rfl, ⟨f, rfl⟩, rfl⟩

/-- The ports of a datapath that got one more. -/
theorem peer_addPort {dp : DP} {name : String} {f g : PortRef} {p : Nat} :
    (∃ port, (dp.addPort name .internal (some (.port f))).ports[p]? = some port ∧
        port.linkedPort = some (.port g)) ↔
      (∃ port, dp.ports[p]? = some port ∧ port.linkedPort = some (.port g)) ∨
        (p = dp.ports.length ∧ g = f) := by
  rw [ports_addPort]
  rcases lt_trichotomy p dp.ports.length with hlt | rfl | hgt
  · rw [List.getElem?_append_left hlt]
    simp [hlt.ne]
  · rw [List.getElem?_append_right (le_refl _), Nat.sub_self]
    simp [eq_comm]
  · rw [List.getElem?_append_right hgt.le, List.getElem?_singleton, if_neg (by omega)]
    simp [hgt.ne', hgt.le]

/-- A link between two datapaths that are not connected. -/
theorem Meshing.link (h : Meshing n base dps) {l : Nat} (hd : n ≤ d) (hd' : d < base.length)
    (hl : n ≤ l) (hl' : l < base.length) (hne : d ≠ l)
    (hapart : ¬ Joined PortRef.dp (peerOf n dps) d l) :
    ∃ dps', link dps d l = some dps' ∧ Meshing n base dps' ∧
      Joined PortRef.dp (peerOf n dps') d l ∧
      (∀ a b, Joined PortRef.dp (peerOf n dps) a b → Joined PortRef.dp (peerOf n dps') a b) ∧
      ∀ i : Nat, (dps'[i]?).map DP.scalePortDict = (dps[i]?).map DP.scalePortDict := by
  obtain ⟨dp, ints, hdp, hext⟩ := h.new d _ hd (getElem?_eq_getElem hd')
  obtain ⟨dp', ints', hdp', hext'⟩ := h.new l _ hl (getElem?_eq_getElem hl')
  obtain ⟨dps', hlink, hlength, hnew, hnew', hothers⟩ := link_eq hdp hdp' hne hext.numbered hext'.numbered
  have hfree : peerOf n dps ⟨d, dp.ports.length⟩ = none := by simp [peerOf, portAt, hdp]
  have hfree' : peerOf n dps ⟨l, dp'.ports.length⟩ = none := by simp [peerOf, portAt, hdp']
  have hends : (⟨d, dp.ports.length⟩ : PortRef) ≠ ⟨l, dp'.ports.length⟩ :=
    fun heq => hne (congrArg PortRef.dp heq)
  have hpeer : peerOf n dps' = join (peerOf n dps) ⟨d, dp.ports.length⟩ ⟨l, dp'.ports.length⟩ := by
    funext e
    apply ext
    intro f
    rw [join_eq_some hfree hfree' hends, peerOf_eq_some, peerOf_eq_some]
    by_cases hed : e.dp = d
    · obtain ⟨_, p⟩ := e
      obtain rfl := hed
      have hiff := @peer_addPort dp (DP.ifname dp.name dp.ports.length) ⟨l, dp'.ports.length⟩ f p
      simp only [hnew, hdp, some.injEq, exists_eq_left', PortRef.mk.injEq, true_and, hne, false_and,
        or_false, hd]
      exact hiff
    · by_cases hel : e.dp = l
      · obtain ⟨_, p⟩ := e
        obtain rfl := hel
        have hiff := @peer_addPort dp' (DP.ifname dp'.name dp'.ports.length) ⟨d, dp.ports.length⟩ f p
        simp only [hnew', hdp', some.injEq, exists_eq_left', PortRef.mk.injEq, true_and, hne.symm,
          false_and, false_or, hl]
        exact hiff
      · rw [hothers _ hed hel]
        have hne₁ : e ≠ ⟨d, dp.ports.length⟩ := fun heq => hed (congrArg PortRef.dp heq)
        have hne₂ : e ≠ ⟨l, dp'.ports.length⟩ := fun heq => hel (congrArg PortRef.dp heq)
        simp [hne₁, hne₂]
  have hpaired : Paired PortRef.dp (peerOf n dps') := hpeer ▸ h.paired.join hfree hfree' hne hapart
  refine ⟨dps', hlink, ⟨hlength.trans h.length, ?_, ?_, hpaired⟩, ?_, ?_, ?_⟩
  · intro i hi
    rw [hothers i (by omega) (by omega), h.old i hi]
  · intro i dp₀ hi hdp₀
    by_cases hid : i = d
    · obtain rfl := hid
      rw [getElem?_eq_getElem hd', some_inj] at hdp₀
      obtain ⟨ints₁, hext₁⟩ := hext.addPort ⟨l, dp'.ports.length⟩
      exact ⟨_, ints₁, hnew, hdp₀ ▸ hext₁⟩
    · by_cases hil : i = l
      · obtain rfl := hil
        rw [getElem?_eq_getElem hl', some_inj] at hdp₀
        obtain ⟨ints₁, hext₁⟩ := hext'.addPort ⟨d, dp.ports.length⟩
        exact ⟨_, ints₁, hnew', hdp₀ ▸ hext₁⟩
      · rw [hothers i hid hil]
        exact h.new i dp₀ hi hdp₀
  · rw [hpeer, joined_join hfree hfree' hends]
    exact .inr (.inl ⟨rfl, rfl⟩)
  · intro a b hab
    rw [hpeer, joined_join hfree hfree' hends]
    exact .inl hab
  · intro i
    by_cases hid : i = d
    · rw [hid, hnew, hdp]
      rfl
    · by_cases hil : i = l
      · rw [hil, hnew', hdp']
        rfl
      · rw [hothers i hid hil]

/-- What is set on a datapath apart from its ports does not concern the links. -/
theorem peerOf_modify (d : Nat) {f : DP → DP} (hf : ∀ dp, (f dp).ports = dp.ports) :
    peerOf n (dps.modify d f) = peerOf n dps := by
  funext e
  unfold peerOf portAt
  rw [getElem?_modify]
  rcases dps[e.dp]? with _ | dp
  · rfl
  · have hports : (if d = e.dp then f dp else dp).ports = dp.ports := by
      split
      · exact hf dp
      · rfl
    simp only [map_eq_map, map_some, bind_some, hports]

/-- At the start there are no links. -/
theorem Unlinked.meshing (h : Unlinked n base) : Meshing n base base := by
  have hnone : ∀ e f, peerOf n base e ≠ some f := by
    intro e f hef
    obtain ⟨hn, dp, hdp, port, hport, hlink⟩ := peerOf_eq_some.mp hef
    obtain ⟨-, ⟨ifname, hsap⟩, -⟩ := h.external e.dp dp hn hdp port (mem_of_getElem? hport)
    rw [hsap] at hlink
    cases hlink
  refine ⟨rfl, fun _ _ => rfl, ?_, ⟨?_, ?_, ?_⟩⟩
  · intro i dp₀ hi hdp₀
    exact ⟨dp₀, [], hdp₀, ⟨rfl, rfl, rfl, (List.append_nil _).symm, nofun, h.numbered i dp₀ hi hdp₀⟩⟩
  · intro e f hef
    exact absurd hef (hnone e f)
  · intro e f hef
    exact absurd hef (hnone e f)
  · intro e f _ _ hef
    exact absurd hef (hnone e f)

theorem Meshing.setDict (h : Meshing n base dps) (hd : n ≤ d) (dict : PortDict) :
    Meshing n base (dps.modify d (fun dp => { dp with scalePortDict := dict })) := by
  refine ⟨(List.length_modify ..).trans h.length, ?_, ?_, ?_⟩
  · intro i hi
    rw [getElem?_modify_ne _ _ (by omega), h.old i hi]
  · intro i dp₀ hi hdp₀
    obtain ⟨dp, ints, hdp, hext⟩ := h.new i dp₀ hi hdp₀
    by_cases hid : d = i
    · subst hid
      refine ⟨{ dp with scalePortDict := dict }, ints, ?_, ⟨hext.name, hext.id, hext.macToPort,
        hext.ports, hext.free, hext.numbered⟩⟩
      rw [getElem?_modify_eq, hdp]
      rfl
    · exact ⟨dp, ints, (getElem?_modify_ne _ _ hid).trans hdp, hext⟩
  · have hpeers : peerOf n (dps.modify d (fun dp => { dp with scalePortDict := dict })) = peerOf n dps :=
      peerOf_modify d fun _ => rfl
    rw [hpeers]
    exact h.paired

/-- The other datapaths are those at other positions. -/
theorem mem_otherDPs (hbase : Unlinked n base)
    (hnames : ∀ i : Nat, n ≤ i → (dps[i]?).map DP.name = (base[i]?).map DP.name)
    (hnew : ∀ i ∈ newDPs, n ≤ i ∧ i < base.length) {l : Nat} (hd : d ∈ newDPs) :
    l ∈ otherDPs dps newDPs d ↔ l ∈ newDPs ∧ l ≠ d := by
  rw [otherDPs, List.mem_filter]
  refine and_congr_right fun hl => ?_
  obtain ⟨hd, hd'⟩ := hnew d hd
  obtain ⟨hl, hl'⟩ := hnew l hl
  rw [hnames d hd, hnames l hl, getElem?_eq_getElem hd', getElem?_eq_getElem hl', bne_iff_ne]
  simp only [map_some, ne_eq, some.injEq]
  constructor
  · rintro hne rfl
    exact hne rfl
  · intro hne heq
    exact hne (hbase.names l d _ _ hl hd (getElem?_eq_getElem hl') (getElem?_eq_getElem hd')
      heq.symm)

theorem Meshing.names (h : Meshing n base dps) (i : Nat) (hi : n ≤ i) :
    (dps[i]?).map DP.name = (base[i]?).map DP.name := by
  rcases hdp₀ : base[i]? with _ | dp₀
  · rw [List.getElem?_eq_none_iff.mpr (h.length ▸ List.getElem?_eq_none_iff.mp hdp₀)]
  · obtain ⟨dp, ints, hdp, hext⟩ := h.new i dp₀ hi hdp₀
    rw [hdp, map_some, map_some, hext.name]

/-- A datapath that has its turn: it knows which port replaces which, and is linked to all others. -/
def Connected (n : Nat) (newDPs : List Nat) (dict : PortDict) (d : Nat) (dps : List DP) : Prop :=
  (dps[d]?).map DP.scalePortDict = some dict ∧
    ∀ l ∈ newDPs, l ≠ d → Joined PortRef.dp (peerOf n dps) d l

theorem Meshing.linkDatapath (h : Meshing n base dps) (hbase : Unlinked n base)
    (hnew : ∀ i ∈ newDPs, n ≤ i ∧ i < base.length) (dict : PortDict) (hd : d ∈ newDPs) :
    ∃ dps', linkDatapath newDPs dict dps d = some dps' ∧ Meshing n base dps' ∧
      Connected n newDPs dict d dps' ∧
      ∀ d', Connected n newDPs dict d' dps → Connected n newDPs dict d' dps' := by
  obtain ⟨hd₁, hd₂⟩ := hnew d hd
  let dps₁ := dps.modify d (fun dp => { dp with scalePortDict := dict })
  have hmesh : Meshing n base dps₁ := h.setDict hd₁ dict
  have hpeers : peerOf n dps₁ = peerOf n dps := peerOf_modify d fun _ => rfl
  -- along the loop links are only added, and nothing but ports changes
  let I : List DP → Prop := fun s => Meshing n base s ∧
    (∀ a b, Joined PortRef.dp (peerOf n dps₁) a b → Joined PortRef.dp (peerOf n s) a b) ∧
    ∀ i : Nat, (s[i]?).map DP.scalePortDict = (dps₁[i]?).map DP.scalePortDict
  let Q : Nat → List DP → Prop := fun l s => Joined PortRef.dp (peerOf n s) d l
  obtain ⟨dps', hfold, ⟨hmesh', hjoined, hdicts⟩, hall, -⟩ := @foldlM_progress _ _
    (fun s l => if ((s[d]?).map (fun dp => dp.checkConnected l)).getD false then some s
      else ElasticRouter.link s d l)
    I Q (otherDPs dps₁ newDPs d) (by
      intro l hl s hs
      obtain ⟨hl, hne⟩ := (mem_otherDPs hbase hmesh.names hnew hd).mp hl
      obtain ⟨hl₁, hl₂⟩ := hnew l hl
      obtain ⟨hs, hkept, hsame⟩ := hs
      obtain ⟨dp, -, hdp, -⟩ := hs.new d _ hd₁ (getElem?_eq_getElem hd₂)
      simp only [hdp, map_some, Option.getD_some]
      by_cases hconnected : Joined PortRef.dp (peerOf n s) d l
      · rw [if_pos ((checkConnected_iff hd₁ hdp).mpr hconnected)]
        exact ⟨s, rfl, ⟨hs, hkept, hsame⟩, hconnected, fun _ h => h⟩
      · rw [if_neg (mt (checkConnected_iff hd₁ hdp).mp hconnected)]
        obtain ⟨s', hlink, hs', hjoin, hmore, hdict⟩ := hs.link hd₁ hd₂ hl₁ hl₂ hne.symm hconnected
        exact ⟨s', hlink, ⟨hs', fun a b hab => hmore a b (hkept a b hab),
          fun i => (hdict i).trans (hsame i)⟩, hjoin, fun b hb => hmore d b hb⟩)
    dps₁ ⟨hmesh, fun _ _ h => h, fun _ => rfl⟩
  refine ⟨dps', hfold, hmesh', ⟨?_, ?_⟩, ?_⟩
  · obtain ⟨dp, -, hdp, -⟩ := h.new d _ hd₁ (getElem?_eq_getElem hd₂)
    rw [hdicts, getElem?_modify_eq, hdp]
    rfl
  · intro l hl hne
    exact hall l ((mem_otherDPs hbase hmesh.names hnew hd).mpr ⟨hl, hne⟩)
  · rintro d' ⟨hdict, hlinked⟩
    refine ⟨?_, fun l hl hne => hjoined d' l (hpeers ▸ hlinked l hl hne)⟩
    rw [hdicts, getElem?_modify]
    obtain ⟨dp, hdp, hdict⟩ := map_eq_some_iff.mp hdict
    rw [hdp]
    simp only [map_eq_map, map_some]
    split
    · rfl
    · rw [hdict]

/-- The loop over the new datapaths links each of them to all others. -/
theorem link_all (hbase : Unlinked n base) (hnew : ∀ i ∈ newDPs, n ≤ i ∧ i < base.length)
    (dict : PortDict) :
    ∃ dps, newDPs.foldlM (linkDatapath newDPs dict) base = some dps ∧ Meshing n base dps ∧
      ∀ d ∈ newDPs, Connected n newDPs dict d dps := by
  obtain ⟨dps, hfold, hmesh, hall, -⟩ := @foldlM_progress _ _ (linkDatapath newDPs dict) (Meshing n base)
    (Connected n newDPs dict) newDPs
    (fun d hd s hs => hs.linkDatapath hbase hnew dict hd) base hbase.meshing
  exact ⟨dps, hfold, hmesh, hall⟩

end Linking

/-! ## Forwarding -/

/-- A port without the port that it forwards to. -/
def DPPort.unforwarded (port : DPPort) : DPPort :=
  { port with forwardExtport := none }

/-- A datapath whose ports forward to none. -/
def DP.unforwarded (dp : DP) : DP :=
  { dp with ports := dp.ports.map DPPort.unforwarded }

/-- The datapaths while their ports get the port to forward to: nothing else changes, and it is the first
port of the datapath. -/
structure Forwarding (n : Nat) (mid dps : List DP) : Prop where
  length : dps.length = mid.length
  old : ∀ i < n, dps[i]? = mid[i]?
  new : ∀ i dpm, n ≤ i → mid[i]? = some dpm → ∃ dp, dps[i]? = some dp ∧ dp.unforwarded = dpm
  forward : ∀ (d : Nat) (dp : DP) (p : Nat) (port : DPPort), n ≤ d → dps[d]? = some dp →
    dp.ports[p]? = some port →
    port.forwardExtport = none ∨ (port.portType = some .internal ∧ port.forwardExtport = some ⟨d, 0⟩)

/-- Ports that lead to a datapath forward to some port. -/
def Covered (dps : List DP) (d l : Nat) : Prop :=
  ∀ (dp : DP) (p : Nat) (port : DPPort) (f : PortRef), dps[d]? = some dp → dp.ports[p]? = some port →
    port.linkedPort = some (.port f) → f.dp = l → port.forwardExtport ≠ none

section Forward

variable {n : Nat} {base mid dps : List DP}

variable {dp : DP} {p d : Nat}

theorem getElem?_unforwarded :
    dp.unforwarded.ports[p]? = (dp.ports[p]?).map DPPort.unforwarded :=
  getElem?_map ..

theorem portsOfType_unforwarded (t : PortType) (dp : DP) :
    portsOfType t dp.unforwarded = portsOfType t dp := by
  unfold portsOfType
  have hlength : dp.unforwarded.ports.length = dp.ports.length := List.length_map _
  rw [hlength]
  congr 1
  funext p
  rw [getElem?_unforwarded]
  rcases dp.ports[p]? with _ | port <;> rfl

theorem mem_portsOfType {t : PortType} :
    p ∈ portsOfType t dp ↔ ∃ port, dp.ports[p]? = some port ∧ port.portType = some t := by
  rw [portsOfType, List.mem_filter, List.mem_range, beq_iff_eq, bind_eq_some_iff]
  constructor
  · exact fun h => h.2
  · rintro ⟨port, hport, ht⟩
    exact ⟨(List.getElem?_eq_some_iff.mp hport).1, port, hport, ht⟩

/-- A port of a datapath that is linked already is external, or it is internal and leads to another
datapath. -/
theorem Meshing.port (h : Meshing n base dps) (hbase : Unlinked n base) {port : DPPort} (hn : n ≤ d)
    (hdp : dps[d]? = some dp) (hport : dp.ports[p]? = some port) :
    port.forwardExtport = none ∧
      ((port.portType = some .external ∧ ∃ ifname, port.linkedPort = some (.sap ifname)) ∨
        (port.portType = some .internal ∧ ∃ f linked, port.linkedPort = some (.port f) ∧ n ≤ f.dp ∧
          dps[f.dp]? = some linked)) := by
  have hlt : d < base.length := h.length ▸ (List.getElem?_eq_some_iff.mp hdp).1
  obtain ⟨dp', ints, hdp', hext⟩ := h.new d _ hn (getElem?_eq_getElem hlt)
  obtain rfl := mem_unique hdp hdp'
  have hmem := mem_of_getElem? hport
  rw [hext.ports, List.mem_append] at hmem
  rcases hmem with hmem | hmem
  · obtain ⟨ht, hsap, hforward⟩ := hbase.external d _ hn (getElem?_eq_getElem hlt) port hmem
    exact ⟨hforward, .inl ⟨ht, hsap⟩⟩
  · obtain ⟨ht, ⟨f, hf⟩, hforward⟩ := hext.free port hmem
    have hpeer : peerOf n dps ⟨d, p⟩ = some f := peerOf_eq_some.mpr ⟨hn, dp, hdp, port, hport, hf⟩
    obtain ⟨hfn, linked, hlinked, -⟩ := peerOf_eq_some.mp (h.paired.back hpeer)
    exact ⟨hforward, .inr ⟨ht, f, linked, hf, hfn, hlinked⟩⟩

/-- The search for a free port among ports that lead to datapaths: it finds one that leads to a datapath of
the name, or none of those that do is free. -/
theorem findFreePort_returns (name : Option String) {indices : List Nat}
    (hports : ∀ p ∈ indices, ∃ port f linked, portAt dps ⟨d, p⟩ = some port ∧
      port.linkedPort = some (.port f) ∧ dps[f.dp]? = some linked) :
    (findFreePort dps d name indices = some none ∧ ∀ p ∈ indices, ∀ port f linked,
        portAt dps ⟨d, p⟩ = some port → port.linkedPort = some (.port f) → dps[f.dp]? = some linked →
        some linked.name = name → port.forwardExtport ≠ none) ∨
      ∃ p ∈ indices, findFreePort dps d name indices = some (some p) ∧ ∃ port f linked,
        portAt dps ⟨d, p⟩ = some port ∧ port.linkedPort = some (.port f) ∧ dps[f.dp]? = some linked ∧
        some linked.name = name ∧ port.forwardExtport = none := by
  induction indices with
  | nil => exact .inl ⟨rfl, nofun⟩
  | cons p indices ih =>
    obtain ⟨port, f, linked, hport, hlink, hlinked⟩ := hports p mem_cons_self
    have hbind : port.linkedPort.bind Link.dp = some f.dp := by
      rw [hlink]
      rfl
    simp only [findFreePort, hport, hbind, hlinked, bind_eq_bind, bind_some]
    by_cases hfree : some linked.name = name ∧ port.forwardExtport = none
    · rw [if_pos hfree]
      exact .inr ⟨p, mem_cons_self, rfl, port, f, linked, hport, hlink, hlinked, hfree⟩
    · rw [if_neg hfree]
      rcases ih fun q hq => hports q (List.mem_cons_of_mem p hq) with ⟨hnone, hall⟩ | ⟨q, hq, hsome, hfound⟩
      · refine .inl ⟨hnone, ?_⟩
        intro q hq port' f' linked' hport' hlink' hlinked' hname
        rcases List.mem_cons.mp hq with rfl | hq
        · obtain rfl := mem_unique hport hport'
          obtain ⟨rfl⟩ := mem_unique hlink hlink'
          obtain rfl := mem_unique hlinked hlinked'
          exact fun hforward => hfree ⟨hname, hforward⟩
        · exact hall q hq port' f' linked' hport' hlink' hlinked' hname
      · exact .inr ⟨q, List.mem_cons_of_mem p hq, hsome, hfound⟩

/-- At the start no port forwards to any. -/
theorem Meshing.forwarding (h : Meshing n base mid) (hbase : Unlinked n base) : Forwarding n mid mid := by
  refine ⟨rfl, fun _ _ => rfl, ?_, ?_⟩
  · intro i dp hi hdp
    refine ⟨dp, hdp, ?_⟩
    have hports : dp.ports.map DPPort.unforwarded = dp.ports := by
      apply List.ext_getElem?
      intro p
      rw [getElem?_map]
      rcases hport : dp.ports[p]? with _ | port
      · rfl
      · have hnone := (h.port hbase hi hdp hport).1
        simp [DPPort.unforwarded, ← hnone]
    unfold DP.unforwarded
    rw [hports]
  · intro d dp p port hn hdp hport
    exact .inl (h.port hbase hn hdp hport).1

theorem Forwarding.names (h : Forwarding n mid dps) (hmesh : Meshing n base mid) (i : Nat) (hi : n ≤ i) :
    (dps[i]?).map DP.name = (base[i]?).map DP.name := by
  rw [← hmesh.names i hi]
  rcases hdp : mid[i]? with _ | dpm
  · rw [List.getElem?_eq_none_iff.mpr (h.length ▸ List.getElem?_eq_none_iff.mp hdp)]
  · obtain ⟨dp, hdp', rfl⟩ := h.new i dpm hi hdp
    rw [hdp']
    rfl

/-- A port after one of the ports has changed. -/
theorem port_of_modifyPort {e : PortRef} {f : DPPort → DPPort} {q : Nat} {port : DPPort}
    (hdp : (modifyPort dps e f)[d]? = some dp) (hport : dp.ports[q]? = some port) :
    ∃ dp₀ port₀, dps[d]? = some dp₀ ∧ dp₀.ports[q]? = some port₀ ∧
      port = if e = ⟨d, q⟩ then f port₀ else port₀ := by
  rw [modifyPort, getElem?_modify] at hdp
  obtain ⟨dp₀, hdp₀, rfl⟩ := map_eq_some_iff.mp hdp
  obtain ⟨i, p⟩ := e
  by_cases hid : i = d
  · rw [if_pos hid, getElem?_modify] at hport
    obtain ⟨port₀, hport₀, rfl⟩ := map_eq_some_iff.mp hport
    exact ⟨dp₀, port₀, hdp₀, hport₀, by simp [hid]⟩
  · rw [if_neg hid] at hport
    exact ⟨dp₀, port, hdp₀, hport, by simp [hid]⟩

/-- The port that a free port forwards to is set. -/
theorem Forwarding.set (h : Forwarding n mid dps) {port : DPPort} (hn : n ≤ d)
    (hdp : dps[d]? = some dp) (hport : dp.ports[p]? = some port)
    (ht : port.portType = some .internal) :
    Forwarding n mid (modifyPort dps ⟨d, p⟩ (fun port => { port with forwardExtport := some ⟨d, 0⟩ })) := by
  refine ⟨(List.length_modify ..).trans h.length, ?_, ?_, ?_⟩
  · intro i hi
    rw [modifyPort, getElem?_modify_ne _ _ (by simp only; omega), h.old i hi]
  · intro i dpm hi hdpm
    obtain ⟨dp', hdp', hsame⟩ := h.new i dpm hi hdpm
    by_cases hid : d = i
    · subst hid
      obtain rfl := mem_unique hdp hdp'
      refine ⟨_, by rw [modifyPort, getElem?_modify_eq, hdp, map_eq_map, map_some], ?_⟩
      rw [← hsame]
      unfold DP.unforwarded
      congr 1
      apply List.ext_getElem?
      intro q
      rw [getElem?_map, getElem?_map, getElem?_modify]
      rcases dp.ports[q]? with _ | port'
      · rfl
      · simp only [map_eq_map, map_some]
        split <;> rfl
    · exact ⟨dp', by rw [modifyPort, getElem?_modify_ne _ _ hid, hdp'], hsame⟩
  · intro i dp' q port' hi hdp' hport'
    obtain ⟨dp₀, port₀, hdp₀, hport₀, rfl⟩ := port_of_modifyPort hdp' hport'
    split
    next heq =>
      obtain ⟨rfl, rfl⟩ := PortRef.mk.inj heq
      obtain rfl := mem_unique hdp hdp₀
      obtain rfl := mem_unique hport hport₀
      exact .inr ⟨ht, rfl⟩
    next => exact h.forward i dp₀ q port₀ hi hdp₀ hport₀

/-- Setting a port to forward to frees no port. -/
theorem Covered.set {l i : Nat} {e : PortRef} (h : Covered dps d l) :
    Covered (modifyPort dps ⟨i, p⟩ (fun port => { port with forwardExtport := some e })) d l := by
  intro dp q port f hdp hport hlink hf
  obtain ⟨dp₀, port₀, hdp₀, hport₀, rfl⟩ := port_of_modifyPort hdp hport
  by_cases heq : (⟨i, p⟩ : PortRef) = ⟨d, q⟩
  · rw [if_pos heq]
    exact Option.some_ne_none _
  · rw [if_neg heq] at hlink ⊢
    exact h dp₀ q port₀ f hdp₀ hport₀ hlink hf

theorem foldlM_eq_self {σ α : Type} {f : σ → α → Option σ} {s : σ} {l : List α}
    (h : ∀ a ∈ l, f s a = some s) : l.foldlM f s = some s := by
  induction l with
  | nil => rfl
  | cons a l ih =>
    rw [List.foldlM_cons, h a mem_cons_self]
    exact ih fun b hb => h b (List.mem_cons_of_mem a hb)

/-- The first of the external ports is the first port. -/
theorem Meshing.externalPorts (h : Meshing n base dps) (hbase : Unlinked n base) {dp₀ : DP}
    (hn : n ≤ d) (hdp₀ : base[d]? = some dp₀) (hsome : dp₀.ports ≠ []) (hdp : dps[d]? = some dp) :
    ∃ rest, portsOfType .external dp = 0 :: rest := by
  obtain ⟨dp', ints, hdp', hext⟩ := h.new d dp₀ hn hdp₀
  obtain rfl := mem_unique hdp hdp'
  obtain ⟨port, ports, hports⟩ := List.exists_cons_of_ne_nil hsome
  have ht := (hbase.external d dp₀ hn hdp₀ port (hports ▸ mem_cons_self)).1
  have hall : dp.ports = port :: (ports ++ ints) := by rw [hext.ports, hports, List.cons_append]
  rw [portsOfType, hall, List.length_cons, List.range_succ_eq_map, List.filter_cons_of_pos (by simp [ht])]
  exact ⟨_, rfl⟩

variable (hmesh : Meshing n base mid) (hbase : Unlinked n base)

include hmesh hbase

section

variable (h : Forwarding n mid dps) (hn : n ≤ d) (hdp : dps[d]? = some dp)

include h hn hdp

/-- A port while the ports get their port to forward to, and the same port before. -/
theorem Forwarding.port {port : DPPort} (hport : dp.ports[p]? = some port) :
    (∃ dpm, mid[d]? = some dpm ∧ dpm.ports[p]? = some port.unforwarded) ∧
      ((port.portType = some .external ∧ ∃ ifname, port.linkedPort = some (.sap ifname)) ∨
        (port.portType = some .internal ∧ ∃ f linked, port.linkedPort = some (.port f) ∧ n ≤ f.dp ∧
          dps[f.dp]? = some linked)) := by
  have hlt : d < mid.length := h.length ▸ (List.getElem?_eq_some_iff.mp hdp).1
  obtain ⟨dp', hdp', hsame⟩ := h.new d _ hn (getElem?_eq_getElem hlt)
  obtain rfl := mem_unique hdp hdp'
  have hport' : (mid[d]).ports[p]? = some port.unforwarded := by
    rw [← hsame, getElem?_unforwarded, hport]
    rfl
  refine ⟨⟨_, getElem?_eq_getElem hlt, hport'⟩, ?_⟩
  rcases (hmesh.port hbase hn (getElem?_eq_getElem hlt) hport').2 with hext | ⟨ht, f, linked, hlink, hfn, hlinked⟩
  · exact .inl hext
  · obtain ⟨linked', hlinked', -⟩ := h.new f.dp linked hfn hlinked
    exact .inr ⟨ht, f, linked', hlink, hfn, hlinked'⟩

/-- The internal ports lead to datapaths. -/
theorem Forwarding.internalPorts :
    ∀ p ∈ portsOfType .internal dp, ∃ port f linked, portAt dps ⟨d, p⟩ = some port ∧
      port.linkedPort = some (.port f) ∧ dps[f.dp]? = some linked := by
  intro p hp
  obtain ⟨port, hport, ht⟩ := mem_portsOfType.mp hp
  have hat : portAt dps ⟨d, p⟩ = some port := by rw [portAt, hdp, bind_some, hport]
  rcases (h.port hmesh hbase hn hdp hport).2 with ⟨hext, -⟩ | ⟨-, f, linked, hlink, -, hlinked⟩
  · rw [hext] at ht
    cases ht
  · exact ⟨port, f, linked, hat, hlink, hlinked⟩

/-- The round for the first port and another datapath: afterwards the port that leads to the other
datapath forwards to some port. -/
theorem Forwarding.forwardPort {l : Nat} (hl : n ≤ l) (hl' : l < base.length) :
    ∃ dps', forwardPort d (portsOfType .internal dp) 0 dps l = some dps' ∧ Forwarding n mid dps' ∧
      Covered dps' d l ∧ ∀ d' l', Covered dps d' l' → Covered dps' d' l' := by
  have hnames := h.names hmesh
  have hsame : ∀ i linked, n ≤ i → dps[i]? = some linked → some linked.name = (dps[l]?).map DP.name → i = l := by
    intro i linked hi hlinked hname
    have hlt : i < base.length := by
      rw [← hmesh.length, ← h.length]
      exact (List.getElem?_eq_some_iff.mp hlinked).1
    have hi' := hnames i hi
    rw [hlinked, map_some, hname, hnames l hl, getElem?_eq_getElem hl',
      getElem?_eq_getElem hlt] at hi'
    simp only [map_some, some.injEq] at hi'
    exact hbase.names i l _ _ hi hl (getElem?_eq_getElem hlt) (getElem?_eq_getElem hl') hi'.symm
  rcases findFreePort_returns ((dps[l]?).map DP.name) (h.internalPorts hmesh hbase hn hdp) with
    ⟨hnone, hall⟩ | ⟨p, hp, hsome, port, f, linked, hat, hlink, hlinked, hname, hfree⟩
  · refine ⟨dps, by simp only [ElasticRouter.forwardPort, hnone, bind_eq_bind, bind_some], h, ?_,
      fun _ _ h => h⟩
    intro dp' p port f hdp' hport hlink hf
    obtain rfl := mem_unique hdp hdp'
    rcases (h.port hmesh hbase hn hdp hport).2 with ⟨-, ifname, hsap⟩ | ⟨ht, f', linked, hlink', -, hlinked⟩
    · rw [hsap] at hlink
      cases hlink
    · obtain ⟨rfl⟩ := mem_unique hlink hlink'
      refine hall p (mem_portsOfType.mpr ⟨port, hport, ht⟩) port f linked ?_ hlink hlinked ?_
      · rw [portAt, hdp, bind_some, hport]
      · rw [← hf, hlinked]
        rfl
  · obtain ⟨port', hport', ht⟩ := mem_portsOfType.mp hp
    obtain rfl : port' = port := by
      rw [portAt, hdp, bind_some, hport'] at hat
      exact some_inj.mp hat
    refine ⟨_, by simp only [ElasticRouter.forwardPort, hsome, bind_eq_bind, bind_some],
      h.set hn hdp hport' ht, ?_, fun _ _ h => h.set⟩
    intro dp' q portq g hdp' hq hlinkq hg
    -- the link between the two datapaths is the only one, so the port is the one that was found
    obtain ⟨⟨dpm, hdpm, hpm⟩, -⟩ := h.port hmesh hbase hn hdp hport'
    obtain ⟨dp₀, port₀, hdp₀, hport₀, rfl⟩ := port_of_modifyPort hdp' hq
    by_cases hpq : (⟨d, p⟩ : PortRef) = ⟨d, q⟩
    · rw [if_pos hpq]
      exact Option.some_ne_none _
    · rw [if_neg hpq] at hlinkq ⊢
      obtain ⟨⟨dpm', hdpm', hqm⟩, -⟩ := h.port hmesh hbase hn hdp₀ hport₀
      obtain rfl := mem_unique hdpm hdpm'
      have hpeer : peerOf n mid ⟨d, p⟩ = some f := peerOf_eq_some.mpr ⟨hn, dpm, hdpm, _, hpm, hlink⟩
      have hpeer' : peerOf n mid ⟨d, q⟩ = some g := peerOf_eq_some.mpr ⟨hn, dpm, hdpm, _, hqm, hlinkq⟩
      have hfn : n ≤ f.dp := (peerOf_eq_some.mp (hmesh.paired.back hpeer)).1
      have hfl : f.dp = l := hsame f.dp linked hfn hlinked hname
      have heq := hmesh.paired.single hpeer hpeer' rfl (hfl.trans hg.symm)
      exact absurd heq hpq

/-- Once all are covered, the rounds for the other external ports do nothing. -/
theorem Forwarding.forwardPort_of_covered (hcovered : ∀ l, Covered dps d l) (extPort l : Nat) :
    ElasticRouter.forwardPort d (portsOfType .internal dp) extPort dps l = some dps := by
  rcases findFreePort_returns ((dps[l]?).map DP.name) (h.internalPorts hmesh hbase hn hdp) with
    ⟨hnone, -⟩ | ⟨p, hp, -, port, f, linked, hat, hlink, -, -, hfree⟩
  · simp only [ElasticRouter.forwardPort, hnone, bind_eq_bind, bind_some]
  · rw [portAt, hdp, bind_some] at hat
    exact absurd hfree (hcovered f.dp dp p port f hdp hat hlink rfl)

end

/-- The round of the last loop for one datapath. -/
theorem Forwarding.forwardDatapath (h : Forwarding n mid dps) {newDPs : List Nat}
    (hnew : ∀ i, i ∈ newDPs ↔ n ≤ i ∧ i < base.length) (hsome : ∀ i dp, n ≤ i → base[i]? = some dp → dp.ports ≠ [])
    (hd : d ∈ newDPs) :
    ∃ dps', forwardDatapath newDPs dps d = some dps' ∧ Forwarding n mid dps' ∧
      (∀ l, Covered dps' d l) ∧ ∀ d', (∀ l, Covered dps d' l) → ∀ l, Covered dps' d' l := by
  obtain ⟨hn, hlt⟩ := (hnew d).mp hd
  obtain ⟨dpm, -, hdpm, -⟩ := hmesh.new d _ hn (getElem?_eq_getElem hlt)
  obtain ⟨dp, hdp, hsame⟩ := h.new d dpm hn hdpm
  obtain ⟨rest, hrest⟩ := hmesh.externalPorts hbase hn (getElem?_eq_getElem hlt)
    (hsome d _ hn (getElem?_eq_getElem hlt)) hdpm
  have hexternal : portsOfType .external dp = 0 :: rest := by
    rw [← portsOfType_unforwarded, hsame, hrest]
  -- the list of internal ports is read once, and the ports keep their type
  have hinternal : ∀ {s : List DP} {x : DP}, Forwarding n mid s → s[d]? = some x →
      portsOfType .internal x = portsOfType .internal dp := by
    intro s x hs hx
    obtain ⟨x', hx', hsame'⟩ := hs.new d dpm hn hdpm
    obtain rfl := mem_unique hx hx'
    rw [← portsOfType_unforwarded, hsame', ← hsame, portsOfType_unforwarded]
  obtain ⟨dps', hfold, ⟨hdps', hkeep⟩, hall, -⟩ := @foldlM_progress _ _
    (ElasticRouter.forwardPort d (portsOfType .internal dp) 0)
    (fun s => Forwarding n mid s ∧ ∀ d' l', Covered dps d' l' → Covered s d' l')
    (fun l s => Covered s d l) (otherDPs dps newDPs d) (by
      intro l hl s hs
      obtain ⟨hs, hkept⟩ := hs
      obtain ⟨hl, -⟩ := (mem_otherDPs hbase (h.names hmesh) (fun i => (hnew i).mp) hd).mp hl
      obtain ⟨hl₁, hl₂⟩ := (hnew l).mp hl
      obtain ⟨x, hx, -⟩ := hs.new d dpm hn hdpm
      obtain ⟨s', hstep, hs', hcovered, hmore⟩ := hs.forwardPort hmesh hbase hn hx hl₁ hl₂
      rw [hinternal hs hx] at hstep
      exact ⟨s', hstep, ⟨hs', fun d' l' hc => hmore d' l' (hkept d' l' hc)⟩, hcovered, fun b => hmore d b⟩)
    dps ⟨h, fun _ _ hc => hc⟩
  have hcovered : ∀ l, Covered dps' d l := by
    intro l x p port f hx hport hlink hf
    rcases (hdps'.port hmesh hbase hn hx hport).1 with ⟨dpm', hdpm', hportm⟩
    have hpeer : peerOf n mid ⟨d, p⟩ = some f := peerOf_eq_some.mpr ⟨hn, dpm', hdpm', _, hportm, hlink⟩
    obtain ⟨hfn, linked, hlinked, -⟩ := peerOf_eq_some.mp (hmesh.paired.back hpeer)
    have hne : f.dp ≠ d := (hmesh.paired.apart hpeer).symm
    have hmem : f.dp ∈ newDPs :=
      (hnew f.dp).mpr ⟨hfn, hmesh.length ▸ (List.getElem?_eq_some_iff.mp hlinked).1⟩
    exact hall f.dp ((mem_otherDPs hbase (h.names hmesh) (fun i => (hnew i).mp) hd).mpr ⟨hmem, hne⟩)
      x p port f hx hport hlink rfl
  obtain ⟨x, hx, -⟩ := hdps'.new d dpm hn hdpm
  refine ⟨dps', ?_, hdps', hcovered, fun d' hc l => hkeep d' l (hc l)⟩
  simp only [ElasticRouter.forwardDatapath, hdp, hexternal, bind_eq_bind, bind_some,
    List.foldlM_cons, hfold]
  refine foldlM_eq_self fun extPort _ => foldlM_eq_self fun l _ => ?_
  rw [← hinternal hdps' hx]
  exact hdps'.forwardPort_of_covered hmesh hbase hn hx hcovered extPort l

/-- The last loop: every internal port forwards to the first port of its datapath. -/
theorem forward_all {newDPs : List Nat} (hnew : ∀ i, i ∈ newDPs ↔ n ≤ i ∧ i < base.length)
    (hsome : ∀ i dp, n ≤ i → base[i]? = some dp → dp.ports ≠ []) :
    ∃ dps, newDPs.foldlM (forwardDatapath newDPs) mid = some dps ∧ Forwarding n mid dps ∧
      ∀ d ∈ newDPs, ∀ l, Covered dps d l := by
  obtain ⟨dps, hfold, hdps, hall, -⟩ := @foldlM_progress _ _ (forwardDatapath newDPs) (Forwarding n mid)
    (fun d s => ∀ l, Covered s d l) newDPs
    (fun d hd s hs => hs.forwardDatapath hmesh hbase hnew hsome hd) mid (hmesh.forwarding hbase)
  exact ⟨dps, hfold, hdps, hall⟩

end Forward

/-! ## The whole topology -/

/-- The groups that are scaled: none is empty, and their ports are external and linked to SAPs. -/
def ScalesExternal (dps : List DP) (scalingPorts : List (List PortRef)) : Prop :=
  ∀ portList ∈ scalingPorts, portList ≠ [] ∧ ∀ ref ∈ portList, ∃ port ifname,
    portAt dps ref = some port ∧ port.portType = some .external ∧ port.linkedPort = some (.sap ifname)

/-- The external ports of the datapath of a group. -/
def externalPorts (dps : List DP) (ovsId : Int) (portList : List PortRef) : List DPPort :=
  portList.mapIdx fun i oldPort =>
    { ifname := DP.ifname (ovsName ovsId) i, id := i + 2, portType := some .external,
      linkedPort := (portAt dps oldPort).bind DPPort.linkedPort }

/-- A datapath as it is before it is linked. -/
theorem newDatapath_eq (dps : List DP) (ovsId : Int) (portList : List PortRef) :
    newDatapath dps ovsId portList =
      { name := ovsName ovsId, id := ovsId, ports := externalPorts dps ovsId portList } := by
  have hfold : ∀ (l : List PortRef) (dp : DP),
      (l.zipIdx dp.ports.length).foldl (fun dp entry => dp.addPort (DP.ifname (ovsName ovsId) entry.2)
        .external ((portAt dps entry.1).bind DPPort.linkedPort)) dp =
      { dp with ports := dp.ports ++ l.mapIdx (fun i oldPort =>
          { ifname := DP.ifname (ovsName ovsId) (i + dp.ports.length), id := i + dp.ports.length + 2,
            portType := some .external, linkedPort := (portAt dps oldPort).bind DPPort.linkedPort }) } := by
    intro l
    induction l with
    | nil => simp
    | cons oldPort l ih =>
      intro dp
      rw [List.zipIdx_cons, List.foldl_cons]
      have hlength : dp.ports.length + 1 = (dp.addPort (DP.ifname (ovsName ovsId) dp.ports.length) .external
          ((portAt dps oldPort).bind DPPort.linkedPort)).ports.length := by simp
      rw [hlength, ih]
      simp [DP.addPort, List.mapIdx_cons, Nat.add_assoc, Nat.add_comm 1]
  exact hfold portList { name := ovsName ovsId, id := ovsId }

/-- One of the new datapaths: its external ports, and internal ones that forward to the first of them. -/
structure NewDP (old : List DP) (d : Nat) (ovsId : Int) (portList : List PortRef) (dict : PortDict)
    (dp : DP) (ints : List DPPort) : Prop where
  name : dp.name = ovsName ovsId
  id : dp.id = ovsId
  macToPort : dp.macToPort = ∅
  scalePortDict : dp.scalePortDict = dict
  ports : dp.ports = externalPorts old ovsId portList ++ ints
  internal : ∀ port ∈ ints, port.portType = some .internal ∧ (∃ f, port.linkedPort = some (.port f)) ∧
    port.forwardExtport = some ⟨d, 0⟩
  numbered : Numbered dp

/-- The objects after scaling: those that were there, and a datapath for each group; the links of the new
ones are in order, and each pair of them is linked. -/
structure Built (r : Router) (ovsId : Int) (scalingPorts : List (List PortRef)) (dict : PortDict)
    (dps : List DP) : Prop where
  length : dps.length = r.dps.length + scalingPorts.length
  old : ∀ i < r.dps.length, dps[i]? = r.dps[i]?
  new : ∀ i (hi : i < scalingPorts.length), ∃ dp ints, dps[r.dps.length + i]? = some dp ∧
    NewDP r.dps (r.dps.length + i) (ovsId + i) scalingPorts[i] dict dp ints
  paired : Paired PortRef.dp (peerOf r.dps.length dps)
  joined : ∀ a b, r.dps.length ≤ a → a < dps.length → r.dps.length ≤ b → b < dps.length → a ≠ b →
    Joined PortRef.dp (peerOf r.dps.length dps) a b

theorem Forwarding.peerOf_eq {n : Nat} {mid dps : List DP} (h : Forwarding n mid dps) :
    peerOf n dps = peerOf n mid := by
  funext e
  unfold peerOf
  split
  next hn =>
    unfold portAt
    rcases hdpm : mid[e.dp]? with _ | dpm
    · rw [List.getElem?_eq_none_iff.mpr (h.length ▸ List.getElem?_eq_none_iff.mp hdpm)]
    · obtain ⟨dp, hdp, rfl⟩ := h.new e.dp dpm hn hdpm
      rw [hdp, bind_some, bind_some, getElem?_unforwarded]
      rcases dp.ports[e.index]? with _ | port <;> rfl
  next => rfl

variable {ovsId : Int} {scalingPorts : List (List PortRef)}

/-- The datapaths that the groups get are ready to be linked. -/
theorem Added.unlinked {r r' : Router} {news : List DP} (h : Added r ovsId scalingPorts r' news)
    (hgroups : ScalesExternal r.dps scalingPorts) :
    Unlinked r.dps.length r'.dps ∧
      ∀ i (hi : i < scalingPorts.length), r'.dps[r.dps.length + i]? =
        some (newDatapath r.dps (ovsId + i) scalingPorts[i]) := by
  have hold : ∀ ref port, portAt r.dps ref = some port → ∀ l, portAt (r.dps ++ l) ref = some port := by
    intro ref port href l
    obtain ⟨dp, hdp, hport⟩ := bind_eq_some_iff.mp href
    rw [portAt, List.getElem?_append_left (List.getElem?_eq_some_iff.mp hdp).1, hdp, bind_some, hport]
  have hnew : ∀ i (hi : i < scalingPorts.length), r'.dps[r.dps.length + i]? =
      some (newDatapath r.dps (ovsId + i) scalingPorts[i]) := by
    intro i hi
    rw [h.dps, List.getElem?_append_right (Nat.le_add_right _ _), Nat.add_sub_cancel_left, h.datapath i hi,
      newDatapath_eq, newDatapath_eq]
    refine congrArg (fun ports => some (DP.mk _ _ ports _ _ _)) ?_
    apply List.ext_getElem
    · simp [externalPorts]
    intro k hk₁ hk₂
    have hk : k < scalingPorts[i].length := by simpa [externalPorts] using hk₁
    obtain ⟨port, ifname, hport, -, -⟩ := (hgroups _ (getElem_mem hi)).2 _ (getElem_mem hk)
    simp only [externalPorts, List.getElem_mapIdx]
    rw [hold _ port hport, hport]
  have hposition : ∀ {j : Nat} {dp : DP}, r.dps.length ≤ j → r'.dps[j]? = some dp → ∃ i,
      ∃ hi : i < scalingPorts.length, j = r.dps.length + i ∧
        dp = newDatapath r.dps (ovsId + i) scalingPorts[i] := by
    intro j dp hj hdp
    have hlt := (List.getElem?_eq_some_iff.mp hdp).1
    rw [h.dps, List.length_append, h.length] at hlt
    refine ⟨j - r.dps.length, by omega, by omega, ?_⟩
    have hget := hnew (j - r.dps.length) (by omega)
    rw [show r.dps.length + (j - r.dps.length) = j by omega, hdp] at hget
    exact some_inj.mp hget
  refine ⟨⟨?_, ?_, ?_⟩, hnew⟩
  · intro j dp hj hdp
    obtain ⟨i, hi, -, rfl⟩ := hposition hj hdp
    rw [newDatapath_eq]
    intro p port hport
    simp only [externalPorts, List.getElem?_mapIdx, map_eq_some_iff] at hport
    obtain ⟨ref, -, rfl⟩ := hport
    exact ⟨rfl, rfl⟩
  · intro j dp hj hdp port hport
    obtain ⟨i, hi, -, rfl⟩ := hposition hj hdp
    rw [newDatapath_eq] at hport
    obtain ⟨k, hk, rfl⟩ := List.mem_mapIdx.mp hport
    obtain ⟨port, ifname, hport, -, hlink⟩ := (hgroups _ (getElem_mem hi)).2 _ (getElem_mem hk)
    refine ⟨rfl, ⟨ifname, ?_⟩, rfl⟩
    simp only [hport, bind_some, hlink]
  · intro j j' dp dp' hj hj' hdp hdp' hname
    obtain ⟨i, hi, rfl, rfl⟩ := hposition hj hdp
    obtain ⟨i', hi', rfl, rfl⟩ := hposition hj' hdp'
    rw [newDatapath_eq, newDatapath_eq] at hname
    have hids := ovsName_inj.mp hname
    omega

/-- A datapath whose internal ports forward, and the same datapath before they did. -/
theorem Forwarding.newDP {n : Nat} {base mid dps : List DP} (h : Forwarding n mid dps)
    (hmesh : Meshing n base mid) (hbase : Unlinked n base) {d : Nat} (hn : n ≤ d)
    (hcovered : ∀ l, Covered dps d l) {old : List DP} {portList : List PortRef} {dict : PortDict}
    (hdp₀ : base[d]? = some (newDatapath old ovsId portList))
    (hdict : (mid[d]?).map DP.scalePortDict = some dict) :
    ∃ dp ints, dps[d]? = some dp ∧ NewDP old d ovsId portList dict dp ints := by
  rw [newDatapath_eq] at hdp₀
  obtain ⟨dpm, ints, hdpm, hext⟩ := hmesh.new d _ hn hdp₀
  obtain ⟨dp, hdp, rfl⟩ := h.new d dpm hn hdpm
  rw [hdpm, map_some, some_inj] at hdict
  obtain ⟨exts, ints', hsplit, hexts, hints⟩ := List.map_eq_append_iff.mp hext.ports
  change exts.map DPPort.unforwarded = externalPorts old ovsId portList at hexts
  have hindex : ∀ port ∈ dp.ports, ∃ p, dp.ports[p]? = some port := fun port => List.mem_iff_getElem?.mp
  refine ⟨dp, ints', hdp, ⟨hext.name, hext.id, hext.macToPort, hdict, ?_, ?_, ?_⟩⟩
  · rw [hsplit]
    refine congrArg (· ++ ints') ?_
    rw [← hexts]
    symm
    refine (List.map_congr_left (g := id) fun port hport => ?_).trans (List.map_id exts)
    -- external ports forward to none
    obtain ⟨p, hp⟩ := hindex port (hsplit ▸ List.mem_append_left ints' hport)
    have hmem : port.unforwarded ∈ externalPorts old ovsId portList :=
      hexts ▸ List.mem_map_of_mem hport
    have ht : port.portType = some .external := (hbase.external d _ hn hdp₀ _ hmem).1
    rcases h.forward d dp p port hn hdp hp with hnone | ⟨hint, -⟩
    · unfold DPPort.unforwarded
      rw [← hnone]
      rfl
    · rw [ht] at hint
      cases hint
  · intro port hport
    obtain ⟨p, hp⟩ := hindex port (hsplit ▸ List.mem_append_right exts hport)
    obtain ⟨ht, ⟨f, hf⟩, -⟩ := hext.free port.unforwarded (hints ▸ List.mem_map_of_mem hport)
    refine ⟨ht, ⟨f, hf⟩, ?_⟩
    rcases h.forward d dp p port hn hdp hp with hnone | ⟨-, hset⟩
    · exact absurd hnone (hcovered f.dp dp p port f hdp hp hf rfl)
    · exact hset
  · intro p port hport
    exact hext.numbered p port.unforwarded (by rw [getElem?_unforwarded, hport]; rfl)

/-- Scaling returns, and builds the topology. -/
theorem scale_built (answer : List Vnf → List Vnf) {r : Router}
    (hgroups : ScalesExternal r.dps scalingPorts) (hid : getNextOvsId r.nffg 0 = some ovsId) :
    ∃ s, scale answer r scalingPorts = some s ∧
      s.newDPs = List.range' r.dps.length scalingPorts.length ∧
      s.scalePortDict = (addDatapaths r ovsId scalingPorts).2.2 ∧
      s.router.dpInstances = (addDatapaths r ovsId scalingPorts).1.dpInstances ∧
      s.nffgIntermediate = r.nffg ++ (datapaths s.router.dps s.newDPs).map
        (fun dp => ovsVnf dp.name dp.name dp.ports.length) ∧
      Built r ovsId scalingPorts s.scalePortDict s.router.dps := by
  obtain ⟨⟨news, hadded⟩, hnewDPs⟩ := addDatapaths_added r ovsId scalingPorts
  obtain ⟨hbase, hget⟩ := hadded.unlinked hgroups
  have hlength : (addDatapaths r ovsId scalingPorts).1.dps.length = r.dps.length + scalingPorts.length := by
    rw [hadded.dps, List.length_append, hadded.length]
  have hnew : ∀ i, i ∈ (addDatapaths r ovsId scalingPorts).2.1 ↔
      r.dps.length ≤ i ∧ i < (addDatapaths r ovsId scalingPorts).1.dps.length := by
    intro i
    rw [hnewDPs, hlength, List.mem_range'_1]
  have hsome : ∀ j dp, r.dps.length ≤ j → (addDatapaths r ovsId scalingPorts).1.dps[j]? = some dp →
      dp.ports ≠ [] := by
    intro j dp hj hdp
    have hlt := (List.getElem?_eq_some_iff.mp hdp).1
    rw [hlength] at hlt
    have hj' := hget (j - r.dps.length) (by omega)
    rw [show r.dps.length + (j - r.dps.length) = j by omega, hdp] at hj'
    obtain rfl := some_inj.mp hj'
    rw [newDatapath_eq]
    intro hnil
    have hempty := congrArg List.length hnil
    simp only [externalPorts, List.length_mapIdx, List.length_nil] at hempty
    exact (hgroups _ (getElem_mem (by omega))).1 (List.length_eq_zero_iff.mp hempty)
  obtain ⟨mid, hlink, hmesh, hconnected⟩ := link_all hbase (fun i => (hnew i).mp)
    (addDatapaths r ovsId scalingPorts).2.2
  obtain ⟨dps, hforward, hdps, hcovered⟩ := forward_all hmesh hbase hnew hsome
  have hnffg := hadded.nffg
  refine ⟨_, by
    simp only [scale, hid, hlink, hforward, bind_eq_bind, bind_some]; rfl, hnewDPs, rfl, rfl,
    by rw [← hnffg]; rfl, ⟨(hdps.length.trans hmesh.length).trans hlength, ?_, ?_, ?_, ?_⟩⟩
  · intro i hi
    show dps[i]? = _
    rw [hdps.old i hi, hmesh.old i hi, hadded.dps, List.getElem?_append_left hi]
  · intro i hi
    have hmem := (hnew (r.dps.length + i)).mpr ⟨Nat.le_add_right _ _, by omega⟩
    exact hdps.newDP hmesh hbase (Nat.le_add_right _ _) (hcovered _ hmem) (hget i hi) (hconnected _ hmem).1
  · exact hdps.peerOf_eq ▸ hmesh.paired
  · intro a b ha ha' hb hb' hne
    have hdps_length : dps.length = (addDatapaths r ovsId scalingPorts).1.dps.length :=
      hdps.length.trans hmesh.length
    show Joined PortRef.dp (peerOf r.dps.length dps) a b
    rw [hdps.peerOf_eq]
    exact (hconnected a ((hnew a).mpr ⟨ha, hdps_length ▸ ha'⟩)).2 b ((hnew b).mpr ⟨hb, hdps_length ▸ hb'⟩)
      hne.symm

/-- An internal port that is linked to another port. -/
def LinkedTo (dps : List DP) (e f : PortRef) : Prop :=
  ∃ port, portAt dps e = some port ∧ port.portType = some .internal ∧ port.linkedPort = some (.port f)

/-- The topology of the new datapaths. There is one for each group, and `linked` says that each pair of
them has exactly one link. The ports of a datapath are numbered and named as in the network function that
stands for it in the NF-FG, behind its two management ports. If the groups have one port, or there is one
group, internal ports forward to the only external port. -/
structure FullMesh (scalingPorts : List (List PortRef)) (s : Scaled) : Prop where
  count : s.newDPs.length = scalingPorts.length
  distinct : s.newDPs.Nodup
  datapath : ∀ d ∈ s.newDPs, ∃ dp, s.router.dps[d]? = some dp ∧ s.router.dpInstances[dp.name]? = some d
  linked : ∀ a ∈ s.newDPs, ∀ b ∈ s.newDPs, a ≠ b → ∃ e f, e.dp = a ∧ f.dp = b ∧
    LinkedTo s.router.dps e f ∧ LinkedTo s.router.dps f e ∧
    ∀ e' f', e'.dp = a → f'.dp = b → LinkedTo s.router.dps e' f' → e' = e ∧ f' = f
  numbered : ∀ d ∈ s.newDPs, ∀ dp, s.router.dps[d]? = some dp →
    (dp.ports.map DPPort.ifname).Nodup ∧ (dp.ports.map DPPort.id).Nodup ∧
    ∃ vnf ∈ s.nffgIntermediate, vnf.id = dp.name ∧
      vnf.ports.drop 2 = dp.ports.map (fun port => (toString port.id, port.ifname))
  forward : (∀ portList ∈ scalingPorts, portList.length = 1) ∨ scalingPorts.length = 1 →
    ∀ d ∈ s.newDPs, ∀ dp, s.router.dps[d]? = some dp → ∀ port ∈ dp.ports, port.portType = some .internal →
    ∃ e ext, port.forwardExtport = some ⟨d, e⟩ ∧ dp.ports[e]? = some ext ∧ ext.portType = some .external ∧
      ∀ e' ext', dp.ports[e']? = some ext' → ext'.portType = some .external → e' = e

section Built

variable {r : Router} {ovsId : Int} {scalingPorts : List (List PortRef)} {dict : PortDict} {dps : List DP}

/-- A datapath behind the old ones is the one of a group. -/
theorem Built.datapath (h : Built r ovsId scalingPorts dict dps) {d : Nat} (hd : r.dps.length ≤ d)
    (hd' : d < dps.length) : ∃ i dp ints, ∃ hi : i < scalingPorts.length, d = r.dps.length + i ∧
      dps[d]? = some dp ∧ NewDP r.dps d (ovsId + i) scalingPorts[i] dict dp ints := by
  have hlength := h.length
  have heq : r.dps.length + (d - r.dps.length) = d := by omega
  obtain ⟨dp, ints, hdp, hnew⟩ := h.new (d - r.dps.length) (by omega)
  rw [heq] at hdp hnew
  exact ⟨d - r.dps.length, dp, ints, by omega, heq.symm, hdp, hnew⟩

/-- A port of a new datapath is one of the external ones or one of the internal ones. -/
theorem NewDP.port {old : List DP} {d : Nat} {portList : List PortRef} {dp : DP} {ints : List DPPort}
    (h : NewDP old d ovsId portList dict dp ints) {p : Nat} {port : DPPort} (hport : dp.ports[p]? = some port) :
    (∃ hp : p < portList.length, port =
        { ifname := DP.ifname (ovsName ovsId) p, id := p + 2, portType := some .external,
          linkedPort := (portAt old portList[p]).bind DPPort.linkedPort }) ∨
      (portList.length ≤ p ∧ port.portType = some .internal ∧ (∃ f, port.linkedPort = some (.port f)) ∧
        port.forwardExtport = some ⟨d, 0⟩) := by
  rw [h.ports] at hport
  have hlength : (externalPorts old ovsId portList).length = portList.length := List.length_mapIdx
  rcases lt_or_ge p portList.length with hlt | hge
  · rw [List.getElem?_append_left (hlength ▸ hlt)] at hport
    refine .inl ⟨hlt, ?_⟩
    simp only [externalPorts, List.getElem?_mapIdx, getElem?_eq_getElem hlt, map_some,
      some.injEq] at hport
    exact hport.symm
  · rw [List.getElem?_append_right (hlength ▸ hge)] at hport
    exact .inr ⟨hge, h.internal port (mem_of_getElem? hport)⟩

/-- The ports of new datapaths that are wired are the internal ones. -/
theorem Built.linkedTo_iff (h : Built r ovsId scalingPorts dict dps)
    (hgroups : ScalesExternal r.dps scalingPorts) {e f : PortRef} (he : r.dps.length ≤ e.dp)
    (he' : e.dp < dps.length) : LinkedTo dps e f ↔ peerOf r.dps.length dps e = some f := by
  obtain ⟨i, dp, ints, hi, -, hdp, hnew⟩ := h.datapath he he'
  rw [peerOf_eq_some]
  constructor
  · rintro ⟨port, hport, -, hlink⟩
    rw [portAt, hdp, bind_some] at hport
    exact ⟨he, dp, hdp, port, hport, hlink⟩
  · rintro ⟨-, dp', hdp', port, hport, hlink⟩
    obtain rfl := mem_unique hdp hdp'
    rcases hnew.port hport with ⟨hp, rfl⟩ | ⟨-, ht, -, -⟩
    · -- external ports are linked to SAPs
      obtain ⟨old, ifname, hold, -, hsap⟩ := (hgroups _ (getElem_mem hi)).2 _ (getElem_mem hp)
      simp only [hold, bind_some, hsap, some.injEq, reduceCtorEq] at hlink
    · exact ⟨port, by rw [portAt, hdp, bind_some, hport], ht, hlink⟩

theorem Numbered.nodup {dp : DP} (h : Numbered dp) :
    (dp.ports.map DPPort.ifname).Nodup ∧ (dp.ports.map DPPort.id).Nodup := by
  constructor
  · rw [Nodup, List.pairwise_map, List.pairwise_iff_getElem]
    intro i j hi hj hij
    rw [(h i _ (getElem?_eq_getElem hi)).1, (h j _ (getElem?_eq_getElem hj)).1, Ne, ifname_inj]
    omega
  · rw [Nodup, List.pairwise_map, List.pairwise_iff_getElem]
    intro i j hi hj hij
    rw [(h i _ (getElem?_eq_getElem hi)).2, (h j _ (getElem?_eq_getElem hj)).2]
    omega

/-- The network function for a datapath has its ports, behind two others. -/
theorem Numbered.ovsVnf {dp : DP} (h : Numbered dp) :
    (ovsVnf dp.name dp.name dp.ports.length).ports.drop 2 =
      dp.ports.map (fun port => (toString port.id, port.ifname)) := by
  apply List.ext_getElem
  · simp [ElasticRouter.ovsVnf]
  intro p h₁ h₂
  have hp : p < dp.ports.length := by simpa using h₂
  obtain ⟨hname, hid⟩ := h p _ (getElem?_eq_getElem hp)
  simp [ElasticRouter.ovsVnf, hname, hid, DP.ifname]

end Built

/-- Scaling builds a full mesh of datapaths, also when a name is taken from an older datapath. -/
theorem scale_topology (answer : List Vnf → List Vnf) (r : Router) (scalingPorts : List (List PortRef))
    (hgroups : ScalesExternal r.dps scalingPorts) (ovsId : Int)
    (hid : getNextOvsId r.nffg 0 = some ovsId) :
    ∃ s, scale answer r scalingPorts = some s ∧ FullMesh scalingPorts s := by
  obtain ⟨s, hscale, hnewDPs, -, hinstances, hnffg, hbuilt⟩ := scale_built answer hgroups hid
  obtain ⟨⟨news, hadded⟩, -⟩ := addDatapaths_added r ovsId scalingPorts
  have hlength := hbuilt.length
  have hmem : ∀ {d}, d ∈ s.newDPs → r.dps.length ≤ d ∧ d < s.router.dps.length := by
    intro d hd
    rw [hnewDPs, List.mem_range'_1] at hd
    exact ⟨hd.1, by omega⟩
  have hdatapath : ∀ {d}, d ∈ s.newDPs → ∃ i dp ints, ∃ hi : i < scalingPorts.length,
      d = r.dps.length + i ∧ s.router.dps[d]? = some dp ∧
      NewDP r.dps d (ovsId + i) scalingPorts[i] s.scalePortDict dp ints :=
    fun hd => hbuilt.datapath (hmem hd).1 (hmem hd).2
  refine ⟨s, hscale, ⟨by rw [hnewDPs, List.length_range'], by rw [hnewDPs]; exact List.nodup_range',
    ?_, ?_, ?_, ?_⟩⟩
  · intro d hd
    obtain ⟨i, dp, ints, hi, heq, hdp, hnew⟩ := hdatapath hd
    refine ⟨dp, hdp, ?_⟩
    rw [hnew.name, hinstances, hadded.instances i hi, heq]
  · intro a ha b hb hne
    obtain ⟨ha, ha'⟩ := hmem ha
    obtain ⟨hb, hb'⟩ := hmem hb
    obtain ⟨e, f, hef, rfl, rfl⟩ := hbuilt.joined a b ha ha' hb hb' hne
    refine ⟨e, f, rfl, rfl, (hbuilt.linkedTo_iff hgroups ha ha').mpr hef,
      (hbuilt.linkedTo_iff hgroups hb hb').mpr (hbuilt.paired.back hef), ?_⟩
    intro e' f' he hf hlinked
    rw [hbuilt.linkedTo_iff hgroups (he ▸ ha) (he ▸ ha')] at hlinked
    exact hbuilt.paired.unique hlinked hef he hf
  · intro d hd dp hdp
    obtain ⟨i, dp', ints, hi, heq, hdp', hnew⟩ := hdatapath hd
    obtain rfl := Option.mem_unique hdp hdp'
    refine ⟨hnew.numbered.nodup.1, hnew.numbered.nodup.2, ovsVnf dp.name dp.name dp.ports.length, ?_, rfl,
      hnew.numbered.ovsVnf⟩
    rw [hnffg]
    exact List.mem_append_right _ (List.mem_map_of_mem (List.mem_filterMap.mpr ⟨d, hd, hdp⟩))
  · intro hsingle d hd dp hdp port hport ht
    obtain ⟨i, dp', ints, hi, heq, hdp', hnew⟩ := hdatapath hd
    obtain rfl := Option.mem_unique hdp hdp'
    obtain ⟨p, hp⟩ := List.mem_iff_getElem?.mp hport
    rcases hnew.port hp with ⟨_, hexternal⟩ | ⟨-, -, ⟨f, hf⟩, hforward⟩
    · rw [hexternal] at ht
      cases ht
    rcases hsingle with hone | hone
    · have hgroup : scalingPorts[i].length = 1 := hone _ (List.getElem_mem hi)
      have hfirst : ∃ ext, dp.ports[0]? = some ext := by
        rw [hnew.ports]
        refine ⟨_, List.getElem?_append_left (by simp [externalPorts, hgroup]) |>.trans
          (List.getElem?_eq_getElem (by simp [externalPorts, hgroup]))⟩
      obtain ⟨ext, hext⟩ := hfirst
      refine ⟨0, ext, hforward, hext, ?_, ?_⟩
      · rcases hnew.port hext with ⟨_, rfl⟩ | ⟨hle, -⟩
        · rfl
        · omega
      · intro e' ext' hext' ht'
        rcases hnew.port hext' with ⟨hlt, -⟩ | ⟨-, hint, -⟩
        · omega
        · rw [hint] at ht'
          cases ht'
    · -- a single datapath has no internal port
      have hpeer : peerOf r.dps.length s.router.dps ⟨d, p⟩ = some f :=
        peerOf_eq_some.mpr ⟨(hmem hd).1, dp, hdp, port, hp, hf⟩
      obtain ⟨hfn, linked, hlinked, -⟩ := peerOf_eq_some.mp (hbuilt.paired.back hpeer)
      have hlt := (List.getElem?_eq_some_iff.mp hlinked).1
      have hne := hbuilt.paired.apart hpeer
      have hd' := hmem hd
      exact absurd (show d = f.dp by omega) hne

/-- A router with one datapath that has a port for each of the SAPs, numbered from 1. -/
def singleDatapath (saps : List String) : Router where
  dps := [{ name := "ovs1", id := 1, ports := saps.mapIdx fun i sap =>
    { ifname := DP.ifname "ovs1" i, id := i + 2, number := some (i + 1), portType := some .external,
      linkedPort := some (.sap sap) } }]
  dpInstances := .ofList [("ovs1", 0)] compare
  nffg := [⟨"ctrl", "ctrl", "ctrl", [("1", "control-port")]⟩, ovsVnf "ovs1" "ovs1" saps.length]

theorem scalesExternal_singleDatapath (saps : List String)
    (h : ∀ portList ∈ scalingPorts, portList ≠ [] ∧ ∀ ref ∈ portList, ref.dp = 0 ∧ ref.index < saps.length) :
    ScalesExternal (singleDatapath saps).dps scalingPorts := by
  intro portList hportList
  obtain ⟨hne, hrefs⟩ := h portList hportList
  refine ⟨hne, fun ref href => ?_⟩
  obtain ⟨hdp, hindex⟩ := hrefs ref href
  obtain ⟨d, p⟩ := ref
  obtain rfl : d = 0 := hdp
  refine ⟨{ ifname := DP.ifname "ovs1" p, id := p + 2, number := some (p + 1), portType := some .external,
            linkedPort := some (.sap saps[p]) }, saps[p], ?_, rfl, rfl⟩
  simp only [portAt, singleDatapath, List.getElem?_cons_zero, bind_some, List.getElem?_mapIdx,
    getElem?_eq_getElem hindex, map_some]

/-- A datapath with three ports is scaled out to three datapaths. -/
theorem scale_topology_three : ∃ s, scale id (singleDatapath ["sap1", "sap2", "sap3"])
      [[⟨0, 0⟩], [⟨0, 1⟩], [⟨0, 2⟩]] = some s ∧ FullMesh [[⟨0, 0⟩], [⟨0, 1⟩], [⟨0, 2⟩]] s :=
  scale_topology id _ _ (scalesExternal_singleDatapath _ (by decide)) 2 (by decide +kernel)

end UnOrchestrator.ElasticRouter
