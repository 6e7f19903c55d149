import UnOrchestrator.Lib.Run
import UnOrchestrator.Ovsdb.Alignment

/-!
# Removing links, tunnels and switches

Which ports are left after a removal. The plug-in finds the ends of a virtual link through maps from
the OpenFlow numbers of ports: `Wired` says that the maps describe the links that were made. With it
and tidy books, a removal of a link or of a tunnel takes its ports and no others. A switch that goes
away takes along the other ends of the links that are recorded for it, which are those that were made
from it: the far end of a link that another switch has towards it is left.
-/

namespace UnOrchestrator.Ovsdb

open List (Subset mem_append mem_cons mem_map mem_map_of_mem mem_singleton)

open Function (update update_of_ne update_self)

open Call

variable {env : Env} {F : Family → Prop} {s s' s'' : State} {links : List (PortSpec × PortSpec)}

/-! ## The links that were made -/

/-- The maps describe the links. The switch of an end may have been forgotten. -/
structure Wired (s : State) (links : List (PortSpec × PortSpec)) : Prop where
  ends : ∀ spec ∈ s.specs, spec.purpose = .vlink → ∃ link ∈ links, spec = link.1 ∨ spec = link.2
  mem : ∀ link ∈ links, link.1 ∈ s.specs ∧ link.2 ∈ s.specs
  vlink : ∀ link ∈ links, link.1.purpose = .vlink ∧ link.2.purpose = .vlink
  counts : Counts {} s s.specs
  peers : ∀ link ∈ links, link.1.peer = some link.2.name ∧ link.2.peer = some link.1.name
  portId : ∀ link ∈ links, s.portId link.1.ofport = link.1.name ∧ s.portId link.2.ofport = link.2.name
  onlyPorts : ∀ id, s.portId id ≠ "" → ∃ spec ∈ s.specs, spec.purpose = .vlink ∧ spec.ofport = id
  switchOf : ∀ link ∈ links,
    (s.vlPortIDtoSwitchID link.1.ofport = link.1.switch ∨ s.vlPortIDtoSwitchID link.1.ofport = 0) ∧
    (s.vlPortIDtoSwitchID link.2.ofport = link.2.switch ∨ s.vlPortIDtoSwitchID link.2.ofport = 0)
  remoteOf : ∀ link ∈ links, s.vlLocalPortIDtoRemotePortID link.1.ofport = link.2.ofport
  recorded : ∀ d, ∀ id ∈ s.virtualLinkId (bridgeName d),
    ∃ link ∈ links, link.1.ofport = id ∧ link.1.switch = d

/-- Ports and links are added. -/
structure Adds (s s' : State) (new : List PortSpec) (links : List (PortSpec × PortSpec)) : Prop
    extends Counts s s' new where
  ends : ∀ spec ∈ new, spec.purpose = .vlink → ∃ link ∈ links, spec = link.1 ∨ spec = link.2
  mem : ∀ link ∈ links, link.1 ∈ new ∧ link.2 ∈ new
  vlink : ∀ link ∈ links, link.1.purpose = .vlink ∧ link.2.purpose = .vlink
  peers : ∀ link ∈ links, link.1.peer = some link.2.name ∧ link.2.peer = some link.1.name
  stored : ∀ link ∈ links, Stored s' link.1 link.2
  keeps : KeepsLinks s s' fun x => ∃ link ∈ links, x = link.1.ofport ∨ x = link.2.ofport
  recorded : ∀ d, ∀ id ∈ s'.virtualLinkId (bridgeName d), id ∈ s.virtualLinkId (bridgeName d) ∨
    ∃ link ∈ links, link.1.ofport = id ∧ link.1.switch = d

/-- The numbers of new ports are between the two states of the counter. -/
theorem Counts.range {new : List PortSpec} (h : Counts s s' new) {spec : PortSpec}
    (hspec : spec ∈ new) : s.rnumber ≤ spec.ofport ∧ spec.ofport < s'.rnumber := by
  have hofport := mem_map_of_mem (f := PortSpec.ofport) hspec
  rw [h.ofports, List.mem_range'_1] at hofport
  rw [h.rnumber]
  exact hofport

theorem Wired.nodup (h : Wired s links) : (s.specs.map PortSpec.ofport).Nodup := by
  rw [h.counts.ofports]
  exact List.nodup_range'

/-- The maps still describe the links once ports and links were added. -/
theorem Wired.adds {new : List PortSpec} {more : List (PortSpec × PortSpec)} (h : Wired s links)
    (hadds : Adds s s' new more) : Wired s' (links ++ more) := by
  have hmem : ∀ spec, spec ∈ s'.specs ↔ spec ∈ s.specs ∨ spec ∈ new := by
    intro spec
    rw [hadds.specs, mem_append]
  -- what was stored about older ports is not overwritten
  have hold : ∀ spec ∈ s.specs,
      ¬∃ link ∈ more, spec.ofport = link.1.ofport ∨ spec.ofport = link.2.ofport := by
    rintro spec hspec ⟨link, hlink, heq⟩
    have hlt := (h.counts.range hspec).2
    obtain ⟨hfirst, hsecond⟩ := hadds.mem link hlink
    have hfirst := (hadds.range hfirst).1
    have hsecond := (hadds.range hsecond).1
    omega
  refine ⟨?_, ?_, ?_, ?_, ?_, ?_, ?_, ?_, ?_, ?_⟩
  · intro spec hspec hvlink
    rcases (hmem spec).mp hspec with hspec | hspec
    · obtain ⟨link, hlink, heq⟩ := h.ends spec hspec hvlink
      exact ⟨link, List.mem_append_left _ hlink, heq⟩
    · obtain ⟨link, hlink, heq⟩ := hadds.ends spec hspec hvlink
      exact ⟨link, List.mem_append_right _ hlink, heq⟩
  · intro link hlink
    rcases mem_append.mp hlink with hlink | hlink
    · obtain ⟨hfirst, hsecond⟩ := h.mem link hlink
      exact ⟨(hmem _).mpr (.inl hfirst), (hmem _).mpr (.inl hsecond)⟩
    · obtain ⟨hfirst, hsecond⟩ := hadds.mem link hlink
      exact ⟨(hmem _).mpr (.inr hfirst), (hmem _).mpr (.inr hsecond)⟩
  · intro link hlink
    exact (mem_append.mp hlink).elim (h.vlink link) (hadds.vlink link)
  · rw [hadds.specs]
    exact h.counts.trans hadds.toCounts
  · intro link hlink
    exact (mem_append.mp hlink).elim (h.peers link) (hadds.peers link)
  · intro link hlink
    rcases mem_append.mp hlink with hlink | hlink
    · obtain ⟨hfirst, hsecond⟩ := h.mem link hlink
      rw [hadds.keeps.portId _ (hold _ hfirst), hadds.keeps.portId _ (hold _ hsecond)]
      exact h.portId link hlink
    · exact ⟨(hadds.stored link hlink).nearName, (hadds.stored link hlink).farName⟩
  · intro id hid
    by_cases hwritten : ∃ link ∈ more, id = link.1.ofport ∨ id = link.2.ofport
    · obtain ⟨link, hlink, heq⟩ := hwritten
      obtain ⟨hfirst, hsecond⟩ := hadds.mem link hlink
      obtain ⟨hvlink, hvlink'⟩ := hadds.vlink link hlink
      rcases heq with rfl | rfl
      · exact ⟨link.1, (hmem _).mpr (.inr hfirst), hvlink, rfl⟩
      · exact ⟨link.2, (hmem _).mpr (.inr hsecond), hvlink', rfl⟩
    · rw [hadds.keeps.portId id hwritten] at hid
      obtain ⟨spec, hspec, hvlink, heq⟩ := h.onlyPorts id hid
      exact ⟨spec, (hmem spec).mpr (.inl hspec), hvlink, heq⟩
  · intro link hlink
    rcases mem_append.mp hlink with hlink | hlink
    · obtain ⟨hfirst, hsecond⟩ := h.mem link hlink
      rw [hadds.keeps.switchOf _ (hold _ hfirst), hadds.keeps.switchOf _ (hold _ hsecond)]
      exact h.switchOf link hlink
    · exact ⟨.inl (hadds.stored link hlink).nearSwitch, .inl (hadds.stored link hlink).farSwitch⟩
  · intro link hlink
    rcases mem_append.mp hlink with hlink | hlink
    · rw [hadds.keeps.remoteOf _ (hold _ (h.mem link hlink).1)]
      exact h.remoteOf link hlink
    · exact (hadds.stored link hlink).remote
  · intro d id hid
    rcases hadds.recorded d id hid with hid | ⟨link, hlink, heq⟩
    · obtain ⟨link, hlink, heq⟩ := h.recorded d id hid
      exact ⟨link, List.mem_append_left _ hlink, heq⟩
    · exact ⟨link, List.mem_append_right _ hlink, heq⟩

theorem Wired.initial : Wired {} [] where
  ends := nofun
  mem := nofun
  vlink := nofun
  counts := ⟨⟨rfl, rfl, rfl⟩, le_rfl, nofun, nofun⟩
  peers := nofun
  portId := nofun
  onlyPorts _ h := absurd rfl h
  switchOf := nofun
  remoteOf := nofun
  recorded := nofun

/-- Ordinary ports are added. -/
theorem AddsOrdinary.adds {new : List PortSpec} (h : AddsOrdinary s s' new) : Adds s s' new [] where
  toCounts := h.counts
  ends spec hspec hvlink := absurd hvlink (h.2.2 spec hspec)
  mem := nofun
  vlink := nofun
  peers := nofun
  stored := nofun
  keeps := ⟨fun x _ => congrFun (congrArg LinkPart.portId h.1) x,
    fun x _ => congrFun (congrArg LinkPart.vlPortIDtoSwitchID h.1) x,
    fun x _ => congrFun (congrArg LinkPart.vlLocalPortIDtoRemotePortID h.1) x⟩
  recorded d id hid := by
    have hsame : s'.virtualLinkId = s.virtualLinkId := congrArg LinkPart.virtualLinkId h.1
    rw [hsame] at hid
    exact .inl hid

variable {d : Nat} {row : PortRow} {id : String} {op : Operation}

/-- Both loops over the links of a new switch. -/
theorem LinksCreated.adds {remotes : List Nat} {ids : List (Nat × Nat)}
    (h : LinksCreated s s' d remotes ids) :
    Adds s s' (newEnds d s.rnumber s.pnumber remotes) (linkEnds d s.rnumber s.pnumber remotes) where
  toCounts := h.counts
  ends spec hspec _ := by
    obtain ⟨i, remote, hremote, hends⟩ := mem_newEnds hspec
    exact ⟨_, mem_linkEnds.mpr ⟨i, remote, hremote, rfl⟩, hends⟩
  mem link hlink :=
    ⟨List.mem_append_left _ (mem_map_of_mem hlink), List.mem_append_right _ (mem_map_of_mem hlink)⟩
  vlink link hlink := by
    obtain ⟨i, remote, -, rfl⟩ := mem_linkEnds.mp hlink
    exact ⟨rfl, rfl⟩
  peers link hlink := by
    obtain ⟨i, remote, -, rfl⟩ := mem_linkEnds.mp hlink
    exact ⟨rfl, rfl⟩
  stored link hlink := by
    obtain ⟨i, remote, hremote, rfl⟩ := mem_linkEnds.mp hlink
    exact h.stored i remote hremote
  keeps := by
    have hwritten : ∀ x, s.rnumber ≤ x ∧ x < s.rnumber + 2 * remotes.length →
        ∃ link ∈ linkEnds d s.rnumber s.pnumber remotes, x = link.1.ofport ∨ x = link.2.ofport := by
      intro x hx
      have hmem : x ∈ (newEnds d s.rnumber s.pnumber remotes).map PortSpec.ofport := by
        rw [map_ofport_newEnds]
        exact List.mem_range'_1.mpr hx
      obtain ⟨spec, hspec, rfl⟩ := mem_map.mp hmem
      obtain ⟨i, remote, hremote, hends⟩ := mem_newEnds hspec
      refine ⟨_, mem_linkEnds.mpr ⟨i, remote, hremote, rfl⟩, ?_⟩
      exact hends.imp (congrArg PortSpec.ofport) (congrArg PortSpec.ofport)
    exact ⟨fun x hx => h.keeps.portId x fun hr => hx (hwritten x hr),
      fun x hx => h.keeps.switchOf x fun hr => hx (hwritten x hr),
      fun x hx => h.keeps.remoteOf x fun hr => hx (hwritten x hr)⟩
  recorded d' id hid := by
    rcases h.recorded _ _ hid with hid | ⟨hd, hle, hlt⟩
    · exact .inl hid
    · obtain rfl := bridgeName_injective hd
      have hremote := List.getElem?_eq_getElem (l := remotes) (i := id - s.rnumber) (by omega)
      refine .inr ⟨_, mem_linkEnds.mpr ⟨id - s.rnumber, _, hremote, rfl⟩, ?_, rfl⟩
      show s.rnumber + (id - s.rnumber) = id
      omega

/-- A link between two switches is added. -/
theorem linked_adds {dA dB : Nat} (hdA : s.switchId dA = bridgeName dA) :
    Adds s (s.linked env dA dB) [s.firstSpec dA, s.secondSpec dB] [(s.firstSpec dA, s.secondSpec dB)] := by
  refine ⟨linked_counts, ?_, ?_, ?_, ?_, ?_, ?_, ?_⟩
  · intro spec hspec _
    refine ⟨_, List.mem_singleton_self _, ?_⟩
    simpa using hspec
  · intro link hlink
    obtain rfl := mem_singleton.mp hlink
    simp
  · intro link hlink
    obtain rfl := mem_singleton.mp hlink
    exact ⟨rfl, rfl⟩
  · intro link hlink
    obtain rfl := mem_singleton.mp hlink
    exact ⟨rfl, rfl⟩
  · intro link hlink
    obtain rfl := mem_singleton.mp hlink
    constructor <;>
      simp [State.linked, State.storeBoth, State.firstSpec, State.secondSpec, State.linkEnd, State.spec]
  · constructor <;>
    · intro x hx
      simp only [mem_singleton, exists_eq_left, not_or] at hx
      have hfirst : x ≠ s.rnumber := hx.1
      have hsecond : x ≠ s.rnumber + 1 := hx.2
      simp [State.linked, State.storeBoth, State.secondEnd, State.firstEnd, State.inserted, State.touch,
        State.takeNames, update_of_ne hfirst, update_of_ne hsecond]
  · intro d id hid
    have hpushed : (s.linked env dA dB).virtualLinkId =
        Paired.push s.virtualLinkId (s.switchId dA) s.rnumber := rfl
    rw [hpushed, hdA] at hid
    rcases Paired.mem_push.mp hid with hid | ⟨hd, rfl⟩
    · exact .inl hid
    · obtain rfl := bridgeName_injective hd
      exact .inr ⟨_, List.mem_singleton_self _, rfl, rfl⟩

/-- Removals leave the rows, and of what is known about links they only forget. -/
structure Forgets (s s' : State) : Prop where
  ports : s'.server.ports = s.server.ports
  rnumber : s'.rnumber = s.rnumber
  pnumber : s'.pnumber = s.pnumber
  portId : s'.portId = s.portId
  remoteOf : s'.vlLocalPortIDtoRemotePortID = s.vlLocalPortIDtoRemotePortID
  switchOf : ∀ x, s'.vlPortIDtoSwitchID x = s.vlPortIDtoSwitchID x ∨ s'.vlPortIDtoSwitchID x = 0
  recorded : ∀ key, s'.virtualLinkId key ⊆ s.virtualLinkId key

namespace Forgets

theorem refl (s : State) : Forgets s s :=
  ⟨rfl, rfl, rfl, rfl, rfl, fun _ => .inl rfl, fun _ => Subset.refl _⟩

theorem trans (h : Forgets s s') (h' : Forgets s' s'') : Forgets s s'' where
  ports := h'.ports.trans h.ports
  rnumber := h'.rnumber.trans h.rnumber
  pnumber := h'.pnumber.trans h.pnumber
  portId := h'.portId.trans h.portId
  remoteOf := h'.remoteOf.trans h.remoteOf
  switchOf x := by
    rcases h'.switchOf x with heq | hzero
    · rw [heq]
      exact h.switchOf x
    · exact .inr hzero
  recorded key := Subset.trans (h'.recorded key) (h.recorded key)

end Forgets

/-- Removals leave the maps a description of the links. -/
theorem Wired.forgets (h : Wired s links) (hforgets : Forgets s s') : Wired s' links := by
  have hspecs : s'.specs = s.specs := congrArg (List.map PortRow.toPortSpec) hforgets.ports
  refine ⟨?_, ?_, h.vlink, ?_, h.peers, ?_, ?_, ?_, ?_, ?_⟩
  · rw [hspecs]
    exact h.ends
  · rw [hspecs]
    exact h.mem
  · have hsame : Counts s s' [] :=
      ⟨Grows.of_eq hforgets.ports hforgets.rnumber, hforgets.pnumber.ge, nofun, nofun⟩
    rw [hspecs, ← List.append_nil s.specs]
    exact h.counts.trans hsame
  · rw [hforgets.portId]
    exact h.portId
  · rw [hforgets.portId, hspecs]
    exact h.onlyPorts
  · intro link hlink
    obtain ⟨hfirst, hsecond⟩ := h.switchOf link hlink
    refine ⟨?_, ?_⟩
    · rcases hforgets.switchOf link.1.ofport with heq | hzero
      · rw [heq]
        exact hfirst
      · exact .inr hzero
    · rcases hforgets.switchOf link.2.ofport with heq | hzero
      · rw [heq]
        exact hsecond
      · exact .inr hzero
  · rw [hforgets.remoteOf]
    exact h.remoteOf
  · exact fun d id hid => h.recorded d id (hforgets.recorded _ hid)

/-- The pieces that remove something. -/
def Piece.Removes : Piece → Prop
  | .unlink .. | .unlinkBoth _ | .unwire .. | .forget _ | .touch _ | .drop .. | .write _
  | .dropTunnel .. => True
  | _ => False

theorem ports_written {txn : Transaction} (hinsert : Server.inserts txn = 0) :
    (s.written env txn).server.ports = s.server.ports := by
  rw [State.written]
  split_ifs
  · cases txn with
    | createBridge => cases hinsert
    | insertPort => cases hinsert
    | setPorts => rfl
    | setBridges => rfl
  · rfl

theorem forgets_written {txn : Transaction} (hinsert : Server.inserts txn = 0) :
    Forgets s (s.written env txn) :=
  ⟨ports_written hinsert, rfl, rfl, rfl, rfl, fun _ => .inl rfl, fun _ => Subset.refl _⟩

theorem forgets_eraseRing (name : String) : Forgets s (eraseRing s name) := by
  unfold eraseRing
  split
  · exact .refl s
  · exact ⟨rfl, rfl, rfl, rfl, rfl, fun _ => .inl rfl, fun _ => Subset.refl _⟩

theorem forgets_foldl_eraseRing (names : List String) (s : State) :
    Forgets s (names.foldl eraseRing s) := by
  induction names generalizing s with
  | nil => exact .refl s
  | cons name names ih => exact (forgets_eraseRing name).trans (ih _)

theorem forgets_forget : Forgets s (s.forget d) := by
  refine ⟨rfl, rfl, rfl, rfl, rfl, fun _ => .inl rfl, fun key => ?_⟩
  show update s.virtualLinkId (s.switchId d) [] key ⊆ _
  by_cases hkey : key = s.switchId d
  · rw [hkey, update_self]
    exact List.nil_subset _
  · rw [update_of_ne hkey]
    exact Subset.refl _

theorem forgets_removeLink {id : Nat} : Forgets s (s.removeLink d id) := by
  refine ⟨rfl, rfl, rfl, rfl, rfl, fun _ => .inl rfl, fun key => ?_⟩
  show update s.virtualLinkId (s.switchId d) _ key ⊆ _
  by_cases hkey : key = s.switchId d
  · rw [hkey, update_self]
    exact List.filter_sublist.subset
  · rw [update_of_ne hkey]
    exact Subset.refl _

theorem forgets_clearSwitches {idA idB : Nat} : Forgets s (s.clearSwitches idA idB) := by
  refine ⟨rfl, rfl, rfl, rfl, rfl, fun x => ?_, fun _ => Subset.refl _⟩
  show update (update s.vlPortIDtoSwitchID idA 0) idB 0 x = _ ∨ _
  by_cases hB : x = idB
  · exact .inr (by rw [hB]; exact update_self ..)
  · rw [update_of_ne hB]
    by_cases hA : x = idA
    · exact .inr (by
        show update (update s.vlPortIDtoSwitchID idA 0) idB 0 x = 0
        rw [update_of_ne hB, hA, update_self])
    · exact .inl (update_of_ne hA ..)

theorem forgets_take {key : Family × Nat} {names : List String} {o : Option String} :
    Forgets s ((s.touch d).take key names o) := by
  cases o <;> exact ⟨rfl, rfl, rfl, rfl, rfl, fun _ => .inl rfl, fun _ => Subset.refl _⟩

/-- A piece that removes something only forgets. -/
theorem Done.forgets {i : Piece} (h : Done env i s s') (hi : i.Removes) : Forgets s s' := by
  induction h with
  | unlink | dropTunnel => exact forgets_take.trans (forgets_written rfl)
  | unlinkBoth _ _ hnear hfar => exact (hnear trivial).trans (hfar trivial)
  | @unwire dA idA dB idB s =>
    have hnames (s : State) (d : Nat) : Forgets s (s.removeEmptyName d) :=
      ⟨rfl, rfl, rfl, rfl, rfl, fun _ => .inl rfl, fun _ => Subset.refl _⟩
    exact (((forgets_clearSwitches.trans (hnames _ dA)).trans (hnames _ dB)).trans
      forgets_removeLink).trans forgets_removeLink
  | @forget d s =>
    exact ((forgets_foldl_eraseRing (s.portL d) s).trans forgets_forget).trans (forgets_written rfl)
  | touch => exact ⟨rfl, rfl, rfl, rfl, rfl, fun _ => .inl rfl, fun _ => Subset.refl _⟩
  | @drop d name o s =>
    cases o <;> exact ⟨rfl, rfl, rfl, rfl, rfl, fun _ => .inl rfl, fun _ => Subset.refl _⟩
  | write => exact forgets_written rfl
  | _ => exact hi.elim

theorem Chain.forgets {is : List Piece} (h : Chain (Clean env) is s s') (hi : ∀ i ∈ is, i.Removes) :
    Forgets s s' :=
  h.keeps (I := Forgets s) (fun i hmem _ _ hclean hs => hs.trans (hclean.1.forgets (hi i hmem)))
    (Forgets.refl s)

/-! ## Which ports are left -/

/-- The port is the end of a virtual link on a switch that has a number. -/
def PortSpec.IsEnd (spec : PortSpec) (d idp : Nat) : Prop :=
  spec.purpose = .vlink ∧ spec.switch = d ∧ spec.ofport = idp

theorem mem_specs (hrow : row ∈ s.server.ports) : row.toPortSpec ∈ s.specs :=
  mem_map_of_mem hrow

/-- An end is found by its number. -/
theorem Wired.name_eq_portId (h : Wired s links) (hrow : row ∈ s.server.ports)
    (hvlink : row.purpose = .vlink) {idp : Nat} : row.name = s.portId idp ↔ row.ofport = idp := by
  have hstored : ∀ spec ∈ s.specs, spec.purpose = .vlink → s.portId spec.ofport = spec.name := by
    intro spec hspec hv
    obtain ⟨link, hlink, rfl | rfl⟩ := h.ends spec hspec hv
    · exact (h.portId link hlink).1
    · exact (h.portId link hlink).2
  constructor
  · intro hname
    obtain ⟨k, -, -, hk⟩ := h.counts.vports _ (mem_specs hrow) hvlink
    have hne : s.portId idp ≠ "" := by
      rw [← hname, hk]
      exact vportName_ne_empty k
    obtain ⟨spec, hspec, hv, rfl⟩ := h.onlyPorts idp hne
    rw [hstored spec hspec hv] at hname
    rw [h.counts.distinct _ (mem_specs hrow) spec hspec hvlink hv hname]
  · rintro rfl
    exact (hstored _ (mem_specs hrow) hvlink).symm

theorem key_eq_vport {spec : PortSpec} :
    spec.key = (.vport, d) ↔ spec.purpose = .vlink ∧ spec.switch = d := by
  simp only [PortSpec.key, Prod.mk.injEq]
  refine and_congr_left fun _ => ?_
  cases spec.purpose <;> simp [Purpose.family]

/-- A removal of an end takes that port only. -/
theorem live_unlinked (h : Tidy env F s.books) (hF : F .vport) (hwired : Wired s links) {idp : Nat}
    {o : Option String} (hfind : Paired.find (s.portId idp) (s.vportL d) (s.vportUuid d) = .ok o)
    (hclean : (s.unlinked env d idp o).server.failed = s.server.failed)
    (hrow : row ∈ s.server.ports) :
    (s.unlinked env d idp o).books.Live row ↔ s.books.Live row ∧ ¬row.IsEnd d idp := by
  obtain ⟨hon, -⟩ := h.taken hclean (h.names_dropLink hfind)
  have haligned := h.aligned (.vport, d) hF
  have hrest : (s.unlinked env d idp o).books.Live row ↔ s.books.Live row ∧ some row.uuid ≠ o :=
    h.live_taken hclean (h.names_dropLink hfind) hF hfind hrow
  rw [hrest]
  refine and_congr_right fun hlive => not_congr ?_
  -- what the walk found is the end with the number
  have hfound : row.key = (.vport, d) → (some row.uuid = o ↔ row.ofport = idp) := by
    intro hkey
    have hmem := ((h.live_iff hrow).mp hlive).2
    rw [hkey] at hmem
    have hvlink := (key_eq_vport.mp hkey).1
    rw [h.mem_left (by decide) ⟨_, hon⟩ (Subset.refl _) haligned hfind hrow hkey hmem,
      ← hwired.name_eq_portId hrow hvlink, PortSpec.label_eq_name]
    rw [hvlink]
    decide
  constructor
  · intro heq
    obtain ⟨⟨row', hrow', huuid, hkey, -⟩, -⟩ := Paired.rel_of_find haligned (heq ▸ hfind)
    obtain rfl := h.distinct row' hrow' row hrow huuid
    obtain ⟨hvlink, hswitch⟩ := key_eq_vport.mp hkey
    exact ⟨hvlink, hswitch, (hfound hkey).mp heq⟩
  · rintro ⟨hvlink, hswitch, hofport⟩
    exact (hfound (key_eq_vport.mpr ⟨hvlink, hswitch⟩)).mpr hofport

theorem key_label_eq_gport {spec : PortSpec} :
    spec.key = (.gport, d) ∧ spec.label = id ↔ spec.purpose = .gre id ∧ spec.switch = d := by
  unfold PortSpec.key PortSpec.label
  cases spec.purpose <;> simp [Purpose.family, and_comm]

/-- A removal of a tunnel takes one port of that tunnel, if there is one. -/
theorem live_dropTunnel (h : Tidy env F s.books) (hF : F .gport) {o : Option String}
    (hfind : Paired.find id (s.endpointL d) (s.gportUuid d) = .ok o)
    (hclean : (((s.touch d).dropEndpoint d id o).writePorts env d).server.failed = s.server.failed) :
    (∀ row ∈ s.server.ports, (((s.touch d).dropEndpoint d id o).writePorts env d).books.Live row ↔
      s.books.Live row ∧ some row.uuid ≠ o) ∧
    (o = none ↔ ∀ row ∈ s.server.ports, s.books.Live row → ¬(row.purpose = .gre id ∧ row.switch = d)) ∧
    ∀ u, o = some u → ∃ row ∈ s.server.ports, s.books.Live row ∧
      (row.purpose = .gre id ∧ row.switch = d) ∧ row.uuid = u := by
  obtain ⟨hon, -⟩ := h.taken hclean (h.names_dropEndpoint hfind)
  have haligned := h.aligned (.gport, d) hF
  have hfound : ∀ u, o = some u → ∃ row ∈ s.server.ports, s.books.Live row ∧
      (row.purpose = .gre id ∧ row.switch = d) ∧ row.uuid = u := by
    rintro u rfl
    obtain ⟨⟨row, hrow, huuid, hkey, hlabel⟩, hmem⟩ := Paired.rel_of_find haligned hfind
    have hpurpose := key_label_eq_gport.mp ⟨hkey, hlabel⟩
    refine ⟨row, hrow, (h.live_iff hrow).mpr ?_, hpurpose, huuid⟩
    rw [hpurpose.2, hkey, huuid]
    exact ⟨⟨_, hon⟩, hmem⟩
  refine ⟨fun row hrow => h.live_taken hclean (h.names_dropEndpoint hfind) hF hfind hrow, ⟨?_, ?_⟩,
    hfound⟩
  · rintro rfl row hrow hlive hpurpose
    obtain ⟨hkey, hlabel⟩ := key_label_eq_gport.mpr hpurpose
    have hmem := ((h.live_iff hrow).mp hlive).2
    rw [hkey] at hmem
    obtain ⟨n, hn, row', hrow', huuid, -, hlabel'⟩ := Paired.exists_of_mem haligned.flip hmem
    obtain rfl := h.distinct row' hrow' row hrow huuid
    rw [hlabel'] at hlabel
    exact (Paired.find_eq_none haligned).mp hfind (hlabel ▸ hn)
  · intro hnone
    cases ho : o with
    | none => rfl
    | some u =>
      obtain ⟨row, hrow, hlive, hpurpose, -⟩ := hfound u ho
      exact absurd hpurpose (hnone row hrow hlive)

/-- What removals of ends leave: the switches and the maps, and the ports outside of some. -/
structure Unlinks (env : Env) (F : Family → Prop) (links : List (PortSpec × PortSpec)) (s s' : State)
    (gone : PortRow → Prop) : Prop where
  tidy : Tidy env F s'.books
  wired : Wired s' links
  switchUuid : s'.switchUuid = s.switchUuid
  switchId : s'.switchId = s.switchId
  switchOf : s'.vlPortIDtoSwitchID = s.vlPortIDtoSwitchID
  remoteOf : s'.vlLocalPortIDtoRemotePortID = s.vlLocalPortIDtoRemotePortID
  ports : s'.server.ports = s.server.ports
  live : ∀ row ∈ s.server.ports, s'.books.Live row ↔ s.books.Live row ∧ ¬gone row

/-- Removals one after the other take the ports of both. -/
theorem Unlinks.trans {gone gone' : PortRow → Prop} (h : Unlinks env F links s s' gone)
    (h' : Unlinks env F links s' s'' gone') :
    Unlinks env F links s s'' fun row => gone row ∨ gone' row where
  tidy := h'.tidy
  wired := h'.wired
  switchUuid := h'.switchUuid.trans h.switchUuid
  switchId := h'.switchId.trans h.switchId
  switchOf := h'.switchOf.trans h.switchOf
  remoteOf := h'.remoteOf.trans h.remoteOf
  ports := h'.ports.trans h.ports
  live row hrow := by
    rw [h'.live row (h.ports ▸ hrow), h.live row hrow, not_or, and_assoc]

/-- A removal of an end that is successful was on a switch that is on, and takes the end. -/
theorem Clean.unlink (hF : F .vport) (h : Tidy env F s.books) (hwired : Wired s links) {idp : Nat}
    (hclean : Clean env (.unlink d idp) s s') :
    s.books.On d ∧ Unlinks env F links s s' fun row => row.IsEnd d idp := by
  obtain ⟨hdone, hfailed⟩ := hclean
  have hforgets := hdone.forgets trivial
  cases hdone with
  | @unlink _ _ o _ hfind =>
    obtain ⟨hon, -, htidy⟩ := h.taken hfailed (h.names_dropLink hfind)
    refine ⟨⟨_, hon⟩, htidy, hwired.forgets hforgets, ?_, ?_, ?_, hforgets.remoteOf, hforgets.ports,
      fun row hrow => live_unlinked h hF hwired hfind hfailed hrow⟩
    · rw [State.unlinked, State.touch_of_mem hon]
      cases o <;> rfl
    · cases o <;> rfl
    · cases o <;> rfl

/-- The port is one of the two ends of the link with a number. -/
def State.EndOf (s : State) (id : Nat) (row : PortRow) : Prop :=
  row.IsEnd (s.vlPortIDtoSwitchID id) id ∨
    row.IsEnd (s.vlPortIDtoSwitchID (s.vlLocalPortIDtoRemotePortID id)) (s.vlLocalPortIDtoRemotePortID id)

/-- The removal of both ends of a link takes them and nothing else. -/
theorem Clean.unlinkBoth (hF : F .vport) (h : Tidy env F s.books) (hwired : Wired s links) {id : Nat}
    (hclean : Clean env (.unlinkBoth id) s s') :
    s.books.On (s.vlPortIDtoSwitchID (s.vlLocalPortIDtoRemotePortID id)) ∧
      Unlinks env F links s s' (s.EndOf id) := by
  obtain ⟨hdone, hfailed⟩ := hclean
  cases hdone with
  | unlinkBoth hnear hfar =>
    obtain ⟨hclean₁, hclean₂⟩ := hnear.failed_eq hfar hfailed
    obtain ⟨-, hfirst⟩ := Clean.unlink hF h hwired ⟨hnear, hclean₁⟩
    obtain ⟨hon, hsecond⟩ := Clean.unlink hF hfirst.tidy hfirst.wired ⟨hfar, hclean₂⟩
    rw [hfirst.switchOf, hfirst.remoteOf] at hon hsecond
    obtain ⟨u, hu⟩ := hon
    exact ⟨⟨u, (congrArg (·[_]?) hfirst.switchUuid).symm.trans hu⟩, hfirst.trans hsecond⟩

/-- The removal of both ends of the links with some numbers. -/
theorem Chain.unlinkBoth (hF : F .vport) (ids : List Nat) (h : Tidy env F s.books)
    (hwired : Wired s links) (hchain : Chain (Clean env) (ids.map .unlinkBoth) s s') :
    (∀ id ∈ ids, s.books.On (s.vlPortIDtoSwitchID (s.vlLocalPortIDtoRemotePortID id))) ∧
      Unlinks env F links s s' fun row => ∃ id ∈ ids, s.EndOf id row := by
  induction ids generalizing s with
  | nil =>
    cases hchain
    exact ⟨nofun, h, hwired, rfl, rfl, rfl, rfl, rfl, by simp⟩
  | cons id ids ih =>
    cases hchain with
    | cons head tail =>
      obtain ⟨hon, hfirst⟩ := Clean.unlinkBoth hF h hwired head
      obtain ⟨hons, hrest⟩ := ih hfirst.tidy hfirst.wired tail
      have hall := hfirst.trans hrest
      refine ⟨fun id' hid' => ?_, ⟨hall.tidy, hall.wired, hall.switchUuid, hall.switchId, hall.switchOf,
        hall.remoteOf, hall.ports, fun row hrow => ?_⟩⟩
      · rcases mem_cons.mp hid' with rfl | hid'
        · exact hon
        · obtain ⟨u, hu⟩ := hons id' hid'
          rw [hfirst.switchOf, hfirst.remoteOf] at hu
          exact ⟨u, (congrArg (·[_]?) hfirst.switchUuid).symm.trans hu⟩
      · rw [hall.live row hrow]
        simp only [State.EndOf, hfirst.switchOf, hfirst.remoteOf, mem_cons, exists_eq_or_imp]

/-! ## Operations -/

theorem Wired.newSwitch (h : Wired s links) {cli : CreateLsiIn} : Wired (s.newSwitch env cli) links :=
  h.forgets ⟨rfl, rfl, rfl, rfl, rfl, fun _ => .inl rfl, fun _ => Subset.refl _⟩

/-- A new switch with its links leaves the maps a description of the links. -/
theorem createLsi_wired (h : Wired s links) {cli : CreateLsiIn} :
    wp (createLsi env cli) (fun _ s' => ∃ links, Wired s' links) (fun _ => True) s := by
  rw [wp_createLsi]
  intro _
  refine wp_weaken (addLsiPorts_numbers _) (fun ports s₁ h₁ => ?_)
  obtain ⟨others, hothers, -⟩ := h₁
  refine wp_weaken (addLsiLinks_created _ s₁) (fun ids s' hlinks => ?_)
  exact ⟨_, (h.newSwitch.adds hothers.adds).adds hlinks.adds⟩

theorem addNFPorts_wired (h : Wired s links) {nfId : String} {ports : List NfPortInfo} :
    wp (addNFPorts env d nfId ports) (fun _ s' => ∃ links, Wired s' links) (fun _ => True) s := by
  simp only [addNFPorts, wp_bind, wp_pure]
  refine wp_weaken (gather_numbers addNfPort_numbers ports s) (fun added s' hadded => ?_)
  obtain ⟨new, hnew, -⟩ := hadded
  exact ⟨_, h.adds hnew.adds⟩

theorem addEndpoint_wired (h : Wired s links) {params : Fin 5 → String} :
    wp (addEndpoint env d id params) (fun _ s' => ∃ links, Wired s' links) (fun _ => True) s := by
  simp only [addEndpoint, lastPort, wp_bind, wp_modify, wp_get, wp_pure, wp_incGnumber]
  intro _
  refine wp_weaken addEndpointPort_addsOne (fun _ s' hone => ?_)
  have hafter : AddsOne s (s'.pushName (.gport, d) id) := hone.congr rfl rfl
  obtain ⟨spec, hspec⟩ := hafter
  exact ⟨_, h.adds hspec.adds⟩

/-- So does a link between two switches. -/
theorem addVirtualLink_wired (h : Wired s links) (htidy : Tidy env F s.books) {dA dB : Nat} :
    wp (addVirtualLink env dA dB) (fun _ s' => ∃ links, Wired s' links) (fun _ => True) s := by
  rw [wp_addVirtualLink]
  intro _ _ hfirst _ _ _
  have hbefore : Tidy env F s.takeNames.books := htidy
  have hon := (hbefore.of_insertion hfirst).1
  exact ⟨_, h.adds (linked_adds (htidy.bridges dA _ hon).2.1)⟩

/-- The pieces of an operation that removes something. -/
theorem pieces_remove (hop : ¬op.adds) : ∀ i ∈ op.pieces s, i.Removes := by
  intro i hi
  cases op with
  | destroyLsi d =>
    simp only [Operation.pieces, mem_append, mem_map, mem_singleton] at hi
    rcases hi with ⟨id, -, rfl⟩ | rfl
    · trivial
    · trivial
  | destroyNFPorts d nfPorts =>
    simp only [Operation.pieces] at hi
    split_ifs at hi
    · cases hi
    · simp only [List.cons_append, mem_cons, mem_append, mem_map, List.not_mem_nil,
        or_false] at hi
      rcases hi with rfl | ⟨name, -, rfl⟩ | rfl
      · trivial
      · trivial
      · trivial
  | destroyEndpoint d id =>
    simp only [Operation.pieces] at hi
    split_ifs at hi
    · cases hi
    · obtain rfl := mem_singleton.mp hi
      trivial
  | destroyVirtualLink dA idA dB idB =>
    simp only [Operation.pieces, mem_cons, List.not_mem_nil, or_false] at hi
    rcases hi with rfl | rfl | rfl
    · trivial
    · trivial
    · trivial
  | _ => exact absurd trivial hop

/-- The maps describe the links after every operation without a failed transaction. -/
theorem Wired.perform (h : Wired s links) (htidy : Tidy env F s.books) {out : Output}
    (hrun : perform env op s = .ok (some out, s')) (hfailed : s'.server.failed = s.server.failed) :
    ∃ links, Wired s' links := by
  by_cases hop : op.adds
  · have hwp : wp (Ovsdb.perform env op) (fun _ s' => ∃ links, Wired s' links) (fun _ => True) s := by
      cases op with
      | createLsi => simpa only [Ovsdb.perform, wp_map] using createLsi_wired h
      | addNFPorts => simpa only [Ovsdb.perform, wp_map] using addNFPorts_wired h
      | addEndpoint => simpa only [Ovsdb.perform, wp_map] using addEndpoint_wired h
      | addVirtualLink => simpa only [Ovsdb.perform, wp_map] using addVirtualLink_wired h htidy
      | _ => exact absurd hop not_false
    exact (of_wp hwp hrun).1 out rfl
  · exact ⟨links, h.forgets (Chain.forgets (chain_of_succeeds hrun hfailed) (pieces_remove hop))⟩

/-! ## The removals hit the right ports -/

/-- The two ports are the ends of a virtual link. -/
def Peers (a b : PortSpec) : Prop :=
  a.purpose = .vlink ∧ b.purpose = .vlink ∧ a.peer = some b.name ∧ b.peer = some a.name

instance (a b : PortSpec) : Decidable (Peers a b) := by
  unfold Peers
  infer_instance

/-- No port is left of the links of a switch. -/
def LinksGone (s s' : State) (d : Nat) : Prop :=
  ∀ a ∈ s.server.ports, ∀ b ∈ s.server.ports, s.server.live a → s.server.live b → Peers a.1 b.1 →
    a.switch = d → ¬s'.server.live a ∧ ¬s'.server.live b

/-- The ports of a virtual link are gone, and no others. -/
def LinkGone (s s' : State) (dA idA dB idB : Nat) : Prop :=
  ∀ row ∈ s.server.ports, s'.server.live row ↔
    s.server.live row ∧ ¬(row.IsEnd dA idA ∨ row.IsEnd dB idB)

/-- A port of the tunnel is gone if there was one, and no other. -/
def TunnelGone (s s' : State) (d : Nat) (id : String) : Prop :=
  if ∃ row ∈ s.server.ports, s.server.live row ∧ row.purpose = .gre id ∧ row.switch = d then
    ∃ row ∈ s.server.ports, s.server.live row ∧ row.purpose = .gre id ∧ row.switch = d ∧
      ∀ row' ∈ s.server.ports, s'.server.live row' ↔ s.server.live row' ∧ row' ≠ row
  else ∀ row ∈ s.server.ports, s'.server.live row ↔ s.server.live row

/-- The operation removes what it should. -/
def Hits (env : Env) (s : State) (op : Operation) : Prop :=
  ∀ s', step env s op = .ok s' →
    match op with
    | .destroyLsi d => LinksGone s s' d
    | .destroyVirtualLink dA idA dB idB => LinkGone s s' dA idA dB idB
    | .destroyEndpoint d id => TunnelGone s s' d id
    | _ => True

/-- The links of a switch that goes away are all recorded for it, and a tunnel that goes away has an
identifier. -/
def Covered (s : State) : Operation → Prop
  | .destroyLsi d => ∀ a ∈ s.server.ports, ∀ b ∈ s.server.ports, s.server.live a → s.server.live b →
      Peers a.1 b.1 → a.switch = d → b.switch ≠ d → a.ofport ∈ s.virtualLinkId (s.switchId d)
  | .destroyEndpoint d id =>
      ¬(id = "" ∧ ∃ row ∈ s.server.ports, s.server.live row ∧ row.purpose = .gre id ∧ row.switch = d)
  | _ => True

/-- The books are tidy where links and tunnels are concerned, and the maps describe the links. -/
def InOrder (env : Env) (s : State) : Prop :=
  Tidy env (· ≠ .port) s.books ∧ Ready s ∧ ∃ links, Wired s links

theorem InOrder.initial (env : Env) : InOrder env {} :=
  ⟨Tidy.initial, ⟨by decide, fun _ _ => rfl⟩, [], Wired.initial⟩

/-- Operations without a failed transaction keep the books and the maps in order. -/
theorem InOrder.perform (h : InOrder env s) {out : Output}
    (hrun : perform env op s = .ok (some out, s')) (hfailed : s'.server.failed = s.server.failed) :
    InOrder env s' := by
  obtain ⟨htidy, hready, links, hwired⟩ := h
  obtain ⟨htidy', hready'⟩ := htidy.perform hready (fun hport => absurd rfl hport) hrun hfailed
  exact ⟨htidy', hready', hwired.perform htidy hrun hfailed⟩

theorem live_iff_books : s.server.live row ↔ s.books.Live row := by
  unfold Server.live Books.Live
  show _ ↔ ∃ column, s.server.columns row.bridge = some column ∧ _
  cases s.server.columns row.bridge with
  | none => simp
  | some ports => simp

/-- The lists of a switch that is on list ports that are there. -/
theorem Tidy.forall₂_live (h : Tidy env F s.books) (hon : s.books.On d) {f : Family} (hf : F f) :
    List.Forall₂ (fun name u => ∃ row ∈ s.server.ports, s.server.live row ∧ row.uuid = u ∧
      row.key = (f, d) ∧ row.label = name) (s.names (f, d)) (s.uuids (f, d)) := by
  refine Paired.forall₂_imp_of_mem (h.aligned (f, d) hf) ?_
  rintro name u hu ⟨row, hrow, huuid, hkey, hlabel⟩
  refine ⟨row, hrow, live_iff_books.mpr ((h.live_iff hrow).mpr ?_), huuid, hkey, hlabel⟩
  rw [hkey, show row.switch = d from congrArg Prod.snd hkey, huuid]
  exact ⟨hon, hu⟩

/-- The removal of a virtual link takes its two ports. -/
theorem linkGone_of_chain (h : InOrder env s) {dA idA dB idB : Nat} (hchain : Chain (Clean env)
      (Operation.pieces s (.destroyVirtualLink dA idA dB idB)) s s') :
    LinkGone s s' dA idA dB idB := by
  obtain ⟨htidy, -, links, hwired⟩ := h
  rw [Operation.pieces] at hchain
  cases hchain with
  | cons hfirst hrest =>
  cases hrest with
  | cons hsecond hrest =>
  cases hrest with
  | cons hthird hnil =>
  cases hnil
  obtain ⟨-, hA⟩ := Clean.unlink (by decide) htidy hwired hfirst
  obtain ⟨-, hB⟩ := Clean.unlink (by decide) hA.tidy hA.wired hsecond
  have hboth := hA.trans hB
  intro row hrow
  -- the rest of the operation does not look at the columns
  cases hthird.1 with
  | unwire =>
  obtain ⟨_, _, _, hunwired⟩ := State.unwired_eq _ dA idA dB idB
  rw [hunwired, live_iff_books, live_iff_books]
  exact hboth.live row hrow

/-- The removal of a tunnel takes a port of it exactly if the tunnel has an identifier. -/
theorem tunnelGone_iff (h : InOrder env s)
    (hchain : Chain (Clean env) (Operation.pieces s (.destroyEndpoint d id)) s s') :
    TunnelGone s s' d id ↔ Covered s (.destroyEndpoint d id) := by
  obtain ⟨htidy, -, -⟩ := h
  rw [Operation.pieces] at hchain
  unfold TunnelGone Covered
  split_ifs at hchain with hid
  · -- nothing happens without an identifier
    cases hchain
    subst hid
    split_ifs with hthere
    · refine iff_of_false ?_ (fun hnot => hnot ⟨rfl, hthere⟩)
      rintro ⟨row, hrow, hlive, -, -, hall⟩
      exact ((hall row hrow).mp hlive).2 rfl
    · exact iff_of_true (fun _ _ => Iff.rfl) (fun hboth => hthere hboth.2)
  · refine iff_of_true ?_ (fun hboth => hid hboth.1)
    cases hchain with
    | cons hdrop hnil =>
    cases hnil
    obtain ⟨hdone, hfailed⟩ := hdrop
    cases hdone with
    | @dropTunnel _ _ o _ hfind =>
    obtain ⟨hleft, hnone, hsome⟩ := live_dropTunnel htidy (by decide) hfind hfailed
    cases o with
    | none =>
      rw [if_neg]
      · intro row hrow
        rw [live_iff_books, live_iff_books, hleft row hrow]
        simp
      · rintro ⟨row, hrow, hlive, hpurpose⟩
        exact hnone.mp rfl row hrow (live_iff_books.mp hlive) hpurpose
    | some u =>
      obtain ⟨row, hrow, hlive, hpurpose, rfl⟩ := hsome u rfl
      rw [if_pos ⟨row, hrow, live_iff_books.mpr hlive, hpurpose⟩]
      refine ⟨row, hrow, live_iff_books.mpr hlive, hpurpose.1, hpurpose.2, fun row' hrow' => ?_⟩
      rw [live_iff_books, live_iff_books, hleft row' hrow']
      refine and_congr_right fun _ => not_congr ?_
      rw [Option.some.injEq]
      exact ⟨fun heq => htidy.distinct row' hrow' row hrow heq, fun heq => by rw [heq]⟩

/-- The rows of a link are the ones that the maps know. -/
theorem Wired.rows_of_link (h : Wired s links) {a b : PortRow} (ha : a ∈ s.server.ports)
    (hb : b ∈ s.server.ports) (hpeers : Peers a.1 b.1) {link : PortSpec × PortSpec} (hlink : link ∈ links) :
    a.ofport = link.1.ofport ↔ b.ofport = link.2.ofport := by
  obtain ⟨hva, hvb, hab, hba⟩ := hpeers
  obtain ⟨hfirst, hsecond⟩ := h.mem link hlink
  obtain ⟨hpeer, hpeer'⟩ := h.peers link hlink
  obtain ⟨hvfirst, hvsecond⟩ := h.vlink link hlink
  have hinj : ∀ spec ∈ s.specs, ∀ spec' ∈ s.specs, spec.ofport = spec'.ofport → spec = spec' :=
    fun spec hspec spec' hspec' => List.inj_on_of_nodup_map h.nodup hspec hspec'
  constructor
  · intro heq
    have hsame : a.toPortSpec = link.1 := hinj _ (mem_specs ha) _ hfirst heq
    rw [hsame, hpeer, Option.some.injEq] at hab
    rw [h.counts.distinct _ hsecond _ (mem_specs hb) hvsecond hvb hab]
  · intro heq
    have hsame : b.toPortSpec = link.2 := hinj _ (mem_specs hb) _ hsecond heq
    rw [hsame, hpeer', Option.some.injEq] at hba
    rw [h.counts.distinct _ hfirst _ (mem_specs ha) hvfirst hva hba]

/-- A switch that goes away takes its links along exactly if they are recorded for it. -/
theorem linksGone_iff (h : InOrder env s)
    (hchain : Chain (Clean env) (Operation.pieces s (.destroyLsi d)) s s') :
    LinksGone s s' d ↔ Covered s (.destroyLsi d) := by
  obtain ⟨htidy, -, links, hwired⟩ := h
  rw [Operation.pieces] at hchain
  obtain ⟨s₁, hlinks, hlast⟩ := hchain.of_append
  cases hlast with
  | cons hforget hnil =>
  cases hnil
  obtain ⟨hons, hunlinks⟩ := Chain.unlinkBoth (F := (· ≠ .port)) (by decide) _ htidy hwired hlinks
  -- which ports are left
  have hleft : ∀ row ∈ s.server.ports, s'.server.live row ↔ s.server.live row ∧
      (¬∃ id ∈ s.virtualLinkId (s.switchId d), s.EndOf id row) ∧ row.switch ≠ d := by
    intro row hrow
    obtain ⟨hdone, hfailed⟩ := hforget
    cases hdone with
    | forget =>
    obtain ⟨hbooks, -⟩ := hunlinks.tidy.withoutSwitch hfailed
    have hrow' : row ∈ s₁.server.ports := by
      rw [hunlinks.ports]
      exact hrow
    rw [live_iff_books, live_iff_books, hbooks, hunlinks.tidy.live_forget hrow', hunlinks.live row hrow,
      and_assoc]
  have hname : ∀ a ∈ s.server.ports, a.switch = d → s.switchId d = bridgeName d := by
    rintro a ha rfl
    exact (htidy.rows a ha).2.2
  -- what is recorded for the switch is a link from it, with its other end where the maps say
  have hrecorded : s.switchId d = bridgeName d → ∀ id ∈ s.virtualLinkId (s.switchId d),
      ∃ link ∈ links, link.1.ofport = id ∧ link.1.switch = d ∧
        s.vlLocalPortIDtoRemotePortID id = link.2.ofport ∧
        s.vlPortIDtoSwitchID (s.vlLocalPortIDtoRemotePortID id) = link.2.switch := by
    intro hd id hid
    have hon := hons id hid
    rw [hd] at hid
    obtain ⟨link, hlink, rfl, hswitch⟩ := hwired.recorded d id hid
    refine ⟨link, hlink, rfl, hswitch, hwired.remoteOf link hlink, ?_⟩
    rw [hwired.remoteOf link hlink] at hon ⊢
    refine (hwired.switchOf link hlink).2.resolve_right fun hzero => ?_
    obtain ⟨u, hu⟩ := hon
    rw [hzero] at hu
    have hbridge := (htidy.bridges 0 u hu).2.1
    rw [htidy.zero] at hbridge
    exact bridgeName_ne_empty 0 hbridge.symm
  unfold Covered
  constructor
  · intro hgone a ha b hb hla hlb hpeers hswitch hother
    obtain ⟨-, hnot⟩ := hgone a ha b hb hla hlb hpeers hswitch
    rw [hleft b hb] at hnot
    have hend : ∃ id ∈ s.virtualLinkId (s.switchId d), s.EndOf id b := by
      by_contra hno
      exact hnot ⟨hlb, hno, hother⟩
    obtain ⟨id, hid, hend⟩ := hend
    obtain ⟨link, hlink, rfl, hd, hremote, -⟩ := hrecorded (hname a ha hswitch) id hid
    rcases hend with ⟨-, -, heq⟩ | ⟨-, -, heq⟩
    · -- the other end is not on the switch
      have hsame : b.toPortSpec = link.1 := List.inj_on_of_nodup_map hwired.nodup (mem_specs hb)
        (hwired.mem link hlink).1 heq
      exact absurd ((congrArg PortSpec.switch hsame).trans hd) hother
    · rw [hremote] at heq
      rw [(hwired.rows_of_link ha hb hpeers hlink).mpr heq]
      exact hid
  · intro hcovered a ha b hb hla hlb hpeers hswitch
    rw [hleft a ha, hleft b hb]
    refine ⟨fun hnot => hnot.2.2 hswitch, fun hnot => ?_⟩
    have hid := hcovered a ha b hb hla hlb hpeers hswitch hnot.2.2
    refine hnot.2.1 ⟨a.ofport, hid, .inr ?_⟩
    obtain ⟨link, hlink, hofport, -, hremote, hwhere⟩ := hrecorded (hname a ha hswitch) _ hid
    have heq := (hwired.rows_of_link ha hb hpeers hlink).mp hofport.symm
    have hsame : b.toPortSpec = link.2 := List.inj_on_of_nodup_map hwired.nodup (mem_specs hb)
      (hwired.mem link hlink).2 heq
    exact ⟨hpeers.2.1, by rw [hwhere, ← hsame], by rw [hremote, ← heq]⟩

/-- The lists of the ends of virtual links and of the tunnels of a switch have the same length, and what
stands in the same place are the name and the uuid of one port of the switch. -/
def ListsAligned (s : State) : Prop :=
  ∀ d, s.books.On d → ∀ f, f ≠ .port → List.Forall₂ (fun name u => ∃ row ∈ s.server.ports,
    s.server.live row ∧ row.uuid = u ∧ row.key = (f, d) ∧ row.label = name) (s.names (f, d)) (s.uuids (f, d))

theorem InOrder.listsAligned (h : InOrder env s) : ListsAligned s :=
  fun _ hon _ hf => h.1.forall₂_live hon hf

theorem step_of_perform {o : Option Output} (hrun : perform env op s = .ok (o, s')) :
    step env s op = .ok s' := by
  rw [step, hrun]
  rfl

/-- Successful operations keep the state in order. -/
theorem InOrder.step (h : InOrder env s) (hsucceeds : Succeeds env s op)
    (hstep : step env s op = .ok s') : InOrder env s' := by
  obtain ⟨out, s₁, hrun, hfailed⟩ := hsucceeds
  obtain rfl := Except.ok.inj ((step_of_perform hrun).symm.trans hstep)
  exact h.perform hrun hfailed

/-- In a state in order, an operation removes what it should exactly if it is covered. -/
theorem InOrder.hits_iff (h : InOrder env s) (hsucceeds : Succeeds env s op) :
    Hits env s op ↔ Covered s op := by
  obtain ⟨out, s', hrun, hfailed⟩ := hsucceeds
  have hchain := chain_of_succeeds hrun hfailed
  have hunique : ∀ {P : State → Prop}, (∀ s₁, Ovsdb.step env s op = .ok s₁ → P s₁) ↔ P s' := by
    intro P
    rw [step_of_perform hrun]
    simp
  unfold Hits
  rw [hunique]
  cases op with
  | destroyLsi d => exact linksGone_iff h hchain
  | destroyVirtualLink dA idA dB idB => exact iff_of_true (linkGone_of_chain h hchain) trivial
  | destroyEndpoint d id => exact tunnelGone_iff h hchain
  | _ => exact Iff.rfl

/-- In a run of successful operations the lists of links and of tunnels are aligned in every state, and
each removal takes what it should exactly if it is covered. -/
theorem removals_hit (env : Env) (ops : List Operation)
    (h : Run.EveryStep (step env) (Succeeds env) {} ops) :
    Run.Always (step env) ListsAligned {} ops ∧
      Run.EveryStep (step env) (fun s op => Hits env s op ↔ Covered s op) {} ops := by
  have hkeep : ∀ s op s', InOrder env s → Succeeds env s op → step env s op = .ok s' → InOrder env s' :=
    fun s op s' h hsucceeds hstep => h.step hsucceeds hstep
  exact ⟨Run.always_of_invariant hkeep (fun s h => h.listsAligned) (InOrder.initial env) h,
    Run.EveryStep.of_invariant hkeep (fun s op h hsucceeds => h.hits_iff hsucceeds) (InOrder.initial env) h⟩

/-- Two switches with a link and a tunnel on the second, all removed again. -/
theorem removals_hit_two_switches :
    Run.EveryStep (step plainEnv) (fun s op => Hits plainEnv s op ↔ Covered s op) {}
      [.createLsi {}, .createLsi { virtualLinksRemoteLSI := [1] }, .addEndpoint 2 "e" fun _ => "",
        .addVirtualLink 2 1, .destroyVirtualLink 2 4 1 5, .destroyEndpoint 2 "e", .destroyLsi 2] :=
  (removals_hit plainEnv _ (by decide +kernel)).2

instance (s s' : State) (d : Nat) : Decidable (LinksGone s s' d) := by
  unfold LinksGone
  infer_instance

/-- The switch at the far end of a link goes away, and the near end is left. -/
theorem near_end_left_behind :
    Run.EveryStep (step plainEnv) (Succeeds plainEnv) {}
      [.createLsi {}, .createLsi { virtualLinksRemoteLSI := [1] }, .destroyLsi 1] ∧
    ∃ s, Run.exec (step plainEnv) {} [.createLsi {}, .createLsi { virtualLinksRemoteLSI := [1] }] = .ok s ∧
      ¬Hits plainEnv s (.destroyLsi 1) := by
  refine ⟨by decide +kernel, ?_⟩
  obtain ⟨s, hrun, hleft⟩ : ∃ s, Run.exec (step plainEnv) {}
      [.createLsi {}, .createLsi { virtualLinksRemoteLSI := [1] }] = .ok s ∧
      ¬∀ s', step plainEnv s (.destroyLsi 1) = .ok s' → LinksGone s s' 1 := by
    decide +kernel
  exact ⟨s, hrun, hleft⟩

end UnOrchestrator.Ovsdb
