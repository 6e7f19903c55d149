import UnOrchestrator.Ovsdb.Steps

/-!
# The numbers of ports and virtual links

The ends of a virtual link are created in two loops: first all ends on the new switch, then the
other ones. The first loop already stores the number and the name that the second one will give to
the other end. `createLsi_numbered` says that it stores the right ones, and `run_numbers` that no
OpenFlow number and no name of an end is given twice, whatever is added in whatever order.
-/

namespace UnOrchestrator.Ovsdb

open List (append_assoc append_nil cons ext_getElem getElem?_mapIdx length_cons mapIdx_cons map_append
  map_eq_flatMap map_map mem_append mem_map range')

open Call

variable {env : Env} {s s' s'' : State}

/-- The ports that were inserted so far, as the transactions described them. -/
def State.specs (s : State) : List PortSpec := s.server.ports.map PortRow.toPortSpec

/-! ## Insertions count on -/

/-- Some ports were inserted, with the next OpenFlow numbers in order. -/
structure Grows (s s' : State) (new : List PortSpec) : Prop where
  specs : s'.specs = s.specs ++ new
  ofports : new.map PortSpec.ofport = List.range' s.rnumber new.length
  rnumber : s'.rnumber = s.rnumber + new.length

namespace Grows

theorem of_eq (hports : s'.server.ports = s.server.ports) (hrnumber : s'.rnumber = s.rnumber) :
    Grows s s' [] := by
  refine ⟨?_, rfl, hrnumber⟩
  rw [State.specs, hports, append_nil, State.specs]

theorem trans {new new' : List PortSpec} (h : Grows s s' new) (h' : Grows s' s'' new') :
    Grows s s'' (new ++ new') := by
  constructor
  · rw [h'.specs, h.specs, append_assoc]
  · rw [map_append, h.ofports, h'.ofports, h.rnumber, List.length_append, List.range'_append_1]
  · rw [h'.rnumber, h.rnumber, List.length_append, Nat.add_assoc]

theorem inserted {spec : PortSpec} (h : spec.ofport = s.rnumber) :
    Grows s (s.inserted env spec) [spec] := by
  constructor
  · simp [State.specs, State.inserted, Server.commit, State.insertion, Server.newRow]
  · simp [h]
  · rfl

end Grows

/-- What the insertion of an ordinary port or of a tunnel has nothing to do with. -/
structure LinkPart where
  pnumber : Nat
  dnumber : Nat
  switchId : Nat → String
  peerN : String → String
  virtualLinkId : String → List Nat
  portId : Nat → String
  vlPortIDtoSwitchID : Nat → Nat
  vlLocalPortIDtoRemotePortID : Nat → Nat

def State.linkPart (s : State) : LinkPart where
  pnumber := s.pnumber
  dnumber := s.dnumber
  switchId := s.switchId
  peerN := s.peerN
  virtualLinkId := s.virtualLinkId
  portId := s.portId
  vlPortIDtoSwitchID := s.vlPortIDtoSwitchID
  vlLocalPortIDtoRemotePortID := s.vlLocalPortIDtoRemotePortID

/-- What the numbering of ports depends on. -/
def State.counted (s : State) : LinkPart × List PortRow × Nat := (s.linkPart, s.server.ports, s.rnumber)

/-- Some ports were inserted that are not ends of virtual links. -/
def AddsOrdinary (s s' : State) (new : List PortSpec) : Prop :=
  s'.linkPart = s.linkPart ∧ Grows s s' new ∧ ∀ spec ∈ new, spec.purpose ≠ .vlink

namespace AddsOrdinary

theorem of_counted (h : s'.counted = s.counted) : AddsOrdinary s s' [] := by
  simp only [State.counted, Prod.mk.injEq] at h
  exact ⟨h.1, Grows.of_eq h.2.1 h.2.2, List.forall_mem_nil _⟩

theorem trans {new new' : List PortSpec} (h : AddsOrdinary s s' new)
    (h' : AddsOrdinary s' s'' new') : AddsOrdinary s s'' (new ++ new') := by
  refine ⟨h'.1.trans h.1, h.2.1.trans h'.2.1, ?_⟩
  intro spec hspec
  rcases mem_append.mp hspec with hspec | hspec
  · exact h.2.2 spec hspec
  · exact h'.2.2 spec hspec

/-- Steps before and after that do not count. -/
theorem congr {s₀ s₁ : State} {new : List PortSpec} (h : AddsOrdinary s s' new)
    (h₀ : s.counted = s₀.counted) (h₁ : s₁.counted = s'.counted) : AddsOrdinary s₀ s₁ new := by
  have hall := ((of_counted h₀).trans h).trans (of_counted h₁)
  rwa [List.nil_append, append_nil] at hall

end AddsOrdinary

/-- One ordinary port was inserted, with the next OpenFlow number. -/
def AddsOne (s s' : State) : Prop := ∃ spec, AddsOrdinary s s' [spec]

theorem AddsOne.congr {s₀ s₁ : State} (h : AddsOne s s') (h₀ : s.counted = s₀.counted)
    (h₁ : s₁.counted = s'.counted) : AddsOne s₀ s₁ := by
  obtain ⟨spec, hspec⟩ := h
  exact ⟨spec, hspec.congr h₀ h₁⟩

variable {d n remote : Nat} {remotes : List Nat} {cli : CreateLsiIn} {links : List (Nat × Nat)}
  {new : List PortSpec}

/-- The insertion of an ordinary port. -/
theorem addPort_addsOne {p : String} {nfPort : Option PortType} :
    wp (addPort env p d nfPort) (fun _ s' => AddsOne s s') (fun _ => True) s := by
  refine wp_addPort fun choice s₁ hchosen _ s' hs' => ?_
  have hbefore : s₁.counted = s.counted :=
    hchosen.preserves _ (fun _ => rfl) (fun _ _ _ => rfl) (fun _ _ => rfl)
  have hpurpose : (s₁.chosenSpec d choice).purpose ≠ .vlink := by
    intro heq
    have hfamily := hchosen.family
    rw [show choice.purpose = .vlink from heq] at hfamily
    cases hfamily
  have hinserted : AddsOrdinary (s₁.named d choice)
      ((s₁.named d choice).inserted env (s₁.chosenSpec d choice)) [s₁.chosenSpec d choice] :=
    ⟨rfl, Grows.inserted rfl, List.forall_mem_singleton.mpr hpurpose⟩
  refine ⟨s₁.chosenSpec d choice, ?_⟩
  rcases hs' with rfl | rfl
  · exact hinserted.congr hbefore rfl
  · exact hinserted.congr hbefore rfl

/-- A call that inserts ordinary ports and returns their numbers among other things. -/
def Numbers {α : Type} (ids : α → List Nat) (x : Call State α) : Prop :=
  ∀ s, wp x (fun a s' => ∃ new, AddsOrdinary s s' new ∧ ids a = new.map PortSpec.ofport)
    (fun _ => True) s

theorem AddsOne.numbers (h : AddsOne s s') :
    ∃ new, AddsOrdinary s s' new ∧ [s'.rnumber - 1] = new.map PortSpec.ofport := by
  obtain ⟨spec, hspec⟩ := h
  refine ⟨[spec], hspec, ?_⟩
  rw [hspec.2.1.ofports, hspec.2.1.rnumber]
  rfl

theorem addPhysicalPort_numbers (p : String) :
    Numbers (fun entry => [entry.2]) (addPhysicalPort env d p) := by
  intro s
  simp only [addPhysicalPort, lastPort, wp_bind, wp_modify, wp_get, wp_pure]
  refine wp_weaken addPort_addsOne (fun _ s' h => ?_)
  have hafter : AddsOne s (s'.pushName (.port, d) p) := h.congr rfl rfl
  exact hafter.numbers

theorem addNfPort_numbers (info : NfPortInfo) :
    Numbers (fun port => [port.id]) (addNfPort env d info) := by
  intro s
  simp only [addNfPort, lastPort, wp_bind, wp_get, wp_pure]
  exact wp_weaken addPort_addsOne (fun _ s' h => h.numbers)

/-- The insertion of a tunnel. -/
theorem addEndpointPort_addsOne {localIp remoteIp key portName isSafe id : String} :
    wp (addEndpointPort env d localIp remoteIp key portName isSafe id) (fun _ s' => AddsOne s s')
      (fun _ => True) s := by
  simp only [addEndpointPort, wp_bind, wp_get, wp_insertPort]
  refine fun _ _ => ⟨_, rfl, Grows.inserted rfl, List.forall_mem_singleton.mpr ?_⟩
  rintro ⟨⟩

theorem addLsiEndpoint_numbers (ep : String × (Fin 5 → String)) :
    Numbers (fun entry => [entry.2]) (addLsiEndpoint env d ep) := by
  intro s
  simp only [addLsiEndpoint, lastPort, wp_bind, wp_modify, wp_get, wp_pure, wp_incGnumber]
  intro _
  refine wp_weaken addEndpointPort_addsOne (fun _ s' h => ?_)
  have hafter : AddsOne s (s'.pushName (.gport, d) ep.1) := h.congr rfl rfl
  exact hafter.numbers

/-- A loop of such calls returns the numbers in order. -/
theorem gather_numbers {α β : Type} {ids : β → List Nat} {body : α → Call State β}
    (h : ∀ a, Numbers ids (body a)) (as : List α) :
    Numbers (fun bs => bs.flatMap ids) (gather body as) := by
  intro s
  have hround : ∀ a (as : List α) (bs : List β) (s₁ : State),
      (∃ new, AddsOrdinary s s₁ new ∧ bs.flatMap ids = new.map PortSpec.ofport) →
      wp (body a) (fun b s₂ => ∃ new, AddsOrdinary s s₂ new ∧
        (bs ++ [b]).flatMap ids = new.map PortSpec.ofport) (fun _ => True) s₁ := by
    rintro a - bs s₁ ⟨new, hnew, hids⟩
    refine wp_weaken (h a s₁) (fun b s₂ hs₂ => ?_)
    obtain ⟨new', hnew', hids'⟩ := hs₂
    refine ⟨new ++ new', hnew.trans hnew', ?_⟩
    rw [List.flatMap_append, map_append, hids, List.flatMap_singleton, hids']
  exact wp_gather (I := fun _ bs s' => ∃ new, AddsOrdinary s s' new ∧
    bs.flatMap ids = new.map PortSpec.ofport) hround as [] s ⟨[], AddsOrdinary.of_counted rfl, rfl⟩

/-- The ports of a network function get the next numbers, in order. -/
theorem addNetworkFunction_numbers (nf : String × List NfPortInfo) :
    Numbers (fun entry => entry.2.map AddedPort.id) (addNetworkFunction env d nf) := by
  intro s
  simp only [addNetworkFunction, wp_bind, wp_pure]
  refine wp_weaken (gather_numbers addNfPort_numbers nf.2 s) (fun ports s' h => ?_)
  rw [map_eq_flatMap]
  exact h

/-! ## Virtual links -/

/-- The end of the link in a place that is on the new switch. -/
def nearEnd (d r p i : Nat) : PortSpec where
  name := vportName (p + 2 * i)
  ofport := r + i
  type := "patch"
  options := [("peer", vportName (p + 2 * i + 1))]
  switch := d
  purpose := .vlink

/-- The other end, on the given switch. -/
def farEnd (r p n i remote : Nat) : PortSpec where
  name := vportName (p + 2 * i + 1)
  ofport := r + n + i
  type := "patch"
  options := [("peer", vportName (p + 2 * i))]
  switch := remote
  purpose := .vlink

/-- The maps have the two ends of a link. -/
structure Stored (s : State) (near far : PortSpec) : Prop where
  nearName : s.portId near.ofport = near.name
  farName : s.portId far.ofport = far.name
  nearSwitch : s.vlPortIDtoSwitchID near.ofport = near.switch
  farSwitch : s.vlPortIDtoSwitchID far.ofport = far.switch
  remote : s.vlLocalPortIDtoRemotePortID near.ofport = far.ofport

theorem vportName_injective : Function.Injective vportName := by
  intro n m h
  simpa [vportName, Nat.repr_inj] using h

/-- The maps in which links are stored have not changed outside of some numbers. -/
structure KeepsLinks (s s' : State) (written : Nat → Prop) : Prop where
  portId : ∀ x, ¬written x → s'.portId x = s.portId x
  switchOf : ∀ x, ¬written x → s'.vlPortIDtoSwitchID x = s.vlPortIDtoSwitchID x
  remoteOf : ∀ x, ¬written x →
    s'.vlLocalPortIDtoRemotePortID x = s.vlLocalPortIDtoRemotePortID x

/-- Steps one after the other write the numbers of both. -/
theorem KeepsLinks.trans {written written' both : Nat → Prop} (h : KeepsLinks s s' written)
    (h' : KeepsLinks s' s'' written') (hboth : ∀ x, written x ∨ written' x → both x) :
    KeepsLinks s s'' both where
  portId x hx := (h'.portId x fun hw => hx (hboth x (.inr hw))).trans
    (h.portId x fun hw => hx (hboth x (.inl hw)))
  switchOf x hx := (h'.switchOf x fun hw => hx (hboth x (.inr hw))).trans
    (h.switchOf x fun hw => hx (hboth x (.inl hw)))
  remoteOf x hx := (h'.remoteOf x fun hw => hx (hboth x (.inr hw))).trans
    (h.remoteOf x fun hw => hx (hboth x (.inl hw)))

/-- A link stays stored where its numbers are not written. -/
theorem Stored.keeps {near far : PortSpec} {written : Nat → Prop} (h : Stored s near far)
    (hkeeps : KeepsLinks s s' written) (hnear : ¬written near.ofport) (hfar : ¬written far.ofport) :
    Stored s' near far where
  nearName := (hkeeps.portId _ hnear).trans h.nearName
  farName := (hkeeps.portId _ hfar).trans h.farName
  nearSwitch := (hkeeps.switchOf _ hnear).trans h.nearSwitch
  farSwitch := (hkeeps.switchOf _ hfar).trans h.farSwitch
  remote := (hkeeps.remoteOf _ hnear).trans h.remote

theorem localEnd_stored (hn : 0 < n) :
    Stored (s.localEnd env d n remote) (nearEnd d s.rnumber s.pnumber 0)
      (farEnd s.rnumber s.pnumber n 0 remote) := by
  have hne : s.rnumber ≠ s.rnumber + n := by omega
  constructor <;> simp [State.localEnd, State.storeLink, nearEnd, farEnd, Function.update_of_ne hne]

theorem localEnd_keepsLinks :
    KeepsLinks s (s.localEnd env d n remote) fun x => x = s.rnumber ∨ x = s.rnumber + n := by
  constructor <;>
  · intro x hx
    simp only [not_or] at hx
    simp [State.localEnd, State.storeLink, Function.update_of_ne hx.1, Function.update_of_ne hx.2,
      State.inserted, State.touch, State.startLink]

/-- What the first loop leaves: the ends on the new switch are there, and both ends of each link are
stored. -/
structure LocalEnds (s s' : State) (d n : Nat) (remotes : List Nat)
    (links : List (String × Nat × Nat)) : Prop where
  links : links = remotes.mapIdx fun i _ =>
    (vportName (s.pnumber + 2 * i + 1), s.rnumber + i, s.rnumber + n + i)
  specs : s'.specs = s.specs ++ remotes.mapIdx fun i _ => nearEnd d s.rnumber s.pnumber i
  rnumber : s'.rnumber = s.rnumber + remotes.length
  pnumber : s'.pnumber = s.pnumber + 2 * remotes.length
  dnumber : s'.dnumber = s.dnumber
  stored : ∀ i remote, remotes[i]? = some remote →
    Stored s' (nearEnd d s.rnumber s.pnumber i) (farEnd s.rnumber s.pnumber n i remote)
  peers : ∀ i, i < remotes.length →
    s'.peerN (vportName (s.pnumber + 2 * i + 1)) = vportName (s.pnumber + 2 * i)
  keeps : KeepsLinks s s' fun x => s.rnumber ≤ x ∧ x < s.rnumber + remotes.length ∨
    s.rnumber + n ≤ x ∧ x < s.rnumber + n + remotes.length
  keepsPeers : ∀ q, q < s.pnumber → s'.peerN (vportName q) = s.peerN (vportName q)
  recorded : ∀ key id, id ∈ s'.virtualLinkId key → id ∈ s.virtualLinkId key ∨
    key = bridgeName d ∧ s.rnumber ≤ id ∧ id < s.rnumber + remotes.length

theorem nearEnd_succ (d r p i : Nat) : nearEnd d (r + 1) (p + 2) i = nearEnd d r p (i + 1) := by
  simp only [nearEnd, PortSpec.mk.injEq, vportName_injective.eq_iff, cons.injEq, Prod.mk.injEq,
    true_and, and_true]
  omega

theorem farEnd_succ (r p n i remote : Nat) :
    farEnd (r + 1) (p + 2) n i remote = farEnd r p n (i + 1) remote := by
  simp only [farEnd, PortSpec.mk.injEq, vportName_injective.eq_iff, cons.injEq, Prod.mk.injEq,
    true_and, and_true]
  omega

theorem localEnd_specs :
    (s.localEnd env d n remote).specs = s.specs ++ [nearEnd d s.rnumber s.pnumber 0] := by
  have hgrows : Grows s.startLink (s.startLink.inserted env (s.localSpec d)) [s.localSpec d] :=
    Grows.inserted rfl
  exact hgrows.specs

/-- One more round of the first loop, before the others. -/
theorem LocalEnds.cons {links : List (String × Nat × Nat)} (hn : remotes.length + 1 ≤ n)
    (h : LocalEnds (s.localEnd env d n remote) s' d n remotes links) :
    LocalEnds s s' d n (remote :: remotes)
      ((vportName (s.pnumber + 1), s.rnumber, s.rnumber + n) :: links) := by
  have hr : (s.localEnd env d n remote).rnumber = s.rnumber + 1 := rfl
  have hp : (s.localEnd env d n remote).pnumber = s.pnumber + 2 := rfl
  have hlinks := h.links
  have hspecs := h.specs
  have hrnumber := h.rnumber
  have hpnumber := h.pnumber
  have hstored := h.stored
  have hpeers := h.peers
  have hkeeps := h.keeps
  have hkeepsPeers := h.keepsPeers
  have hrecorded := h.recorded
  rw [hr, hp] at hlinks hstored
  rw [hr] at hrnumber hkeeps hrecorded
  rw [hp] at hpnumber hpeers hkeepsPeers
  refine ⟨?_, ?_, ?_, ?_, h.dnumber, ?_, ?_, ?_, ?_, ?_⟩
  · have hentry : (fun i (_ : Nat) => (vportName (s.pnumber + 2 + 2 * i + 1), s.rnumber + 1 + i,
        s.rnumber + 1 + n + i)) = fun i _ => (vportName (s.pnumber + 2 * (i + 1) + 1),
          s.rnumber + (i + 1), s.rnumber + n + (i + 1)) := by
      funext i _
      simp only [Prod.mk.injEq, vportName_injective.eq_iff]
      omega
    rw [hlinks, hentry, mapIdx_cons]
    rfl
  · rw [hspecs, localEnd_specs, mapIdx_cons, append_assoc, hr, hp]
    simp only [nearEnd_succ, List.singleton_append]
  · rw [hrnumber, length_cons]
    omega
  · rw [hpnumber, length_cons]
    omega
  · rintro (_ | i) remote' hremote
    · obtain rfl : remote = remote' := by simpa using hremote
      have hfirst : Stored (s.localEnd env d n remote) _ _ := localEnd_stored (by omega)
      refine hfirst.keeps hkeeps ?_ ?_
      · simp only [nearEnd]
        omega
      · simp only [farEnd]
        omega
    · have hlater := hstored i remote' (by simpa using hremote)
      rwa [nearEnd_succ, farEnd_succ] at hlater
  · rintro (_ | i) hi
    · rw [hkeepsPeers _ (by omega)]
      exact Function.update_self ..
    · have hlater := hpeers i (by simpa using hi)
      rwa [show s.pnumber + 2 + 2 * i = s.pnumber + 2 * (i + 1) by omega] at hlater
  · refine localEnd_keepsLinks.trans hkeeps fun x hx => ?_
    rw [length_cons]
    omega
  · intro q hq
    rw [hkeepsPeers q (by omega)]
    refine Function.update_of_ne (fun heq => ?_) _ _
    have := vportName_injective heq
    omega
  · intro key id hid
    rw [length_cons]
    rcases hrecorded key id hid with hid | ⟨hkey, hid⟩
    · rcases Paired.mem_push.mp hid with hid | ⟨hkey, rfl⟩
      · exact .inl hid
      · exact .inr ⟨hkey, le_rfl, by omega⟩
    · exact .inr ⟨hkey, by omega, by omega⟩

/-- The first loop over the links, from any state. -/
theorem gather_addLocalEnd (remotes : List Nat) (hn : remotes.length ≤ n) (s : State) :
    wp (gather (addLocalEnd env d n) remotes) (fun links s' => LocalEnds s s' d n remotes links)
      (fun _ => True) s := by
  induction remotes generalizing s with
  | nil =>
    rw [gather, wp_pure]
    exact ⟨rfl, (append_nil _).symm, rfl, rfl, rfl, by simp, by simp, ⟨fun _ _ => rfl, fun _ _ => rfl,
      fun _ _ => rfl⟩, fun _ _ => rfl, fun _ _ hid => .inl hid⟩
  | cons remote remotes ih =>
    simp only [gather, wp_bind, wp_pure, wp_addLocalEnd]
    intro _ _ _ _
    exact wp_weaken (ih (Nat.le_of_succ_le hn) _) (fun links s' h => LocalEnds.cons hn h)

/-- What the second loop leaves: the other ends are there, and nothing else has changed. -/
structure RemoteEnds (s s' : State) (r p n k : Nat) (remotes : List Nat) : Prop where
  specs : s'.specs = s.specs ++ remotes.mapIdx fun i remote => farEnd r p n (k + i) remote
  rnumber : s'.rnumber = s.rnumber + remotes.length
  pnumber : s'.pnumber = s.pnumber + 2 * remotes.length
  keeps : KeepsLinks s s' fun _ => False
  recorded : s'.virtualLinkId = s.virtualLinkId

theorem remoteEnd_specs {name : String} :
    (s.remoteEnd env d name).specs = s.specs ++ [s.linkEnd d name (s.peerN name)] := by
  have hgrows : Grows (s.beforeRemote d name) ((s.beforeRemote d name).inserted env
      (s.linkEnd d name (s.peerN name))) [s.linkEnd d name (s.peerN name)] := Grows.inserted rfl
  exact hgrows.specs

theorem linkEnd_eq_farEnd {r p k : Nat} (hr : s.rnumber = r + n + k)
    (hpeer : s.peerN (vportName (p + 2 * k + 1)) = vportName (p + 2 * k)) :
    s.linkEnd remote (vportName (p + 2 * k + 1)) (s.peerN (vportName (p + 2 * k + 1))) =
      farEnd r p n k remote := by
  rw [hpeer, State.linkEnd, State.spec, hr, farEnd]

/-- The second loop, from a state in which the first one has left the peers. -/
theorem each_addRemoteEnd {r p : Nat} (remotes : List Nat) (k : Nat) (s : State)
    (hr : s.rnumber = r + n + k) (hpeers : ∀ i, i < remotes.length →
      s.peerN (vportName (p + 2 * (k + i) + 1)) = vportName (p + 2 * (k + i))) :
    wp (each (addRemoteEnd env)
        (remotes.zip (remotes.mapIdx fun i _ => vportName (p + 2 * (k + i) + 1))))
      (fun _ s' => RemoteEnds s s' r p n k remotes) (fun _ => True) s := by
  induction remotes generalizing k s with
  | nil =>
    rw [List.zip_nil_left, each, wp_pure]
    exact ⟨(append_nil _).symm, rfl, rfl, ⟨fun _ _ => rfl, fun _ _ => rfl, fun _ _ => rfl⟩, rfl⟩
  | cons remote remotes ih =>
    have hindex (i : Nat) : k + (i + 1) = k + 1 + i := by omega
    have hnames : (remotes.mapIdx fun i _ => vportName (p + 2 * (k + (i + 1)) + 1)) =
        remotes.mapIdx fun i _ => vportName (p + 2 * (k + 1 + i) + 1) := by
      congr 1
      funext i _
      rw [hindex i]
    have hfars : (remotes.mapIdx fun i remote => farEnd r p n (k + (i + 1)) remote) =
        remotes.mapIdx fun i remote => farEnd r p n (k + 1 + i) remote := by
      congr 1
      funext i remote
      rw [hindex i]
    rw [mapIdx_cons, hnames, Nat.add_zero, List.zip_cons_cons, each, wp_bind, wp_addRemoteEnd]
    intro _ _ _ _
    have hnext := ih (k + 1) (s.remoteEnd env remote (vportName (p + 2 * k + 1)))
      (show s.rnumber + 1 = _ by omega)
      (fun i hi => by
        have hpeer := hpeers (i + 1) (by simpa using hi)
        rwa [hindex i] at hpeer)
    refine wp_weaken hnext (fun _ s' h => ⟨?_, ?_, ?_, ?_, h.recorded⟩)
    · rw [h.specs, remoteEnd_specs, linkEnd_eq_farEnd hr (hpeers 0 (by simp)), append_assoc,
        mapIdx_cons, hfars]
      rfl
    · rw [h.rnumber, length_cons]
      show s.rnumber + 1 + _ = _
      omega
    · rw [h.pnumber, length_cons]
      show s.pnumber + 2 + _ = _
      omega
    · exact ⟨fun x hx => h.keeps.portId x hx, fun x hx => h.keeps.switchOf x hx,
        fun x hx => h.keeps.remoteOf x hx⟩

private theorem map_mapIdx {α β γ : Type} {l : List α} {f : Nat → α → β} {g : β → γ} :
    (l.mapIdx f).map g = l.mapIdx fun i a => g (f i a) := by
  apply List.ext_getElem?
  intro i
  rw [List.getElem?_map, getElem?_mapIdx, getElem?_mapIdx, Option.map_map]
  rfl

/-- What both loops leave. -/
structure LinksCreated (s s' : State) (d : Nat) (remotes : List Nat) (links : List (Nat × Nat)) :
    Prop where
  links : links = remotes.mapIdx fun i _ => (s.rnumber + i, s.rnumber + remotes.length + i)
  specs : s'.specs = s.specs ++ (remotes.mapIdx fun i _ => nearEnd d s.rnumber s.pnumber i) ++
    remotes.mapIdx fun i remote => farEnd s.rnumber s.pnumber remotes.length i remote
  rnumber : s'.rnumber = s.rnumber + 2 * remotes.length
  pnumber : s'.pnumber = s.pnumber + 2 * remotes.length
  stored : ∀ i remote, remotes[i]? = some remote →
    Stored s' (nearEnd d s.rnumber s.pnumber i) (farEnd s.rnumber s.pnumber remotes.length i remote)
  keeps : KeepsLinks s s' fun x => s.rnumber ≤ x ∧ x < s.rnumber + 2 * remotes.length
  recorded : ∀ key id, id ∈ s'.virtualLinkId key → id ∈ s.virtualLinkId key ∨
    key = bridgeName d ∧ s.rnumber ≤ id ∧ id < s.rnumber + remotes.length

/-- Both loops insert both ends of each link and store them. -/
theorem addLsiLinks_created (remotes : List Nat) (s : State) :
    wp (addLsiLinks env d remotes) (fun links s' => LinksCreated s s' d remotes links)
      (fun _ => True) s := by
  simp only [addLsiLinks, wp_bind, wp_get, wp_modify, wp_incDnumber, wp_pure]
  refine wp_weaken (gather_addLocalEnd remotes le_rfl s) (fun links s₁ h => ?_)
  intro _
  have hnames : links.map Prod.fst =
      remotes.mapIdx fun i _ => vportName (s.pnumber + 2 * (0 + i) + 1) := by
    rw [h.links, map_mapIdx]
    simp only [Nat.zero_add]
  have hsecond := @each_addRemoteEnd env remotes.length s.rnumber s.pnumber remotes 0
    { s₁ with pnumber := s.pnumber, dnumber := s₁.dnumber + 1 }
    (by rw [h.rnumber]; rfl) (fun i hi => by rw [Nat.zero_add]; exact h.peers i hi)
  rw [hnames]
  refine wp_weaken hsecond (fun _ s' h' => ?_)
  have hkeeps : KeepsLinks s₁ s' fun _ => False :=
    ⟨h'.keeps.portId, h'.keeps.switchOf, h'.keeps.remoteOf⟩
  refine ⟨?_, ?_, ?_, ?_, ?_, ?_, ?_⟩
  · rw [h.links, map_mapIdx]
  · rw [h'.specs]
    simp only [Nat.zero_add]
    exact congrArg (· ++ _) h.specs
  · rw [h'.rnumber]
    show s₁.rnumber + _ = _
    rw [h.rnumber]
    omega
  · exact h'.pnumber
  · intro i remote hremote
    exact (h.stored i remote hremote).keeps hkeeps not_false not_false
  · refine h.keeps.trans hkeeps fun x hx => ?_
    rcases hx with (hx | hx) | hx
    · exact ⟨hx.1, by omega⟩
    · exact ⟨by omega, by omega⟩
    · exact hx.elim
  · intro key id hid
    rw [h'.recorded] at hid
    exact h.recorded key id hid

/-! ## New switches -/

/-- A place in the answer to an operation that has the number of a port. -/
inductive Slot where
  | physical (name : String)
  | nf (nf port : String)
  | endpoint (id : String)
  | near (i : Nat)
  | far (i : Nat)

/-- The number of a port that an operation returned. -/
def Output.port : Output → Slot → Option Nat
  | .lsi out, .physical name => out.physicalPorts[name]?
  | .lsi out, .nf nf port => (out.networkFunctionsPorts[nf]?).bind fun ports => ports[port]?
  | .lsi out, .endpoint id => out.endpointsPorts[id]?
  | .lsi out, .near i => (out.virtualLinks[i]?).map Prod.fst
  | .lsi out, .far i => (out.virtualLinks[i]?).map Prod.snd
  | .nfPorts out, .nf nf port => if nf = out.nfId then out.ports[port]? else none
  | .endpoint id port, .endpoint id' => if id' = id then some port else none
  | .link idA _, .near i => if i = 0 then some idA else none
  | .link _ idB, .far i => if i = 0 then some idB else none
  | _, _ => none

theorem mem_of_idMap {ids : List (String × Nat)} {k : String} {id : Nat} (h : (idMap ids)[k]? = some id) :
    (k, id) ∈ ids := by
  obtain ⟨⟨k', id'⟩, hmem, rfl, rfl⟩ := StringMap.exists_of_getElem?_foldl h
  exact hmem

/-- The numbers of the ordinary ports of a new switch. -/
def portIds (ports : List (String × Nat) × List (String × List AddedPort) × List (String × Nat)) :
    List Nat :=
  ports.1.map Prod.snd ++ ports.2.1.flatMap (fun nf => nf.2.map AddedPort.id) ++ ports.2.2.map Prod.snd

/-- All the ordinary ports of a new switch get the next numbers, in order. -/
theorem addLsiPorts_numbers :
    Numbers portIds (addLsiPorts env d cli) := by
  intro s
  simp only [addLsiPorts, wp_bind, wp_pure]
  refine wp_weaken (gather_numbers addPhysicalPort_numbers _ s) (fun physical s₁ h₁ => ?_)
  refine wp_weaken (gather_numbers addNetworkFunction_numbers _ s₁) (fun functions s₂ h₂ => ?_)
  refine wp_weaken (gather_numbers addLsiEndpoint_numbers _ s₂) (fun endpoints s₃ h₃ => ?_)
  obtain ⟨new₁, hnew₁, hids₁⟩ := h₁
  obtain ⟨new₂, hnew₂, hids₂⟩ := h₂
  obtain ⟨new₃, hnew₃, hids₃⟩ := h₃
  refine ⟨new₁ ++ new₂ ++ new₃, (hnew₁.trans hnew₂).trans hnew₃, ?_⟩
  rw [map_append, map_append, ← hids₁, ← hids₂, ← hids₃, portIds, map_eq_flatMap,
    map_eq_flatMap]

/-- A new switch with its links, in the order of the request: the ports that were created for them,
the numbers that are returned and stored, and the names. -/
structure LsiNumbered (s s' : State) (cli : CreateLsiIn) (out : CreateLsiOut)
    (others : List PortSpec) (links : List (PortSpec × PortSpec)) : Prop where
  specs : s'.specs = s.specs ++ others ++ links.map Prod.fst ++ links.map Prod.snd
  ordinary : ∀ spec ∈ others, spec.purpose ≠ .vlink
  ends : ∀ link ∈ links, link.1.purpose = .vlink ∧ link.2.purpose = .vlink
  localSwitch : ∀ link ∈ links, link.1.switch = out.dpid
  remoteSwitch : links.map (fun link => link.2.switch) = cli.virtualLinksRemoteLSI
  returned : out.virtualLinks = links.map fun link => (link.1.ofport, link.2.ofport)
  stored : ∀ link ∈ links, Stored s' link.1 link.2
  peers : ∀ link ∈ links, link.1.peer = some link.2.name ∧ link.2.peer = some link.1.name

/-- The ends of the links of a new switch. -/
def linkEnds (d r p : Nat) (remotes : List Nat) : List (PortSpec × PortSpec) :=
  remotes.mapIdx fun i remote => (nearEnd d r p i, farEnd r p remotes.length i remote)

theorem mem_linkEnds {r p : Nat} {link : PortSpec × PortSpec} :
    link ∈ linkEnds d r p remotes ↔ ∃ i remote, remotes[i]? = some remote ∧
      link = (nearEnd d r p i, farEnd r p remotes.length i remote) := by
  simp only [linkEnds, List.mem_iff_getElem?, getElem?_mapIdx, Option.map_eq_some_iff]
  simp only [eq_comm]

/-- The numbering of a new switch, from what both loops over its links leave. -/
theorem LinksCreated.numbered {out : CreateLsiOut} {others : List PortSpec}
    (hports : s'.specs = s.specs ++ others) (hordinary : ∀ spec ∈ others, spec.purpose ≠ .vlink)
    (h : LinksCreated s' s'' out.dpid cli.virtualLinksRemoteLSI links)
    (hout : out.virtualLinks = links) :
    LsiNumbered s s'' cli out others
      (linkEnds out.dpid s'.rnumber s'.pnumber cli.virtualLinksRemoteLSI) where
  specs := by
    have hnear : (linkEnds out.dpid s'.rnumber s'.pnumber cli.virtualLinksRemoteLSI).map Prod.fst =
        cli.virtualLinksRemoteLSI.mapIdx fun i _ => nearEnd out.dpid s'.rnumber s'.pnumber i :=
      map_mapIdx
    have hfar : (linkEnds out.dpid s'.rnumber s'.pnumber cli.virtualLinksRemoteLSI).map Prod.snd =
        cli.virtualLinksRemoteLSI.mapIdx fun i remote =>
          farEnd s'.rnumber s'.pnumber cli.virtualLinksRemoteLSI.length i remote :=
      map_mapIdx
    rw [h.specs, hports, hnear, hfar]
  ordinary := hordinary
  ends link hlink := by
    obtain ⟨i, remote, -, rfl⟩ := mem_linkEnds.mp hlink
    exact ⟨rfl, rfl⟩
  localSwitch link hlink := by
    obtain ⟨i, remote, -, rfl⟩ := mem_linkEnds.mp hlink
    rfl
  remoteSwitch := by
    rw [linkEnds, map_mapIdx]
    apply List.ext_getElem?
    simp [farEnd]
  returned := by
    rw [hout, h.links, linkEnds, map_mapIdx]
    rfl
  stored link hlink := by
    obtain ⟨i, remote, hremote, rfl⟩ := mem_linkEnds.mp hlink
    exact h.stored i remote hremote
  peers link hlink := by
    obtain ⟨i, remote, -, rfl⟩ := mem_linkEnds.mp hlink
    exact ⟨rfl, rfl⟩

/-- The numbers that are returned for a new switch are those of its ports. -/
theorem createLsi_numbered :
    wp (createLsi env cli) (fun out s' => ∃ others links, LsiNumbered s s' cli out others links)
      (fun _ => True) s := by
  rw [wp_createLsi]
  intro _
  refine wp_weaken (addLsiPorts_numbers _) (fun ports s₁ h₁ => ?_)
  obtain ⟨others, ⟨-, hgrows, hordinary⟩, -⟩ := h₁
  refine wp_weaken (addLsiLinks_created _ s₁) (fun links s' h => ?_)
  exact ⟨others, _, LinksCreated.numbered hgrows.specs hordinary h rfl⟩

/-- The numbers of the ports of a new switch, with their places in the answer. -/
def lsiSlots (physical : List (String × Nat)) (functions : List (String × List AddedPort))
    (endpoints : List (String × Nat)) (links : List (Nat × Nat)) : List (Slot × Nat) :=
  physical.map (fun entry => (.physical entry.1, entry.2)) ++
    functions.flatMap (fun nf => nf.2.map fun port => (.nf nf.1 port.info.name, port.id)) ++
    endpoints.map (fun entry => (.endpoint entry.1, entry.2)) ++
    links.mapIdx (fun i link => (.near i, link.1)) ++ links.mapIdx (fun i link => (.far i, link.2))

theorem mem_lsiSlots {physical : List (String × Nat)} {functions : List (String × List AddedPort)}
    {endpoints : List (String × Nat)} {slot : Slot} {id : Nat}
    (h : (Output.lsi (lsiOut d physical functions endpoints links)).port slot = some id) :
    (slot, id) ∈ lsiSlots physical functions endpoints links := by
  simp only [lsiSlots, mem_append, mem_map, List.mem_flatMap, List.mem_iff_getElem?
    (l := List.mapIdx _ _), getElem?_mapIdx, Option.map_eq_some_iff, Prod.mk.injEq]
  cases slot with
  | physical name => exact .inl (.inl (.inl (.inl ⟨(name, id), mem_of_idMap h, rfl, rfl⟩)))
  | nf nf port =>
    obtain ⟨ports, hports, hport⟩ := Option.bind_eq_some_iff.mp h
    obtain ⟨entry, hentry, rfl, rfl⟩ := StringMap.exists_of_getElem?_foldl hports
    obtain ⟨added, hadded, heq⟩ := mem_map.mp (mem_of_idMap hport)
    obtain ⟨rfl, rfl⟩ := Prod.mk.inj heq
    exact .inl (.inl (.inl (.inr ⟨entry, hentry, added, hadded, rfl, rfl⟩)))
  | endpoint name => exact .inl (.inl (.inr ⟨(name, id), mem_of_idMap h, rfl, rfl⟩))
  | near i =>
    obtain ⟨link, hlink, rfl⟩ := Option.map_eq_some_iff.mp h
    exact .inl (.inr ⟨i, link, hlink, rfl, rfl⟩)
  | far i =>
    obtain ⟨link, hlink, rfl⟩ := Option.map_eq_some_iff.mp h
    exact .inr ⟨i, link, hlink, rfl, rfl⟩

/-! ## Runs -/

/-- The ports that are inserted get the next OpenFlow numbers in order, and the ends of virtual links
among them get names that were not used before. -/
structure Counts (s s' : State) (new : List PortSpec) : Prop extends Grows s s' new where
  pnumber : s.pnumber ≤ s'.pnumber
  vports : ∀ spec ∈ new, spec.purpose = .vlink →
    ∃ k, s.pnumber ≤ k ∧ k < s'.pnumber ∧ spec.name = vportName k
  distinct : ∀ a ∈ new, ∀ b ∈ new, a.purpose = .vlink → b.purpose = .vlink → a.name = b.name → a = b

/-- Operations one after the other insert the ports of both. -/
theorem Counts.trans {new' : List PortSpec} (h : Counts s s' new) (h' : Counts s' s'' new') :
    Counts s s'' (new ++ new') where
  toGrows := h.toGrows.trans h'.toGrows
  pnumber := h.pnumber.trans h'.pnumber
  vports spec hspec hvlink := by
    have hle := h.pnumber
    have hle' := h'.pnumber
    rcases mem_append.mp hspec with hspec | hspec
    · obtain ⟨k, hk, hk', hname⟩ := h.vports spec hspec hvlink
      exact ⟨k, hk, by omega, hname⟩
    · obtain ⟨k, hk, hk', hname⟩ := h'.vports spec hspec hvlink
      exact ⟨k, by omega, hk', hname⟩
  distinct a ha b hb hvlink hvlink' hname := by
    -- the names before the counter in the middle are not those behind it
    have hapart : ∀ a ∈ new, ∀ b ∈ new', a.purpose = .vlink → b.purpose = .vlink → a.name ≠ b.name := by
      intro a ha b hb hvlink hvlink' hname
      obtain ⟨k, -, hk, hka⟩ := h.vports a ha hvlink
      obtain ⟨k', hk', -, hkb⟩ := h'.vports b hb hvlink'
      have := vportName_injective (hka.symm.trans (hname.trans hkb))
      omega
    rcases mem_append.mp ha with ha | ha <;> rcases mem_append.mp hb with hb | hb
    · exact h.distinct a ha b hb hvlink hvlink' hname
    · exact absurd hname (hapart a ha b hb hvlink hvlink')
    · exact absurd hname.symm (hapart b hb a ha hvlink' hvlink)
    · exact h'.distinct a ha b hb hvlink hvlink' hname

/-- An operation counts, and the numbers that it returns are those of its ports. -/
structure NumbersPorts (s s' : State) (out : Output) (new : List PortSpec)
    (slots : List (Slot × Nat)) : Prop extends Counts s s' new where
  ids : slots.map Prod.snd = new.map PortSpec.ofport
  returned : ∀ slot id, out.port slot = some id → (slot, id) ∈ slots

theorem AddsOrdinary.counts (h : AddsOrdinary s s' new) : Counts s s' new where
  toGrows := h.2.1
  pnumber := (congrArg LinkPart.pnumber h.1).ge
  vports spec hspec hvlink := absurd hvlink (h.2.2 spec hspec)
  distinct a ha _ _ hvlink := absurd hvlink (h.2.2 a ha)

/-- The ports that both loops insert. -/
def newEnds (d r p : Nat) (remotes : List Nat) : List PortSpec :=
  (linkEnds d r p remotes).map Prod.fst ++ (linkEnds d r p remotes).map Prod.snd

theorem mem_newEnds {r p : Nat} {spec : PortSpec} (h : spec ∈ newEnds d r p remotes) :
    ∃ i remote, remotes[i]? = some remote ∧
      (spec = nearEnd d r p i ∨ spec = farEnd r p remotes.length i remote) := by
  simp only [newEnds, mem_append, mem_map, mem_linkEnds] at h
  rcases h with ⟨_, ⟨i, remote, hremote, rfl⟩, rfl⟩ | ⟨_, ⟨i, remote, hremote, rfl⟩, rfl⟩
  · exact ⟨i, remote, hremote, .inl rfl⟩
  · exact ⟨i, remote, hremote, .inr rfl⟩

/-- No two ends of new links have the same name. -/
theorem eq_of_name_eq {r p : Nat} {a b : PortSpec} (ha : a ∈ newEnds d r p remotes)
    (hb : b ∈ newEnds d r p remotes) (h : a.name = b.name) : a = b := by
  obtain ⟨i, remote, hi, ha⟩ := mem_newEnds ha
  obtain ⟨j, remote', hj, hb⟩ := mem_newEnds hb
  rcases ha with rfl | rfl <;> rcases hb with rfl | rfl <;> have hname := vportName_injective h
  · obtain rfl : i = j := by omega
    rfl
  · omega
  · omega
  · obtain rfl : i = j := by omega
    obtain rfl : remote = remote' := Option.mem_unique hi hj
    rfl

theorem map_ofport_newEnds {r p : Nat} :
    (newEnds d r p remotes).map PortSpec.ofport = range' r (2 * remotes.length) := by
  have hrange (k : Nat) : (remotes.mapIdx fun i _ => k + i) = range' k remotes.length := by
    apply ext_getElem
    · simp
    · simp
  rw [newEnds, map_append, map_map, map_map, linkEnds, map_mapIdx, map_mapIdx,
    Nat.two_mul, ← List.range'_append_1, ← hrange, ← hrange]
  rfl

theorem LinksCreated.grows (h : LinksCreated s s' d remotes links) :
    Grows s s' (newEnds d s.rnumber s.pnumber remotes) := by
  have hlength : (newEnds d s.rnumber s.pnumber remotes).length = 2 * remotes.length := by
    have hids := congrArg List.length (@map_ofport_newEnds d remotes s.rnumber s.pnumber)
    simpa using hids
  constructor
  · rw [h.specs, append_assoc, newEnds, linkEnds, map_mapIdx, map_mapIdx]
  · rw [map_ofport_newEnds, hlength]
  · rw [h.rnumber, hlength]

/-- The links of a new switch take the next numbers and the next names. -/
theorem LinksCreated.counts (h : LinksCreated s s' d remotes links) :
    Counts s s' (newEnds d s.rnumber s.pnumber remotes) where
  toGrows := h.grows
  pnumber := by
    rw [h.pnumber]
    exact Nat.le_add_right _ _
  vports spec hspec _ := by
    have hlast := h.pnumber
    obtain ⟨i, remote, hremote, hends⟩ := mem_newEnds hspec
    have hi := (List.getElem?_eq_some_iff.mp hremote).1
    rcases hends with rfl | rfl
    · exact ⟨_, by omega, by omega, rfl⟩
    · exact ⟨_, by omega, by omega, rfl⟩
  distinct _ ha _ hb _ _ hname := eq_of_name_eq ha hb hname

/-- The numbers of the links of a new switch. -/
theorem LinksCreated.ids (h : LinksCreated s s' d remotes links) :
    (newEnds d s.rnumber s.pnumber remotes).map PortSpec.ofport =
      links.map Prod.fst ++ links.map Prod.snd := by
  rw [newEnds, map_append, map_map, map_map, linkEnds, map_mapIdx, map_mapIdx, h.links,
    map_mapIdx, map_mapIdx]
  rfl

theorem map_snd_lsiSlots {ports : List (String × Nat) × List (String × List AddedPort) ×
      List (String × Nat)} :
    (lsiSlots ports.1 ports.2.1 ports.2.2 links).map Prod.snd =
      portIds ports ++ (links.map Prod.fst ++ links.map Prod.snd) := by
  have hnear : (links.mapIdx fun i link => (Slot.near i, link.1)).map Prod.snd = links.map Prod.fst := by
    rw [map_mapIdx]
    apply ext_getElem <;> simp
  have hfar : (links.mapIdx fun i link => (Slot.far i, link.2)).map Prod.snd = links.map Prod.snd := by
    rw [map_mapIdx]
    apply ext_getElem <;> simp
  simp only [lsiSlots, portIds, map_append, hnear, hfar, map_map, List.map_flatMap,
    Function.comp_def, append_assoc]

theorem newSwitch_counts : Counts s (s.newSwitch env cli) [] :=
  ⟨Grows.of_eq rfl rfl, le_rfl, nofun, nofun⟩

/-- A new switch: each number that is returned is that of one new port. -/
theorem createLsi_numbersPorts :
    wp (createLsi env cli) (fun out s' => ∃ new slots, NumbersPorts s s' (.lsi out) new slots)
      (fun _ => True) s := by
  rw [wp_createLsi]
  intro _
  refine wp_weaken (addLsiPorts_numbers _) (fun ports s₁ h₁ => ?_)
  obtain ⟨others, hothers, hids⟩ := h₁
  refine wp_weaken (addLsiLinks_created _ s₁) (fun links s' h => ?_)
  have hports : Counts s s₁ others := newSwitch_counts.trans hothers.counts
  refine ⟨_, lsiSlots ports.1 ports.2.1 ports.2.2 links, hports.trans h.counts, ?_, ?_⟩
  · rw [map_snd_lsiSlots, map_append, hids, h.ids]
  · exact fun slot id => mem_lsiSlots

theorem linked_counts {dA dB : Nat} :
    Counts s (s.linked env dA dB) [s.firstSpec dA, s.secondSpec dB] := by
  have hfirst : Grows s.takeNames (s.firstEnd env dA) [s.firstSpec dA] := Grows.inserted rfl
  have hsecond : Grows (s.firstEnd env dA) (s.secondEnd env dA dB) [s.secondSpec dB] :=
    Grows.inserted rfl
  have hboth := hfirst.trans hsecond
  refine ⟨⟨hboth.specs, hboth.ofports, hboth.rnumber⟩, Nat.le_add_right s.pnumber 2, ?_, ?_⟩
  · intro spec hspec _
    simp only [List.mem_cons, List.not_mem_nil, or_false] at hspec
    rcases hspec with rfl | rfl
    · exact ⟨s.pnumber, le_rfl, Nat.lt_add_of_pos_right (by decide), rfl⟩
    · exact ⟨s.pnumber + 1, Nat.le_succ _, Nat.lt_succ_self (s.pnumber + 1), rfl⟩
  · intro a ha b hb _ _ hname
    simp only [List.mem_cons, List.not_mem_nil, or_false] at ha hb
    rcases ha with rfl | rfl <;> rcases hb with rfl | rfl
    · rfl
    · exact absurd (vportName_injective hname) (Nat.ne_of_lt (Nat.lt_succ_self _))
    · exact absurd (vportName_injective hname) (Nat.ne_of_gt (Nat.lt_succ_self _))
    · rfl

/-- A link between two switches: the two numbers are those of its ends. -/
theorem addVirtualLink_numbersPorts {dA dB : Nat} :
    wp (addVirtualLink env dA dB)
      (fun ids s' => ∃ new slots, NumbersPorts s s' (.link ids.1 ids.2) new slots) (fun _ => True) s := by
  rw [wp_addVirtualLink]
  intro _ _ _ _ _ _
  refine ⟨_, [(.near 0, s.rnumber), (.far 0, s.rnumber + 1)], linked_counts, rfl, ?_⟩
  intro slot id hslot
  cases slot <;> simp [Output.port] at hslot ⊢ <;> simp [hslot]

/-- More ports of a network function. -/
theorem addNFPorts_numbersPorts {nfId : String} {ports : List NfPortInfo} :
    wp (addNFPorts env d nfId ports)
      (fun out s' => ∃ new slots, NumbersPorts s s' (.nfPorts out) new slots) (fun _ => True) s := by
  simp only [addNFPorts, wp_bind, wp_pure]
  refine wp_weaken (gather_numbers addNfPort_numbers ports s) (fun added s' h => ?_)
  obtain ⟨new, hnew, hids⟩ := h
  refine ⟨new, added.map fun port => (.nf nfId port.info.name, port.id),
    ⟨hnew.counts, ?_, ?_⟩⟩
  · rw [← hids, map_map, map_eq_flatMap]
    rfl
  · intro slot id hslot
    cases slot with
    | nf nf port =>
      simp only [Output.port] at hslot
      split_ifs at hslot with hnf
      obtain ⟨port', hport', heq⟩ := mem_map.mp (mem_of_idMap hslot)
      obtain ⟨rfl, rfl⟩ := Prod.mk.inj heq
      exact mem_map.mpr ⟨port', hport', by rw [hnf]⟩
    | _ => cases hslot

/-- One more tunnel. -/
theorem addEndpoint_numbersPorts {id : String} {params : Fin 5 → String} :
    wp (addEndpoint env d id params)
      (fun port s' => ∃ new slots, NumbersPorts s s' (.endpoint id port) new slots)
      (fun _ => True) s := by
  simp only [addEndpoint, lastPort, wp_bind, wp_modify, wp_get, wp_pure, wp_incGnumber]
  intro _
  refine wp_weaken addEndpointPort_addsOne (fun _ s' h => ?_)
  have hafter : AddsOne s (s'.pushName (.gport, d) id) := h.congr rfl rfl
  obtain ⟨new, hnew, hids⟩ := hafter.numbers
  refine ⟨new, [(.endpoint id, s'.rnumber - 1)], hnew.counts, hids, ?_⟩
  intro slot port hslot
  cases slot with
  | endpoint id' =>
    simp only [Output.port] at hslot
    split_ifs at hslot with hid
    rw [hid, List.mem_singleton, ← Option.some.inj hslot]
    rfl
  | _ => cases hslot

/-- The operations that add something. -/
def Operation.adds : Operation → Prop
  | .createLsi _ | .addNFPorts .. | .addEndpoint .. | .addVirtualLink .. => True
  | _ => False

/-- Every operation that adds ports returns their numbers, which are new. -/
theorem perform_numbersPorts {op : Operation} (hop : op.adds) :
    wp (perform env op) (fun out s' => ∃ new slots, NumbersPorts s s' out new slots)
      (fun _ => True) s := by
  cases op with
  | createLsi => simpa only [perform, wp_map] using createLsi_numbersPorts
  | addNFPorts => simpa only [perform, wp_map] using addNFPorts_numbersPorts
  | addEndpoint => simpa only [perform, wp_map] using addEndpoint_numbersPorts
  | addVirtualLink => simpa only [perform, wp_map] using addVirtualLink_numbersPorts
  | _ => exact absurd hop not_false

/-- The same for a run, with the place of the operation in it. -/
structure RunNumbers (s s' : State) (outs : List Output) (new : List PortSpec)
    (slots : List ((Nat × Slot) × Nat)) : Prop extends Counts s s' new where
  ids : slots.map Prod.snd = new.map PortSpec.ofport
  returned : ∀ i out slot id, outs[i]? = some out → out.port slot = some id → ((i, slot), id) ∈ slots

/-- A run of such operations numbers all its ports differently. -/
theorem run_numbers {ops : List Operation} (hops : ∀ op ∈ ops, op.adds) :
    wp (gather (perform env) ops) (fun outs s' => ∃ new slots, RunNumbers s s' outs new slots)
      (fun _ => True) s := by
  induction ops generalizing s with
  | nil =>
    rw [gather, wp_pure]
    exact ⟨[], [], ⟨Grows.of_eq rfl rfl, le_rfl, by simp, by simp⟩, rfl, by simp⟩
  | cons op ops ih =>
    have hop := hops op List.mem_cons_self
    simp only [gather, wp_bind, wp_pure]
    refine wp_weaken (perform_numbersPorts hop) (fun out s₁ h₁ => ?_)
    obtain ⟨new, slots, h₁⟩ := h₁
    refine wp_weaken (ih fun op' hop' => hops op' (List.mem_cons_of_mem _ hop')) (fun outs s' h => ?_)
    obtain ⟨new', slots', h⟩ := h
    refine ⟨new ++ new', slots.map (fun entry => ((0, entry.1), entry.2)) ++
      slots'.map (fun entry => ((entry.1.1 + 1, entry.1.2), entry.2)), h₁.toCounts.trans h.toCounts,
      ?_, ?_⟩
    · rw [map_append, map_append, map_map, map_map, ← h₁.ids, ← h.ids]
      rfl
    · rintro (_ | i) out' slot id hout hport
      · obtain rfl : out = out' := by simpa using hout
        exact List.mem_append_left _ (mem_map.mpr ⟨(slot, id), h₁.returned slot id hport, rfl⟩)
      · have hlater := h.returned i out' slot id (by simpa using hout) hport
        exact List.mem_append_right _ (mem_map.mpr ⟨_, hlater, rfl⟩)

/-- No two ports have one number, no two ends of virtual links have one name, and the numbers in two
places of the answers are those of two ports. -/
structure Distinct (new : List PortSpec) (outs : List Output) : Prop where
  ofports : (new.map PortSpec.ofport).Nodup
  names : ∀ a ∈ new, ∀ b ∈ new, a.purpose = .vlink → b.purpose = .vlink → a.name = b.name → a = b
  created : ∀ (i : Nat) (out : Output) slot id, outs[i]? = some out → out.port slot = some id →
    ∃ spec ∈ new, spec.ofport = id
  places : ∀ (i j : Nat) (out out' : Output) slot slot' id, outs[i]? = some out →
    outs[j]? = some out' → out.port slot = some id → out'.port slot' = some id → i = j ∧ slot = slot'

theorem RunNumbers.distinct_outs {outs : List Output} {slots : List ((Nat × Slot) × Nat)}
    (h : RunNumbers s s' outs new slots) : Distinct new outs := by
  have hnodup : (new.map PortSpec.ofport).Nodup := by
    rw [h.ofports]
    exact List.nodup_range'
  refine ⟨hnodup, h.distinct, ?_, ?_⟩
  · intro i out slot id hout hport
    have hmem := List.mem_map_of_mem (f := Prod.snd) (h.returned i out slot id hout hport)
    rw [h.ids] at hmem
    exact mem_map.mp hmem
  · intro i j out out' slot slot' id hout hout' hport hport'
    have heq := List.inj_on_of_nodup_map (h.ids ▸ hnodup) (h.returned i out slot id hout hport)
      (h.returned j out' slot' id hout' hport') rfl
    exact Prod.mk.inj (Prod.mk.inj heq).1

/-- The links of a new switch have the numbers and the names that are returned and stored, and over
the operations that add something nothing is numbered twice. -/
theorem links_numbered (env : Env) (s : State) :
    (∀ cli out s', createLsi env cli s = .ok (some out, s') →
      ∃ others links, LsiNumbered s s' cli out others links) ∧
    ∀ ops outs s', (∀ op ∈ ops, op.adds) → gather (perform env) ops s = .ok (some outs, s') →
      ∃ new, s'.specs = s.specs ++ new ∧ Distinct new outs := by
  refine ⟨fun cli out s' hrun => ?_, fun ops outs s' hops hrun => ?_⟩
  · exact (of_wp createLsi_numbered hrun).1 out rfl
  · obtain ⟨new, slots, h⟩ := (of_wp (run_numbers hops) hrun).1 outs rfl
    exact ⟨new, h.specs, h.distinct_outs⟩

/-- Two switches with two links between them, and one more link. -/
theorem links_numbered_two_switches :
    ∃ outs s', gather (perform plainEnv)
        [.createLsi {}, .createLsi { virtualLinksRemoteLSI := [1, 1] }, .addVirtualLink 1 2] {} =
        .ok (some outs, s') ∧ (∃ new, s'.specs = [] ++ new ∧ Distinct new outs) ∧
      s'.specs.map (fun spec => (spec.switch, spec.name, spec.ofport)) =
        [(2, "vport1", 1), (2, "vport3", 2), (1, "vport2", 3), (1, "vport4", 4), (1, "vport5", 5),
          (2, "vport6", 6)] := by
  have hadds : ∀ op ∈ [Operation.createLsi {}, .createLsi { virtualLinksRemoteLSI := [1, 1] },
      .addVirtualLink 1 2], op.adds := by
    simp [Operation.adds]
  obtain ⟨outs, s', hrun, hspecs⟩ : Returns (gather (perform plainEnv)
      [.createLsi {}, .createLsi { virtualLinksRemoteLSI := [1, 1] }, .addVirtualLink 1 2])
      (fun _ s' => s'.specs.map (fun spec => (spec.switch, spec.name, spec.ofport)) =
        [(2, "vport1", 1), (2, "vport3", 2), (1, "vport2", 3), (1, "vport4", 4), (1, "vport5", 5),
          (2, "vport6", 6)]) {} := by
    decide +kernel
  exact ⟨outs, s', hrun, (links_numbered plainEnv {}).2 _ outs s' hadds hrun, hspecs⟩

end UnOrchestrator.Ovsdb
