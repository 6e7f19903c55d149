import UnOrchestrator.Ovsdb.Links

/-!
# Ordinary ports

The lists of the ordinary ports of a switch are aligned as long as no switch was created with a
physical port: the name of such a port is stored twice, so that the list of names is too long by one for
each (`Surplus`), and a walk over both lists ends at the uuid of another port.

With aligned lists, a request to remove ports takes the ports whose names it arrives at. A port that is
one end of a pair of interfaces is known to the switch by its peer, and the map of the peers is never
cleared; the ports that go are the requested ones if that map leads from the requested names to the
names of exactly those ports (`Recognised`).
-/

namespace UnOrchestrator.Ovsdb

open Call

variable {env : Env} {s s' : State} {d n : Nat}

/-! ## Names too many -/

/-- The switch has a bridge, and more names of ordinary ports than uuids, by the given number. -/
structure Surplus (b : Books) (d n : Nat) : Prop where
  on : d ∈ b.switchUuid
  length : (b.names (.port, d)).length = (b.uuids (.port, d)).length + n

/-- A port is added with its name. -/
theorem Surplus.push {b b' : Books} (h : Surplus b d n) {k : Family × Nat} {name u : String} {e : Nat}
    (htouch : b'.switchUuid = b.switchUuid.insertIfNew e "") (hnames : b'.names = Paired.push b.names k name)
    (huuids : b'.uuids = Paired.push b.uuids k u) : Surplus b' d n := by
  refine ⟨?_, ?_⟩
  · rw [htouch, Std.ExtTreeMap.mem_insertIfNew]
    exact .inr h.on
  · have hlength := h.length
    rw [hnames, huuids]
    by_cases hkey : (.port, d) = k
    · rw [← hkey, Paired.push_self, Paired.push_self, List.length_append, List.length_append]
      simp only [List.length_singleton]
      omega
    · rw [Paired.push_of_ne _ _ hkey, Paired.push_of_ne _ _ hkey]
      exact hlength

theorem Surplus.physical (h : Surplus s.books d n) {p : String} (hdone : Done env (.physical d p) s s') :
    Surplus s'.books d (n + 1) := by
  cases hdone with
  | physical =>
  have hplaced : Surplus ((s.named d (physicalChoice p)).inserted env
      (s.chosenSpec d (physicalChoice p))).books d n := h.push rfl rfl rfl
  refine ⟨hplaced.on, ?_⟩
  show (Paired.push _ _ _ _).length = _
  rw [Paired.push_self, List.length_append]
  exact congrArg (· + 1) hplaced.length

theorem Surplus.physicals (ports : List String) (h : Surplus s.books d n)
    (hchain : Chain (Clean env) (ports.map (.physical d)) s s') :
    Surplus s'.books d (n + ports.length) := by
  induction ports generalizing s n with
  | nil =>
    cases hchain
    exact h
  | cons p ports ih =>
    cases hchain with
    | cons head tail =>
      have hrest := ih (h.physical head.1) tail
      rwa [List.length_cons, Nat.add_comm ports.length, ← Nat.add_assoc]

/-- The other pieces of a new switch. -/
def Piece.Balanced : Piece → Prop
  | .nf .. | .tunnel .. | .near .. | .turn _ | .far .. => True
  | _ => False

theorem Surplus.done {i : Piece} (hi : i.Balanced) (hdone : Done env i s s') (h : Surplus s.books d n) :
    Surplus s'.books d n := by
  cases hdone with
  | @nf e info s s₁ s' choice hchosen hverdict hs' =>
    have hbooks : s₁.books = s.books := hchosen.books
    rw [← hbooks] at h
    have hkey : (s₁.chosenSpec e choice).key = (.port, e) := congrArg (·, e) hchosen.family
    have hplaced : Surplus ((s₁.named e choice).inserted env (s₁.chosenSpec e choice)).books d n :=
      h.push (k := (.port, e)) rfl rfl (by rw [← hkey]; rfl)
    rcases hs' with rfl | rfl
    · exact hplaced
    · exact hplaced
  | tunnel => exact h.push rfl rfl rfl
  | near => exact h.push rfl rfl rfl
  | turn => exact h
  | far => exact h.push rfl rfl rfl
  | _ => exact hi.elim

theorem lsiPieces_balanced (s : State) (cli : CreateLsiIn) : ∃ others, (∀ i ∈ others, i.Balanced) ∧
    lsiPieces s cli = .bridge cli :: (cli.physicalPorts.map (.physical s.dnumber) ++ others) := by
  refine ⟨_, ?_, by rw [lsiPieces, portPieces, List.append_assoc, List.append_assoc]⟩
  intro i hi
  simp only [linkPieces, List.mem_append, List.mem_flatMap, List.mem_map, List.mem_cons,
    List.mem_mapIdx] at hi
  rcases hi with ⟨nf, -, info, -, rfl⟩ | ⟨ep, -, rfl⟩ | ⟨remote, -, rfl⟩ | rfl | ⟨j, hj, rfl⟩
  · trivial
  · trivial
  · trivial
  · trivial
  · trivial

/-- A new switch has a name too many for each of its physical ports. -/
theorem surplus_createLsi {cli : CreateLsiIn} (hchain : Chain (Clean env) (lsiPieces s cli) s s')
    (hnames : s.portL s.dnumber = []) (huuids : s.portUuid s.dnumber = []) :
    Surplus s'.books s.dnumber cli.physicalPorts.length := by
  obtain ⟨others, hothers, hpieces⟩ := lsiPieces_balanced s cli
  rw [hpieces] at hchain
  cases hchain with
  | @cons _ _ _ s₁ _ hbridge hrest =>
  obtain ⟨s₂, hphysical, hlast⟩ := hrest.of_append
  have hstart : Surplus s₁.books s.dnumber 0 := by
    cases hbridge.1
    refine ⟨Std.ExtTreeMap.mem_insert_self, ?_⟩
    show (s.portL s.dnumber).length = (s.portUuid s.dnumber).length
    rw [hnames, huuids]
  have hfirst := hstart.physicals _ hphysical
  rw [Nat.zero_add] at hfirst
  exact hlast.keeps (I := fun s' => Surplus s'.books s.dnumber cli.physicalPorts.length)
    (fun i hi _ _ hclean h => h.done (hothers i hi) hclean.1) hfirst

/-! ## Alignment and removals -/

/-- The lists of the ordinary ports of a switch have the same length, and what stands in the same place
are the name and the uuid of one port of the switch. -/
def PortsAligned (s : State) : Prop :=
  ∀ d, s.books.On d → List.Forall₂ (fun name u => ∃ row ∈ s.server.ports,
    s.server.live row ∧ row.uuid = u ∧ row.key = (.port, d) ∧ row.name = name) (s.portL d) (s.portUuid d)

/-- The name that the plug-in returned for a port of a network function. -/
def Purpose.nameOnSwitch : Purpose → Option String
  | .nf name | .ring name => some name
  | _ => none

/-- The port is one of those that a request to a switch names. -/
def PortSpec.Requested (spec : PortSpec) (d : Nat) (nfPorts : StringSet) : Prop :=
  spec.switch = d ∧ ∃ name ∈ spec.purpose.nameOnSwitch, name ∈ nfPorts

instance (spec : PortSpec) (d : Nat) (nfPorts : StringSet) : Decidable (spec.Requested d nfPorts) := by
  unfold PortSpec.Requested
  infer_instance

/-- The requested ports are gone, and no others. -/
def PortsGone (s s' : State) (d : Nat) (nfPorts : StringSet) : Prop :=
  ∀ row ∈ s.server.ports, s'.server.live row ↔ s.server.live row ∧ ¬row.Requested d nfPorts

instance (s s' : State) (d : Nat) (nfPorts : StringSet) : Decidable (PortsGone s s' d nfPorts) := by
  unfold PortsGone
  infer_instance

/-- A request to remove ports takes the requested ones. -/
def TakesRequested (env : Env) (s : State) (op : Operation) : Prop :=
  ∀ s', step env s op = .ok s' →
    match op with
    | .destroyNFPorts d nfPorts => PortsGone s s' d nfPorts
    | _ => True

/-- The names under which a request looks for ports. -/
def State.lookedFor (s : State) (nfPorts : StringSet) : List String :=
  nfPorts.toList.map fun port => (s.peersNames port).getD port

theorem lookedFor_of_isEmpty {nfPorts : StringSet} (h : nfPorts.isEmpty = true) : s.lookedFor nfPorts = [] := by
  rw [State.lookedFor, List.map_eq_nil_iff, List.eq_nil_iff_forall_not_mem]
  intro port hport
  rw [Std.ExtTreeSet.isEmpty_iff.mp h] at hport
  simp at hport

/-- A new switch has no physical ports, and a request looks for the names of the ports that it means. -/
def Recognised (s : State) : Operation → Prop
  | .createLsi cli => cli.physicalPorts = []
  | .destroyNFPorts d nfPorts => ∀ row ∈ s.server.ports, s.server.live row → row.key = (.port, d) →
      (row.name ∈ s.lookedFor nfPorts ↔ row.Requested d nfPorts)
  | _ => True

/-- The books are tidy, ordinary ports included. -/
def Settled (env : Env) (s : State) : Prop := Tidy env (fun _ => True) s.books ∧ Ready s

theorem Settled.portsAligned (h : Settled env s) : PortsAligned s := by
  intro d hon
  refine Paired.forall₂_imp_of_mem (h.1.forall₂_live hon (f := .port) trivial) ?_
  rintro name u - ⟨row, hrow, hlive, huuid, hkey, hlabel⟩
  rw [PortSpec.label_eq_name (by rw [show row.purpose.family = .port from congrArg Prod.fst hkey]; decide)]
    at hlabel
  exact ⟨row, hrow, hlive, huuid, hkey, hlabel⟩

/-- A port that a request names is an ordinary port of the switch. -/
theorem PortSpec.Requested.key {spec : PortSpec} {nfPorts : StringSet} (h : spec.Requested d nfPorts) :
    spec.key = (.port, d) := by
  obtain ⟨rfl, name, hname, -⟩ := h
  unfold PortSpec.key
  cases hpurpose : spec.purpose with
  | nf | ring => rfl
  | _ =>
    rw [hpurpose] at hname
    cases hname

theorem portsGone_iff (h : Settled env s) {nfPorts : StringSet}
    (hchain : Chain (Clean env) (Operation.pieces s (.destroyNFPorts d nfPorts)) s s') :
    PortsGone s s' d nfPorts ↔ Recognised s (.destroyNFPorts d nfPorts) := by
  have hkey : ∀ row : PortRow, row.Requested d nfPorts → row.key = (.port, d) := fun row h => h.key
  -- which ports are left
  have hleft : ∀ row ∈ s.server.ports, s'.server.live row ↔
      s.server.live row ∧ ¬(row.key = (.port, d) ∧ row.name ∈ s.lookedFor nfPorts) := by
    intro row hrow
    simp only [Operation.pieces] at hchain
    split_ifs at hchain with hempty
    · cases hchain
      simp [lookedFor_of_isEmpty hempty]
    · rw [live_iff_books, live_iff_books]
      exact (h.1.dropped hchain).2.2.2.2 trivial row hrow
  unfold PortsGone Recognised
  constructor
  · intro hgone row hrow hlive hrowKey
    have hsame := (hleft row hrow).symm.trans (hgone row hrow)
    rw [and_congr_right_iff] at hsame
    have hiff := not_iff_not.mp (hsame hlive)
    rwa [and_iff_right hrowKey] at hiff
  · intro hrecognised row hrow
    rw [hleft row hrow]
    refine and_congr_right fun hlive => not_congr ⟨fun hfound => ?_, fun hrequested => ?_⟩
    · exact (hrecognised row hrow hlive hfound.1).mp hfound.2
    · exact ⟨hkey row hrequested, (hrecognised row hrow hlive (hkey row hrequested)).mpr hrequested⟩

theorem Settled.takesRequested_iff (h : Settled env s) {op : Operation} (hsucceeds : Succeeds env s op)
    (hop : op.NoPhysical) : TakesRequested env s op ↔ Recognised s op := by
  obtain ⟨out, s', hrun, hfailed⟩ := hsucceeds
  have hunique : ∀ {P : State → Prop}, (∀ s₁, step env s op = .ok s₁ → P s₁) ↔ P s' := by
    intro P
    rw [step_of_perform hrun]
    simp
  unfold TakesRequested
  rw [hunique]
  cases op with
  | createLsi cli => exact iff_of_true trivial hop
  | destroyNFPorts d nfPorts => exact portsGone_iff h (chain_of_succeeds hrun hfailed)
  | _ => exact Iff.rfl

theorem Recognised.noPhysical {op : Operation} (h : Recognised s op) : op.NoPhysical := by
  cases op with
  | createLsi => exact h
  | _ => trivial

/-- Aligned lists after an operation mean that it added no physical ports. -/
theorem Settled.noPhysical (h : Settled env s) {op : Operation} (hsucceeds : Succeeds env s op)
    (hstep : step env s op = .ok s') (haligned : PortsAligned s') : op.NoPhysical := by
  obtain ⟨out, s₁, hrun, hfailed⟩ := hsucceeds
  obtain rfl := Except.ok.inj ((step_of_perform hrun).symm.trans hstep)
  cases op with
  | createLsi cli =>
    have huuids := h.1.uuids_eq_nil (h.2.unnamed _ le_rfl) .port
    have hnames : s.portL s.dnumber = [] := by
      have hlists := h.1.aligned (.port, s.dnumber) trivial
      rw [huuids, List.forall₂_nil_right_iff] at hlists
      exact hlists
    have hsurplus := surplus_createLsi (chain_of_succeeds hrun hfailed) hnames huuids
    have hlength := (haligned s.dnumber (Books.on_iff.mpr hsurplus.on)).length_eq
    have hlonger : (s₁.portL s.dnumber).length = (s₁.portUuid s.dnumber).length + cli.physicalPorts.length :=
      hsurplus.length
    exact List.length_eq_zero_iff.mp (by omega)
  | _ => trivial

theorem Settled.step (h : Settled env s) {op : Operation} (hsucceeds : Succeeds env s op)
    (hop : op.NoPhysical) (hstep : step env s op = .ok s') : Settled env s' := by
  obtain ⟨out, s₁, hrun, hfailed⟩ := hsucceeds
  obtain rfl := Except.ok.inj ((step_of_perform hrun).symm.trans hstep)
  exact h.1.perform h.2 (fun _ => hop) hrun hfailed

theorem Settled.initial : Settled env {} := ⟨Tidy.initial, ⟨by decide, fun _ _ => rfl⟩⟩

/-- A run of successful operations keeps the lists of ordinary ports aligned and removes the requested
ports exactly if its switches have no physical ports and its requests find the ports that they mean. -/
theorem nf_ports_removed (env : Env) (ops : List Operation)
    (h : Run.EveryStep (step env) (Succeeds env) {} ops) :
    (Run.Always (step env) PortsAligned {} ops ∧ Run.EveryStep (step env) (TakesRequested env) {} ops) ↔
      Run.EveryStep (step env) Recognised {} ops := by
  have haligned : Run.Always (step env) PortsAligned {} ops ↔
      Run.EveryStep (step env) (fun _ op => op.NoPhysical) {} ops :=
    Run.always_iff_of_invariant (I := Settled env)
      (fun s op s' h hsucceeds hop hstep => h.step hsucceeds hop hstep)
      (fun s op s' h hsucceeds hstep haligned => h.noPhysical hsucceeds hstep haligned)
      (fun s h => h.portsAligned) Settled.initial h
  have htakes : Run.EveryStep (step env) (fun _ op => op.NoPhysical) {} ops →
      Run.EveryStep (step env) (fun s op => TakesRequested env s op ↔ Recognised s op) {} ops := by
    intro hplain
    refine Run.EveryStep.of_invariant (I := Settled env) (fun s op s' h hboth hstep => ?_)
      (fun s op h hboth => ?_) Settled.initial (h.and hplain)
    · exact h.step hboth.1 hboth.2 hstep
    · exact h.takesRequested_iff hboth.1 hboth.2
  rw [haligned]
  constructor
  · rintro ⟨hplain, htaken⟩
    exact (htaken.and (htakes hplain)).mono fun s op hboth => hboth.2.mp hboth.1
  · intro hrecognised
    have hplain := hrecognised.mono fun s op hop => hop.noPhysical
    exact ⟨hplain, (hrecognised.and (htakes hplain)).mono fun s op hboth => hboth.2.mpr hboth.1⟩

instance (s : State) : (op : Operation) → Decidable (Recognised s op)
  | .createLsi _ | .destroyLsi _ | .addNFPorts .. | .destroyNFPorts .. | .addEndpoint ..
  | .destroyEndpoint .. | .addVirtualLink .. | .destroyVirtualLink .. => by
    unfold Recognised
    infer_instance

/-- A network function with two ports of different kinds, of which one is removed. -/
theorem nf_ports_removed_two_kinds :
    Run.EveryStep (step plainEnv) (TakesRequested plainEnv) {}
      [.createLsi { networkFunctions := {("nf", [⟨"p1", .vhost, 1⟩, ⟨"p2", .veth, 2⟩])} },
        .destroyNFPorts 1 {"1_p2"}] :=
  ((nf_ports_removed plainEnv _ (by decide +kernel)).mpr (by decide +kernel)).2

/-- With a physical port on the switch, the request removes the port behind the one that it names. -/
theorem wrong_port_removed :
    Run.EveryStep (step plainEnv) (Succeeds plainEnv) {}
      [.createLsi { physicalPorts := ["eth0"]
                    networkFunctions := {("nf", [⟨"p1", .vhost, 1⟩, ⟨"p2", .vhost, 2⟩])} },
        .destroyNFPorts 1 {"1_p1"}] ∧
    ∃ s, step plainEnv {} (.createLsi { physicalPorts := ["eth0"]
                                        networkFunctions :=
                                          {("nf", [⟨"p1", .vhost, 1⟩, ⟨"p2", .vhost, 2⟩])} }) = .ok s ∧
      ¬PortsAligned s ∧ ¬TakesRequested plainEnv s (.destroyNFPorts 1 {"1_p1"}) := by
  refine ⟨by decide +kernel, ?_⟩
  obtain ⟨s, hrun, hon, hlength, hwrong⟩ : ∃ s, step plainEnv {} (.createLsi
      { physicalPorts := ["eth0"]
        networkFunctions := {("nf", [⟨"p1", .vhost, 1⟩, ⟨"p2", .vhost, 2⟩])} }) = .ok s ∧
      1 ∈ s.switchUuid ∧ (s.portL 1).length ≠ (s.portUuid 1).length ∧
      ¬∀ s', step plainEnv s (.destroyNFPorts 1 {"1_p1"}) = .ok s' → PortsGone s s' 1 {"1_p1"} := by
    decide +kernel
  exact ⟨s, hrun, fun haligned => hlength (haligned 1 (Books.on_iff.mpr hon)).length_eq, hwrong⟩

end UnOrchestrator.Ovsdb
