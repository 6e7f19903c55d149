import UnOrchestrator.Ovsdb.OrdinaryPorts

/-!
# DPDK rings

A ring is taken when a port is added on it, and it should be free again when the port is gone. The plug-in
keeps the rings that are taken in a map, by their names, and a second map leads from a name that it makes
up for a port to the ring of the port. A request to remove ports does not touch the maps. A switch that
goes away frees the rings that the second map has for the names of its ports, but the names of ports on
rings are the names of the rings, which are no keys of that map.

So rings are accounted for over a run exactly if no operation removes a port on a ring without freeing
the ring, and none frees a ring that is in use (`RingsFreed`).
-/

namespace UnOrchestrator.Ovsdb

open List (mem_append mem_cons mem_map mem_singleton)

open Function (update update_of_ne)

open Call

variable {env : Env} {F : Family → Prop} {s s' s'' : State}

/-- A port that is there is on the ring. -/
def State.InUse (s : State) (ring : String) : Prop :=
  ∃ row ∈ s.server.ports, s.server.live row ∧ row.purpose = .ring ring

/-- The keys of the map are the rings in use, and only if they all are is there none to be found. -/
structure Accounted (s : State) : Prop where
  keys : ∀ ring, (s.dpdkrToUuid ring).isSome ↔ s.InUse ring
  exhausted : s.findFreeDpdkr = none → ∀ i, i < 9998 → s.InUse s!"dpdkr{i + 1}"

/-- The keys are the rings in use, and ports on rings have the names of the rings. -/
structure RingsKept (s : State) : Prop where
  keys : ∀ ring, (s.dpdkrToUuid ring).isSome ↔ s.InUse ring
  named : ∀ row ∈ s.server.ports, ∀ ring, row.purpose = .ring ring → row.name = ring

theorem RingsKept.accounted (h : RingsKept s) : Accounted s := by
  refine ⟨h.keys, fun hnone i hi => ?_⟩
  rw [State.findFreeDpdkr, List.find?_eq_none] at hnone
  have htaken := hnone s!"dpdkr{i + 1}" (mem_map.mpr ⟨i, List.mem_range.mpr hi, rfl⟩)
  rw [← h.keys, Option.isSome_iff_ne_none]
  simpa using htaken

/-! ## Pieces that do not concern rings -/

/-- No ring is taken or freed, and no port on a ring is added or removed. -/
structure RingFrame (s s' : State) : Prop where
  keys : s'.dpdkrToUuid = s.dpdkrToUuid
  old : ∀ row ∈ s.server.ports, row ∈ s'.server.ports
  new : ∀ row ∈ s'.server.ports, ∀ ring, row.purpose = .ring ring → row ∈ s.server.ports
  live : ∀ row ∈ s.server.ports, ∀ ring, row.purpose = .ring ring →
    (s'.books.Live row ↔ s.books.Live row)

theorem RingFrame.refl (s : State) : RingFrame s s :=
  ⟨rfl, fun _ h => h, fun _ h _ _ => h, fun _ _ _ _ => Iff.rfl⟩

theorem RingFrame.trans (h : RingFrame s s') (h' : RingFrame s' s'') : RingFrame s s'' where
  keys := h'.keys.trans h.keys
  old row hrow := h'.old row (h.old row hrow)
  new row hrow ring hring := h.new row (h'.new row hrow ring hring) ring hring
  live row hrow ring hring :=
    (h'.live row (h.old row hrow) ring hring).trans (h.live row hrow ring hring)

variable {ring : String} {d : Nat} {o : Option String} {cli : CreateLsiIn}

theorem inUse_iff :
    s.InUse ring ↔ ∃ row ∈ s.server.ports, s.books.Live row ∧ row.purpose = .ring ring := by
  simp only [State.InUse, live_iff_books]

theorem RingFrame.inUse (h : RingFrame s s') (ring : String) : s'.InUse ring ↔ s.InUse ring := by
  rw [inUse_iff, inUse_iff]
  constructor
  · rintro ⟨row, hrow, hlive, hring⟩
    have hold := h.new row hrow ring hring
    exact ⟨row, hold, (h.live row hold ring hring).mp hlive, hring⟩
  · rintro ⟨row, hrow, hlive, hring⟩
    exact ⟨row, h.old row hrow, (h.live row hrow ring hring).mpr hlive, hring⟩

theorem RingsKept.frame (h : RingsKept s) (hframe : RingFrame s s') : RingsKept s' where
  keys ring := by
    rw [hframe.keys, hframe.inUse]
    exact h.keys ring
  named row hrow ring hring := h.named row (hframe.new row hrow ring hring) ring hring

/-- A port that is inserted is there, and the others are as before. -/
theorem Tidy.live_inserted (h : Tidy env F s.books) (spec : PortSpec)
    (hverdict : s.server.verdict env (s.insertion spec) = none) :
    (∀ row ∈ s.server.ports, (s.inserted env spec).books.Live row ↔ s.books.Live row) ∧
      (s.inserted env spec).books.Live (s.books.newRow env (s.bridgeOf spec.switch) spec) := by
  obtain ⟨hon, -⟩ := h.of_insertion hverdict
  rw [books_inserted hon]
  obtain ⟨column, hcolumn, hports⟩ := h.column _ _ hon
  refine ⟨fun row hrow => ?_, ⟨_, Function.update_self .., List.mem_append_right _ List.mem_cons_self⟩⟩
  have hne : row.uuid ≠ env.uuid (s.books.issued + 1) := (h.rows row hrow).1.ne_next
  unfold Books.Live
  by_cases hbridge : row.bridge = s.bridgeOf spec.switch
  · have hself := s.books.columns_place_self env (s.bridgeOf spec.switch) spec
    rw [hbridge, hcolumn, show (s.books.insert env _ spec).columns _ = _ from hself]
    simp only [Option.some.injEq, exists_eq_left', mem_append, mem_singleton, hne, or_false]
    exact (hports _).symm
  · have hother := s.books.columns_place_of_ne env spec hbridge
    rw [show (s.books.insert env _ spec).columns _ = _ from hother]

/-- A port that is not on a ring is inserted. -/
theorem Tidy.ringFrame_inserted (h : Tidy env F s.books) {spec : PortSpec}
    (hverdict : s.server.verdict env (s.insertion spec) = none) (hspec : ∀ ring, spec.purpose ≠ .ring ring)
    (hkeys : s'.dpdkrToUuid = s.dpdkrToUuid) (hserver : s'.server = (s.inserted env spec).server) :
    RingFrame s s' := by
  have hcolumns : s'.server.columns = (s.inserted env spec).server.columns := congrArg Server.columns hserver
  have hports : s'.server.ports = s.server.ports ++ [s.books.newRow env (s.bridgeOf spec.switch) spec] :=
    congrArg Server.ports hserver
  refine ⟨hkeys, fun row hrow => ?_, fun row hrow ring hring => ?_, fun row hrow ring _ => ?_⟩
  · rw [hports]
    exact List.mem_append_left _ hrow
  · rw [hports, mem_append, mem_singleton] at hrow
    rcases hrow with hold | rfl
    · exact hold
    · exact absurd hring (hspec ring)
  · rw [← (h.live_inserted spec hverdict).1 row hrow]
    show (∃ column, s'.server.columns row.bridge = some column ∧ _) ↔ _
    rw [hcolumns]
    exact Iff.rfl

/-- The lists of ordinary ports and the bridges are as before. -/
theorem Tidy.ringFrame_lists (h : Tidy env F s.books) (h' : Tidy env F s'.books)
    (hkeys : s'.dpdkrToUuid = s.dpdkrToUuid) (hports : s'.server.ports = s.server.ports)
    (huuids : ∀ d, s'.uuids (.port, d) = s.uuids (.port, d)) (hswitch : s'.switchUuid = s.switchUuid) :
    RingFrame s s' := by
  refine ⟨hkeys, fun row hrow => by rwa [hports], fun row hrow _ _ => by rwa [hports] at hrow, ?_⟩
  intro row hrow ring hring
  have hrow' : row ∈ s'.books.ports := by
    show row ∈ s'.server.ports
    rwa [hports]
  have hkey : row.key = (.port, row.switch) := by
    rw [PortSpec.key, hring]
    rfl
  rw [h'.live_iff hrow', h.live_iff hrow, hkey]
  unfold Books.On
  show (∃ u, s'.switchUuid[row.switch]? = some u) ∧ row.uuid ∈ s'.uuids (.port, row.switch) ↔ _
  rw [hswitch, huuids]
  exact Iff.rfl

theorem ports_writePorts : (s.writePorts env d).server.ports = s.server.ports :=
  ports_written rfl

theorem lists_take {key key' : Family × Nat} {names : List String} {o : Option String}
    (hkey : key' ≠ key) : (s.take key names o).names key' = s.names key' ∧
      (s.take key names o).uuids key' = s.uuids key' := by
  cases o with
  | none => exact ⟨rfl, rfl⟩
  | some u => exact ⟨update_of_ne hkey _ _, update_of_ne hkey _ _⟩

theorem ringFrame_taken {f : Family} {names : List String} (h : Tidy env F s.books) (hf : .port ≠ f)
    (hclean : (((s.touch d).take (f, d) names o).writePorts env d).server.failed = s.server.failed)
    (hnames : s.books.On d → ∀ u, o = some u → F f →
      List.Forall₂ (Describes s.server.ports (f, d)) names ((s.uuids (f, d)).filter (· ≠ u))) :
    RingFrame s (((s.touch d).take (f, d) names o).writePorts env d) := by
  obtain ⟨-, hbooks, htidy⟩ := h.taken hclean hnames
  refine h.ringFrame_lists htidy ?_ ?_ (fun e => ?_) ?_
  · cases o <;> rfl
  · rw [ports_writePorts]
    cases o <;> rfl
  · refine (congrArg (fun b => b.uuids (.port, e)) hbooks).trans (lists_take ?_).2
    exact fun heq => hf (congrArg Prod.fst heq)
  · refine (congrArg Books.switchUuid hbooks).trans ?_
    cases o <;> rfl

/-- A new bridge has no ports. -/
theorem ringFrame_newSwitch (h : Tidy env F s.books) :
    RingFrame s (s.newSwitch env cli) := by
  refine ⟨rfl, fun _ hrow => hrow, fun _ hrow _ _ => hrow, fun row hrow ring _ => ?_⟩
  have hne : row.bridge ≠ env.uuid (s.server.issued + 1) := (h.rows row hrow).2.1.ne_next
  unfold Books.Live
  show (∃ column, update s.server.columns (env.uuid (s.server.issued + 1)) (some []) row.bridge =
    some column ∧ _) ↔ _
  rw [update_of_ne hne]
  exact Iff.rfl

/-! ## Rings that are taken -/

/-- The next free ring gets a port. -/
theorem RingsKept.take (h : RingsKept s) (htidy : Tidy env F s.books) {p : String}
    (hfree : s.findFreeDpdkr = some ring)
    (hverdict : (s.takeRing p ring).server.verdict env (((s.takeRing p ring).named d (ringChoice ring)).insertion
      ((s.takeRing p ring).chosenSpec d (ringChoice ring))) = none)
    (hkeys : s'.dpdkrToUuid = (s.takeRing p ring).dpdkrToUuid)
    (hports : s'.server.ports = s.server.ports ++ [s.books.newRow env (s.bridgeOf d)
      (s.chosenSpec d (ringChoice ring))])
    (hcolumns : s'.server.columns = (s.inserted env (s.chosenSpec d (ringChoice ring))).server.columns) :
    RingsKept s' := by
  have hnone : s.dpdkrToUuid ring = none := by
    have hfound := List.find?_some hfree
    simpa using hfound
  obtain ⟨hold, hnew⟩ := htidy.live_inserted (s.chosenSpec d (ringChoice ring)) hverdict
  have hlive : ∀ row : PortRow, s'.books.Live row ↔
      (s.inserted env (s.chosenSpec d (ringChoice ring))).books.Live row := by
    intro row
    show (∃ column, s'.server.columns row.bridge = some column ∧ _) ↔ _
    rw [hcolumns]
    exact Iff.rfl
  refine ⟨fun ring' => ?_, fun row hrow ring' hring => ?_⟩
  · have hkey : (s'.dpdkrToUuid ring').isSome ↔ ring' = ring ∨ (s.dpdkrToUuid ring').isSome := by
      rw [hkeys]
      show (insertNew s.dpdkrToUuid ring _ ring').isSome ↔ _
      rw [insertNew, hnone, if_neg (by simp)]
      by_cases heq : ring' = ring
      · simp [heq]
      · simp [heq]
    rw [hkey, h.keys, inUse_iff, inUse_iff, hports]
    constructor
    · rintro (rfl | ⟨row, hrow, hrowLive, hring⟩)
      · exact ⟨_, List.mem_append_right _ List.mem_cons_self, (hlive _).mpr hnew, rfl⟩
      · exact ⟨row, List.mem_append_left _ hrow, (hlive row).mpr ((hold row hrow).mpr hrowLive), hring⟩
    · rintro ⟨row, hrow, hrowLive, hring⟩
      rw [mem_append, mem_singleton] at hrow
      rcases hrow with hrow | rfl
      · exact .inr ⟨row, hrow, (hold row hrow).mp ((hlive row).mp hrowLive), hring⟩
      · exact .inl (Purpose.ring.inj hring).symm
  · rw [hports, mem_append, mem_singleton] at hrow
    rcases hrow with hrow | rfl
    · exact h.named row hrow ring' hring
    · exact Purpose.ring.inj hring

/-! ## Pieces -/

/-- The database is as before. -/
theorem RingFrame.of_server (hkeys : s'.dpdkrToUuid = s.dpdkrToUuid) (hserver : s'.server = s.server) :
    RingFrame s s' := by
  refine ⟨hkeys, fun row hrow => by rwa [hserver], fun row hrow _ _ => by rwa [hserver] at hrow, ?_⟩
  intro row _ _ _
  show (∃ column, s'.server.columns row.bridge = some column ∧ _) ↔ _
  rw [hserver]
  exact Iff.rfl

theorem RingsKept.nf (h : RingsKept s) (htidy : Tidy env F s.books) {info : NfPortInfo}
    (hdone : Done env (.nf d info) s s') : RingsKept s' := by
  cases hdone with
  | @nf _ _ _ s₁ _ choice hchosen hverdict hs' =>
  have hbooks : s₁.books = s.books := hchosen.books
  have htidy₁ : Tidy env F s₁.books := by rwa [hbooks]
  -- whether a script was run behind the insertion makes no difference
  have hafter : s'.dpdkrToUuid = s₁.dpdkrToUuid ∧
      s'.server.ports = ((s₁.named d choice).inserted env (s₁.chosenSpec d choice)).server.ports ∧
      s'.server.columns = ((s₁.named d choice).inserted env (s₁.chosenSpec d choice)).server.columns := by
    rcases hs' with rfl | rfl
    · exact ⟨rfl, rfl, rfl⟩
    · exact ⟨rfl, rfl, rfl⟩
  obtain ⟨hkeys, hports, hcolumns⟩ := hafter
  have hother (hframe : RingFrame s s₁) (hspec : ∀ ring, choice.purpose ≠ .ring ring) : RingsKept s' := by
    have hinserted : RingFrame s₁ ((s₁.named d choice).inserted env (s₁.chosenSpec d choice)) :=
      htidy₁.ringFrame_inserted hverdict hspec rfl rfl
    refine (h.frame hframe).frame (hinserted.trans ⟨hkeys, ?_, ?_, ?_⟩)
    · intro row hrow
      rwa [hports]
    · intro row hrow _ _
      rwa [hports] at hrow
    · intro row _ _ _
      show (∃ column, s'.server.columns row.bridge = some column ∧ _) ↔ _
      rw [hcolumns]
      exact Iff.rfl
  obtain ⟨name, type, id⟩ := info
  cases hchosen with
  | ring htype hdpdk hfree => exact h.take htidy hfree hverdict hkeys hports hcolumns
  | usvhost => exact hother ⟨rfl, fun _ h => h, fun _ h _ _ => h, fun _ _ _ _ => Iff.rfl⟩ nofun
  | veth => exact hother ⟨rfl, fun _ h => h, fun _ h _ _ => h, fun _ _ _ _ => Iff.rfl⟩ nofun
  | vhost => exact hother (RingFrame.refl s) nofun

/-- The pieces that leave rings alone. -/
def Piece.OffRings : Piece → Prop
  | .nf .. | .bridge _ | .forget _ | .touch _ | .drop .. | .write _ => False
  | _ => True

theorem Done.ringFrame {i : Piece} (hdone : Done env i s s') (hi : i.OffRings)
    (hclean : s'.server.failed = s.server.failed) (h : Tidy env F s.books) : RingFrame s s' := by
  induction hdone with
  | physical hverdict => exact h.ringFrame_inserted hverdict nofun rfl rfl
  | tunnel hverdict => exact h.ringFrame_inserted hverdict nofun rfl rfl
  | near hverdict => exact h.ringFrame_inserted hverdict nofun rfl rfl
  | turn => exact .of_server rfl rfl
  | far hverdict => exact h.ringFrame_inserted hverdict nofun rfl rfl
  | @link dA dB s hfirst hsecond =>
    have hplaced : Tidy env F ((s.firstEnd env dA).pushName (.vport, dA) (vportName s.pnumber)).books :=
      Tidy.inserted (s := s.takeNames) h hfirst (fun _ => vportName_ne_empty _) rfl
    have hone : RingFrame s ((s.firstEnd env dA).pushName (.vport, dA) (vportName s.pnumber)) :=
      h.ringFrame_inserted hfirst nofun rfl rfl
    exact hone.trans (hplaced.ringFrame_inserted hsecond nofun rfl rfl)
  | unlink hfind => exact ringFrame_taken h (by decide) hclean (h.names_dropLink hfind)
  | unlinkBoth hnear hfar ihnear ihfar =>
    obtain ⟨hclean₁, hclean₂⟩ := hnear.failed_eq hfar hclean
    exact (ihnear trivial hclean₁ h).trans (ihfar trivial hclean₂ (hnear.tidy trivial hclean₁ h))
  | @unwire dA idA dB idB s =>
    obtain ⟨_, _, _, hunwired⟩ := s.unwired_eq dA idA dB idB
    rw [hunwired]
    exact .of_server rfl rfl
  | dropTunnel hfind => exact ringFrame_taken h (by decide) hclean (h.names_dropEndpoint hfind)
  | nf | bridge | forget | touch | drop | write => exact hi.elim

/-- Pieces that add ports, or remove ends of links and tunnels. -/
theorem RingsKept.chain {is : List Piece} (h : RingsKept s) (htidy : Tidy env (fun _ => False) s.books)
    (hchain : Chain (Clean env) is s s')
    (his : ∀ i ∈ is, i.Alone (fun _ => False) ∧ ((∃ d info, i = .nf d info) ∨ i.OffRings)) :
    RingsKept s' ∧ Tidy env (fun _ => False) s'.books := by
  refine hchain.keeps (I := fun s => RingsKept s ∧ Tidy env (fun _ => False) s.books) ?_ ⟨h, htidy⟩
  rintro i hi s₁ s₂ ⟨hdone, hclean⟩ ⟨hkept, htidy⟩
  obtain ⟨halone, hkind⟩ := his i hi
  refine ⟨?_, hdone.tidy halone hclean htidy⟩
  rcases hkind with ⟨d, info, rfl⟩ | hoff
  · exact hkept.nf htidy hdone
  · exact hkept.frame (hdone.ringFrame hoff hclean htidy)

/-! ## A switch goes away -/

/-- The rings that are freed with the given names. -/
theorem dpdkrToUuid_foldl_eraseRing (names : List String) (s : State) (ring : String) :
    ((names.foldl eraseRing s).dpdkrToUuid ring).isSome ↔
      (s.dpdkrToUuid ring).isSome ∧ ¬∃ name ∈ names, s.dpdkrFromUuid name = some ring := by
  induction names generalizing s with
  | nil => simp
  | cons name names ih =>
    rw [List.foldl_cons, ih]
    unfold eraseRing
    cases hring : s.dpdkrFromUuid name with
    | none => simp [hring]
    | some ring' =>
      by_cases heq : ring = ring'
      · subst heq
        simp [hring]
      · -- the entry that was erased is not one of this ring
        have hother : ∀ n, update s.dpdkrFromUuid name none n = some ring ↔
            s.dpdkrFromUuid n = some ring := by
          intro n
          by_cases hn : n = name
          · subst hn
            simp [hring, Ne.symm heq]
          · rw [update_of_ne hn]
        simp only [hother, update_of_ne heq, mem_cons, exists_eq_or_imp, hring,
          Option.some.injEq, Ne.symm heq, false_or]

/-- What is freed when a switch goes away. -/
def State.Frees (s : State) (d : Nat) (ring : String) : Prop :=
  ∃ name ∈ s.portL d, s.dpdkrFromUuid name = some ring

instance (s : State) (d : Nat) (ring : String) : Decidable (s.Frees d ring) := by
  unfold State.Frees
  infer_instance

theorem frees_unlinked {idp e : Nat} :
    (s.unlinked env d idp o).Frees e ring ↔ s.Frees e ring := by
  have hnames : (s.unlinked env d idp o).portL e = s.portL e :=
    (lists_take (s := s.touch d) (by simp)).1
  have hsource : (s.unlinked env d idp o).dpdkrFromUuid = s.dpdkrFromUuid := by cases o <;> rfl
  unfold State.Frees
  rw [hnames, hsource]

/-- The removal of the links of a switch. -/
theorem unlinks_frame {ids : List Nat} (h : Tidy env F s.books)
    (hchain : Chain (Clean env) (ids.map .unlinkBoth) s s') :
    RingFrame s s' ∧ Tidy env F s'.books ∧ ∀ d ring, s'.Frees d ring ↔ s.Frees d ring := by
  refine hchain.keeps (I := fun s' => RingFrame s s' ∧ Tidy env F s'.books ∧
    ∀ d ring, s'.Frees d ring ↔ s.Frees d ring) ?_ ⟨RingFrame.refl s, h, fun _ _ => Iff.rfl⟩
  rintro i hi s₁ s₂ ⟨hdone, hclean⟩ ⟨hframe, htidy, hfrees⟩
  obtain ⟨id, -, rfl⟩ := mem_map.mp hi
  refine ⟨hframe.trans (hdone.ringFrame trivial hclean htidy), hdone.tidy trivial hclean htidy, ?_⟩
  intro d ring
  rw [← hfrees]
  cases hdone with
  | unlinkBoth hnear hfar =>
  cases hnear with
  | unlink =>
  cases hfar with
  | unlink => exact frees_unlinked.trans frees_unlinked

/-- The rings that are taken, and the ports on rings, behind an operation that removes ports. -/
structure RingsLeft (s s' : State) (freed : String → Prop) (gone : PortRow → Prop) : Prop where
  keys : ∀ ring, (s'.dpdkrToUuid ring).isSome ↔ (s.dpdkrToUuid ring).isSome ∧ ¬freed ring
  old : ∀ row ∈ s.server.ports, row ∈ s'.server.ports
  new : ∀ row ∈ s'.server.ports, ∀ ring, row.purpose = .ring ring → row ∈ s.server.ports
  live : ∀ row ∈ s.server.ports, ∀ ring, row.purpose = .ring ring →
    (s'.server.live row ↔ s.server.live row ∧ ¬gone row)

theorem ringsLeft_destroyLsi (h : Tidy env F s.books)
    (hchain : Chain (Clean env) (Operation.pieces s (.destroyLsi d)) s s') :
    RingsLeft s s' (s.Frees d) (fun row => row.switch = d) := by
  rw [Operation.pieces] at hchain
  obtain ⟨s₁, hlinks, hlast⟩ := hchain.of_append
  cases hlast with
  | cons hforget hnil =>
  cases hnil
  obtain ⟨hframe, htidy, hfrees⟩ := unlinks_frame h hlinks
  obtain ⟨hdone, hclean⟩ := hforget
  cases hdone with
  | forget =>
  obtain ⟨hbooks, -⟩ := htidy.withoutSwitch hclean
  have hports : (s₁.withoutSwitch env d).server.ports = s₁.server.ports := congrArg Books.ports hbooks
  refine ⟨fun ring => ?_, fun row hrow => ?_, fun row hrow ring hring => ?_, fun row hrow ring hring => ?_⟩
  · have hkeys := dpdkrToUuid_foldl_eraseRing (s₁.portL d) s₁ ring
    rw [hframe.keys] at hkeys
    rw [← hfrees]
    exact hkeys
  · rw [hports]
    exact hframe.old row hrow
  · rw [hports] at hrow
    exact hframe.new row hrow ring hring
  · rw [live_iff_books, live_iff_books, hbooks, htidy.live_forget (hframe.old row hrow),
      hframe.live row hrow ring hring]

/-- The port goes with a request to remove ports: its uuid stands where the walks over the lists of the
ordinary ports end, for the names that the request looks for. -/
def State.Takes (s : State) (d : Nat) (nfPorts : StringSet) (row : PortRow) : Prop :=
  row.switch = d ∧ row.uuid ∈ Paired.taken (s.lookedFor nfPorts) (s.portL d) (s.portUuid d)

instance (s : State) (d : Nat) (nfPorts : StringSet) (row : PortRow) : Decidable (s.Takes d nfPorts row) := by
  unfold State.Takes
  infer_instance

theorem ringsLeft_destroyNFPorts (h : Tidy env F s.books) {nfPorts : StringSet}
    (hchain : Chain (Clean env) (Operation.pieces s (.destroyNFPorts d nfPorts)) s s') :
    RingsLeft s s' (fun _ => False) (s.Takes d nfPorts) := by
  have hkeys : s'.dpdkrToUuid = s.dpdkrToUuid := by
    refine hchain.keeps (I := fun s' => s'.dpdkrToUuid = s.dpdkrToUuid) ?_ rfl
    rintro i hi s₁ s₂ ⟨hdone, -⟩ hsame
    simp only [Operation.pieces] at hi
    split_ifs at hi
    · cases hi
    · simp only [List.cons_append, mem_cons, mem_append, mem_map, List.not_mem_nil,
        or_false] at hi
      rcases hi with rfl | ⟨name, -, rfl⟩ | rfl
      · cases hdone
        exact hsame
      · cases hdone with
        | @drop _ _ o => cases o <;> exact hsame
      · cases hdone
        exact hsame
  have hstay : s'.server.ports = s.server.ports ∧ ∀ row ∈ s.server.ports, ∀ ring, row.purpose = .ring ring →
      (s'.server.live row ↔ s.server.live row ∧ ¬s.Takes d nfPorts row) := by
    simp only [Operation.pieces] at hchain
    split_ifs at hchain with hempty
    · cases hchain
      exact ⟨rfl, fun row _ _ _ => by simp [State.Takes, lookedFor_of_isEmpty hempty, Paired.taken]⟩
    · obtain ⟨-, -, hports, hlive, -⟩ := h.dropped hchain
      refine ⟨hports, fun row hrow ring hring => ?_⟩
      have hkey : row.key = (.port, d) ↔ row.switch = d := by
        rw [PortSpec.key, hring]
        simp [Purpose.family]
      rw [live_iff_books, live_iff_books, hlive row hrow, hkey]
      exact Iff.rfl
  exact ⟨fun ring => by simp [hkeys], fun row hrow => by rwa [hstay.1],
    fun row hrow _ _ => by rwa [hstay.1] at hrow, hstay.2⟩

/-- Two ports on one ring are one. -/
theorem RingsKept.unique (h : RingsKept s) (htidy : Tidy env F s.books) {row row' : PortRow}
    (hrow : row ∈ s.server.ports) (hrow' : row' ∈ s.server.ports) (hlive : s.server.live row)
    (hlive' : s.server.live row') (hring : row.purpose = .ring ring)
    (hring' : row'.purpose = .ring ring) : row = row' := by
  refine htidy.unique row hrow row' hrow' (live_iff_books.mp hlive) (live_iff_books.mp hlive') ?_
  rw [h.named row hrow ring hring, h.named row' hrow' ring hring']

/-- Rings are accounted for behind an operation that removes ports exactly if those freed are the ones
whose ports are gone. -/
theorem RingsLeft.kept_iff {freed : String → Prop} {gone : PortRow → Prop} (hleft : RingsLeft s s' freed gone)
    (h : RingsKept s) (htidy : Tidy env F s.books) :
    ((∀ row ∈ s.server.ports, s.server.live row → ∀ ring, row.purpose = .ring ring → (freed ring ↔ gone row)) →
      RingsKept s') ∧
    (Accounted s' → ∀ row ∈ s.server.ports, s.server.live row → ∀ ring, row.purpose = .ring ring →
      (freed ring ↔ gone row)) := by
  have hinUse : ∀ ring, s'.InUse ring ↔ ∃ row ∈ s.server.ports, s.server.live row ∧ ¬gone row ∧
      row.purpose = .ring ring := by
    intro ring
    constructor
    · rintro ⟨row, hrow, hlive, hring⟩
      have hold := hleft.new row hrow ring hring
      obtain ⟨hlive, hgone⟩ := (hleft.live row hold ring hring).mp hlive
      exact ⟨row, hold, hlive, hgone, hring⟩
    · rintro ⟨row, hrow, hlive, hgone, hring⟩
      exact ⟨row, hleft.old row hrow, (hleft.live row hrow ring hring).mpr ⟨hlive, hgone⟩, hring⟩
  constructor
  · intro hfreed
    refine ⟨fun ring => ?_, fun row hrow ring hring => h.named row (hleft.new row hrow ring hring) ring hring⟩
    rw [hleft.keys, h.keys, hinUse]
    constructor
    · rintro ⟨⟨row, hrow, hlive, hring⟩, hnot⟩
      exact ⟨row, hrow, hlive, fun hgone => hnot ((hfreed row hrow hlive ring hring).mpr hgone), hring⟩
    · rintro ⟨row, hrow, hlive, hgone, hring⟩
      exact ⟨⟨row, hrow, hlive, hring⟩, fun hfree => hgone ((hfreed row hrow hlive ring hring).mp hfree)⟩
  · intro haccounted row hrow hlive ring hring
    have hkey : (s.dpdkrToUuid ring).isSome := (h.keys ring).mpr ⟨row, hrow, hlive, hring⟩
    have hkeys := haccounted.keys ring
    rw [hleft.keys, and_iff_right hkey, hinUse] at hkeys
    constructor
    · intro hfree
      by_contra hgone
      exact hkeys.mpr ⟨row, hrow, hlive, hgone, hring⟩ hfree
    · intro hgone
      by_contra hfree
      obtain ⟨row', hrow', hlive', hgone', hring'⟩ := hkeys.mp hfree
      rw [h.unique htidy hrow' hrow hlive' hlive hring' hring] at hgone'
      exact hgone' hgone

/-! ## Runs -/

/-- Of the rings in use, an operation that removes ports frees those of the ports that it removes. -/
def RingsFreed (s : State) : Operation → Prop
  | .destroyNFPorts d nfPorts => ∀ row ∈ s.server.ports, s.server.live row →
      ∀ ring, row.purpose = .ring ring → ¬s.Takes d nfPorts row
  | .destroyLsi d => ∀ row ∈ s.server.ports, s.server.live row → ∀ ring, row.purpose = .ring ring →
      (s.Frees d ring ↔ row.switch = d)
  | _ => True

/-- The books are tidy and rings are accounted for. -/
structure RingState (env : Env) (s : State) : Prop where
  tidy : Tidy env (fun _ => False) s.books
  ready : Ready s
  kept : RingsKept s

theorem RingState.initial : RingState env {} where
  tidy := Tidy.initial
  ready := ⟨by decide, fun _ _ => rfl⟩
  kept := ⟨fun ring => by simp [State.InUse], nofun⟩

theorem portPieces_offRings : ∀ i ∈ portPieces d cli,
    i.Alone (fun _ => False) ∧ ((∃ d info, i = .nf d info) ∨ i.OffRings) := by
  intro i hi
  refine ⟨(portPieces_alone nofun i hi).1, ?_⟩
  simp only [portPieces, mem_append, mem_map, List.mem_flatMap] at hi
  rcases hi with (⟨p, hp, rfl⟩ | ⟨nf, -, info, -, rfl⟩) | ⟨ep, -, rfl⟩
  · exact .inr trivial
  · exact .inl ⟨d, info, rfl⟩
  · exact .inr trivial

theorem linkPieces_offRings {p : Nat} {remotes : List Nat} : ∀ i ∈ linkPieces d p remotes,
    i.Alone (fun _ => False) ∧ ((∃ d info, i = .nf d info) ∨ i.OffRings) := by
  intro i hi
  simp only [linkPieces, mem_append, mem_cons] at hi
  rcases hi with hnear | rfl | hfar
  · obtain ⟨remote, -, rfl⟩ := mem_map.mp hnear
    exact ⟨trivial, .inr trivial⟩
  · exact ⟨trivial, .inr trivial⟩
  · obtain ⟨j, remote, rfl⟩ := List.mem_mapIdx.mp hfar
    exact ⟨vportName_ne_empty _, .inr trivial⟩

theorem RingState.createLsi (h : RingState env s)
    (hchain : Chain (Clean env) (lsiPieces s cli) s s') : RingsKept s' := by
  rw [lsiPieces] at hchain
  cases hchain with
  | @cons _ _ _ s₁ _ hbridge hrest =>
  have hnew : s₁ = s.newSwitch env cli := by
    cases hbridge.1
    rfl
  have htidy : Tidy env (fun _ => False) s₁.books := by
    rw [hnew]
    exact h.tidy.addBridge (h.ready.unnamed _ le_rfl) h.ready.pos.ne'
  have hkept : RingsKept s₁ := by
    rw [hnew]
    exact h.kept.frame (ringFrame_newSwitch h.tidy)
  refine (hkept.chain htidy hrest fun i hi => ?_).1
  rcases mem_append.mp hi with hport | hlink
  · exact portPieces_offRings i hport
  · exact linkPieces_offRings i hlink

/-- A successful operation. -/
theorem RingState.performed (h : RingState env s) {op : Operation} (hsucceeds : Succeeds env s op)
    (hstep : step env s op = .ok s') :
    (RingsFreed s op → RingState env s') ∧ (Accounted s' → RingsFreed s op) := by
  obtain ⟨out, s₁, hrun, hfailed⟩ := hsucceeds
  obtain rfl := Except.ok.inj ((step_of_perform hrun).symm.trans hstep)
  obtain ⟨htidy, hready⟩ := h.tidy.perform h.ready nofun hrun hfailed
  have hchain := chain_of_succeeds hrun hfailed
  have hkept (hkept : RingsKept s₁) : RingState env s₁ := ⟨htidy, hready, hkept⟩
  have hplain (his : ∀ i ∈ op.pieces s, i.Alone (fun _ => False) ∧
      ((∃ d info, i = .nf d info) ∨ i.OffRings)) : RingState env s₁ :=
    hkept (h.kept.chain h.tidy hchain his).1
  cases op with
  | createLsi cli => exact ⟨fun _ => hkept (h.createLsi hchain), fun _ => trivial⟩
  | destroyLsi d =>
    obtain ⟨henough, hneeded⟩ := (ringsLeft_destroyLsi h.tidy hchain).kept_iff h.kept h.tidy
    exact ⟨fun hfreed => hkept (henough hfreed), hneeded⟩
  | destroyNFPorts d nfPorts =>
    obtain ⟨henough, hneeded⟩ := (ringsLeft_destroyNFPorts h.tidy hchain).kept_iff h.kept h.tidy
    refine ⟨fun hfreed => hkept (henough ?_), fun haccounted row hrow hlive ring hring => ?_⟩
    · intro row hrow hlive ring hring
      exact iff_of_false not_false (hfreed row hrow hlive ring hring)
    · exact (hneeded haccounted row hrow hlive ring hring).mpr
  | addNFPorts d nfId ports =>
    refine ⟨fun _ => hplain fun i hi => ?_, fun _ => trivial⟩
    obtain ⟨info, -, rfl⟩ := mem_map.mp hi
    exact ⟨trivial, .inl ⟨d, info, rfl⟩⟩
  | addEndpoint d id params =>
    refine ⟨fun _ => hplain fun i hi => ?_, fun _ => trivial⟩
    obtain rfl := mem_singleton.mp hi
    exact ⟨trivial, .inr trivial⟩
  | destroyEndpoint d id =>
    refine ⟨fun _ => hplain fun i hi => ?_, fun _ => trivial⟩
    simp only [Operation.pieces] at hi
    split_ifs at hi
    · cases hi
    · obtain rfl := mem_singleton.mp hi
      exact ⟨trivial, .inr trivial⟩
  | addVirtualLink dA dB =>
    refine ⟨fun _ => hplain fun i hi => ?_, fun _ => trivial⟩
    obtain rfl := mem_singleton.mp hi
    exact ⟨trivial, .inr trivial⟩
  | destroyVirtualLink dA idA dB idB =>
    refine ⟨fun _ => hplain fun i hi => ?_, fun _ => trivial⟩
    simp only [Operation.pieces, mem_cons, List.not_mem_nil, or_false] at hi
    rcases hi with rfl | rfl | rfl
    · exact ⟨trivial, .inr trivial⟩
    · exact ⟨trivial, .inr trivial⟩
    · exact ⟨trivial, .inr trivial⟩

/-- In a run of successful operations rings are accounted for in every state, and run out only if all are
in use, exactly if every operation that removes ports frees their rings. -/
theorem rings_accounted (env : Env) (ops : List Operation)
    (h : Run.EveryStep (step env) (Succeeds env) {} ops) :
    Run.Always (step env) Accounted {} ops ↔ Run.EveryStep (step env) RingsFreed {} ops :=
  Run.always_iff_of_invariant (I := RingState env)
    (fun _ _ _ h hsucceeds hfreed hstep => (h.performed hsucceeds hstep).1 hfreed)
    (fun _ _ _ h hsucceeds hstep haccounted => (h.performed hsucceeds hstep).2 haccounted)
    (fun _ h => h.kept.accounted) RingState.initial h

instance Purpose.decidableForallRing {P : String → Prop} [DecidablePred P] :
    (purpose : Purpose) → Decidable (∀ ring, purpose = .ring ring → P ring)
  | .ring r => decidable_of_iff (P r) (by simp)
  | .physical | .nf _ | .vlink | .gre _ => .isTrue nofun

instance (s : State) (op : Operation) : Decidable (RingsFreed s op) := by
  unfold RingsFreed
  split <;> infer_instance

instance (s : State) (ring : String) : Decidable (s.InUse ring) := by
  unfold State.InUse
  infer_instance

/-- A switch with a port on a ring, and one without that goes away. -/
theorem rings_accounted_two_switches :
    Run.Always (step { plainEnv with dpdk := true }) Accounted {}
      [.createLsi { networkFunctions := {("nf", [⟨"p1", .dpdkr, 1⟩])} }, .createLsi {}, .destroyLsi 2] :=
  (rings_accounted _ _ (by decide +kernel)).mpr (by decide +kernel)

/-- The switch with the port on the ring goes away, and the ring stays taken. -/
theorem ring_leaked :
    Run.EveryStep (step { plainEnv with dpdk := true }) (Succeeds { plainEnv with dpdk := true }) {}
      [.createLsi { networkFunctions := {("nf", [⟨"p1", .dpdkr, 1⟩])} }, .destroyLsi 1] ∧
    ∃ s, Run.exec (step { plainEnv with dpdk := true }) {}
        [.createLsi { networkFunctions := {("nf", [⟨"p1", .dpdkr, 1⟩])} }, .destroyLsi 1] = .ok s ∧
      ¬Accounted s := by
  refine ⟨by decide +kernel, ?_⟩
  obtain ⟨s, hrun, hkey, hfree⟩ : ∃ s, Run.exec (step { plainEnv with dpdk := true }) {}
      [.createLsi { networkFunctions := {("nf", [⟨"p1", .dpdkr, 1⟩])} }, .destroyLsi 1] = .ok s ∧
      (s.dpdkrToUuid "dpdkr1").isSome ∧ ¬s.InUse "dpdkr1" := by
    decide +kernel
  exact ⟨s, hrun, fun haccounted => hfree ((haccounted.keys _).mp hkey)⟩

end UnOrchestrator.Ovsdb
