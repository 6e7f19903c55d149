import UnOrchestrator.Ovsdb.Books

/-!
# Operations on tidy books

In a run of operations that succeed, the books stay tidy. For the ends of virtual links and for tunnels
this includes the names; for ordinary ports it does not, since the name of a physical port of a new
switch is stored twice.
-/

namespace UnOrchestrator.Ovsdb

open Call

variable {env : Env} {F : Family → Prop} {s s' : State}

/-! ## Transactions that succeed -/

variable {d : Nat} {txn : Transaction} {spec : PortSpec} {b : Books} {f : Family} {name : String}
  {names uuids gone : List String} {o : Option String} {i : Piece}

theorem State.touch_of_mem {u : String} (h : s.switchUuid[d]? = some u) : s.touch d = s := by
  have hsame : s.switchUuid.insertIfNew d "" = s.switchUuid := by
    apply Std.ExtTreeMap.ext_getElem?
    intro d'
    rw [Std.ExtTreeMap.getElem?_insertIfNew]
    split_ifs with hcond
    · have heq : d = d' := Std.LawfulEqCmp.eq_of_compare hcond.1
      subst heq
      exact absurd (Std.ExtTreeMap.mem_iff_isSome_getElem?.mpr (by simp [h])) hcond.2
    · rfl
  rw [State.touch, hsame]

theorem State.bridgeOf_eq {u : String} (h : s.switchUuid[d]? = some u) : s.bridgeOf d = u := by
  rw [State.bridgeOf, Std.ExtTreeMap.getD_eq_getD_getElem?, h]
  rfl

/-- A switch whose bridge has a column is on. -/
theorem Tidy.on_of_column (h : Tidy env F s.books)
    (hcolumn : s.server.columns (s.bridgeOf d) ≠ none) :
    s.switchUuid[d]? = some (s.bridgeOf d) := by
  cases hu : s.switchUuid[d]? with
  | none =>
    have hempty : s.bridgeOf d = "" := by
      rw [State.bridgeOf, Std.ExtTreeMap.getD_eq_getD_getElem?, hu]
      rfl
    rw [hempty] at hcolumn
    exact absurd h.columns_empty hcolumn
  | some u => rw [State.bridgeOf_eq hu]

theorem refuses_of_verdict {t : Server} (h : t.verdict env txn = none) :
    t.refuses txn = none := by
  rw [Server.verdict, Option.or_eq_none_iff] at h
  exact h.2

/-- An insertion that succeeds is on a switch that is on, and the name is free. -/
theorem Tidy.of_insertion (h : Tidy env F s.books)
    (hverdict : s.server.verdict env (s.insertion spec) = none) :
    s.switchUuid[spec.switch]? = some (s.bridgeOf spec.switch) ∧
      ∀ row ∈ s.server.ports, s.books.Live row → row.name ≠ spec.name := by
  have hrefuses := refuses_of_verdict hverdict
  simp only [State.insertion, Server.refuses] at hrefuses
  split_ifs at hrefuses with hcolumn hother
  have hon := h.on_of_column (d := spec.switch) (by simpa using hcolumn)
  refine ⟨hon, fun row hrow hlive hname => hother ?_⟩
  rw [Bool.or_eq_true]
  refine .inr (List.any_eq_true.mpr ⟨row, hrow, ?_⟩)
  rw [Bool.and_eq_true, beq_iff_eq]
  refine ⟨?_, hname⟩
  obtain ⟨column, hrowColumn, hmem⟩ := hlive
  rw [Server.live, Server.write]
  by_cases heq : row.bridge = s.bridgeOf spec.switch
  · obtain ⟨column', hcolumn', hports⟩ := h.column _ _ hon
    rw [heq] at hrowColumn
    obtain rfl := Option.mem_unique hrowColumn hcolumn'
    simp only [heq, Function.update_self]
    exact List.contains_iff_mem.mpr ((hports _).mp hmem)
  · simp only [Function.update_of_ne heq]
    rw [show s.server.columns row.bridge = some column from hrowColumn]
    exact List.contains_iff_mem.mpr hmem

/-- The books after an insertion. -/
theorem books_inserted (h : s.switchUuid[spec.switch]? = some (s.bridgeOf spec.switch)) :
    (s.inserted env spec).books = s.books.insert env (s.bridgeOf spec.switch) spec := by
  rw [State.inserted, State.touch_of_mem h]
  rfl

theorem PortSpec.label_eq_name (h : spec.purpose.family ≠ .gport) :
    spec.label = spec.name := by
  unfold PortSpec.label
  split
  next id hid => exact absurd (by rw [hid]; rfl) h
  next => rfl

/-- A port that is inserted and named. -/
theorem Tidy.inserted (h : Tidy env F s.books)
    (hverdict : s.server.verdict env (s.insertion spec) = none)
    (hlink : spec.purpose = .vlink → spec.name ≠ "")
    (hs' : s'.books = (s.inserted env spec).books.pushName spec.key spec.label) :
    Tidy env F s'.books := by
  obtain ⟨hon, hfree⟩ := h.of_insertion hverdict
  rw [hs', books_inserted hon]
  exact h.place hon hfree hlink

/-- A transaction that did not fail. -/
theorem written_of_failed_eq (h : (s.written env txn).server.failed = s.server.failed) :
    s.server.verdict env txn = none ∧ s.written env txn = { s with server := s.server.commit env txn } := by
  by_cases hverdict : s.server.verdict env txn = none
  · refine ⟨hverdict, ?_⟩
    rw [State.written, if_pos hverdict]
  · rw [State.written, if_neg hverdict] at h
    exact absurd h (Nat.succ_ne_self _)

/-- The column of a switch that is on was written. -/
theorem Tidy.of_writePorts {s₁ : State} (h : Tidy env F s.books)
    (hbridge : s₁.bridgeOf d = s.bridgeOf d) (hserver : s₁.server = s.server)
    (hclean : (s₁.writePorts env d).server.failed = s₁.server.failed) :
    s.switchUuid[d]? = some (s.bridgeOf d) ∧
      (s₁.writePorts env d).books = s₁.books.writePorts (s.bridgeOf d) d := by
  obtain ⟨hverdict, hwritten⟩ := written_of_failed_eq hclean
  have hrefuses := refuses_of_verdict hverdict
  rw [hserver, hbridge] at hrefuses
  simp only [Server.refuses] at hrefuses
  split_ifs at hrefuses with hcolumn hknown
  refine ⟨h.on_of_column (by simpa using hcolumn), ?_⟩
  rw [State.writePorts, hwritten, ← hbridge]
  rfl

section

variable (h : Tidy env F b) (hf : f ≠ .gport) (hon : b.On d)

include h hf hon

/-- Two ports of a switch that is on, of a kind that is known by its name, have one name if they are
one. -/
theorem Tidy.name_eq_iff {row row' : PortRow}
    (hrow : row ∈ b.ports) (hrow' : row' ∈ b.ports) (hkey : row.key = (f, d))
    (hkey' : row'.key = (f, d)) (hmem : row.uuid ∈ b.uuids (f, d))
    (hmem' : row'.uuid ∈ b.uuids (f, d)) : row.label = row'.label ↔ row.uuid = row'.uuid := by
  have hlive : ∀ r ∈ b.ports, r.key = (f, d) → r.uuid ∈ b.uuids (f, d) → b.Live r := by
    intro r hr hk hmem
    rw [h.live_iff hr, hk, show r.switch = d from congrArg Prod.snd hk]
    exact ⟨hon, hmem⟩
  have hname : ∀ r : PortRow, r.key = (f, d) → r.label = r.name := by
    intro r hk
    apply PortSpec.label_eq_name
    rw [show r.purpose.family = f from congrArg Prod.fst hk]
    exact hf
  constructor
  · intro heq
    rw [hname row hkey, hname row' hkey'] at heq
    rw [h.unique row hrow row' hrow' (hlive row hrow hkey hmem) (hlive row' hrow' hkey' hmem') heq]
  · intro heq
    rw [h.distinct row hrow row' hrow' heq]

/-- A port that is known by its name is taken out of both lists. -/
theorem Tidy.forall₂_filter
    (hsub : uuids ⊆ b.uuids (f, d)) (haligned : List.Forall₂ (Describes b.ports (f, d)) names uuids)
    {u : String} (hfind : Paired.find name names uuids = .ok (some u)) :
    List.Forall₂ (Describes b.ports (f, d)) (names.filter (· ≠ name)) (uuids.filter (· ≠ u)) := by
  obtain ⟨⟨row, hrow, rfl, hkey, rfl⟩, hmem⟩ := Paired.rel_of_find haligned hfind
  refine Paired.forall₂_filter haligned ?_
  rintro n x hx ⟨row', hrow', rfl, hkey', rfl⟩
  exact h.name_eq_iff hf hon hrow' hrow hkey' hkey (hsub hx) (hsub hmem)

/-- The ports that are left are the ones with other names. -/
theorem Tidy.mem_left
    (hsub : uuids ⊆ b.uuids (f, d)) (haligned : List.Forall₂ (Describes b.ports (f, d)) names uuids)
    (hfind : Paired.find name names uuids = .ok o) {row : PortRow} (hrow : row ∈ b.ports)
    (hkey : row.key = (f, d)) (hmem : row.uuid ∈ uuids) : some row.uuid = o ↔ row.label = name := by
  cases o with
  | none =>
    have hnot := (Paired.find_eq_none haligned).mp hfind
    refine iff_of_false nofun fun heq => hnot ?_
    obtain ⟨n, hn, row', hrow', huuid, -, hlabel⟩ := Paired.exists_of_mem haligned.flip hmem
    rw [← heq, ← h.distinct row' hrow' row hrow huuid, hlabel]
    exact hn
  | some u =>
    obtain ⟨⟨row', hrow', rfl, hkey', rfl⟩, hmem'⟩ := Paired.rel_of_find haligned hfind
    rw [Option.some.injEq]
    exact (h.name_eq_iff hf hon hrow hrow' hkey hkey' (hsub hmem) (hsub hmem')).symm

end

/-! ## Pieces -/

theorem Tidy.names_dropLink (h : Tidy env F s.books) {name : String}
    (hfind : Paired.find name (s.vportL d) (s.vportUuid d) = .ok o) (hon : s.books.On d) (u : String)
    (hu : o = some u) (hF : F .vport) : List.Forall₂ (Describes s.server.ports (.vport, d))
      ((s.vportL d).filter (· ≠ name)) ((s.vportUuid d).filter (· ≠ u)) :=
  h.forall₂_filter (by decide) hon (List.Subset.refl _) (h.aligned _ hF) (hu ▸ hfind)

theorem Tidy.names_dropEndpoint (h : Tidy env F s.books) {id : String}
    (hfind : Paired.find id (s.endpointL d) (s.gportUuid d) = .ok o) (_ : s.books.On d) (u : String)
    (hu : o = some u) (hF : F .gport) : List.Forall₂ (Describes s.server.ports (.gport, d))
      ((s.endpointL d).erase id) ((s.gportUuid d).filter (· ≠ u)) :=
  Paired.forall₂_erase (h.aligned (.gport, d) hF) (h.nodup (.gport, d)) (hu ▸ hfind)

section Taken

variable {f : Family} (h : Tidy env F s.books)
  (hclean : (((s.touch d).take (f, d) names o).writePorts env d).server.failed = s.server.failed)
  (hnames : s.books.On d → ∀ u, o = some u → F f →
    List.Forall₂ (Describes s.server.ports (f, d)) names ((s.uuids (f, d)).filter (· ≠ u)))

include h hclean hnames

/-- What a walk found is removed from the switch. -/
theorem Tidy.taken : s.switchUuid[d]? = some (s.bridgeOf d) ∧
    (((s.touch d).take (f, d) names o).writePorts env d).books =
      (s.take (f, d) names o).books.writePorts (s.bridgeOf d) d ∧
    Tidy env F (((s.touch d).take (f, d) names o).writePorts env d).books := by
  have hserver : ((s.touch d).take (f, d) names o).server = s.server := by cases o <;> rfl
  have hbridge : ((s.touch d).take (f, d) names o).bridgeOf d = s.bridgeOf d := by
    rw [State.bridgeOf_take, State.bridgeOf_touch]
  obtain ⟨hon, hbooks⟩ := h.of_writePorts hbridge hserver (hclean.trans (congrArg _ hserver.symm))
  rw [State.touch_of_mem hon] at hbooks ⊢
  refine ⟨hon, hbooks, ?_⟩
  rw [hbooks]
  cases o with
  | none => exact h.writePorts hon
  | some u => exact h.setLists hon List.filter_sublist (hnames ⟨_, hon⟩ u rfl)

/-- The ports that are left are those that the walk has not found. -/
theorem Tidy.live_taken (hF : F f) {name : String}
    (hfind : Paired.find name (s.names (f, d)) (s.uuids (f, d)) = .ok o) {row : PortRow}
    (hrow : row ∈ s.server.ports) :
    (((s.touch d).take (f, d) names o).writePorts env d).books.Live row ↔
      s.books.Live row ∧ some row.uuid ≠ o := by
  obtain ⟨hon, hbooks, -⟩ := h.taken hclean hnames
  have haligned := h.aligned (f, d) hF
  rw [hbooks]
  cases o with
  | none =>
    have hall := h.live_setLists hon (List.Sublist.refl _) (fun _ => haligned) hrow
    rw [s.books.setLists_self] at hall
    refine hall.trans (and_congr_right fun hlive => iff_of_true (fun hkey => ?_) nofun)
    exact hkey ▸ ((h.live_iff hrow).mp hlive).2
  | some u =>
    rw [ne_eq, Option.some.injEq]
    exact h.live_without hon (Paired.rel_of_find haligned hfind).2 (hnames ⟨_, hon⟩ u rfl) hrow

end Taken

theorem books_foldl_eraseRing (names : List String) (s : State) :
    (names.foldl eraseRing s).books = s.books ∧
      (names.foldl eraseRing s).server = s.server := by
  obtain ⟨_, _, herased⟩ := foldl_eraseRing names s
  rw [herased]
  exact ⟨rfl, rfl⟩

/-- A switch goes away. -/
theorem Tidy.withoutSwitch (h : Tidy env F s.books)
    (hclean : (s.withoutSwitch env d).server.failed = s.server.failed) :
    (s.withoutSwitch env d).books = s.books.forget d ∧ Tidy env F (s.withoutSwitch env d).books := by
  obtain ⟨hbooks, hserver⟩ := books_foldl_eraseRing (s.portL d) s
  have hforgotten : (s.forgotten d).server = s.server := hserver
  obtain ⟨-, hwritten⟩ := written_of_failed_eq (hclean.trans (congrArg _ hforgotten.symm))
  have hresult : (s.withoutSwitch env d).books = s.books.forget d := by
    rw [State.withoutSwitch, hwritten]
    refine Eq.trans (b := ((s.portL d).foldl eraseRing s).books.forget d) rfl ?_
    rw [hbooks]
  refine ⟨hresult, ?_⟩
  rw [hresult]
  exact h.forget d

/-- The names that are empty go, but there are none. -/
theorem Tidy.removeEmptyName (h : Tidy env F s.books) (d : Nat) :
    Tidy env F (s.removeEmptyName d).books := by
  refine h.setNames (Function.update s.names (.vport, d) ((s.vportL d).filter (· ≠ "")))
    fun key hF => ?_
  by_cases hkey : key = (.vport, d)
  · subst hkey
    rw [Function.update_self]
    refine List.filter_eq_self.mpr fun name hname => ?_
    -- a name in the list is that of an end of a virtual link
    obtain ⟨u, -, row, hrow, -, hkey, hlabel⟩ := Paired.exists_of_mem (h.aligned _ hF) hname
    have hfamily : row.purpose.family = .vport := congrArg Prod.fst hkey
    have hvlink : row.purpose = .vlink := by
      cases hpurpose : row.purpose <;> rw [hpurpose] at hfamily <;> first | rfl | cases hfamily
    rw [PortSpec.label_eq_name (by rw [hfamily]; decide)] at hlabel
    have hne := h.linkNames row hrow hvlink
    rw [hlabel] at hne
    simpa using hne
  · exact Function.update_of_ne hkey ..

/-- The pieces that can stand alone. -/
def Piece.Alone (F : Family → Prop) : Piece → Prop
  | .physical .. => ¬F .port
  | .far _ name => name ≠ ""
  | .bridge _ | .touch _ | .drop .. | .write _ => False
  | _ => True

theorem failed_le_written : s.server.failed ≤ (s.written env txn).server.failed := by
  rw [State.written]
  split_ifs
  · cases txn <;> exact le_rfl
  · exact Nat.le_succ _

theorem failed_taken {key : Family × Nat} :
    s.server.failed ≤ (((s.touch d).take key names o).writePorts env d).server.failed := by
  have hserver : ((s.touch d).take key names o).server = s.server := by cases o <;> rfl
  exact (congrArg Server.failed hserver).ge.trans failed_le_written

theorem Done.failed_le (h : Done env i s s') : s.server.failed ≤ s'.server.failed := by
  induction h with
  | nf hchosen hverdict hs' =>
    have hbefore := hchosen.preserves (fun s => s.server.failed)
      (fun _ => rfl) (fun _ _ _ => rfl) (fun _ _ => rfl)
    rcases hs' with rfl | rfl
    · exact hbefore.ge
    · exact hbefore.ge
  | unlink | dropTunnel => exact failed_taken
  | unlinkBoth _ _ hnear hfar => exact hnear.trans hfar
  | @forget d s =>
    have hserver : (s.forgotten d).server = s.server := (books_foldl_eraseRing (s.portL d) s).2
    exact (congrArg Server.failed hserver).ge.trans failed_le_written
  | @drop d name o s => cases o <;> exact le_rfl
  | write => exact failed_le_written
  | _ => exact le_rfl

/-- Two pieces in which no transaction has failed. -/
theorem Done.failed_eq {j : Piece} {s₁ : State} (h : Done env i s s₁) (h₁ : Done env j s₁ s')
    (hclean : s'.server.failed = s.server.failed) :
    s₁.server.failed = s.server.failed ∧ s'.server.failed = s₁.server.failed := by
  have hle := h.failed_le
  have hle₁ := h₁.failed_le
  omega

theorem vportName_ne_empty (n : Nat) : vportName n ≠ "" := by
  simp [vportName]

theorem Done.tidy (hdone : Done env i s s') (hi : i.Alone F)
    (hclean : s'.server.failed = s.server.failed) (h : Tidy env F s.books) :
    Tidy env F s'.books := by
  induction hdone with
  | bridge => exact hi.elim
  | @physical d p s hverdict =>
    have hplaced : Tidy env F ((s.named d (physicalChoice p)).inserted env
        (s.chosenSpec d (physicalChoice p))).books := h.inserted hverdict nofun rfl
    have hport : ¬F .port := hi
    exact hplaced.pushName (.port, d) hport p
  | @nf d info s s₁ s' choice hchosen hverdict hs' =>
    have hbefore : s₁.books = s.books := hchosen.books
    have hfamily := hchosen.family
    have hlabel : (s₁.chosenSpec d choice).label = choice.portName := by
      apply PortSpec.label_eq_name
      rw [show (s₁.chosenSpec d choice).purpose.family = .port from hfamily]
      decide
    have hkey : (s₁.chosenSpec d choice).key = (.port, d) := congrArg (·, d) hfamily
    have hplaced : Tidy env F ((s₁.named d choice).inserted env (s₁.chosenSpec d choice)).books := by
      refine (hbefore ▸ h).inserted hverdict (fun hvlink => ?_) ?_
      · rw [show choice.purpose = .vlink from hvlink] at hfamily
        cases hfamily
      · rw [hlabel, hkey]
        rfl
    rcases hs' with rfl | rfl
    · exact hplaced
    · exact hplaced
  | @tunnel _ _ _ _ s hverdict => exact Tidy.inserted (s := s.countTunnel) h hverdict nofun rfl
  | @near _ _ _ s hverdict =>
    exact Tidy.inserted (s := s.startLink) h hverdict (fun _ => vportName_ne_empty _) rfl
  | turn => exact h
  | @far _ _ s hverdict =>
    exact Tidy.inserted (s := { s with pnumber := s.pnumber + 1 }) h hverdict (fun _ => hi) rfl
  | @link dA dB s hfirst hsecond =>
    -- the first end with its name, as if it had been stored at once
    have hplaced : Tidy env F ((s.firstEnd env dA).pushName (.vport, dA) (vportName s.pnumber)).books :=
      Tidy.inserted (s := s.takeNames) h hfirst (fun _ => vportName_ne_empty _) rfl
    exact hplaced.inserted hsecond (fun _ => vportName_ne_empty _) rfl
  | unlink hfind => exact (h.taken hclean (h.names_dropLink hfind)).2.2
  | unlinkBoth hnear hfar ihnear ihfar =>
    obtain ⟨hclean₁, hclean₂⟩ := hnear.failed_eq hfar hclean
    exact ihfar trivial hclean₂ (ihnear trivial hclean₁ h)
  | @unwire dA idA dB idB s =>
    have hmaps : Tidy env F (s.clearSwitches idA idB).books := h
    exact (hmaps.removeEmptyName dA).removeEmptyName dB
  | forget => exact (h.withoutSwitch hclean).2
  | touch => exact hi.elim
  | drop => exact hi.elim
  | write => exact hi.elim
  | dropTunnel hfind => exact (h.taken hclean (h.names_dropEndpoint hfind)).2.2

/-! ## Operations -/

/-- A piece without a transaction that failed. -/
def Clean (env : Env) (i : Piece) (s s' : State) : Prop :=
  Done env i s s' ∧ s'.server.failed = s.server.failed

/-- A successful operation is made of clean pieces. -/
theorem chain_of_succeeds {op : Operation} {out : Output}
    (hrun : perform env op s = .ok (some out, s')) (hfailed : s'.server.failed = s.server.failed) :
    Chain (Clean env) (op.pieces s) s s' := by
  have hchain := (of_wp perform_performs hrun).1 out rfl
  exact hchain.and_eq (fun _ _ _ hdone => hdone.failed_le) hfailed

/-- The number of the next switch and those behind it are not in use. -/
structure Ready (s : State) : Prop where
  pos : 0 < s.dnumber
  unnamed : ∀ d, s.dnumber ≤ d → s.switchId d = ""

/-- The pieces that add no end of a link and no port with the name of one. -/
def Piece.Harmless : Piece → Prop
  | .physical _ p => ∀ k, p ≠ vportName k
  | .near .. | .far .. | .link .. | .turn _ => False
  | _ => True

/-- Only a new switch changes the names and the count of the switches, and only links take names. -/
theorem Done.counters (h : Done env i s s') :
    ((∀ cli, i ≠ .bridge cli) → s'.switchId = s.switchId) ∧
      ((∀ p, i ≠ .turn p) → s'.dnumber = s.dnumber) ∧ (i.Harmless → s'.pnumber = s.pnumber) := by
  induction h with
  | bridge => exact ⟨fun hbridge => absurd rfl (hbridge _), fun _ => rfl, fun _ => rfl⟩
  | turn => exact ⟨fun _ => rfl, fun hturn => absurd rfl (hturn _), False.elim⟩
  | near | far | link => exact ⟨fun _ => rfl, fun _ => rfl, False.elim⟩
  | nf hchosen hverdict hs' =>
    have hbefore := hchosen.preserves (fun s => (s.switchId, s.dnumber, s.pnumber))
      (fun _ => rfl) (fun _ _ _ => rfl) (fun _ _ => rfl)
    simp only [Prod.mk.injEq] at hbefore
    obtain ⟨hid, hnumber, hname⟩ := hbefore
    rcases hs' with rfl | rfl
    · exact ⟨fun _ => hid, fun _ => hnumber, fun _ => hname⟩
    · exact ⟨fun _ => hid, fun _ => hnumber, fun _ => hname⟩
  | @unlink d idp o s => cases o <;> exact ⟨fun _ => rfl, fun _ => rfl, fun _ => rfl⟩
  | unlinkBoth _ _ hnear hfar =>
    exact ⟨fun _ => (hfar.1 nofun).trans (hnear.1 nofun),
      fun _ => (hfar.2.1 nofun).trans (hnear.2.1 nofun),
      fun _ => (hfar.2.2 trivial).trans (hnear.2.2 trivial)⟩
  | @unwire dA idA dB idB s =>
    obtain ⟨_, _, _, hunwired⟩ := s.unwired_eq dA idA dB idB
    rw [hunwired]
    exact ⟨fun _ => rfl, fun _ => rfl, fun _ => rfl⟩
  | @forget d s =>
    obtain ⟨_, _, herased⟩ := foldl_eraseRing (s.portL d) s
    rw [State.withoutSwitch, State.forgotten, herased]
    exact ⟨fun _ => rfl, fun _ => rfl, fun _ => rfl⟩
  | @drop d name o s => cases o <;> exact ⟨fun _ => rfl, fun _ => rfl, fun _ => rfl⟩
  | @dropTunnel d id o s => cases o <;> exact ⟨fun _ => rfl, fun _ => rfl, fun _ => rfl⟩
  | _ => exact ⟨fun _ => rfl, fun _ => rfl, fun _ => rfl⟩

/-- Pieces one after another that leave the switches alone. -/
theorem Chain.switches {is : List Piece} (h : Chain (Clean env) is s s')
    (hbridge : ∀ i ∈ is, ∀ cli, i ≠ .bridge cli) (hturn : ∀ i ∈ is, ∀ p, i ≠ .turn p) :
    s'.switchId = s.switchId ∧ s'.dnumber = s.dnumber := by
  refine h.keeps (I := fun s₁ => s₁.switchId = s.switchId ∧ s₁.dnumber = s.dnumber) ?_ ⟨rfl, rfl⟩
  rintro i hi s₁ s₂ ⟨hdone, -⟩ ⟨hid, hnumber⟩
  exact ⟨(hdone.counters.1 (hbridge i hi)).trans hid, (hdone.counters.2.1 (hturn i hi)).trans hnumber⟩

/-- Pieces that stand alone keep tidy books tidy. -/
theorem Tidy.chain {is : List Piece} (h : Tidy env F s.books) (hchain : Chain (Clean env) is s s')
    (halone : ∀ i ∈ is, i.Alone F) : Tidy env F s'.books :=
  hchain.keeps (I := fun s => Tidy env F s.books)
    (fun i hi _ _ hclean h => hclean.1.tidy (halone i hi) hclean.2 h) h

theorem portPieces_alone {cli : CreateLsiIn} (hport : F .port → cli.physicalPorts = []) :
    ∀ i ∈ portPieces d cli, i.Alone F ∧ (∀ cli, i ≠ .bridge cli) ∧ ∀ p, i ≠ .turn p := by
  intro i hi
  simp only [portPieces, List.mem_append, List.mem_map, List.mem_flatMap] at hi
  rcases hi with (⟨p, hp, rfl⟩ | ⟨nf, -, info, -, rfl⟩) | ⟨ep, -, rfl⟩
  · refine ⟨fun hF => ?_, by simp, by simp⟩
    rw [hport hF] at hp
    cases hp
  · exact ⟨trivial, by simp, by simp⟩
  · exact ⟨trivial, by simp, by simp⟩

theorem nearPieces_alone {n : Nat} {remotes : List Nat} :
    ∀ i ∈ remotes.map (Piece.near d n), i.Alone F ∧ (∀ cli, i ≠ .bridge cli) ∧ ∀ p, i ≠ .turn p := by
  intro i hi
  obtain ⟨remote, -, rfl⟩ := List.mem_map.mp hi
  exact ⟨trivial, nofun, nofun⟩

theorem farPieces_alone {p : Nat} {remotes : List Nat} :
    ∀ i ∈ remotes.mapIdx (fun i remote => Piece.far remote (vportName (p + 2 * i + 1))),
      i.Alone F ∧ (∀ cli, i ≠ .bridge cli) ∧ ∀ p, i ≠ .turn p := by
  intro i hi
  obtain ⟨j, remote, rfl⟩ := List.mem_mapIdx.mp hi
  exact ⟨vportName_ne_empty _, nofun, nofun⟩

variable (h : Tidy env F s.books)

include h

/-- A new switch. -/
theorem Tidy.createLsi (hready : Ready s) {cli : CreateLsiIn}
    (hport : F .port → cli.physicalPorts = []) (hchain : Chain (Clean env) (lsiPieces s cli) s s') :
    Tidy env F s'.books ∧ Ready s' := by
  rw [lsiPieces, linkPieces] at hchain
  cases hchain with
  | @cons _ _ _ s₁ _ hbridge hrest =>
  obtain ⟨s₂, hports, hlinks⟩ := hrest.of_append
  obtain ⟨s₃, hnear, hturn⟩ := hlinks.of_append
  cases hturn with
  | @cons _ _ _ s₄ _ hturn hfar =>
  have hnumber : s₁ = s.newSwitch env cli := by
    cases hbridge.1
    rfl
  have hnew : Tidy env F s₁.books := by
    rw [hnumber]
    exact h.addBridge (hready.unnamed _ le_rfl) hready.pos.ne'
  have hbefore : s₃.switchId = s₁.switchId ∧ s₃.dnumber = s₁.dnumber := by
    refine Chain.switches (hports.append hnear) (fun i hi => ?_) (fun i hi => ?_)
    · exact (List.mem_append.mp hi).elim (fun hi => (portPieces_alone hport i hi).2.1)
        fun hi => (nearPieces_alone (F := F) i hi).2.1
    · exact (List.mem_append.mp hi).elim (fun hi => (portPieces_alone hport i hi).2.2)
        fun hi => (nearPieces_alone (F := F) i hi).2.2
  have hafter := Chain.switches hfar (fun i hi => (farPieces_alone (F := F) i hi).2.1)
    fun i hi => (farPieces_alone (F := F) i hi).2.2
  have htidy : Tidy env F s₃.books :=
    (hnew.chain hports fun i hi => (portPieces_alone hport i hi).1).chain hnear
      fun i hi => (nearPieces_alone i hi).1
  have hturned : Tidy env F s₄.books := hturn.1.tidy trivial hturn.2 htidy
  refine ⟨hturned.chain hfar fun i hi => (farPieces_alone i hi).1, ?_⟩
  cases hturn.1 with
  | turn =>
    have hcount : s'.dnumber = s.dnumber + 1 := by
      rw [hafter.2, hbefore.2, hnumber]
      rfl
    refine ⟨by omega, fun d hd => ?_⟩
    rw [hafter.1, hbefore.1, hnumber]
    have hne : d ≠ s.dnumber := by omega
    exact (Function.update_of_ne hne _ _).trans (hready.unnamed d (by omega))

/-- Ports of a switch were taken out of the lists by their names, while the column is as before. -/
structure Dropping (F : Family → Prop) (s : State) (d : Nat) (gone : List String) (s' : State)
    (names uuids : List String) : Prop where
  server : s'.server = s.server
  books : s'.books = s.books.setLists (.port, d) names uuids
  sublist : uuids.Sublist (s.portUuid d)
  aligned : F .port → List.Forall₂ (Describes s.server.ports (.port, d)) names uuids
  left : F .port → ∀ row ∈ s.server.ports, row.key = (.port, d) →
    (row.uuid ∈ uuids ↔ row.uuid ∈ s.portUuid d ∧ row.name ∉ gone)

theorem Dropping.step (hon : s.books.On d) {s₁ s₂ : State}
    (hdropping : Dropping F s d gone s₁ names uuids) (hdone : Done env (.drop d name) s₁ s₂) :
    ∃ names uuids, Dropping F s d (gone ++ [name]) s₂ names uuids := by
  have hnames : s₁.portL d = names :=
    (congrArg (fun b => b.names (.port, d)) hdropping.books).trans (Function.update_self ..)
  have huuids : s₁.portUuid d = uuids :=
    (congrArg (fun b => b.uuids (.port, d)) hdropping.books).trans (Function.update_self ..)
  have hsub : uuids ⊆ s.books.uuids (.port, d) := hdropping.sublist.subset
  cases hdone with
  | @drop _ _ o _ hfind =>
  rw [hnames, huuids] at hfind
  have hleft : F .port → ∀ row ∈ s.server.ports, row.key = (.port, d) → row.uuid ∈ uuids →
      (some row.uuid = o ↔ row.name = name) := by
    intro hF row hrow hkey hmem
    have hiff := h.mem_left (by decide) hon hsub (hdropping.aligned hF) hfind hrow hkey hmem
    rwa [PortSpec.label_eq_name (by rw [show row.purpose.family = .port from congrArg Prod.fst hkey]; decide)]
      at hiff
  -- what is in the new list of uuids, in terms of the old one
  have hgone : F .port → ∀ row ∈ s.server.ports, row.key = (.port, d) →
      (row.uuid ∈ uuids ∧ some row.uuid ≠ o ↔
        row.uuid ∈ s.portUuid d ∧ row.name ∉ gone ++ [name]) := by
    intro hF row hrow hkey
    rw [List.mem_append, List.mem_singleton, not_or, ← and_assoc, ← hdropping.left hF row hrow hkey]
    exact and_congr_right fun hmem => not_congr (hleft hF row hrow hkey hmem)
  cases o with
  | none =>
    refine ⟨names, uuids, hdropping.server, hdropping.books, hdropping.sublist, hdropping.aligned, ?_⟩
    intro hF row hrow hkey
    rw [← hgone hF row hrow hkey]
    simp
  | some u =>
    refine ⟨names.filter (· ≠ name), uuids.filter (· ≠ u), hdropping.server, ?_, ?_, ?_, ?_⟩
    · show s₁.books.setLists (.port, d) ((s₁.portL d).filter _) ((s₁.portUuid d).filter _) = _
      rw [hnames, huuids, hdropping.books, Books.setLists_setLists]
    · exact List.filter_sublist.trans hdropping.sublist
    · exact fun hF => h.forall₂_filter (by decide) hon hsub (hdropping.aligned hF) hfind
    · intro hF row hrow hkey
      rw [← hgone hF row hrow hkey, List.mem_filter]
      simp

theorem Dropping.chain (hon : s.books.On d) (more : List String)
    {s₁ s₂ : State} (hdropping : Dropping F s d gone s₁ names uuids)
    (hchain : Chain (Clean env) (more.map (.drop d)) s₁ s₂) :
    ∃ names uuids, Dropping F s d (gone ++ more) s₂ names uuids := by
  induction more generalizing gone names uuids s₁ with
  | nil =>
    cases hchain
    rw [List.append_nil]
    exact ⟨names, uuids, hdropping⟩
  | cons name more ih =>
    cases hchain with
    | cons head tail =>
      obtain ⟨names', uuids', hnext⟩ := hdropping.step h hon head.1
      have hrest := ih hnext tail
      rwa [List.append_assoc, List.singleton_append] at hrest

omit h in
/-- The uuids that are left are those that no removal takes. -/
theorem mem_portUuid_dropped (more : List String) {s₁ s₂ : State}
    (hchain : Chain (Clean env) (more.map (.drop d)) s₁ s₂) (u : String) :
    u ∈ s₂.portUuid d ↔ u ∈ s₁.portUuid d ∧ u ∉ Paired.taken more (s₁.portL d) (s₁.portUuid d) := by
  induction more generalizing s₁ with
  | nil =>
    cases hchain
    simp [Paired.taken]
  | cons name more ih =>
    cases hchain with
    | cons head tail =>
      obtain ⟨hdone, -⟩ := head
      cases hdone with
      | @drop _ _ o _ hfind =>
      rw [ih tail, Paired.taken, hfind]
      cases o with
      | none => rfl
      | some v =>
        have hnames : (s₁.dropPort d name (some v)).portL d = (s₁.portL d).filter (· ≠ name) :=
          Function.update_self ..
        have huuids : (s₁.dropPort d name (some v)).portUuid d = (s₁.portUuid d).filter (· ≠ v) :=
          Function.update_self ..
        rw [hnames, huuids]
        simp [and_assoc]

/-- Ports are removed from a switch: the lists, the column, and the rows that are left. -/
theorem Tidy.dropped
    (hchain : Chain (Clean env) (.touch d :: gone.map (.drop d) ++ [.write d]) s s') :
    s.books.On d ∧ Tidy env F s'.books ∧ s'.server.ports = s.server.ports ∧
      (∀ row ∈ s.server.ports, s'.books.Live row ↔ s.books.Live row ∧
        ¬(row.key = (.port, d) ∧ row.uuid ∈ Paired.taken gone (s.portL d) (s.portUuid d))) ∧
      (F .port → ∀ row ∈ s.server.ports, s'.books.Live row ↔
        s.books.Live row ∧ ¬(row.key = (.port, d) ∧ row.name ∈ gone)) := by
  rw [List.cons_append] at hchain
  cases hchain with
  | @cons _ _ _ s₁ _ htouch hrest =>
  obtain ⟨s₂, hdrops, hlast⟩ := hrest.of_append
  cases hlast with
  | @cons _ _ _ s₃ _ hwrite hnil =>
  cases hnil
  have htouched : s₁ = s.touch d := by
    cases htouch.1
    rfl
  subst htouched
  -- the removals change the lists only
  have hsame : s₂.bridgeOf d = (s.touch d).bridgeOf d ∧ s₂.server = s.server := by
    refine hdrops.keeps (I := fun s' => s'.bridgeOf d = (s.touch d).bridgeOf d ∧ s'.server = s.server)
      ?_ ⟨rfl, rfl⟩
    rintro i hi s₃ s₄ ⟨hdone, -⟩ ⟨hbridge, hserver⟩
    obtain ⟨name, -, rfl⟩ := List.mem_map.mp hi
    cases hdone with
    | @drop _ _ o _ _ =>
      refine ⟨(State.bridgeOf_dropPort ..).trans hbridge, ?_⟩
      cases o <;> exact hserver
  have hwritten : s' = s₂.writePorts env d := by
    cases hwrite.1
    rfl
  subst hwritten
  rw [State.bridgeOf_touch] at hsame
  obtain ⟨hon, hbooks⟩ := h.of_writePorts hsame.1 hsame.2 hwrite.2
  rw [State.touch_of_mem hon] at hdrops
  have hstart : Dropping F s d [] s (s.portL d) (s.portUuid d) :=
    ⟨rfl, (s.books.setLists_self _).symm, List.Sublist.refl _, fun hF => h.aligned _ hF, by simp⟩
  obtain ⟨names, uuids, hdropped⟩ := hstart.chain h ⟨_, hon⟩ gone hdrops
  have hports : (s₂.writePorts env d).server.ports = s.server.ports :=
    (congrArg Books.ports hbooks).trans (congrArg Server.ports hsame.2)
  have huuids : s₂.portUuid d = uuids :=
    (congrArg (fun b => b.uuids (.port, d)) hdropped.books).trans (Function.update_self ..)
  rw [hbooks, hdropped.books]
  -- a port is left if its uuid is, and which uuids are left is said twice
  have hleft (P : PortRow → Prop) (hP : ∀ row ∈ s.server.ports, row.key = (.port, d) →
      row.uuid ∈ s.portUuid d → (row.uuid ∈ uuids ↔ ¬P row)) : ∀ row ∈ s.server.ports,
      ((s.books.setLists (.port, d) names uuids).writePorts (s.bridgeOf d) d).Live row ↔
        s.books.Live row ∧ ¬(row.key = (.port, d) ∧ P row) := by
    intro row hrow
    rw [h.live_setLists hon hdropped.sublist hdropped.aligned hrow]
    refine and_congr_right fun hlive => ?_
    rw [not_and]
    refine forall_congr' fun hkey => hP row hrow hkey ?_
    have hmem := ((h.live_iff hrow).mp hlive).2
    rwa [hkey] at hmem
  refine ⟨⟨_, hon⟩, h.setLists hon hdropped.sublist hdropped.aligned, hports,
    hleft _ fun row _ _ hmem => ?_, fun hF => hleft _ fun row hrow hkey hmem => ?_⟩
  · rw [← huuids, mem_portUuid_dropped gone hdrops]
    exact and_iff_right hmem
  · rw [hdropped.left hF row hrow hkey, List.nil_append]
    exact and_iff_right hmem

/-- The operation adds no physical ports. -/
def Operation.NoPhysical : Operation → Prop
  | .createLsi cli => cli.physicalPorts = []
  | _ => True

/-- A successful operation leaves tidy books. -/
theorem Tidy.perform (hready : Ready s) {op : Operation} {out : Output}
    (hport : F .port → op.NoPhysical) (hrun : perform env op s = .ok (some out, s'))
    (hfailed : s'.server.failed = s.server.failed) : Tidy env F s'.books ∧ Ready s' := by
  have hchain := chain_of_succeeds hrun hfailed
  have hsimple : (∀ i ∈ op.pieces s, i.Alone F ∧ (∀ cli, i ≠ .bridge cli) ∧ ∀ p, i ≠ .turn p) →
      Tidy env F s'.books ∧ Ready s' := by
    intro halone
    obtain ⟨hid, hnumber⟩ := Chain.switches hchain (fun i hi => (halone i hi).2.1)
      fun i hi => (halone i hi).2.2
    refine ⟨h.chain hchain fun i hi => (halone i hi).1, ?_, ?_⟩
    · rw [hnumber]
      exact hready.pos
    · rw [hnumber, hid]
      exact hready.unnamed
  cases op with
  | createLsi cli => exact h.createLsi hready hport hchain
  | destroyLsi d =>
    apply hsimple
    intro i hi
    simp only [Operation.pieces, List.mem_append, List.mem_map, List.mem_singleton] at hi
    rcases hi with ⟨id, -, rfl⟩ | rfl
    · exact ⟨trivial, by simp, by simp⟩
    · exact ⟨trivial, by simp, by simp⟩
  | addNFPorts d nfId ports =>
    apply hsimple
    intro i hi
    obtain ⟨info, -, rfl⟩ := List.mem_map.mp hi
    exact ⟨trivial, by simp, by simp⟩
  | destroyNFPorts d nfPorts =>
    simp only [Operation.pieces] at hchain
    split_ifs at hchain with hempty
    · cases hchain
      exact ⟨h, hready⟩
    · have hothers : ∀ i ∈ Piece.touch d :: ((Std.ExtTreeSet.toList nfPorts).map fun port =>
          (s.peersNames port).getD port).map (Piece.drop d) ++ [.write d],
          (∀ cli, i ≠ .bridge cli) ∧ ∀ p, i ≠ .turn p := by
        intro i hi
        simp only [List.cons_append, List.mem_cons, List.mem_append, List.mem_map, List.not_mem_nil,
          or_false] at hi
        rcases hi with rfl | ⟨name, -, rfl⟩ | rfl
        · exact ⟨by simp, by simp⟩
        · exact ⟨by simp, by simp⟩
        · exact ⟨by simp, by simp⟩
      obtain ⟨hid, hnumber⟩ := Chain.switches hchain (fun i hi => (hothers i hi).1)
        fun i hi => (hothers i hi).2
      refine ⟨(h.dropped hchain).2.1, ?_, ?_⟩
      · rw [hnumber]
        exact hready.pos
      · rw [hnumber, hid]
        exact hready.unnamed
  | addEndpoint d id params =>
    apply hsimple
    intro i hi
    obtain rfl := List.mem_singleton.mp hi
    exact ⟨trivial, by simp, by simp⟩
  | destroyEndpoint d id =>
    apply hsimple
    intro i hi
    simp only [Operation.pieces] at hi
    split_ifs at hi
    · cases hi
    · obtain rfl := List.mem_singleton.mp hi
      exact ⟨trivial, by simp, by simp⟩
  | addVirtualLink dA dB =>
    apply hsimple
    intro i hi
    obtain rfl := List.mem_singleton.mp hi
    exact ⟨trivial, by simp, by simp⟩
  | destroyVirtualLink dA idA dB idB =>
    apply hsimple
    intro i hi
    simp only [Operation.pieces, List.mem_cons, List.not_mem_nil, or_false] at hi
    rcases hi with rfl | rfl | rfl
    · exact ⟨trivial, by simp, by simp⟩
    · exact ⟨trivial, by simp, by simp⟩
    · exact ⟨trivial, by simp, by simp⟩

end UnOrchestrator.Ovsdb
