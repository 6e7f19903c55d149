import UnOrchestrator.Highlevel.Convergence

/-!
# Which updates complete

The removing half of an update asserts that the pieces it takes out are no longer used. For an
interface this is looked up by the name of the interface, which another endpoint may still
provide; for a network function the identifiers in the rules are compared with its name.

`updateTo_returns_iff` says for which pairs of graphs no assertion fails, and
`updateTo_noDangling_iff` when an update that completes leaves no rule behind that refers to a
network function it has taken out.
-/

namespace UnOrchestrator.Highlevel

open List (map_eq_nil_iff map_id mem_map mem_map_of_mem not_mem_nil)

/-- The rule matches on, or sends to, the physical port. -/
def Rule.refersToPort (r : Rule) (port : String) : Bool :=
  r.match.type == .port port || r.action.type == .port port

/-- The rule matches on, or sends to, a port of the network function. -/
def Rule.refersToNF (r : Rule) (nf : String) : Bool :=
  (match r.match.type with | .nf input _ => input == nf | _ => false) ||
  (match r.action.type with | .networkFunction nfId _ => nfId == nf | _ => false)

namespace Graph

open KeyedList

/-- The rules and the network functions of a graph as `addRule` and `addVNF` collect them. -/
structure Distinct (g : Graph) : Prop where
  rules : (g.rules.map Rule.key).Nodup
  vnfs : (g.vnfs.map VNFs.key).Nodup

/-- A rule that the graph has after an update. -/
def Kept (g new : Graph) (r : Rule) : Prop :=
  r ∈ g.rules ∧ r.ruleID ∈ new.rules.map Rule.ruleID ∨
    r ∈ new.rules ∧ r.ruleID ∉ g.rules.map Rule.ruleID

/-- A network function that an update takes out: it is not requested, or without one of its
ports. -/
def TakenOut (g new : Graph) (v : VNFs) : Prop :=
  v ∈ g.vnfs ∧ ∀ w ∈ new.vnfs, w.id = v.id → w.name = v.name →
    ∃ p ∈ v.ports, p.id ∉ w.ports.map VnfPort.id

/-! ## The rounds of the loops -/

section Rounds

variable {g : Graph}

theorem stillUsedEndpointInterface_of_mem {ep : EndPointInterface} (h : ep ∈ g.endPointsInterface) :
    g.stillUsedEndpointInterface ep = .ok (g.rules.any (·.refersToPort ep.interface)) := by
  have hfound : g.endPointsInterface.any (· == ep) = true := by simpa using h
  simp only [stillUsedEndpointInterface, hfound, Abort.assert, if_true]
  rfl

theorem stillUsedVNF_of_mem {v : VNFs} (h : v.key ∈ g.vnfs.map VNFs.key) :
    g.stillUsedVNF v = .ok (g.rules.any (·.refersToNF v.name)) := by
  have hfound : g.vnfs.any (fun w => v.key == w.key) = true := by
    obtain ⟨w, hw, hkey⟩ := mem_map.mp h
    exact List.any_eq_true.mpr ⟨w, hw, by simp [hkey]⟩
  simp only [stillUsedVNF, hfound, Abort.assert, if_true]
  rfl

theorem removeUnusedInterface_eq {ep : EndPointInterface} {rest : List EndPointInterface}
    (herase : eraseKey id ep g.endPointsInterface = some rest) :
    g.removeUnusedInterface ep =
      if g.rules.any (·.refersToPort ep.interface) then .error .assertion
      else .ok { g with endPointsInterface := rest } := by
  obtain ⟨x, l₁, l₂, hfind, hsplit, -⟩ := eraseKey_split herase
  have hmem : ep ∈ g.endPointsInterface := by
    have hx : x = ep := by simpa using List.find?_some hfind
    rw [hsplit, hx]
    simp
  simp only [removeUnusedInterface, stillUsedEndpointInterface_of_mem hmem, removeEndPointInterface,
    herase]
  rfl

theorem removeUnusedVNF_eq {v : VNFs} {rest : List VNFs}
    (herase : eraseKey VNFs.key v.key g.vnfs = some rest) :
    g.removeUnusedVNF v =
      if g.rules.any (·.refersToNF v.name) then .error .assertion
      else .ok { g with vnfs := rest } := by
  obtain ⟨x, l₁, l₂, hfind, hsplit, -⟩ := eraseKey_split herase
  have hmem : v.key ∈ g.vnfs.map VNFs.key := by
    have hx : x.key = v.key := by simpa using List.find?_some hfind
    rw [hsplit, ← hx]
    simp
  simp only [removeUnusedVNF, stillUsedVNF_of_mem hmem, herase]
  rfl

end Rounds

/-! ## The loops -/

variable {g : Graph}

theorem removeRules_returns {rs : List Rule} (h : Erasable Rule.key (rs.map Rule.key) g.rules) :
    ∃ g' infos, removeRules rs g = .ok (g', infos) := by
  induction rs generalizing g with
  | nil => exact ⟨g, [], rfl⟩
  | cons r rs ih =>
    obtain ⟨rest, herase, hrest⟩ := Erasable.eraseKey h
    obtain ⟨rule, l₁, l₂, hfind, -, -⟩ := eraseKey_split herase
    have hremove : g.removeRuleFromID r.ruleID =
        .ok ({ g with rules := rest }, rule.action.removedInfo) := by
      simp only [removeRuleFromID, show g.rules.find? (fun q => q.ruleID = r.ruleID) = some rule from
        hfind, show eraseKey Rule.key r.ruleID g.rules = some rest from herase]
      rfl
    obtain ⟨g', infos, hloop⟩ := ih (g := { g with rules := rest }) hrest
    refine ⟨g', rule.action.removedInfo :: infos, ?_⟩
    simp only [removeRules, hremove]
    simp [hloop]

/-- A loop that erases pieces of one kind from the graph, each of them unless it is used. -/
theorem eraseLoop_returns_iff {β κ : Type} [DecidableEq κ] {key : β → κ} (get : Graph → List β)
    (set : List β → Graph → Graph) (used : Graph → β → Bool) {f : Graph → β → Except Abort Graph}
    (hget : ∀ l g, get (set l g) = l) (hused : ∀ l g e, used (set l g) e = used g e)
    (hf : ∀ g e rest, eraseKey key (key e) (get g) = some rest →
      f g e = if used g e then .error .assertion else .ok (set rest g)) {l : List β}
    (h : Erasable key (l.map key) (get g)) :
    (∃ g', l.foldlM f g = .ok g') ↔ ∀ e ∈ l, used g e = false := by
  refine Abort.foldlM_returns_iff (I := fun l s => Erasable key (l.map key) (get s) ∧
    ∀ e, used s e = used g e) ?_ ?_ l g ⟨h, fun _ => rfl⟩
  · intro e l s hs
    obtain ⟨herasable, hsame⟩ := hs
    obtain ⟨rest, herase, -⟩ := Erasable.eraseKey herasable
    rw [hf s e rest herase, hsame e]
    cases used g e <;> simp
  · intro e l s s' hs hstep
    obtain ⟨herasable, hsame⟩ := hs
    obtain ⟨rest, herase, hrest⟩ := Erasable.eraseKey herasable
    rw [hf s e rest herase] at hstep
    split at hstep
    · cases hstep
    · cases hstep
      refine ⟨?_, fun e' => (hused rest s e').trans (hsame e')⟩
      rw [hget]
      exact hrest

/-- The pieces that are to go are pieces of the graph, each listed once. -/
structure Within (other g : Graph) : Prop where
  rules : Erasable Rule.key (other.rules.map Rule.key) g.rules
  interfaces : Erasable id (other.endPointsInterface.map id) g.endPointsInterface
  gre : Erasable EndPointGre.key (other.endPointsGre.map EndPointGre.key) g.endPointsGre
  internal : Erasable id (other.endPointsInternal.map id) g.endPointsInternal
  vlan : Erasable id (other.endPointsVlan.map id) g.endPointsVlan
  vnfs : Erasable VNFs.key (other.vnfs.map VNFs.key) g.vnfs

section Loops

variable {g : Graph}

theorem removeInterfaces_returns_iff {eps : List EndPointInterface}
    (h : Erasable id (eps.map id) g.endPointsInterface) :
    (∃ g', eps.foldlM removeUnusedInterface g = .ok g') ↔
      ∀ ep ∈ eps, g.rules.any (·.refersToPort ep.interface) = false :=
  eraseLoop_returns_iff endPointsInterface (fun l g => { g with endPointsInterface := l })
    (fun g ep => g.rules.any (·.refersToPort ep.interface))
    (fun _ _ => rfl) (fun _ _ _ => rfl) (fun _ _ _ herase => removeUnusedInterface_eq herase) h

theorem removeEndPointsGre_returns {eps : List EndPointGre}
    (h : Erasable EndPointGre.key (eps.map EndPointGre.key) g.endPointsGre) :
    ∃ g', eps.foldlM removeEndPointGre g = .ok g' := by
  refine (eraseLoop_returns_iff endPointsGre (fun l g => { g with endPointsGre := l })
    (fun _ _ => false) (fun _ _ => rfl) (fun _ _ _ => rfl) ?_ h).mpr fun _ _ => rfl
  intro g e rest herase
  simp only [removeEndPointGre, herase]
  rfl

theorem removeEndPointsInternal_returns {eps : List EndPointInternal}
    (h : Erasable id (eps.map id) g.endPointsInternal) :
    ∃ g', eps.foldlM removeEndPointInternal g = .ok g' := by
  refine (eraseLoop_returns_iff endPointsInternal (fun l g => { g with endPointsInternal := l })
    (fun _ _ => false) (fun _ _ => rfl) (fun _ _ _ => rfl) ?_ h).mpr fun _ _ => rfl
  intro g e rest herase
  simp only [removeEndPointInternal, show eraseKey id e g.endPointsInternal = some rest from herase]
  rfl

theorem removeEndPointsVlan_returns {eps : List EndPointVlan}
    (h : Erasable id (eps.map id) g.endPointsVlan) :
    ∃ g', eps.foldlM removeEndPointVlan g = .ok g' := by
  refine (eraseLoop_returns_iff endPointsVlan (fun l g => { g with endPointsVlan := l })
    (fun _ _ => false) (fun _ _ => rfl) (fun _ _ _ => rfl) ?_ h).mpr fun _ _ => rfl
  intro g e rest herase
  simp only [removeEndPointVlan, show eraseKey id e g.endPointsVlan = some rest from herase]
  rfl

theorem removeVNFs_returns_iff {vs : List VNFs}
    (h : Erasable VNFs.key (vs.map VNFs.key) g.vnfs) :
    (∃ g', vs.foldlM removeUnusedVNF g = .ok g') ↔
      ∀ v ∈ vs, g.rules.any (·.refersToNF v.name) = false :=
  eraseLoop_returns_iff vnfs (fun l g => { g with vnfs := l })
    (fun g v => g.rules.any (·.refersToNF v.name))
    (fun _ _ => rfl) (fun _ _ _ => rfl) (fun _ _ _ herase => removeUnusedVNF_eq herase) h

end Loops

/-- A removal completes exactly when no remaining rule refers to an interface that goes, or to
the name of a network function that goes. -/
theorem removeGraphFromGraph_returns_iff {other : Graph} (h : Within other g) :
    ∃ rest, eraseKeys Rule.key (other.rules.map Rule.key) g.rules = some rest ∧
      ((∃ g' infos, g.removeGraphFromGraph other = .ok (g', infos)) ↔
        (∀ ep ∈ other.endPointsInterface, rest.any (·.refersToPort ep.interface) = false) ∧
          ∀ v ∈ other.vnfs, rest.any (·.refersToNF v.name) = false) := by
  obtain ⟨g₁, infos, hrules⟩ := removeRules_returns h.rules
  obtain ⟨rest, herase, rfl⟩ := removeRules_ok hrules
  refine ⟨rest, herase, ?_⟩
  have hinterfaces := removeInterfaces_returns_iff (g := { g with rules := rest }) h.interfaces
  -- the loops in between keep the rules and the network functions
  have hvnfs {g₂ g₃ g₄ g₅ : Graph}
      (h₂ : other.endPointsInterface.foldlM removeUnusedInterface { g with rules := rest } = .ok g₂)
      (h₃ : other.endPointsGre.foldlM removeEndPointGre g₂ = .ok g₃)
      (h₄ : other.endPointsInternal.foldlM removeEndPointInternal g₃ = .ok g₄)
      (h₅ : other.endPointsVlan.foldlM removeEndPointVlan g₄ = .ok g₅) :
      (∃ g', other.vnfs.foldlM removeUnusedVNF g₅ = .ok g') ↔
        ∀ v ∈ other.vnfs, rest.any (·.refersToNF v.name) = false := by
    obtain ⟨a, -, rfl⟩ := removeInterfaces_ok h₂
    obtain ⟨b, -, rfl⟩ := removeEndPointsGre_ok h₃
    obtain ⟨c, -, rfl⟩ := removeEndPointsInternal_ok h₄
    obtain ⟨d, -, rfl⟩ := removeEndPointsVlan_ok h₅
    exact removeVNFs_returns_iff (g := { g with
      rules := rest, endPointsInterface := a, endPointsGre := b, endPointsInternal := c,
      endPointsVlan := d }) h.vnfs
  simp only [removeGraphFromGraph, Abort.bind_eq_ok, Abort.pure_eq_ok, Prod.exists, Prod.mk.injEq,
    hrules, Except.ok.injEq]
  constructor
  · intro hreturns
    obtain ⟨g', infos', g₁, infos₁, ⟨rfl, rfl⟩, g₂, h₂, g₃, h₃, g₄, h₄, g₅, h₅, g₆, h₆, -⟩ := hreturns
    exact ⟨hinterfaces.mp ⟨g₂, h₂⟩, (hvnfs h₂ h₃ h₄ h₅).mp ⟨g₆, h₆⟩⟩
  · intro hunused
    obtain ⟨g₂, h₂⟩ := hinterfaces.mpr hunused.1
    obtain ⟨a, -, ha⟩ := removeInterfaces_ok h₂
    obtain ⟨g₃, h₃⟩ := removeEndPointsGre_returns (g := g₂) (by rw [ha]; exact h.gre)
    obtain ⟨b, -, hb⟩ := removeEndPointsGre_ok h₃
    obtain ⟨g₄, h₄⟩ := removeEndPointsInternal_returns (g := g₃) (by rw [hb, ha]; exact h.internal)
    obtain ⟨c, -, hc⟩ := removeEndPointsInternal_ok h₄
    obtain ⟨g₅, h₅⟩ := removeEndPointsVlan_returns (g := g₄) (by rw [hc, hb, ha]; exact h.vlan)
    obtain ⟨g₆, h₆⟩ := (hvnfs h₂ h₃ h₄ h₅).mpr hunused.2
    exact ⟨g₆, infos, _, infos, ⟨rfl, rfl⟩, g₂, h₂, g₃, h₃, g₄, h₄, g₅, h₅, g₆, h₆, rfl, rfl⟩

/-! ## Updates -/

/-- What the other graph lacks can be taken out. -/
theorem calculateDiff_within {new : Graph} (ID : String) (hn : (new.vnfs.map VNFs.key).Nodup) :
    Within (new.calculateDiff g ID) g := by
  refine ⟨erasable_missing _ _, erasable_missing _ _, erasable_missing _ _, erasable_missing _ _,
    erasable_missing _ _, ?_⟩
  obtain ⟨hnodup, hkeys, -⟩ := foldl_addVNFTo (g.vnfs.filterMap (diffVNF new.vnfs)) [] (by simp)
  refine ⟨hnodup, fun k hk => ?_⟩
  rw [calculateDiff, hkeys, mem_keys_diff hn] at hk
  rcases hk with hk | hk
  · cases hk
  · obtain ⟨it, hit, rfl, -⟩ := hk
    exact mem_map_of_mem hit

section Update

variable {g new : Graph}

variable {ID : String}

/-- The GRE endpoints of a difference are new. -/
theorem mem_diffGre {ep : EndPointGre} (h : ep ∈ (g.calculateDiff new ID).endPointsGre) :
    ep ∈ new.endPointsGre ∧ ep.key ∉ g.endPointsGre.map EndPointGre.key := by
  obtain ⟨-, hmem⟩ := pushAll_spec (missing EndPointGre.key g.endPointsGre new.endPointsGre)
    (show (([] : List EndPointGre).map EndPointGre.key).Nodup from List.nodup_nil)
  exact mem_missing.mp ((hmem ep h).resolve_left not_mem_nil)

/-- Nothing is missing from a graph that has the network functions of the other with their
ports. -/
theorem calculateDiff_vnfs_eq_nil (hg : (g.vnfs.map VNFs.key).Nodup)
    (hkeys : ∀ k ∈ new.vnfs.map VNFs.key, k ∈ g.vnfs.map VNFs.key)
    (hports : ∀ k p, HasPort new.vnfs k p → HasPort g.vnfs k p) :
    (g.calculateDiff new ID).vnfs = [] := by
  obtain ⟨-, hdiff, -⟩ := foldl_addVNFTo (new.vnfs.filterMap (diffVNF g.vnfs)) [] (by simp)
  have hnone : (g.calculateDiff new ID).vnfs.map VNFs.key = [] := by
    refine List.eq_nil_iff_forall_not_mem.mpr fun k hk => ?_
    obtain ⟨it, hit, rfl, hunknown | ⟨p, hp, hlost⟩⟩ :=
      (mem_keys_diff hg).mp (((hdiff k).mp hk).resolve_left not_mem_nil)
    · exact hunknown (hkeys it.key (mem_map_of_mem hit))
    · exact hlost (hports it.key p ⟨it, hit, rfl, hp⟩)
  exact map_eq_nil_iff.mp hnone

/-- A difference that adds nothing to a graph has no rule, GRE endpoint or network function. -/
theorem eq_nil_of_addGraphToGraph_eq (hg : g.Distinct) :
    let diff := g.calculateDiff new ID
    (g.addGraphToGraph diff).1 = g →
      diff.rules = [] ∧ diff.endPointsGre = [] ∧ diff.vnfs = [] := by
  intro diff hsame
  refine ⟨?_, ?_, ?_⟩
  · have hrules : (g.addGraphToGraph diff).1.rules = g.rules ++ diff.rules :=
      (addGraphToGraph_diff g new ID).2.1
    rw [hsame] at hrules
    simpa using hrules
  · have hgre : (g.addGraphToGraph diff).1.endPointsGre =
        pushAll EndPointGre.key g.endPointsGre diff.endPointsGre :=
      congrArg (fun added => added.1.endPointsGre) (addGraphToGraph_diff_eq g new ID)
    rw [hsame] at hgre
    refine List.eq_nil_iff_forall_not_mem.mpr fun a ha => ?_
    have hknown : a.key ∈ g.endPointsGre.map EndPointGre.key := by
      rw [hgre, mem_keys_pushAll]
      exact .inr (mem_map_of_mem ha)
    exact (mem_diffGre ha).2 hknown
  · obtain ⟨-, hkeys, hports⟩ := addGraphToGraph_vnfs new ID hg.vnfs
    rw [show (g.addGraphToGraph (g.calculateDiff new ID)).1 = g from hsame] at hkeys hports
    exact calculateDiff_vnfs_eq_nil hg.vnfs (fun k hk => (hkeys k).mpr (.inr hk))
      fun k p hp => (hports k p).mpr (.inr hp)

/-- The interfaces that go are those of the deployed graph that are not requested. -/
theorem mem_interfaces_removed (ID : String) {ep : EndPointInterface} :
    let grown := (g.addGraphToGraph (g.calculateDiff new ID)).1
    ep ∈ (new.calculateDiff grown ID).endPointsInterface ↔
      ep ∈ g.endPointsInterface ∧ ep ∉ new.endPointsInterface := by
  intro grown
  have hmem {xs ys : List EndPointInterface} {e : EndPointInterface} :
      e ∈ pushAll id xs ys ↔ e ∈ xs ∨ e ∈ ys := by
    have hkeys : e ∈ (pushAll id xs ys).map id ↔ e ∈ xs.map id ∨ e ∈ ys.map id := mem_keys_pushAll
    simpa only [map_id] using hkeys
  have hgrown : ep ∈ grown.endPointsInterface ↔
      ep ∈ g.endPointsInterface ∨ ep ∈ new.endPointsInterface ∧ ep ∉ g.endPointsInterface := by
    rw [show grown.endPointsInterface = _ from
      congrArg (fun added => added.1.endPointsInterface) (addGraphToGraph_diff_eq g new ID)]
    simp only [calculateDiff, hmem, mem_missing, map_id, id_eq, not_mem_nil, false_or]
  simp only [calculateDiff, hmem, mem_missing, map_id, id_eq, not_mem_nil, false_or, hgrown]
  constructor
  · intro h
    exact ⟨h.1.resolve_right fun hadded => h.2 hadded.1, h.2⟩
  · intro h
    exact ⟨.inl h.1, h.2⟩

/-- The keys of the network functions that go. -/
theorem mem_keys_takenOut (ID : String) (hg : (g.vnfs.map VNFs.key).Nodup)
    (hn : (new.vnfs.map VNFs.key).Nodup) {k : String × String} :
    let grown := (g.addGraphToGraph (g.calculateDiff new ID)).1
    k ∈ (new.calculateDiff grown ID).vnfs.map VNFs.key ↔ ∃ v, TakenOut g new v ∧ v.key = k := by
  intro grown
  obtain ⟨hnodup, hkeys, hports⟩ := addGraphToGraph_vnfs new ID hg
  have hstays (hk : k ∈ grown.vnfs.map VNFs.key) := mem_keys_removed ID hnodup hn hk
  constructor
  · intro hk
    have hgrown : k ∈ grown.vnfs.map VNFs.key := (calculateDiff_within ID hn).vnfs.occur k hk
    have hlost : k ∈ new.vnfs.map VNFs.key → ∃ p, HasPort g.vnfs k p ∧ ¬ HasPort new.vnfs k p := by
      intro hnew
      by_contra hnone
      refine (hstays hgrown).mpr ⟨hnew, fun p hp => ?_⟩ hk
      by_contra hmissing
      exact hnone ⟨p, ((hports k p).mp hp).resolve_right hmissing, hmissing⟩
    have hold : k ∈ g.vnfs.map VNFs.key := by
      refine ((hkeys k).mp hgrown).elim id fun hnew => ?_
      obtain ⟨p, ⟨v, hv, hkey, -⟩, -⟩ := hlost hnew
      exact mem_map.mpr ⟨v, hv, hkey⟩
    obtain ⟨v, hv, rfl⟩ := mem_map.mp hold
    refine ⟨v, ⟨hv, fun w hw hid hname => ?_⟩, rfl⟩
    have hkey : w.key = v.key := Prod.ext hid hname
    obtain ⟨p, hp, hmissing⟩ := hlost (hkey ▸ mem_map_of_mem hw)
    rw [← hkey, hasPort_iff_of_mem hn hw] at hmissing
    rw [hasPort_iff_of_mem hg hv] at hp
    obtain ⟨port, hport, rfl⟩ := mem_map.mp hp
    exact ⟨port, hport, hmissing⟩
  · intro h
    obtain ⟨v, ⟨hv, hlost⟩, rfl⟩ := h
    have hgrown := (hkeys v.key).mpr (.inl (mem_map_of_mem hv))
    by_contra hkept
    obtain ⟨hnew, hall⟩ := (hstays hgrown).mp hkept
    obtain ⟨w, hw, hkey⟩ := mem_map.mp hnew
    obtain ⟨p, hp, hmissing⟩ := hlost w hw (congrArg Prod.fst hkey) (congrArg Prod.snd hkey)
    refine hmissing ((hasPort_iff_of_mem hn hw).mp ?_)
    rw [hkey]
    exact hall p.id ((hports v.key p.id).mpr (.inl ⟨v, hv, rfl, mem_map_of_mem hp⟩))

/-- An update changes the rules, the GRE endpoints or the network functions whenever it adds or
removes one. -/
theorem eq_nil_of_unchanged_update {infos : List RuleRemovedInfo} (hg : g.Distinct)
    (hn : new.Distinct) :
    let diff := g.calculateDiff new ID
    let grown := (g.addGraphToGraph diff).1
    let stale := new.calculateDiff grown ID
    grown.removeGraphFromGraph stale = .ok (g, infos) →
      (diff.rules = [] ∧ diff.endPointsGre = [] ∧ diff.vnfs = []) ∧
      stale.rules = [] ∧ stale.endPointsGre = [] ∧ stale.vnfs = [] := by
  intro diff grown stale hremove
  obtain ⟨-, hrules, -, hgre, -, -, hvnfs, -, -⟩ := removeGraphFromGraph_erased hremove
  have hgrownRules : grown.rules = g.rules ++ diff.rules := (addGraphToGraph_diff g new ID).2.1
  have hgrownGre : grown.endPointsGre = pushAll EndPointGre.key g.endPointsGre diff.endPointsGre :=
    congrArg (fun added => added.1.endPointsGre) (addGraphToGraph_diff_eq g new ID)
  have hrulesNil : diff.rules = [] ∧ stale.rules.map Rule.key = [] := by
    refine eq_nil_of_unchanged diff.rules hrules (fun a ha => ?_) (fun hnone => ?_) fun a ha => ?_
    · rw [hgrownRules]
      exact mem_map_of_mem (List.mem_append_right _ ha)
    · rw [hgrownRules, hnone, List.append_nil]
    · obtain ⟨hnew, hfresh⟩ := (calculateDiff_rules_fresh g new ID).2 a ha
      exact ⟨hfresh, notMem_keys_missing (mem_map_of_mem hnew)⟩
  have hgreNil : diff.endPointsGre = [] ∧ stale.endPointsGre.map EndPointGre.key = [] := by
    refine eq_nil_of_unchanged diff.endPointsGre hgre (fun a ha => ?_) (fun hnone => ?_)
      fun a ha => ?_
    · rw [hgrownGre, mem_keys_pushAll]
      exact .inr (mem_map_of_mem ha)
    · rw [hgrownGre, hnone]
      rfl
    · obtain ⟨hnew, hfresh⟩ := mem_diffGre ha
      exact ⟨hfresh, notMem_keys_missing (mem_map_of_mem hnew)⟩
  -- the two graphs have the same network functions with the same ports
  obtain ⟨-, hkeys, hports⟩ := vnfs_of_eraseKeys ID hg.vnfs hn.vnfs hvnfs
  have hdiffNil : diff.vnfs = [] := by
    have hknown (k : String × String) (hk : k ∈ new.vnfs.map VNFs.key) : k ∈ g.vnfs.map VNFs.key := by
      refine (hkeys k).mpr ⟨hk, fun p hp => ?_⟩
      exact (hports k hp.mem_keys p).mp hp
    refine calculateDiff_vnfs_eq_nil hg.vnfs hknown fun k p hp => ?_
    exact (hports k (hknown k hp.mem_keys) p).mpr hp
  have hstaleNil : stale.vnfs = [] := by
    have hlength := eraseKeys_length hvnfs
    rw [show grown.vnfs = _ from (addGraphToGraph_diff g new ID).2.2.1,
      show (g.calculateDiff new ID).vnfs = [] from hdiffNil, List.foldl_nil] at hlength
    exact map_eq_nil_iff.mp (List.eq_nil_of_length_eq_zero (Nat.left_eq_add.mp hlength.symm))
  exact ⟨⟨hrulesNil.1, hgreNil.1, hdiffNil⟩, map_eq_nil_iff.mp hrulesNil.2,
    map_eq_nil_iff.mp hgreNil.2, hstaleNil⟩

/-- No assertion of an update fails exactly when no rule it keeps refers to an interface that is
no longer requested under the same endpoint, nor by identifier to the name of a network function
that goes. -/
theorem updateTo_returns_iff (hg : g.Distinct) (hn : new.Distinct) :
    (∃ g', g.updateTo new = .ok g') ↔
      (∀ ep ∈ g.endPointsInterface, ep ∉ new.endPointsInterface →
        ∀ r, Kept g new r → r.refersToPort ep.interface = false) ∧
      ∀ v, TakenOut g new v → ∀ r, Kept g new r → r.refersToNF v.name = false := by
  obtain ⟨rest, herase, hreturns⟩ :=
    removeGraphFromGraph_returns_iff (calculateDiff_within g.ID hn.vnfs)
  have hkept {r : Rule} : r ∈ rest ↔ Kept g new r :=
    mem_reconcile_iff hg.rules hn.rules (reconcile_of_eraseKeys hg.rules hn.rules herase)
  have hnone {p : Rule → Bool} : rest.any p = false ↔ ∀ r, Kept g new r → p r = false := by
    simp only [List.any_eq_false, Bool.not_eq_true, hkept]
  have hID : (g.addGraphToGraph (g.calculateDiff new g.ID)).1.ID = g.ID := addGraphToGraph_ID _ _
  have hupdate : (∃ g', g.updateTo new = .ok g') ↔ ∃ g' infos,
      (g.addGraphToGraph (g.calculateDiff new g.ID)).1.removeGraphFromGraph
        (new.calculateDiff (g.addGraphToGraph (g.calculateDiff new g.ID)).1 g.ID) =
          .ok (g', infos) := by
    simp only [updateTo, hID, Abort.bind_eq_ok, Abort.pure_eq_ok, Prod.exists]
    constructor
    · intro h
      obtain ⟨g', g₂, infos, hrem, -⟩ := h
      exact ⟨g₂, infos, hrem⟩
    · intro h
      obtain ⟨g₂, infos, hrem⟩ := h
      exact ⟨g₂, g₂, infos, hrem, rfl⟩
  rw [hupdate, hreturns]
  refine and_congr ?_ ?_
  · simp only [mem_interfaces_removed, hnone, and_imp]
  · constructor
    · intro h v hv
      obtain ⟨d, hd, hkey⟩ := List.mem_map.mp ((mem_keys_takenOut g.ID hg.vnfs hn.vnfs).mpr ⟨v, hv, rfl⟩)
      rw [show v.name = d.name from (congrArg Prod.snd hkey).symm]
      exact hnone.mp (h d hd)
    · intro h d hd
      obtain ⟨v, hv, hkey⟩ :=
        (mem_keys_takenOut g.ID hg.vnfs hn.vnfs).mp (List.mem_map_of_mem hd)
      rw [show d.name = v.name from (congrArg Prod.snd hkey).symm]
      exact hnone.mpr (h v hv)

/-- Two interface endpoints, the first under the given name, and rules both ways. -/
def interfaces (name : String) : Graph where
  ID := "g"
  rules := [{ «match» := { type := .port "eth0" }, action := { type := .port "eth1" },
              ruleID := "1", priority := 1 },
            { «match» := { type := .port "eth1" }, action := { type := .port "eth0" },
              ruleID := "2", priority := 1 }]
  endPointsInterface := [{ id := "1", name := name, interface := "eth0" },
                         { id := "2", name := "wan", interface := "eth1" }]

/-- Giving an endpoint another name fails an assertion: the endpoint of the old name goes, and the
rules still use its interface. -/
theorem updateTo_renamed_interface_aborts :
    (interfaces "lan").updateTo (interfaces "office") = .error .assertion := by
  decide

/-- Dropping all rules with the endpoints. -/
theorem updateTo_returns_dropped :
    (∃ g', (interfaces "lan").updateTo { ID := "g" } = .ok g') ∧
      ∀ r, Kept (interfaces "lan") { ID := "g" } r → r.refersToPort "eth0" = false := by
  have hreturns : ∃ g', (interfaces "lan").updateTo { ID := "g" } = .ok g' := ⟨{ ID := "g" }, by decide⟩
  have hunused := (updateTo_returns_iff ⟨by decide, by decide⟩ ⟨by decide, by decide⟩).mp hreturns
  exact ⟨hreturns, hunused.1 { id := "1", name := "lan", interface := "eth0" } (by decide) (by decide)⟩

/-! ## References to network functions -/

/-- The test for the use of a network function finds the rules that refer to its identifier. -/
def UsedByIdentifier (g : Graph) (v : VNFs) : Prop :=
  g.stillUsedVNF v = .ok true ↔ ∃ r ∈ g.rules, r.refersToNF v.id = true

/-- No rule refers to a network function that is gone. -/
def NoDangling (g g' : Graph) : Prop :=
  ∀ v ∈ g.vnfs, v.key ∉ g'.vnfs.map VNFs.key → ∀ r ∈ g'.rules, r.refersToNF v.id = false

theorem usedByIdentifier_iff {v : VNFs} (hv : v ∈ g.vnfs) :
    UsedByIdentifier g v ↔
      ((∃ r ∈ g.rules, r.refersToNF v.name = true) ↔ ∃ r ∈ g.rules, r.refersToNF v.id = true) := by
  rw [UsedByIdentifier, stillUsedVNF_of_mem (mem_map_of_mem hv)]
  simp only [Except.ok.injEq, List.any_eq_true]

/-- The network functions of the deployed graph that are gone after an update. -/
theorem takenOut_iff {g' : Graph} (hg : g.Distinct) (hn : new.Distinct)
    (h : g.updateTo new = .ok g') {v : VNFs} (hv : v ∈ g.vnfs) :
    v.key ∉ g'.vnfs.map VNFs.key ↔ TakenOut g new v := by
  obtain ⟨-, hkeys, -⟩ := updateTo_vnfs hg.vnfs hn.vnfs h
  rw [hkeys]
  constructor
  · intro hgone
    refine ⟨hv, fun w hw hid hname => ?_⟩
    have hkey : w.key = v.key := Prod.ext hid hname
    by_contra hall
    refine hgone ⟨hkey ▸ mem_map_of_mem hw, fun p hp => ?_⟩
    rw [hasPort_iff_of_mem hg.vnfs hv] at hp
    obtain ⟨port, hport, rfl⟩ := mem_map.mp hp
    rw [← hkey, hasPort_iff_of_mem hn.vnfs hw]
    by_contra hmissing
    exact hall ⟨port, hport, hmissing⟩
  · intro hout hstays
    obtain ⟨w, hw, hkey⟩ := mem_map.mp hstays.1
    obtain ⟨p, hp, hmissing⟩ := hout.2 w hw (congrArg Prod.fst hkey) (congrArg Prod.snd hkey)
    refine hmissing ((hasPort_iff_of_mem hn.vnfs hw).mp ?_)
    rw [hkey]
    exact hstays.2 p.id ⟨v, hv, rfl, mem_map_of_mem hp⟩

/-- An update that completes leaves no dangling reference exactly when no rule it keeps refers to
the identifier of a network function it takes out; and the test that should see to this is right
about a network function exactly when the rules refer to its name as they do to its identifier. -/
theorem updateTo_noDangling_iff {g' : Graph} (hg : g.Distinct) (hn : new.Distinct)
    (h : g.updateTo new = .ok g') :
    (NoDangling g g' ↔ ∀ v, TakenOut g new v → ∀ r, Kept g new r → r.refersToNF v.id = false) ∧
    ∀ (graph : Graph), ∀ v ∈ graph.vnfs, UsedByIdentifier graph v ↔
      ((∃ r ∈ graph.rules, r.refersToNF v.name = true) ↔
        ∃ r ∈ graph.rules, r.refersToNF v.id = true) := by
  have hkept {r : Rule} : r ∈ g'.rules ↔ Kept g new r :=
    mem_reconcile_iff hg.rules hn.rules (updateTo_rules hg.rules hn.rules h)
  refine ⟨?_, fun graph v hv => usedByIdentifier_iff hv⟩
  constructor
  · intro hdangling v hout r hr
    exact hdangling v hout.1 ((takenOut_iff hg hn h hout.1).mpr hout) r (hkept.mpr hr)
  · intro hunused v hv hgone r hr
    exact hunused v ((takenOut_iff hg hn h hv).mp hgone) r (hkept.mp hr)

/-- A firewall with the given ports behind `eth0`. -/
def behindFirewall (ports : List String) : Graph where
  ID := "g"
  rules := [{ «match» := { type := .port "eth0" },
              action := { type := .networkFunction "00000001" 1 }, ruleID := "1", priority := 1 }]
  vnfs := [{ id := "00000001", name := "firewall", ports := ports.map fun p => { id := p } }]

/-- Taking an unused port from the firewall erases the firewall, while the rule that sends to it
stays. -/
theorem updateTo_leaves_dangling_rule :
    (behindFirewall ["inout:0", "inout:1"]).updateTo (behindFirewall ["inout:0"]) =
        .ok { behindFirewall [] with vnfs := [] } ∧
      ¬ NoDangling (behindFirewall ["inout:0", "inout:1"]) { behindFirewall [] with vnfs := [] } ∧
      ¬ UsedByIdentifier (behindFirewall ["inout:0"])
        { id := "00000001", name := "firewall", ports := [] } := by
  refine ⟨by decide, fun h => ?_, fun h => ?_⟩
  · have := h _ List.mem_cons_self (by decide) _ List.mem_cons_self
    revert this
    decide
  · have := h.mpr ⟨_, List.mem_cons_self, by decide⟩
    revert this
    decide

/-- A way past the firewall. -/
def bypass : Graph where
  ID := "g"
  rules := [{ «match» := { type := .port "eth0" }, action := { type := .port "eth1" }, ruleID := "2", priority := 1 }]

/-- Adding a port to the firewall; and taking the firewall out with the rule that sends to it, while the
rule past it stays. -/
theorem updateTo_noDangling_grown :
    ((behindFirewall ["inout:0"]).updateTo (behindFirewall ["inout:0", "inout:1"]) =
        .ok (behindFirewall ["inout:0", "inout:1"]) ∧
      NoDangling (behindFirewall ["inout:0"]) (behindFirewall ["inout:0", "inout:1"])) ∧
    { behindFirewall ["inout:0"] with rules := (behindFirewall []).rules ++ bypass.rules }.updateTo bypass =
        .ok bypass ∧
      NoDangling (behindFirewall ["inout:0"]) bypass := by
  have hgrown : (behindFirewall ["inout:0"]).updateTo (behindFirewall ["inout:0", "inout:1"]) =
      .ok (behindFirewall ["inout:0", "inout:1"]) := by decide
  have hremoved : { behindFirewall ["inout:0"] with
      rules := (behindFirewall []).rules ++ bypass.rules }.updateTo bypass = .ok bypass := by decide
  refine ⟨⟨hgrown, (updateTo_noDangling_iff ⟨by decide, by decide⟩ ⟨by decide, by decide⟩
    hgrown).1.mpr fun v hout => ?_⟩, hremoved, (updateTo_noDangling_iff ⟨by decide, by decide⟩
    ⟨by decide, by decide⟩ hremoved).1.mpr fun v hout r hr => ?_⟩
  · -- the only network function is requested with all its ports
    obtain rfl := List.mem_singleton.mp hout.1
    obtain ⟨p, hp, hmissing⟩ := hout.2 _ List.mem_cons_self rfl rfl
    obtain rfl := List.mem_singleton.mp hp
    exact absurd (show _ ∈ _ by decide) hmissing
  · obtain rfl := List.mem_singleton.mp hout.1
    have hpast : ∀ r ∈ (behindFirewall []).rules ++ bypass.rules, r.ruleID ∈ bypass.rules.map Rule.ruleID →
        r.refersToNF "00000001" = false := by decide
    rcases hr with ⟨hr, hid⟩ | ⟨hr, -⟩
    · exact hpast r hr hid
    · exact hpast r (List.mem_append_right _ hr) (mem_map_of_mem hr)

end Update

end Graph

end UnOrchestrator.Highlevel
