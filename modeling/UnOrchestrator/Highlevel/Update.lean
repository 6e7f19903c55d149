import UnOrchestrator.Highlevel.Graph

/-!
# Updating a graph

An update is given as a whole new graph. The orchestrator computes what the new
graph has and the deployed one lacks (`calculateDiff`), adds it
(`addGraphToGraph`), computes the difference the other way round and removes it
(`removeGraphFromGraph`). `updateTo` is this sequence on the stored graph.

The module establishes what the sequence computes whenever it returns: on the rules it
is a keyed reconciliation (`updateTo_rules`), and the removed rules are reported with
their actions (`removeRules_infos`). Rules are compared by identifier and network
functions by identifier and name, so the result is the new graph only for updates that do
not change the contents behind a key.
-/

namespace UnOrchestrator.Highlevel.Graph

open Abort (bind_eq_ok orElse_eq_ok pure_eq_ok)

open KeyedList

/-! ## Difference -/

/-- `Graph::calculateDiffRules`: the rules of `other` that this graph does not have. -/
def calculateDiffRules (g other : Graph) : List Rule := missing Rule.key g.rules other.rules

/-- One round of the VNF loop of `Graph::calculateDiff`: an unknown VNF is taken whole, a
known one with only the ports it lacks, and not at all when it lacks none. -/
def diffVNF (alreadyThere : List VNFs) (it : VNFs) : Option VNFs :=
  match alreadyThere.find? (fun there => there.key = it.key) with
  | none => some it
  | some there =>
    let portsNeeded := missing VnfPort.id there.ports it.ports
    if portsNeeded.isEmpty then none else some { it with ports := portsNeeded }

/-- `Graph::calculateDiff`: the parts of `other` that are not in this graph, as a graph. Each
part enters the difference through its `add…` operation. -/
def calculateDiff (g other : Graph) (graphID : String) : Graph where
  ID := graphID
  rules := pushAll Rule.key [] (g.calculateDiffRules other)
  vnfs := (other.vnfs.filterMap (diffVNF g.vnfs)).foldl (fun vs v => addVNFTo v vs) []
  endPointsInterface := pushAll id [] (missing id g.endPointsInterface other.endPointsInterface)
  endPointsGre := pushAll EndPointGre.key []
    (missing EndPointGre.key g.endPointsGre other.endPointsGre)
  endPointsInternal := pushAll id [] (missing id g.endPointsInternal other.endPointsInternal)
  endPointsVlan := pushAll id [] (missing id g.endPointsVlan other.endPointsVlan)

/-! ## Addition -/

/-- The rule loop of `Graph::addGraphToGraph`, which stops at the first refused rule. -/
def addRules : List Rule → List Rule → List Rule × Bool
  | rules, [] => (rules, true)
  | rules, r :: rs =>
    if r.key ∈ rules.map Rule.key then (rules, false) else addRules (rules ++ [r]) rs

/-- `Graph::addGraphToGraph`. A refused rule ends the call before the other parts. -/
def addGraphToGraph (g other : Graph) : Graph × Bool :=
  match addRules g.rules other.rules with
  | (rules, false) => ({ g with rules := rules }, false)
  | (rules, true) =>
    ({ g with
        rules := rules
        endPointsInterface := pushAll id g.endPointsInterface other.endPointsInterface
        endPointsGre := pushAll EndPointGre.key g.endPointsGre other.endPointsGre
        endPointsInternal := pushAll id g.endPointsInternal other.endPointsInternal
        endPointsVlan := pushAll id g.endPointsVlan other.endPointsVlan
        vnfs := other.vnfs.foldl (fun vs v => addVNFTo v vs) g.vnfs }, true)

theorem addGraphToGraph_ID (g other : Graph) : (g.addGraphToGraph other).1.ID = g.ID := by
  unfold addGraphToGraph
  split <;> rfl

variable {g g' : Graph} {ID : String} {infos : List RuleRemovedInfo} {rs : List Rule}

theorem addGraphToGraph_endPointsInternal {other : Graph} (h : other.endPointsInternal = []) :
    (g.addGraphToGraph other).1.endPointsInternal = g.endPointsInternal := by
  unfold addGraphToGraph
  split
  · rfl
  · simp only [h, pushAll, List.foldl_nil]

/-! ## Removal -/

/-- The rule loop of `Graph::removeGraphFromGraph`, with the removal information in order. -/
def removeRules : List Rule → Graph → Except Abort (Graph × List RuleRemovedInfo)
  | [], g => .ok (g, [])
  | r :: rs, g => do
    let (g, info) ← g.removeRuleFromID r.ruleID
    let (g, infos) ← removeRules rs g
    return (g, info :: infos)

/-- One round of the interface loop: an interface that a rule still uses fails an assertion. -/
def removeUnusedInterface (g : Graph) (endpoint : EndPointInterface) : Except Abort Graph := do
  if ← g.stillUsedEndpointInterface endpoint then .error .assertion
  else g.removeEndPointInterface endpoint

/-- One round of the VNF loop. The VNF goes as a whole, whatever ports the difference lists
for it; one that counts as used fails an assertion. -/
def removeUnusedVNF (g : Graph) (vnf : VNFs) : Except Abort Graph := do
  if ← g.stillUsedVNF vnf then .error .assertion
  else
    let rest ← Abort.orElse .assertion (eraseKey VNFs.key vnf.key g.vnfs)
    return { g with vnfs := rest }

/-- `Graph::removeGraphFromGraph`. -/
def removeGraphFromGraph (g other : Graph) : Except Abort (Graph × List RuleRemovedInfo) := do
  let (g, toberemoved) ← removeRules other.rules g
  let g ← other.endPointsInterface.foldlM removeUnusedInterface g
  let g ← other.endPointsGre.foldlM removeEndPointGre g
  let g ← other.endPointsInternal.foldlM removeEndPointInternal g
  let g ← other.endPointsVlan.foldlM removeEndPointVlan g
  let g ← other.vnfs.foldlM removeUnusedVNF g
  return (g, toberemoved)

/-- What `GraphManager::updateGraph` does to the stored graph. -/
def updateTo (g new : Graph) : Except Abort Graph := do
  let g := (g.addGraphToGraph (g.calculateDiff new g.ID)).1
  let (g, _) ← g.removeGraphFromGraph (new.calculateDiff g g.ID)
  return g

/-! ## What an update that returns has done

The rule loop and the VNF loop each erase keys and leave the rest of the graph alone; the
endpoint loops touch neither rules nor VNFs. -/

theorem removeRuleFromID_ok {info : RuleRemovedInfo} (h : g.removeRuleFromID ID = .ok (g', info)) :
    ∃ rule rules, g.rules.find? (fun r => r.ruleID = ID) = some rule ∧
      eraseKey Rule.key ID g.rules = some rules ∧ g' = { g with rules := rules } ∧
      info = rule.action.removedInfo := by
  simp only [removeRuleFromID, bind_eq_ok, orElse_eq_ok, pure_eq_ok,
    Prod.mk.injEq] at h
  obtain ⟨rule, hfind, rules, herase, hg, hinfo⟩ := h
  exact ⟨rule, rules, hfind, herase, hg.symm, hinfo.symm⟩

theorem removeRules_ok (h : removeRules rs g = .ok (g', infos)) :
    ∃ rules, eraseKeys Rule.key (rs.map Rule.key) g.rules = some rules ∧
      g' = { g with rules := rules } := by
  induction rs generalizing g infos with
  | nil =>
    simp only [removeRules, Except.ok.injEq, Prod.mk.injEq] at h
    exact ⟨g.rules, rfl, h.1.symm⟩
  | cons r rs ih =>
    simp only [removeRules, bind_eq_ok, pure_eq_ok, Prod.exists, Prod.mk.injEq] at h
    obtain ⟨g₁, info, hr, g₂, infos', hrs, rfl, -⟩ := h
    obtain ⟨rule, rules₁, -, herase, rfl, -⟩ := removeRuleFromID_ok hr
    obtain ⟨rules₂, hrest, rfl⟩ := ih hrs
    refine ⟨rules₂, ?_, rfl⟩
    rw [List.map_cons, eraseKeys, show r.key = r.ruleID from rfl, herase]
    exact hrest

/-- Every rule stays or is reported with its action. -/
theorem removeRules_infos (h : removeRules rs g = .ok (g', infos)) :
    (∀ r ∈ g'.rules, r ∈ g.rules) ∧
      ∀ r ∈ g.rules, r ∈ g'.rules ∨ r.action.removedInfo ∈ infos := by
  induction rs generalizing g infos with
  | nil =>
    simp only [removeRules, Except.ok.injEq, Prod.mk.injEq] at h
    obtain ⟨rfl, -⟩ := h
    exact ⟨fun _ hr => hr, fun _ hr => .inl hr⟩
  | cons r rs ih =>
    simp only [removeRules, bind_eq_ok, pure_eq_ok, Prod.exists, Prod.mk.injEq] at h
    obtain ⟨g₁, info, hr, g₂, infos', hrs, rfl, rfl⟩ := h
    obtain ⟨rule, rules₁, hfind, herase, rfl, rfl⟩ := removeRuleFromID_ok hr
    obtain ⟨rule', l₁, l₂, hfind', hsplit, rfl⟩ := eraseKey_split herase
    obtain rfl : rule = rule' := Option.mem_unique hfind hfind'
    obtain ⟨hsub, hkept⟩ := ih hrs
    rw [hsplit]
    refine ⟨fun q hq => ?_, fun q hq => ?_⟩
    · rcases List.mem_append.mp (hsub q hq) with hq | hq
      · exact List.mem_append_left _ hq
      · exact List.mem_append_right _ (List.mem_cons_of_mem _ hq)
    · rcases List.mem_append.mp hq with hq | hq
      · exact (hkept q (List.mem_append_left _ hq)).imp id (List.mem_cons_of_mem _)
      · rcases List.mem_cons.mp hq with rfl | hq
        · exact .inr List.mem_cons_self
        · exact (hkept q (List.mem_append_right _ hq)).imp id (List.mem_cons_of_mem _)

/-- A loop that erases pieces of one kind by key changes the pieces of this kind only. -/
theorem eraseLoop_ok {β κ : Type} [DecidableEq κ] {key : β → κ} (get : Graph → List β)
    (set : List β → Graph → Graph) {f : Graph → β → Except Abort Graph}
    (hget : ∀ l g, get (set l g) = l) (hset : ∀ l l' g, set l (set l' g) = set l g)
    (hself : ∀ g, set (get g) g = g)
    (hf : ∀ g e g', f g e = .ok g' → ∃ rest, eraseKey key (key e) (get g) = some rest ∧ g' = set rest g)
    {l : List β} (h : l.foldlM f g = .ok g') :
    ∃ rest, eraseKeys key (l.map key) (get g) = some rest ∧ g' = set rest g := by
  induction l generalizing g with
  | nil =>
    simp only [List.foldlM_nil, pure_eq_ok] at h
    exact ⟨get g, rfl, h.symm.trans (hself g).symm⟩
  | cons e l ih =>
    simp only [List.foldlM_cons, bind_eq_ok] at h
    obtain ⟨g₁, he, hl⟩ := h
    obtain ⟨rest₁, herase, rfl⟩ := hf g e g₁ he
    obtain ⟨rest, hrest, rfl⟩ := ih hl
    rw [hget] at hrest
    refine ⟨rest, ?_, hset rest rest₁ g⟩
    rw [List.map_cons, eraseKeys, herase]
    exact hrest

section Loops

variable {g g' : Graph}

theorem removeInterfaces_ok {eps : List EndPointInterface}
    (h : eps.foldlM removeUnusedInterface g = .ok g') :
    ∃ rest, eraseKeys id (eps.map id) g.endPointsInterface = some rest ∧
      g' = { g with endPointsInterface := rest } := by
  refine eraseLoop_ok endPointsInterface (fun l g => { g with endPointsInterface := l })
    (fun _ _ => rfl) (fun _ _ _ => rfl) (fun _ => rfl) ?_ h
  intro g e g' hstep
  simp only [removeUnusedInterface, bind_eq_ok] at hstep
  obtain ⟨used, -, hstep⟩ := hstep
  split at hstep
  · cases hstep
  · simp only [removeEndPointInterface, bind_eq_ok, orElse_eq_ok, pure_eq_ok] at hstep
    obtain ⟨rest, herase, rfl⟩ := hstep
    exact ⟨rest, herase, rfl⟩

theorem removeEndPointsGre_ok {eps : List EndPointGre} (h : eps.foldlM removeEndPointGre g = .ok g') :
    ∃ rest, eraseKeys EndPointGre.key (eps.map EndPointGre.key) g.endPointsGre = some rest ∧
      g' = { g with endPointsGre := rest } := by
  refine eraseLoop_ok endPointsGre (fun l g => { g with endPointsGre := l })
    (fun _ _ => rfl) (fun _ _ _ => rfl) (fun _ => rfl) ?_ h
  intro g e g' hstep
  simp only [removeEndPointGre, bind_eq_ok, orElse_eq_ok, pure_eq_ok] at hstep
  obtain ⟨rest, herase, rfl⟩ := hstep
  exact ⟨rest, herase, rfl⟩

theorem removeEndPointsInternal_ok {eps : List EndPointInternal}
    (h : eps.foldlM removeEndPointInternal g = .ok g') :
    ∃ rest, eraseKeys id (eps.map id) g.endPointsInternal = some rest ∧
      g' = { g with endPointsInternal := rest } := by
  refine eraseLoop_ok endPointsInternal (fun l g => { g with endPointsInternal := l })
    (fun _ _ => rfl) (fun _ _ _ => rfl) (fun _ => rfl) ?_ h
  intro g e g' hstep
  simp only [removeEndPointInternal, bind_eq_ok, orElse_eq_ok, pure_eq_ok] at hstep
  obtain ⟨rest, herase, rfl⟩ := hstep
  exact ⟨rest, herase, rfl⟩

theorem removeEndPointsVlan_ok {eps : List EndPointVlan}
    (h : eps.foldlM removeEndPointVlan g = .ok g') :
    ∃ rest, eraseKeys id (eps.map id) g.endPointsVlan = some rest ∧
      g' = { g with endPointsVlan := rest } := by
  refine eraseLoop_ok endPointsVlan (fun l g => { g with endPointsVlan := l })
    (fun _ _ => rfl) (fun _ _ _ => rfl) (fun _ => rfl) ?_ h
  intro g e g' hstep
  simp only [removeEndPointVlan, bind_eq_ok, orElse_eq_ok, pure_eq_ok] at hstep
  obtain ⟨rest, herase, rfl⟩ := hstep
  exact ⟨rest, herase, rfl⟩

theorem removeVNFs_ok {vs : List VNFs} (h : vs.foldlM removeUnusedVNF g = .ok g') :
    ∃ vnfs, eraseKeys VNFs.key (vs.map VNFs.key) g.vnfs = some vnfs ∧
      g' = { g with vnfs := vnfs } := by
  refine eraseLoop_ok vnfs (fun l g => { g with vnfs := l })
    (fun _ _ => rfl) (fun _ _ _ => rfl) (fun _ => rfl) ?_ h
  intro g v g' hstep
  simp only [removeUnusedVNF, bind_eq_ok] at hstep
  obtain ⟨used, -, hstep⟩ := hstep
  split at hstep
  · cases hstep
  · simp only [bind_eq_ok, orElse_eq_ok, pure_eq_ok] at hstep
    obtain ⟨vnfs, herase, rfl⟩ := hstep
    exact ⟨vnfs, herase, rfl⟩

end Loops

/-- What a removal that returns has done: the pieces of the other graph were erased by key. -/
structure Erased (other g g' : Graph) : Prop where
  rules : eraseKeys Rule.key (other.rules.map Rule.key) g.rules = some g'.rules
  interface : eraseKeys id (other.endPointsInterface.map id) g.endPointsInterface =
    some g'.endPointsInterface
  gre : eraseKeys EndPointGre.key (other.endPointsGre.map EndPointGre.key) g.endPointsGre =
    some g'.endPointsGre
  internal : eraseKeys id (other.endPointsInternal.map id) g.endPointsInternal =
    some g'.endPointsInternal
  vlan : eraseKeys id (other.endPointsVlan.map id) g.endPointsVlan = some g'.endPointsVlan
  vnfs : eraseKeys VNFs.key (other.vnfs.map VNFs.key) g.vnfs = some g'.vnfs
  ID : g'.ID = g.ID
  name : g'.name = g.name

theorem removeGraphFromGraph_erased {other : Graph}
    (h : g.removeGraphFromGraph other = .ok (g', infos)) :
    (∃ g₁, removeRules other.rules g = .ok (g₁, infos)) ∧ Erased other g g' := by
  simp only [removeGraphFromGraph, bind_eq_ok, pure_eq_ok, Prod.exists,
    Prod.mk.injEq] at h
  obtain ⟨g₁, infos₁, hrules, g₂, h₂, g₃, h₃, g₄, h₄, g₅, h₅, g₆, hvnfs, rfl, rfl⟩ := h
  obtain ⟨rules, hr, rfl⟩ := removeRules_ok hrules
  obtain ⟨interfaces, hinterface, rfl⟩ := removeInterfaces_ok h₂
  obtain ⟨gre, hgre, rfl⟩ := removeEndPointsGre_ok h₃
  obtain ⟨internal, hinternal, rfl⟩ := removeEndPointsInternal_ok h₄
  obtain ⟨vlan, hvlan, rfl⟩ := removeEndPointsVlan_ok h₅
  obtain ⟨vnfs, hv, rfl⟩ := removeVNFs_ok hvnfs
  exact ⟨⟨_, hrules⟩, hr, hinterface, hgre, hinternal, hvlan, hv, rfl, rfl⟩

/-! ## Rules -/

theorem addRules_eq_append {rules : List Rule} (hrs : (rs.map Rule.key).Nodup)
    (hnew : ∀ r ∈ rs, r.key ∉ rules.map Rule.key) : addRules rules rs = (rules ++ rs, true) := by
  induction rs generalizing rules with
  | nil => simp only [addRules, List.append_nil]
  | cons r rs ih =>
    obtain ⟨hr, hrs⟩ := List.nodup_cons.mp hrs
    rw [addRules, if_neg (hnew r List.mem_cons_self), ih hrs, List.append_assoc,
      List.singleton_append]
    intro q hq hmem
    rw [List.map_append, List.mem_append, List.map_singleton, List.mem_singleton] at hmem
    rcases hmem with hmem | hmem
    · exact hnew q (List.mem_cons_of_mem r hq) hmem
    · exact hr (hmem ▸ List.mem_map_of_mem hq)

/-- The rules of a difference have distinct identifiers, all unknown to the graph. -/
theorem calculateDiff_rules_fresh (g other : Graph) (ID : String) :
    ((g.calculateDiff other ID).rules.map Rule.key).Nodup ∧
    ∀ r ∈ (g.calculateDiff other ID).rules, r ∈ other.rules ∧ r.key ∉ g.rules.map Rule.key := by
  have hnil : (([] : List Rule).map Rule.key).Nodup := List.nodup_nil
  obtain ⟨hnodup, hmem⟩ := pushAll_spec (g.calculateDiffRules other) hnil
  refine ⟨hnodup, fun r hr => ?_⟩
  rcases hmem r hr with hr | hr
  · cases hr
  · exact mem_missing.mp hr

/-- With distinct identifiers the rules of a difference are the missing rules themselves. -/
theorem calculateDiff_rules {other : Graph} (h : (other.rules.map Rule.key).Nodup) :
    (g.calculateDiff other ID).rules = missing Rule.key g.rules other.rules :=
  (pushAll_eq_append (missing_keys_nodup h) (by simp)).trans (List.nil_append _)

/-- Adding a difference succeeds: its rules are appended, its endpoints pushed, its VNFs
merged. -/
theorem addGraphToGraph_diff_eq (g new : Graph) (ID : String) :
    let diff := g.calculateDiff new ID
    g.addGraphToGraph diff = ({ g with
      rules := g.rules ++ diff.rules
      endPointsInterface := pushAll id g.endPointsInterface diff.endPointsInterface
      endPointsGre := pushAll EndPointGre.key g.endPointsGre diff.endPointsGre
      endPointsInternal := pushAll id g.endPointsInternal diff.endPointsInternal
      endPointsVlan := pushAll id g.endPointsVlan diff.endPointsVlan
      vnfs := diff.vnfs.foldl (fun vs v => addVNFTo v vs) g.vnfs }, true) := by
  intro diff
  obtain ⟨hnodup, hfresh⟩ := calculateDiff_rules_fresh g new ID
  have hadd : addRules g.rules diff.rules = (g.rules ++ diff.rules, true) :=
    addRules_eq_append hnodup (fun r hr => (hfresh r hr).2)
  simp only [addGraphToGraph, hadd]

theorem addGraphToGraph_diff (g new : Graph) (ID : String) :
    let diff := g.calculateDiff new ID
    (g.addGraphToGraph diff).2 = true ∧
    (g.addGraphToGraph diff).1.rules = g.rules ++ diff.rules ∧
    (g.addGraphToGraph diff).1.vnfs = diff.vnfs.foldl (fun vs v => addVNFTo v vs) g.vnfs ∧
    (g.addGraphToGraph diff).1.ID = g.ID ∧ (g.addGraphToGraph diff).1.name = g.name := by
  intro diff
  rw [addGraphToGraph_diff_eq]
  exact ⟨rfl, rfl, rfl, rfl, rfl⟩

/-- The two halves of an update are, on the rules, a keyed reconciliation. -/
theorem reconcile_of_eraseKeys {new : Graph} {rest : List Rule} (hg : (g.rules.map Rule.key).Nodup)
    (hn : (new.rules.map Rule.key).Nodup) :
    let grown := (g.addGraphToGraph (g.calculateDiff new ID)).1
    eraseKeys Rule.key ((new.calculateDiff grown ID).rules.map Rule.key) grown.rules = some rest →
      reconcile Rule.key g.rules new.rules = some rest := by
  intro grown herase
  have hgrown : grown.rules = g.rules ++ missing Rule.key g.rules new.rules := by
    rw [← calculateDiff_rules hn]
    exact (addGraphToGraph_diff g new ID).2.1
  rw [calculateDiff_rules (by rw [hgrown]; exact grown_keys_nodup hg hn), hgrown] at herase
  simpa only [reconcile, pushAll_missing hn] using herase

/-- On the rules, an update that returns is a keyed reconciliation. -/
theorem updateTo_rules {new : Graph} (hg : (g.rules.map Rule.key).Nodup)
    (hn : (new.rules.map Rule.key).Nodup) (h : g.updateTo new = .ok g') :
    reconcile Rule.key g.rules new.rules = some g'.rules := by
  simp only [updateTo, bind_eq_ok, pure_eq_ok, Prod.exists] at h
  obtain ⟨g₂, infos, hrem, rfl⟩ := h
  have hID : (g.addGraphToGraph (g.calculateDiff new g.ID)).1.ID = g.ID := addGraphToGraph_ID _ _
  rw [hID] at hrem
  exact reconcile_of_eraseKeys hg hn (removeGraphFromGraph_erased hrem).2.rules

end UnOrchestrator.Highlevel.Graph
