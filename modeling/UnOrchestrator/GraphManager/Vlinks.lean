import UnOrchestrator.Lib.Wiring
import UnOrchestrator.GraphManager.Lsi

/-!
# Virtual links of a tenant LSI

A rule needs a virtual link when its two ends are on different switches: from LSI-0 up
to a network function or a GRE endpoint, or down from the tenant LSI to a physical port
or an internal endpoint. This module has the three pieces of the graph manager that keep
track of the links:

- a new graph gets as many links as its longer direction needs, handed out in order
  (`assignVlinks`);
- an update adds links for the targets that have none yet, one link for a port of a
  network function and a physical port together (`addVlinks`);
- for every removed rule the link of its target goes, unless a remaining rule needs it
  or it is used in the other direction (`removeUselessVlinks`).

Each piece keeps the bookkeeping in order and the links of the other targets as they are
(`assignVlinks_spec`, `addVlinks_spec`, `each_removeUselessVlinks_spec`).
-/

namespace UnOrchestrator

open List (Nodup append_assoc mem_append mem_cons mem_map)

open Call

open Highlevel Wiring

/-! ## Which links a rule needs -/

/-- The target a rule needs a virtual link for, as both versions of
`identifyVirtualLinksRequired` decide it. -/
def Highlevel.Rule.requiredVlink (r : Rule) : Option RuleRemovedInfo :=
  match r.action.type with
  | .networkFunction nfId port =>
    if r.match.matchOnPort || r.match.matchOnEndPointInternal then
      some (.nfPort (nfPortName nfId port))
    else none
  | .endPointGre endpointID =>
    if r.match.matchOnPort || r.match.matchOnEndPointInternal then some (.endpointGre endpointID)
    else none
  | .port portName =>
    if r.match.matchOnNF || r.match.matchOnEndPointGre then some (.port portName) else none
  | .endPointInternal group =>
    if !r.match.matchOnPort && !r.match.matchOnEndPointInternal then some (.endpointInternal group)
    else none

/-- The condition under which `removeUselessVlinks` finds that a remaining rule still needs
the link of a target. -/
def Highlevel.Rule.keepsVlink (r : Rule) (target : RuleRemovedInfo) : Bool :=
  r.action.removedInfo == target &&
    if VLinks.isUp target then r.match.matchOnEndPointInternal || r.match.matchOnPort
    else r.match.matchOnEndPointGre || r.match.matchOnNF

variable {target : RuleRemovedInfo}

theorem Highlevel.Rule.removedInfo_of_requiredVlink {r : Rule} (h : r.requiredVlink = some target) :
    r.action.removedInfo = target := by
  unfold requiredVlink at h
  unfold Action.removedInfo
  cases hact : r.action.type <;> simp only [hact] at h ⊢ <;> split at h <;>
    first | exact Option.some.inj h | cases h

/-- For a rule with a resolved input the two conditions agree. -/
theorem Highlevel.Rule.keepsVlink_iff {r : Rule} (hinput : r.match.type ≠ .generic) :
    r.keepsVlink target = true ↔ r.requiredVlink = some target := by
  unfold keepsVlink requiredVlink Action.removedInfo Match.matchOnPort Match.matchOnNF
    Match.matchOnEndPointInternal Match.matchOnEndPointGre
  cases hact : r.action.type <;> cases htype : r.match.type <;> cases target <;>
    simp_all [VLinks.isUp]

/-- The sets of `identifyVirtualLinksRequired`, in its order. -/
structure VlinksRequired where
  NFs : StringSet
  phyPorts : StringSet
  endPointsGre : StringSet
  endPointsInternal : StringSet

/-- `identifyVirtualLinksRequired`, for the targets that are not yet attached to a link. -/
def identifyVirtualLinksRequired (rules : List Rule) (attached : RuleRemovedInfo → Bool) :
    VlinksRequired :=
  let targets := (rules.filterMap Rule.requiredVlink).filter (fun target => !attached target)
  { NFs := .ofList (targets.filterMap fun | .nfPort p => some p | _ => none) compare
    phyPorts := .ofList (targets.filterMap fun | .port p => some p | _ => none) compare
    endPointsGre := .ofList (targets.filterMap fun | .endpointGre e => some e | _ => none) compare
    endPointsInternal :=
      .ofList (targets.filterMap fun | .endpointInternal e => some e | _ => none) compare }

namespace VlinksRequired

/-- The targets to be served on the way up, in the order in which links are handed out. -/
def ups (required : VlinksRequired) : List RuleRemovedInfo :=
  required.NFs.toList.map .nfPort ++ required.endPointsGre.toList.map .endpointGre

/-- The targets to be served on the way down. -/
def downs (required : VlinksRequired) : List RuleRemovedInfo :=
  required.phyPorts.toList.map .port ++ required.endPointsInternal.toList.map .endpointInternal

/-- `numberOfVLrequired` of a new graph. -/
def numberOfVLrequired (required : VlinksRequired) : Nat :=
  max (required.NFs.size + required.endPointsGre.size)
    (required.phyPorts.size + required.endPointsInternal.size)

theorem up_of_mem_ups {required : VlinksRequired} {t : RuleRemovedInfo} (h : t ∈ required.ups) :
    VLinks.isUp t = true := by
  simp only [ups, mem_append, mem_map] at h
  rcases h with ⟨_, -, rfl⟩ | ⟨_, -, rfl⟩ <;> rfl

theorem down_of_mem_downs {required : VlinksRequired} {t : RuleRemovedInfo}
    (h : t ∈ required.downs) : VLinks.isUp t = false := by
  simp only [downs, mem_append, mem_map] at h
  rcases h with ⟨_, -, rfl⟩ | ⟨_, -, rfl⟩ <;> rfl

theorem ups_nodup (required : VlinksRequired) : required.ups.Nodup := by
  refine Nodup.append
    ((StringSet.nodup_toList _).map (fun _ _ h => RuleRemovedInfo.nfPort.inj h))
    ((StringSet.nodup_toList _).map (fun _ _ h => RuleRemovedInfo.endpointGre.inj h)) ?_
  intro t ht ht'
  obtain ⟨_, -, rfl⟩ := mem_map.mp ht
  obtain ⟨_, -, h⟩ := mem_map.mp ht'
  cases h

theorem downs_nodup (required : VlinksRequired) : required.downs.Nodup := by
  refine Nodup.append
    ((StringSet.nodup_toList _).map (fun _ _ h => RuleRemovedInfo.port.inj h))
    ((StringSet.nodup_toList _).map (fun _ _ h => RuleRemovedInfo.endpointInternal.inj h)) ?_
  intro t ht ht'
  obtain ⟨_, -, rfl⟩ := mem_map.mp ht
  obtain ⟨_, -, h⟩ := mem_map.mp ht'
  cases h

end VlinksRequired

variable {t : RuleRemovedInfo}

/-- The identified targets are those some rule needs and no link serves. -/
theorem mem_identified {rules : List Rule} {attached : RuleRemovedInfo → Bool} :
    t ∈ (identifyVirtualLinksRequired rules attached).ups ∨
        t ∈ (identifyVirtualLinksRequired rules attached).downs ↔
      (∃ r ∈ rules, r.requiredVlink = some t) ∧ attached t = false := by
  simp only [identifyVirtualLinksRequired, VlinksRequired.ups, VlinksRequired.downs,
    mem_append, mem_map, StringSet.mem_toList, StringSet.mem_ofList,
    List.mem_filterMap, List.mem_filter, Bool.not_eq_true']
  cases t <;> grind

/-! ## The links of a new graph -/

/-- The links that `newGraph` makes before it creates the LSI; identifiers count up from the
static `nextID`. -/
def newVirtualLinks (nextID number : Nat) : List VLink :=
  (List.range number).map (fun i => { ID := nextID + i })

/-- The part of `newGraph` that hands out the links of the LSI: the sets of either direction
are walked in order along the same list of links. -/
def VLinks.assignVlinks (v : VLinks) (required : VlinksRequired) : VLinks :=
  if v.virtualLinks.isEmpty then v
  else
    let vls := v.virtualLinks.map VLink.ID
    let nfs := required.NFs.toList.zip vls
    let ports := required.phyPorts.toList.zip vls
    let gres := required.endPointsGre.toList.zip (vls.drop required.NFs.toList.length)
    let internals :=
      required.endPointsInternal.toList.zip (vls.drop required.phyPorts.toList.length)
    { v with
      nfsVlinks := setVLinks v.nfsVlinks (.ofList nfs compare)
      portsVlinks := setVLinks v.portsVlinks (.ofList ports compare)
      endpointsGreVlinks := setVLinks v.endpointsGreVlinks (.ofList gres compare)
      endpointsVlinks := setVLinks v.endpointsVlinks (.ofList internals compare) }

variable {i : Nat}

/-- Walking two lists of targets one after the other along a list of links. -/
private theorem mem_zip_map_append {α β : Type} {f g : α → β} {as bs : List α} {is : List Nat} {t : β} :
    (t, i) ∈ (as.map f ++ bs.map g).zip is ↔
      (∃ a, f a = t ∧ (a, i) ∈ as.zip is) ∨ ∃ b, g b = t ∧ (b, i) ∈ bs.zip (is.drop as.length) := by
  induction as generalizing is with
  | nil =>
    simp only [List.map_nil, List.nil_append, List.zip_map_left, mem_map, Prod.exists,
      Prod.map_apply, Prod.mk.injEq, List.zip_nil_left, List.not_mem_nil, and_false, exists_false,
      false_or, List.length_nil, List.drop_zero]
    constructor
    · rintro ⟨b, j, hb, rfl, rfl⟩
      exact ⟨b, rfl, hb⟩
    · rintro ⟨b, rfl, hb⟩
      exact ⟨b, i, hb, rfl, rfl⟩
  | cons a as ih =>
    cases is with
    | nil => simp
    | cons j is =>
      simp only [List.map_cons, List.cons_append, List.zip_cons_cons, mem_cons,
        Prod.mk.injEq, ih, List.length_cons, List.drop_succ_cons]
      constructor
      · rintro (⟨rfl, rfl⟩ | ⟨a', rfl, ha'⟩ | hb)
        · exact .inl ⟨a, rfl, .inl ⟨rfl, rfl⟩⟩
        · exact .inl ⟨a', rfl, .inr ha'⟩
        · exact .inr hb
      · rintro (⟨a', rfl, ⟨rfl, rfl⟩ | ha'⟩ | hb)
        · exact .inl ⟨rfl, rfl⟩
        · exact .inr (.inl ⟨a', rfl, ha'⟩)
        · exact .inr (.inr hb)

private theorem getElem?_setVLinks_ofList {keys : StringSet} {is : List Nat} {k : String} :
    (VLinks.setVLinks ∅ (.ofList (keys.toList.zip is) compare))[k]? = some i ↔
      (k, i) ∈ keys.toList.zip is := by
  have hkeys : ((keys.toList.zip is).map Prod.fst).Nodup := by
    refine (StringSet.nodup_toList keys).sublist ?_
    rw [List.zip_eq_zip_take_min, List.map_fst_zip (by simp)]
    exact List.take_sublist _ _
  have hempty : (∅ : StringMap Nat).toList = [] := rfl
  rw [VLinks.setVLinks, hempty, Std.ExtTreeMap.insertMany_nil]
  exact StringMap.getElem?_ofList hkeys

variable {links : List VLink}

/-- A new LSI serves its targets by the links at their positions. -/
theorem vlinkOf_assignVlinks {required : VlinksRequired}
    (hlength : links.length = required.numberOfVLrequired) :
    (VLinks.assignVlinks { virtualLinks := links } required).vlinkOf t = some i ↔
      (t, i) ∈ required.ups.zip (links.map VLink.ID) ∨
        (t, i) ∈ required.downs.zip (links.map VLink.ID) := by
  unfold VLinks.assignVlinks
  simp only [VlinksRequired.ups, VlinksRequired.downs, mem_zip_map_append]
  cases links with
  | nil => cases t <;> simp [VLinks.vlinkOf]
  | cons l ls =>
    simp only [List.isEmpty_cons, Bool.false_eq_true, if_false]
    cases t <;> simp [VLinks.vlinkOf, getElem?_setVLinks_ofList]

/-- The links of a new graph: the bookkeeping is in order, and serves the required targets. -/
theorem assignVlinks_spec {required : VlinksRequired} (hlength : links.length = required.numberOfVLrequired)
    (hdistinct : (links.map VLink.ID).Nodup) :
    let v := VLinks.assignVlinks { virtualLinks := links } required
    v.virtualLinks = links ∧ Wired VLink.ID VLinks.isUp v.virtualLinks v.vlinkOf ∧
      ∀ t, (v.vlinkOf t).isSome ↔ t ∈ required.ups ∨ t ∈ required.downs := by
  intro v
  have hlinks : v.virtualLinks = links := by
    show (VLinks.assignVlinks { virtualLinks := links } required).virtualLinks = links
    unfold VLinks.assignVlinks
    split <;> rfl
  have hmax : links.length = max required.ups.length required.downs.length := by
    simpa [VlinksRequired.ups, VlinksRequired.downs, VlinksRequired.numberOfVLrequired]
      using hlength
  refine ⟨hlinks, ?_, fun t => ?_⟩
  · rw [hlinks]
    exact Wired.zip hdistinct (fun _ => VlinksRequired.up_of_mem_ups)
      (fun _ => VlinksRequired.down_of_mem_downs) hmax (fun _ _ => vlinkOf_assignVlinks hlength)
  · rw [Option.isSome_iff_exists]
    have hserved {ts : List RuleRemovedInfo} (hle : ts.length ≤ links.length) (ht : t ∈ ts) :
        ∃ i, (t, i) ∈ ts.zip (links.map VLink.ID) := by
      obtain ⟨n, hn, rfl⟩ := List.getElem_of_mem ht
      exact ⟨_, getElem_mem_zip hn (by rw [List.length_map]; omega)⟩
    constructor
    · rintro ⟨i, hi⟩
      rcases (vlinkOf_assignVlinks hlength).mp hi with hi | hi
      · exact .inl (List.of_mem_zip hi).1
      · exact .inr (List.of_mem_zip hi).1
    · rintro (ht | ht)
      · obtain ⟨i, hi⟩ := hserved (by omega) ht
        exact ⟨i, (vlinkOf_assignVlinks hlength).mpr (.inl hi)⟩
      · obtain ⟨i, hi⟩ := hserved (by omega) ht
        exact ⟨i, (vlinkOf_assignVlinks hlength).mpr (.inr hi)⟩

theorem newVirtualLinks_distinct (nextID number : Nat) :
    ((newVirtualLinks nextID number).map VLink.ID).Nodup := by
  rw [newVirtualLinks, List.map_map]
  exact List.nodup_range.map (fun a b h => by simpa using h)

/-! ## New links in an update -/

/-- The bookkeeping of a tenant LSI between two requests: it is in order, and the counter for
identifiers is past all of them. -/
structure VLinks.InOrder (v : VLinks) (nextID : Nat) : Prop where
  wired : Wired VLink.ID VLinks.isUp v.virtualLinks v.vlinkOf
  fresh : ∀ l ∈ v.virtualLinks, l.ID < nextID

variable {v : VLinks} {nextID : Nat}

theorem VLinks.InOrder.mono {nextID' : Nat} (h : v.InOrder nextID) (hle : nextID ≤ nextID') :
    v.InOrder nextID' :=
  ⟨h.wired, fun l hl => Nat.lt_of_lt_of_le (h.fresh l hl) hle⟩

/-- The links of a new graph, once the switch manager has numbered them: they are in order,
and serve what the rules need. -/
theorem newLinks_spec {rules : List Rule} :
    let required := identifyVirtualLinksRequired rules (fun _ => false)
    links.map VLink.ID = (newVirtualLinks nextID required.numberOfVLrequired).map VLink.ID →
    let v := VLinks.assignVlinks { virtualLinks := links } required
    v.InOrder (nextID + required.numberOfVLrequired) ∧
      ∀ t, (v.vlinkOf t).isSome ↔ ∃ r ∈ rules, r.requiredVlink = some t := by
  intro required hIDs v
  have hlength : links.length = required.numberOfVLrequired := by
    simpa [newVirtualLinks] using congrArg List.length hIDs
  have hdistinct : (links.map VLink.ID).Nodup := hIDs ▸ newVirtualLinks_distinct _ _
  obtain ⟨hlinks, hwired, hserved⟩ := assignVlinks_spec hlength hdistinct
  refine ⟨⟨hwired, fun l hl => ?_⟩, fun t => ?_⟩
  · rw [hlinks] at hl
    have hID : l.ID ∈ links.map VLink.ID := List.mem_map_of_mem hl
    rw [hIDs, newVirtualLinks, List.map_map] at hID
    obtain ⟨i, hi, heq⟩ := mem_map.mp hID
    have := List.mem_range.mp hi
    simp only [Function.comp_apply] at heq
    omega
  · rw [hserved t, mem_identified]
    simp

/-- The targets that each new link of an update serves: a port of a network function and a
physical port share one, the endpoints have their own. -/
def newVlinkTargets (required : VlinksRequired) : List (List RuleRemovedInfo) :=
  pairUp (required.NFs.toList.map .nfPort) (required.phyPorts.toList.map .port) ++
    required.endPointsGre.toList.map (fun ep => [.endpointGre ep]) ++
    required.endPointsInternal.toList.map (fun ep => [.endpointInternal ep])

/-- One round of the three loops of `updateGraph_add` that add virtual links. The state is
the static counter and the LSI; `addVirtualLink` has the answers of the switch. -/
def addVlinkTo (addVirtualLink : Nat → Option (Nat × Nat)) (targets : List RuleRemovedInfo) :
    Call (Nat × VLinks) Unit := do
  let (nextID, v) ← Call.get
  let newLink : VLink := { ID := nextID }
  let vlinkPosition := v.virtualLinks.length
  Call.modify (fun _ => (nextID + 1, v.addVlink newLink))
  match addVirtualLink newLink.ID with
  | none => Call.throw
  | some (idA, idB) =>
    Call.update (fun s => do
      let v ← s.2.setVLinkIDs vlinkPosition idA idB
      let vlink ← v.getVirtualLink newLink.ID
      Abort.assert (newLink.ID == vlink.ID)
      return (s.1, targets.foldl (fun v target => v.addVlinkFor newLink.ID target) v))

/-- The new links of an update. -/
def addVlinks (addVirtualLink : Nat → Option (Nat × Nat)) (required : VlinksRequired) :
    Call (Nat × VLinks) Unit :=
  Call.each (addVlinkTo addVirtualLink) (newVlinkTargets required)

variable {targets : List RuleRemovedInfo}

@[simp] theorem vlinkOf_foldl_addVlinkFor {ID : Nat} :
    (targets.foldl (fun v target => v.addVlinkFor ID target) v).vlinkOf t =
      if t ∈ targets then some ID else v.vlinkOf t := by
  induction targets generalizing v with
  | nil => simp
  | cons target targets ih =>
    rw [List.foldl_cons, ih, VLinks.vlinkOf_addVlinkFor]
    by_cases ht : t ∈ targets
    · rw [if_pos ht, if_pos (List.mem_cons_of_mem target ht)]
    · by_cases heq : target = t
      · rw [if_neg ht, if_pos heq, if_pos (heq ▸ List.mem_cons_self)]
      · rw [if_neg ht, if_neg heq, if_neg]
        exact fun hmem => (mem_cons.mp hmem).elim (fun h => heq h.symm) ht

@[simp] theorem virtualLinks_foldl_addVlinkFor {ID : Nat} :
    (targets.foldl (fun v target => v.addVlinkFor ID target) v).virtualLinks = v.virtualLinks := by
  induction targets generalizing v with
  | nil => rfl
  | cons target targets ih => rw [List.foldl_cons, ih, VLinks.addVlinkFor_virtualLinks]

theorem setVLinkIDs_last (v : VLinks) (link : VLink) (localID remoteID : Nat) :
    (v.addVlink link).setVLinkIDs v.virtualLinks.length localID remoteID =
      .ok (v.addVlink { link with localID := localID, remoteID := remoteID }) := by
  have hposition : v.virtualLinks.length < (v.addVlink link).virtualLinks.length := by
    simp [VLinks.addVlink]
  rw [VLinks.setVLinkIDs, if_pos hposition]
  simp [VLinks.addVlink, List.modify_eq_take_cons_drop]

/-- Adding a link serves its targets and leaves the links of the others alone. -/
theorem addVlinkTo_spec {addVirtualLink : Nat → Option (Nat × Nat)} (h : v.InOrder nextID)
    (htargets : targets ≠ []) (hone : ∀ t ∈ targets, ∀ t' ∈ targets, VLinks.isUp t = VLinks.isUp t' → t = t')
    (hnew : ∀ t ∈ targets, v.vlinkOf t = none) :
    wp (addVlinkTo addVirtualLink targets)
      (fun _ s => s.2.InOrder s.1 ∧ nextID ≤ s.1 ∧
        (∀ t, (s.2.vlinkOf t).isSome ↔ (v.vlinkOf t).isSome ∨ t ∈ targets) ∧
        ∀ t, (v.vlinkOf t).isSome → s.2.linkOf t = v.linkOf t)
      (fun _ => ∃ ID, addVirtualLink ID = none) (nextID, v) := by
  simp only [addVlinkTo, wp_bind, wp_get, wp_modify]
  cases hadd : addVirtualLink nextID with
  | none => exact ⟨nextID, hadd⟩
  | some ids =>
    simp only [wp_update, Abort.bind_eq_ok, Abort.pure_eq_ok, setVLinkIDs_last,
      Except.ok.injEq]
    rintro s ⟨_, rfl, _, -, _, -, rfl⟩
    have hserved (t : RuleRemovedInfo) (i : Nat) :
        (if t ∈ targets then some nextID else v.vlinkOf t) = some i ↔
          (t ∈ targets ∧ i = nextID) ∨ v.vlinkOf t = some i := by
      by_cases ht : t ∈ targets
      · simp [ht, hnew t ht, eq_comm]
      · simp [ht]
    refine ⟨⟨?_, ?_⟩, Nat.le_succ nextID, fun t => ?_, fun t ht => ?_⟩
    · simp only [virtualLinks_foldl_addVlinkFor, VLinks.addVlink]
      refine h.wired.attach ?_ htargets hone fun t i => ?_
      · intro hmem
        obtain ⟨l, hl, heq⟩ := mem_map.mp hmem
        exact absurd (h.fresh l hl) (by rw [heq]; exact Nat.lt_irrefl _)
      · rw [vlinkOf_foldl_addVlinkFor]
        exact hserved t i
    · intro l hl
      simp only [virtualLinks_foldl_addVlinkFor, VLinks.addVlink, mem_append,
        List.mem_singleton] at hl
      rcases hl with hl | rfl
      · exact Nat.lt_succ_of_lt (h.fresh l hl)
      · exact Nat.lt_succ_self _
    · rw [vlinkOf_foldl_addVlinkFor]
      by_cases ht : t ∈ targets
      · simp [ht]
      · simp only [ht, if_false, or_false]
        exact Iff.rfl
    · obtain ⟨l, hl⟩ := Option.isSome_iff_exists.mp ((resolve_isSome h.wired).mpr ht)
      have hother : t ∉ targets := fun hmem => by simp [hnew t hmem] at ht
      rw [show v.linkOf t = some l from hl]
      simp only [VLinks.linkOf, virtualLinks_foldl_addVlinkFor, VLinks.addVlink]
      refine resolve_append hl ?_ _
      rw [vlinkOf_foldl_addVlinkFor, if_neg hother]
      rfl

namespace VlinksRequired

theorem newVlinkTargets_flatten (required : VlinksRequired) :
    (newVlinkTargets required).flatten.Perm (required.ups ++ required.downs) := by
  have hsingle {f : String → RuleRemovedInfo} (l : List String) :
      (l.map (fun ep => [f ep])).flatten = l.map f := by
    rw [← List.flatMap_def, List.map_eq_flatMap]
  simp only [newVlinkTargets, List.flatten_append, hsingle, ups, downs, append_assoc]
  refine ((pairUp_flatten _ _).append_right _).trans ?_
  rw [append_assoc]
  refine List.Perm.append_left _ ?_
  rw [← append_assoc, ← append_assoc]
  exact List.perm_append_comm.append_right _

/-- A new link serves at least one target, and at most one in each direction. -/
theorem group_of_mem {required : VlinksRequired} {group : List RuleRemovedInfo}
    (h : group ∈ newVlinkTargets required) : group ≠ [] ∧
      ∀ t ∈ group, ∀ t' ∈ group, VLinks.isUp t = VLinks.isUp t' → t = t' := by
  have hsingle : (∃ t, group = [t]) → group ≠ [] ∧
      ∀ t ∈ group, ∀ t' ∈ group, VLinks.isUp t = VLinks.isUp t' → t = t' := by
    rintro ⟨t, rfl⟩
    simp
  simp only [newVlinkTargets, mem_append, mem_map] at h
  rcases h with (h | ⟨ep, -, rfl⟩) | ⟨ep, -, rfl⟩
  · rcases mem_pairUp h with ⟨_, hnf, _, hport, rfl⟩ | hone
    · obtain ⟨nf, -, rfl⟩ := mem_map.mp hnf
      obtain ⟨port, -, rfl⟩ := mem_map.mp hport
      simp [VLinks.isUp]
    · exact hsingle hone
  · exact hsingle ⟨_, rfl⟩
  · exact hsingle ⟨_, rfl⟩

theorem newVlinkTargets_nodup (required : VlinksRequired) :
    (newVlinkTargets required).flatten.Nodup := by
  refine (newVlinkTargets_flatten required).nodup_iff.mpr ?_
  refine required.ups_nodup.append required.downs_nodup fun t hup hdown => ?_
  have := (up_of_mem_ups hup).symm.trans (down_of_mem_downs hdown)
  cases this

end VlinksRequired

variable {addVirtualLink : Nat → Option (Nat × Nat)} {nextID : Nat} {v : VLinks}

/-- The loop that adds links serves all targets of its groups. -/
theorem each_addVlinkTo_spec (h : v.InOrder nextID) {groups : List (List RuleRemovedInfo)}
    (hgroups : ∀ group ∈ groups, group ≠ [] ∧ ∀ t ∈ group, ∀ t' ∈ group, VLinks.isUp t = VLinks.isUp t' → t = t')
    (hdistinct : groups.flatten.Nodup) (hnew : ∀ t ∈ groups.flatten, v.vlinkOf t = none) :
    wp (each (addVlinkTo addVirtualLink) groups)
      (fun _ s => s.2.InOrder s.1 ∧ nextID ≤ s.1 ∧
        (∀ t, (s.2.vlinkOf t).isSome ↔ (v.vlinkOf t).isSome ∨ t ∈ groups.flatten) ∧
        ∀ t, (v.vlinkOf t).isSome → s.2.linkOf t = v.linkOf t)
      (fun _ => ∃ ID, addVirtualLink ID = none) (nextID, v) := by
  induction groups generalizing nextID v with
  | nil => simp [each, h]
  | cons group groups ih =>
    rw [List.flatten_cons] at hdistinct hnew
    obtain ⟨-, hrest, hdisjoint⟩ := List.nodup_append.mp hdistinct
    obtain ⟨hne, hone⟩ := hgroups group List.mem_cons_self
    rw [each, wp_bind]
    refine wp_weaken (addVlinkTo_spec h hne hone
      (fun t ht => hnew t (List.mem_append_left _ ht))) ?_
    rintro _ ⟨nextID', v'⟩ ⟨h', hle, hserved, hkept⟩
    refine wp_weaken (ih h' (fun g hg => hgroups g (List.mem_cons_of_mem group hg)) hrest
      fun t ht => ?_) ?_
    · rw [← Option.not_isSome_iff_eq_none, hserved, not_or, Option.not_isSome_iff_eq_none]
      exact ⟨hnew t (List.mem_append_right _ ht), fun hmem => hdisjoint t hmem t ht rfl⟩
    · rintro _ s ⟨hs, hle', hserved', hkept'⟩
      refine ⟨hs, Nat.le_trans hle hle', fun t => ?_, fun t ht => ?_⟩
      · rw [hserved', hserved, List.flatten_cons, mem_append, or_assoc]
      · rw [hkept' t ((hserved t).mpr (.inl ht)), hkept t ht]

/-- The links of an update: after them every target that the new rules need is served, and
the targets served before keep their links. -/
theorem addVlinks_spec (h : v.InOrder nextID) (rules : List Rule) :
    wp (addVlinks addVirtualLink
        (identifyVirtualLinksRequired rules (fun t => (v.vlinkOf t).isSome)))
      (fun _ s => s.2.InOrder s.1 ∧ nextID ≤ s.1 ∧
        (∀ t, (s.2.vlinkOf t).isSome ↔
          (v.vlinkOf t).isSome ∨ ∃ r ∈ rules, r.requiredVlink = some t) ∧
        ∀ t, (v.vlinkOf t).isSome → s.2.linkOf t = v.linkOf t)
      (fun _ => ∃ ID, addVirtualLink ID = none) (nextID, v) := by
  have hmem (t : RuleRemovedInfo) := (VlinksRequired.newVlinkTargets_flatten
    (identifyVirtualLinksRequired rules (fun t => (v.vlinkOf t).isSome))).mem_iff (a := t)
  simp only [mem_append, mem_identified] at hmem
  refine wp_weaken (each_addVlinkTo_spec h (fun group => VlinksRequired.group_of_mem)
    (VlinksRequired.newVlinkTargets_nodup _) fun t ht => ?_) ?_
  · simpa using ((hmem t).mp ht).2
  · rintro _ s ⟨hs, hle, hserved, hkept⟩
    refine ⟨hs, hle, fun t => ?_, hkept⟩
    rw [hserved, hmem]
    cases v.vlinkOf t <;> simp

/-- Links that the switch grants are added without an exception. -/
theorem addVlinks_throws (required : VlinksRequired) (s : Nat × VLinks) :
    wp (addVlinks addVirtualLink required) (fun _ _ => True)
      (fun _ => ∃ ID, addVirtualLink ID = none) s := by
  refine wp_each (I := fun _ _ => True) (fun targets _ s _ => ?_) _ s trivial
  simp only [addVlinkTo, wp_bind, wp_get, wp_modify]
  split
  · next h => exact ⟨_, h⟩
  · simp only [wp_update, implies_true]

/-! ## Links no longer used -/

/-- `removeUselessVlinks`. The four parts of the source, one for each kind of target, differ
in the maps they look at only. -/
def removeUselessVlinks (destroyVirtualLink : Nat → Bool) (rules : List Rule)
    (rri : RuleRemovedInfo) : Call VLinks Unit := do
  let v ← Call.get
  match v.vlinkOf rri with
  | none => pure ()
  | some tobeRemovedID =>
    if rules.any (fun again => again.keepsVlink rri) then pure ()
    else do
      Call.update (fun v => v.removeVlinkFor rri)
      -- the link may serve a target in the other direction
      if v.usedInDirection (!VLinks.isUp rri) tobeRemovedID then pure ()
      else do
        let v ← Call.get
        let toBeRemoved ← Call.eval (Failure.ofAbort (v.getVirtualLink tobeRemovedID))
        if destroyVirtualLink toBeRemoved.ID then Call.update (fun v => v.removeVlink tobeRemovedID)
        else Call.throw

theorem removeVlinkFor_ok {v' : VLinks} (h : v.removeVlinkFor target = .ok v') :
    v' = v.eraseVlinkFor target := by
  unfold VLinks.removeVlinkFor at h
  split at h
  · exact (Except.ok.inj h).symm
  · cases h

variable {ID : Nat}

theorem removeVlink_ok {v' : VLinks} (h : v.removeVlink ID = .ok v') :
    v' = { v with virtualLinks := v.virtualLinks.eraseP (fun l => l.ID = ID) } := by
  unfold VLinks.removeVlink at h
  split at h
  · exact (Except.ok.inj h).symm
  · cases h

private theorem mem_eraseP_of_distinct (h : (links.map VLink.ID).Nodup) {l : VLink} :
    l ∈ links.eraseP (fun l => l.ID = ID) ↔ l ∈ links ∧ l.ID ≠ ID := by
  induction links with
  | nil => simp
  | cons a links ih =>
    obtain ⟨ha, h⟩ := List.nodup_cons.mp h
    by_cases heq : a.ID = ID
    · rw [List.eraseP_cons_of_pos (by simpa using heq), mem_cons]
      constructor
      · intro hl
        exact ⟨.inr hl, fun hID => ha (heq.trans hID.symm ▸ List.mem_map_of_mem hl)⟩
      · rintro ⟨rfl | hl, hne⟩
        · exact absurd heq hne
        · exact hl
    · rw [List.eraseP_cons_of_neg (by simpa using heq), mem_cons, mem_cons, ih h]
      constructor
      · rintro (rfl | ⟨hl, hne⟩)
        · exact ⟨.inl rfl, heq⟩
        · exact ⟨.inr hl, hne⟩
      · rintro ⟨rfl | hl, hne⟩
        · exact .inl rfl
        · exact .inr ⟨hl, hne⟩

/-- The bookkeeping after a target was released: nothing changed for the other targets. -/
structure Released (v : VLinks) (rri : RuleRemovedInfo) (v' : VLinks) (nextID : Nat) : Prop where
  inOrder : v'.InOrder nextID
  served : ∀ t i, v'.vlinkOf t = some i ↔ t ≠ rri ∧ v.vlinkOf t = some i
  kept : ∀ t, (v'.vlinkOf t).isSome → v'.linkOf t = v.linkOf t

variable {rri : RuleRemovedInfo}

theorem served_eraseVlinkFor :
    (v.eraseVlinkFor rri).vlinkOf t = some i ↔ t ≠ rri ∧ v.vlinkOf t = some i := by
  rw [VLinks.vlinkOf_eraseVlinkFor]
  by_cases heq : rri = t
  · simp [heq]
  · simp [heq, Ne.symm heq]

/-- A link that is used in the other direction stays. -/
theorem released_shared (h : v.InOrder nextID) (hrri : v.vlinkOf rri = some ID)
    (hused : v.usedInDirection (!VLinks.isUp rri) ID = true) :
    Released v rri (v.eraseVlinkFor rri) nextID := by
  obtain ⟨t', hdir, ht'⟩ := VLinks.usedInDirection_iff.mp hused
  have hother : VLinks.isUp t' ≠ VLinks.isUp rri := by
    rw [hdir]
    cases VLinks.isUp rri <;> simp
  refine ⟨⟨?_, ?_⟩, fun _ _ => served_eraseVlinkFor, fun t ht => ?_⟩
  · exact h.wired.release hrri (fun _ _ => served_eraseVlinkFor)
      (.inl ⟨⟨t', hother, ht'⟩, VLinks.eraseVlinkFor_virtualLinks⟩)
  · rw [VLinks.eraseVlinkFor_virtualLinks]
    exact h.fresh
  · obtain ⟨i, hi⟩ := Option.isSome_iff_exists.mp ht
    rw [VLinks.linkOf, VLinks.linkOf, hi, (served_eraseVlinkFor.mp hi).2,
      VLinks.eraseVlinkFor_virtualLinks]

/-- A link that is not used in the other direction goes with its target. -/
theorem released_unshared (h : v.InOrder nextID) (hrri : v.vlinkOf rri = some ID)
    (hused : v.usedInDirection (!VLinks.isUp rri) ID = false) :
    Released v rri { v.eraseVlinkFor rri with
      virtualLinks := v.virtualLinks.eraseP (fun l => l.ID = ID) } nextID := by
  have hsub : (v.virtualLinks.eraseP (fun l => l.ID = ID)).Sublist v.virtualLinks :=
    List.eraseP_sublist
  have hunused (t : RuleRemovedInfo) (hdir : VLinks.isUp t ≠ VLinks.isUp rri) :
      v.vlinkOf t ≠ some ID := by
    intro ht
    have hdir' : VLinks.isUp t = !VLinks.isUp rri := by
      revert hdir
      cases VLinks.isUp rri <;> cases VLinks.isUp t <;> simp
    rw [VLinks.usedInDirection_iff.mpr ⟨t, hdir', ht⟩] at hused
    cases hused
  have hwired : Wired VLink.ID VLinks.isUp (v.virtualLinks.eraseP (fun l => l.ID = ID))
      (v.eraseVlinkFor rri).vlinkOf :=
    h.wired.release hrri (fun _ _ => served_eraseVlinkFor)
      (.inr ⟨hunused, hsub, fun _ => mem_eraseP_of_distinct h.wired.distinct⟩)
  refine ⟨⟨hwired, fun l hl => h.fresh l (hsub.subset hl)⟩, fun _ _ => served_eraseVlinkFor,
    fun t ht => ?_⟩
  obtain ⟨l, hl⟩ := Option.isSome_iff_exists.mp ((resolve_isSome hwired).mpr ht)
  obtain ⟨i, hi⟩ := Option.isSome_iff_exists.mp ht
  have hsame : (v.eraseVlinkFor rri).vlinkOf t = v.vlinkOf t :=
    hi.trans (served_eraseVlinkFor.mp hi).2.symm
  exact hl.trans (resolve_of_sublist h.wired.distinct hsub hsame hl).symm

variable {destroyVirtualLink : Nat → Bool} {rules : List Rule}

/-- Releasing one target: it loses its link unless a rule keeps it, and the links of all
other targets stay. -/
theorem removeUselessVlinks_spec (h : v.InOrder nextID) :
    wp (removeUselessVlinks destroyVirtualLink rules rri)
      (fun _ v' => v'.InOrder nextID ∧
        (∀ t, (v'.vlinkOf t).isSome ↔ (v.vlinkOf t).isSome ∧
          (t = rri → rules.any (fun again => again.keepsVlink t) = true)) ∧
        ∀ t, (v'.vlinkOf t).isSome → v'.linkOf t = v.linkOf t)
      (fun _ => ∃ ID, destroyVirtualLink ID = false) v := by
  simp only [removeUselessVlinks, wp_bind, wp_get]
  cases hrri : v.vlinkOf rri with
  | none =>
    refine ⟨h, fun t => ⟨fun ht => ⟨ht, ?_⟩, And.left⟩, fun _ _ => rfl⟩
    rintro rfl
    simp [hrri] at ht
  | some ID =>
    cases hkeep : rules.any (fun again => again.keepsVlink rri) with
    | true => exact ⟨h, fun t => ⟨fun ht => ⟨ht, fun heq => heq ▸ hkeep⟩, And.left⟩, fun _ _ => rfl⟩
    | false =>
      have hreleased {v' : VLinks} (hv' : Released v rri v' nextID) : v'.InOrder nextID ∧
          (∀ t, (v'.vlinkOf t).isSome ↔ (v.vlinkOf t).isSome ∧
            (t = rri → rules.any (fun again => again.keepsVlink t) = true)) ∧
          ∀ t, (v'.vlinkOf t).isSome → v'.linkOf t = v.linkOf t := by
        refine ⟨hv'.inOrder, fun t => ?_, hv'.kept⟩
        simp only [Option.isSome_iff_exists, hv'.served]
        by_cases heq : t = rri
        · simp [heq, hkeep]
        · simp [heq]
      simp only [Bool.false_eq_true, if_false, wp_bind, wp_update]
      rintro _ herase
      obtain rfl := removeVlinkFor_ok herase
      cases hused : v.usedInDirection (!VLinks.isUp rri) ID with
      | true => exact hreleased (released_shared h hrri hused)
      | false =>
        simp only [Bool.false_eq_true, if_false, wp_bind, wp_get, wp_eval,
          Failure.ofAbort_eq_ok]
        refine ⟨fun l _ => ?_, fun hthrow => ?_⟩
        · cases hdestroy : destroyVirtualLink l.ID with
          | false => exact ⟨l.ID, hdestroy⟩
          | true =>
            simp only [if_true, wp_update]
            rintro _ hremove
            obtain rfl := removeVlink_ok hremove
            rw [VLinks.eraseVlinkFor_virtualLinks]
            exact hreleased (released_unshared h hrri hused)
        · cases hget : (v.eraseVlinkFor rri).getVirtualLink ID <;>
            simp [hget, Failure.ofAbort] at hthrow

theorem each_removeUselessVlinks_throws (removeRuleInfo : List RuleRemovedInfo) (v : VLinks) :
    wp (each (removeUselessVlinks destroyVirtualLink rules) removeRuleInfo)
      (fun _ _ => True) (fun _ => ∃ ID, destroyVirtualLink ID = false) v := by
  refine wp_each (I := fun _ _ => True) (fun rri _ v _ => ?_) _ v trivial
  simp only [removeUselessVlinks, wp_bind, wp_get]
  split
  · trivial
  · next ID _ =>
    split
    · trivial
    · simp only [wp_bind, wp_update]
      intro v₁ _
      split
      · trivial
      · simp only [wp_bind, wp_get, wp_eval, Failure.ofAbort_eq_ok]
        refine ⟨fun l _ => ?_, fun hthrow => ?_⟩
        · split
          · simp only [wp_update, implies_true]
          · next hdestroy => exact ⟨l.ID, by simpa using hdestroy⟩
        · cases hget : v₁.getVirtualLink ID <;> simp [hget, Failure.ofAbort] at hthrow

/-- Releasing the targets of all removed rules. -/
theorem each_removeUselessVlinks_spec (h : v.InOrder nextID) (removeRuleInfo : List RuleRemovedInfo) :
    wp (each (removeUselessVlinks destroyVirtualLink rules) removeRuleInfo)
      (fun _ v' => v'.InOrder nextID ∧
        (∀ t, (v'.vlinkOf t).isSome ↔ (v.vlinkOf t).isSome ∧
          (t ∈ removeRuleInfo → rules.any (fun again => again.keepsVlink t) = true)) ∧
        ∀ t, (v'.vlinkOf t).isSome → v'.linkOf t = v.linkOf t)
      (fun _ => ∃ ID, destroyVirtualLink ID = false) v := by
  induction removeRuleInfo generalizing v with
  | nil => simp [each, h]
  | cons rri removeRuleInfo ih =>
    rw [each, wp_bind]
    refine wp_weaken (removeUselessVlinks_spec h) ?_
    rintro _ v₁ ⟨h₁, hserved, hkept⟩
    refine wp_weaken (ih h₁) ?_
    rintro _ v₂ ⟨h₂, hserved', hkept'⟩
    refine ⟨h₂, fun t => ?_, fun t ht => ?_⟩
    · rw [hserved', hserved, and_assoc, mem_cons, or_imp]
    · rw [hkept' t ht, hkept t ((hserved' t).mp ht).1]

end UnOrchestrator
