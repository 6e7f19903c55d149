import UnOrchestrator.GraphManager.DeleteFrame

/-!
# The accounts of the groups of internal endpoints

For each group the manager keeps a flag, a number of uses, the links of its LSI and the
ports of LSI-0 towards them, one for each graph. `Accounted` says that these agree with the
endpoints of the deployed graphs.

The ports are kept by graph, so that a graph with two endpoints in a group uses it twice and
has one port. And an update can take endpoints out of the stored graph without leaving their
groups. Where neither happens the accounts agree over whole runs of requests that are done, and
a deletion finds what it looks for (`run_accounted`).
-/

namespace UnOrchestrator

open StringMap (getElem?_erase getElem?_insert mem_iff toList_perm)

open Failure (orElse_eq_ok)

open Call

open Highlevel

namespace GraphManager

/-- The number of internal endpoints of a group in the deployed graphs. -/
def deployedEndpoints (s : GraphManager) (group : String) : Nat :=
  (s.tenantLSIs.toList.map fun entry => endpointsIn entry.2.graph.endPointsInternal group).sum

/-- The accounts of a group agree. -/
structure Accounted (s : GraphManager) (group : String) : Prop where
  created : s.isCreated group = true ↔ 0 < s.timesUsed group
  endpoints : s.timesUsed group = s.deployedEndpoints group
  links : s.timesUsed group = (s.linksOf group).length
  connections : s.timesUsed group = (s.connectionsOf group).size

/-- The loop of a deletion over the internal endpoints of the graph does not end the process. -/
def LeavesGroups (rofl : Lowlevel.Rofl) (s : GraphManager) (graphID : String) : Prop :=
  ∀ (d : Deletion rofl s graphID) (env : Environment),
    Call.Survives (Call.each (releaseInternalEndpoint rofl env graphID)
      d.info.graph.endPointsInternal)
      { d.onLSI0 with tenantLSIs := s.tenantLSIs.erase d.info.graph.ID }

/-! ## One group -/

/-- The links of a group are those that its ports lead to. -/
structure Balanced (s : GraphManager) (group : String) : Prop where
  created : s.isCreated group = true ↔ 0 < s.timesUsed group
  counted : (s.connectionsOf group).size = s.timesUsed group
  known : s.isCreated group = true → s.internalLSIsConnections.contains group = true
  ports : ((s.connectionsOf group).toList.map Prod.snd).Perm ((s.linksOf group).map VLink.remoteID)
  distinct : ((s.linksOf group).map VLink.ID).Nodup
  older : ∀ l ∈ s.linksOf group, l.ID < s.nextVLinkID

section Balanced

variable {s s' : GraphManager} {group : String}

theorem Balanced.length_linksOf (h : Balanced s group) :
    (s.linksOf group).length = s.timesUsed group := by
  have hlength := h.ports.length_eq
  rw [List.length_map, List.length_map, Std.ExtTreeMap.length_toList] at hlength
  rw [← hlength, h.counted]

/-- What happens elsewhere does not matter. -/
theorem Balanced.congr (h : Balanced s group) (hsame : s'.account group = s.account group)
    (hcounter : s.nextVLinkID ≤ s'.nextVLinkID) : Balanced s' group := by
  obtain ⟨hcreated, htimes, hconnections, hlinks⟩ := account_eq.mp hsame
  have hports := connectionsOf_congr hsame
  refine ⟨?_, ?_, fun hc => ?_, ?_, ?_, fun l hl => ?_⟩
  · rw [hcreated, htimes]
    exact h.created
  · rw [hports, htimes]
    exact h.counted
  · have hknown := h.known (hcreated ▸ hc)
    rw [Std.ExtTreeMap.contains_eq_isSome_getElem?] at hknown ⊢
    rw [hconnections]
    exact hknown
  · rw [hports, hlinks]
    exact h.ports
  · rw [hlinks]
    exact h.distinct
  · rw [hlinks] at hl
    exact Nat.lt_of_lt_of_le (h.older l hl) hcounter

/-- A group without an LSI has no ports and no links. -/
theorem Balanced.of_not_created (h : Balanced s group) (hcreated : s.isCreated group = false) :
    s.timesUsed group = 0 ∧ s.connectionsOf group = ∅ ∧ s.linksOf group = [] := by
  have htimes : s.timesUsed group = 0 := by
    have hiff := h.created
    rw [hcreated] at hiff
    simpa using hiff
  refine ⟨htimes, ?_, List.eq_nil_of_length_eq_zero (h.length_linksOf.trans htimes)⟩
  exact Std.ExtTreeMap.eq_empty_iff_size_eq_zero.mpr (h.counted.trans htimes)

end Balanced

/-! ## Joining a group -/

section Join

variable {rofl : Lowlevel.Rofl} {env : Environment} {graphID group : String} {s s' : GraphManager}
  {link : VLink} {port : Nat}

/-- The graph gets a port and the group a link, and both are the same. -/
theorem Joins.balanced (hround : Joins env graphID group s s' link port) (h : Balanced s group)
    (hnew : graphID ∉ s.connectionsOf group) : Balanced s' group := by
  obtain ⟨hcreated, htimes, hconnections, hlinks⟩ := account_eq.mp hround.account
  obtain ⟨htimes, hlinks⟩ : s'.timesUsed group = s.timesUsed group + 1 ∧
      s'.linksOf group = s.linksOf group ++ [link] := by
    rw [htimes, hlinks]
    by_cases hold : s.isCreated group = true
    · simp [hold]
    · obtain ⟨hzero, -, hnone⟩ := h.of_not_created (Bool.eq_false_iff.mpr hold)
      simp [hold, hzero, hnone]
  have hports : s'.connectionsOf group = (s.connectionsOf group).insert graphID link.remoteID := by
    rw [hround.connectionsOf, if_pos rfl, hround.port h.older]
  refine ⟨?_, ?_, fun _ => ?_, ?_, ?_, ?_⟩
  · rw [hcreated, htimes]
    simp
  · rw [hports, htimes, Std.ExtTreeMap.size_insert,
      if_neg (mt Std.ExtTreeMap.mem_iff_contains.mpr hnew), h.counted]
  · rw [Std.ExtTreeMap.contains_eq_isSome_getElem?, hconnections]
    rfl
  · rw [hports, hlinks, List.map_append, List.map_singleton]
    have hinserted : ((s.connectionsOf group).insert graphID link.remoteID).toList.Perm
        ((graphID, link.remoteID) :: (s.connectionsOf group).toList) := by
      have hperm := StringMap.toList_insert_perm (m := s.connectionsOf group) (k := graphID)
        (v := link.remoteID)
      rwa [StringMap.erase_of_notMem hnew] at hperm
    refine (hinserted.map Prod.snd).trans ?_
    exact (h.ports.cons link.remoteID).trans (List.perm_append_singleton _ _).symm
  · rw [hlinks, List.map_append, List.map_singleton]
    refine List.nodup_append.mpr ⟨h.distinct, List.nodup_singleton _, fun a ha b hb hab => ?_⟩
    obtain ⟨l, hl, rfl⟩ := List.mem_map.mp ha
    have hlt := h.older l hl
    rw [hab, List.mem_singleton.mp hb, hround.number] at hlt
    exact Nat.lt_irrefl _ hlt
  · intro l hl
    rw [hlinks, List.mem_append, List.mem_singleton] at hl
    rw [hround.counter]
    rcases hl with hl | rfl
    · exact Nat.lt_succ_of_lt (h.older l hl)
    · rw [hround.number]
      exact Nat.lt_succ_self _

/-- All groups are balanced, and a graph is in one more of them. -/
def JoinsGroup (graphID group : String) (s s' : GraphManager) : Prop :=
  (∀ g, Balanced s' g) ∧
    ∀ g k, k ∈ s'.connectionsOf g ↔ k ∈ s.connectionsOf g ∨ group = g ∧ k = graphID

theorem Joins.joinsGroup (hround : Joins env graphID group s s' link port)
    (h : ∀ g, Balanced s g) (hnew : graphID ∉ s.connectionsOf group) :
    JoinsGroup graphID group s s' := by
  refine ⟨fun g => ?_, fun g k => ?_⟩
  · by_cases hg : group = g
    · exact hg ▸ hround.balanced (h group) hnew
    · exact (h g).congr (hround.elsewhere g hg) (hround.counter ▸ Nat.le_succ _)
  · rw [hround.connectionsOf]
    split
    · next hg =>
      rw [StringMap.mem_insert]
      simp [hg, or_comm]
    · next hg => simp [hg]

/-- A new graph with one endpoint in each of its groups joins them. -/
theorem connectAll_balanced {eps : List EndPointInternal} (h : ∀ g, Balanced s g)
    (heps : (eps.map EndPointInternal.group).Nodup)
    (hnew : ∀ iep ∈ eps, graphID ∉ s.connectionsOf iep.group) :
    wp (each (handleInternalEndpoint rofl env graphID) eps)
      (fun _ s' => (∀ g, Balanced s' g) ∧ ∀ g k, k ∈ s'.connectionsOf g ↔
        k ∈ s.connectionsOf g ∨ g ∈ eps.map EndPointInternal.group ∧ k = graphID)
      (fun _ => True) s := by
  induction eps generalizing s with
  | nil => exact ⟨h, fun g k => by simp⟩
  | cons iep eps ih =>
    obtain ⟨hfresh, heps⟩ := List.nodup_cons.mp heps
    simp only [each, wp_bind]
    refine wp_mono handleInternalEndpoint_joins ?_ (fun _ _ => trivial)
    rintro _ s₁ ⟨link, port, hjoins⟩
    obtain ⟨h₁, hmem₁⟩ := hjoins.joinsGroup h (hnew iep List.mem_cons_self)
    refine wp_weaken (ih h₁ heps fun e he hin => ?_) (fun _ s₂ h₂ => ⟨h₂.1, fun g k => ?_⟩)
    · rcases (hmem₁ e.group graphID).mp hin with hin | ⟨hgroup, -⟩
      · exact hnew e (List.mem_cons_of_mem iep he) hin
      · exact hfresh (hgroup ▸ List.mem_map_of_mem he)
    · rw [h₂.2, hmem₁, List.map_cons, List.mem_cons, or_assoc]
      refine or_congr_right ?_
      rw [eq_comm (a := g), or_and_right]

end Join

/-! ## Leaving a group -/

section Leave

variable {rofl : Lowlevel.Rofl} {env : Environment} {graphID group : String} {s s' : GraphManager}

/-- A graph with a port in a group is one of its users. -/
theorem Balanced.created_of_mem (h : Balanced s group) (hmem : graphID ∈ s.connectionsOf group) :
    s.isCreated group = true := by
  by_contra hcreated
  obtain ⟨-, hempty, -⟩ := h.of_not_created (Bool.eq_false_iff.mpr hcreated)
  rw [hempty] at hmem
  exact Std.ExtTreeMap.not_mem_empty hmem

/-- The LSI of a group in use. -/
theorem Balanced.lsi_of_created (h : Balanced s group) (hcreated : s.isCreated group = true) :
    ∃ internal lsi, s.internalLSIs[group]? = some internal ∧ internal.lsi = some lsi ∧
      lsi.virtualLinks = s.linksOf group := by
  have hpos : 0 < (s.linksOf group).length := h.length_linksOf ▸ h.created.mp hcreated
  unfold linksOf at hpos ⊢
  cases hinternal : s.internalLSIs[group]? with
  | none => simp [hinternal] at hpos
  | some internal =>
    cases hlsi : internal.lsi with
    | none => simp [hinternal, hlsi] at hpos
    | some lsi => exact ⟨internal, lsi, rfl, hlsi, by simp [hlsi]⟩

/-- The last user of a group is its only one. -/
theorem Balanced.only_of_last (h : Balanced s group) (hlast : s.timesUsed group = 1) {k : String}
    (hmem : graphID ∈ s.connectionsOf group) (hk : k ∈ s.connectionsOf group) : k = graphID := by
  by_contra hne
  obtain ⟨p, hp⟩ := Option.ne_none_iff_exists'.mp (mem_iff.mp hmem)
  obtain ⟨q, hq⟩ := Option.ne_none_iff_exists'.mp (mem_iff.mp hk)
  have hq' : ((s.connectionsOf group).erase graphID)[k]? = some q := by
    rw [getElem?_erase, if_neg (Ne.symm hne), hq]
  have hlength := ((toList_perm hp).trans ((toList_perm hq').cons _)).length_eq
  rw [Std.ExtTreeMap.length_toList, h.counted, hlast] at hlength
  simp at hlength

/-- The link behind the port of a graph, and what is left without the two. -/
theorem Balanced.split {port : Nat} (h : Balanced s group)
    (hport : (s.connectionsOf group)[graphID]? = some port) :
    ∃ vl, (s.linksOf group).find? (fun vl => vl.remoteID = port) = some vl ∧
      (s.linksOf group).any (fun l => l.ID = vl.ID) = true ∧
      (((s.connectionsOf group).erase graphID).toList.map Prod.snd).Perm
        (((s.linksOf group).eraseP (fun l => l.ID = vl.ID)).map VLink.remoteID) := by
  have hports := (((toList_perm hport).map Prod.snd).symm.trans h.ports)
  obtain ⟨l, hl, hremote⟩ := List.mem_map.mp (hports.mem_iff.mp List.mem_cons_self)
  obtain ⟨vl, hfind⟩ : ∃ vl, (s.linksOf group).find? (fun vl => vl.remoteID = port) = some vl := by
    rw [← Option.isSome_iff_exists, List.find?_isSome]
    exact ⟨l, hl, by simpa using hremote⟩
  have hmem : vl ∈ s.linksOf group := List.mem_of_find?_eq_some hfind
  have hvl : vl.remoteID = port := by simpa using List.find?_some hfind
  obtain ⟨a, l₁, l₂, -, ha, hsplit, herase⟩ :=
    List.exists_of_eraseP (p := fun l : VLink => l.ID = vl.ID) hmem (by simp)
  -- no other link has the identifier
  have hlinks : a ∈ s.linksOf group := by
    rw [hsplit]
    exact List.mem_append_right _ List.mem_cons_self
  obtain rfl : a = vl := List.inj_on_of_nodup_map h.distinct hlinks hmem (by simpa using ha)
  refine ⟨a, hfind, List.any_eq_true.mpr ⟨a, hmem, by simp⟩, ?_⟩
  have hmiddle : (s.linksOf group).Perm (a :: (l₁ ++ l₂)) := by
    rw [hsplit]
    exact List.perm_middle
  have hboth := hports.trans (hmiddle.map VLink.remoteID)
  rw [herase]
  simpa only [List.map_cons, hvl, List.perm_cons] using hboth

/-- All groups are balanced, and a graph is in one less of them. -/
def LeavesGroup (graphID group : String) (s s' : GraphManager) : Prop :=
  (∀ g, Balanced s' g) ∧
    ∀ g k, k ∈ s'.connectionsOf g ↔ k ∈ s.connectionsOf g ∧ ¬ (group = g ∧ k = graphID)

/-- A graph that has a port in the group can leave it. -/
theorem releaseInternalEndpoint_survives {iep : EndPointInternal} (h : Balanced s iep.group)
    (hmem : graphID ∈ s.connectionsOf iep.group) :
    Survives (releaseInternalEndpoint rofl env graphID iep) s := by
  have hcreated := h.created_of_mem hmem
  obtain ⟨internal, lsi, hinternal, hlsi, hlinks⟩ := h.lsi_of_created hcreated
  obtain ⟨port, hport⟩ := Option.ne_none_iff_exists'.mp (mem_iff.mp hmem)
  obtain ⟨vl, hfind, hany, -⟩ := h.split hport
  rw [← hlinks] at hfind hany
  refine survives_get_bind ?_
  simp only [hinternal]
  refine survives_bind (survives_eval rfl) ?_
  simp only [wp_eval, orElse_eq_ok]
  refine ⟨fun internal' hinternal' => ?_, fun _ => trivial⟩
  cases hinternal'
  refine survives_bind (survives_eval (by rw [hlsi]; rfl)) ?_
  simp only [wp_eval, orElse_eq_ok]
  refine ⟨fun lsi' hlsi' => ?_, fun _ => trivial⟩
  cases hlsi.symm.trans hlsi'
  refine survives_bind (survives_assert ?_) ?_
  · rw [hlinks, h.length_linksOf, beq_self_eq_true]
  · rw [wp_assert]
    intro _
    refine survives_bind ?_ (wp_of_forall (fun _ _ => survives_modify) fun _ => trivial)
    unfold leaveGroup
    split
    · unfold destroyGroup
      split
      · exact survives_update (if_pos (h.known hcreated))
      · exact survives_throw
    · unfold disconnect
      refine survives_bind survives_modify ?_
      rw [wp_modify]
      refine survives_get_bind (survives_bind (survives_eval (a := port) ?_) ?_)
      · exact orElse_eq_ok.mpr hport
      · simp only [wp_eval, orElse_eq_ok]
        refine ⟨fun port' hport' => ?_, fun _ => trivial⟩
        cases hport.symm.trans hport'
        refine survives_bind (survives_eval (orElse_eq_ok.mpr hfind)) ?_
        simp only [wp_eval, orElse_eq_ok]
        refine ⟨fun vl' hvl' => ?_, fun _ => trivial⟩
        cases hfind.symm.trans hvl'
        split
        · refine survives_bind (survives_eval (Failure.ofAbort_eq_ok.mpr (if_pos hany))) ?_
          exact wp_of_forall (fun _ _ => survives_modify) fun _ => trivial
        · exact survives_throw

/-- An unused group is balanced. -/
theorem balanced_of_unused (hcreated : s.isCreated group = false) (htimes : s.timesUsed group = 0)
    (hconnections : s.connectionsOf group = ∅) (hlinks : s.linksOf group = []) :
    Balanced s group := by
  refine ⟨?_, ?_, fun hc => ?_, ?_, ?_, fun l hl => ?_⟩
  · rw [hcreated, htimes]
    simp
  · rw [hconnections, htimes, Std.ExtTreeMap.size_empty]
  · rw [hcreated] at hc
    cases hc
  · rw [hconnections, hlinks]
    exact List.Perm.nil
  · rw [hlinks]
    exact List.nodup_nil
  · rw [hlinks] at hl
    cases hl

/-- One of several users gives up its port, and the group a link to it. -/
theorem Balanced.reduce {links : List VLink} (h : Balanced s group)
    (hmem : graphID ∈ s.connectionsOf group) (hshared : s.timesUsed group ≠ 1)
    (haccount : s'.account group = ⟨s.isCreated group, s.timesUsed group - 1,
      some ((s.connectionsOf group).erase graphID), links⟩) (hsub : links.Sublist (s.linksOf group))
    (hports : (((s.connectionsOf group).erase graphID).toList.map Prod.snd).Perm
      (links.map VLink.remoteID))
    (hcounter : s'.nextVLinkID = s.nextVLinkID) : Balanced s' group := by
  obtain ⟨hcreated, htimes, hconnections, hlinks⟩ := account_eq.mp haccount
  have hconnectionsOf : s'.connectionsOf group = (s.connectionsOf group).erase graphID := by
    rw [connectionsOf, hconnections, Option.getD_some]
  have hpos : 0 < s.timesUsed group := h.created.mp (h.created_of_mem hmem)
  refine ⟨?_, ?_, fun _ => ?_, ?_, ?_, fun l hl => ?_⟩
  · rw [hcreated, htimes, h.created]
    omega
  · rw [hconnectionsOf, htimes, Std.ExtTreeMap.size_erase,
      if_pos (Std.ExtTreeMap.mem_iff_contains.mp hmem), h.counted]
  · rw [Std.ExtTreeMap.contains_eq_isSome_getElem?, hconnections, Option.isSome_some]
  · rw [hconnectionsOf, hlinks]
    exact hports
  · rw [hlinks]
    exact h.distinct.sublist (hsub.map VLink.ID)
  · rw [hlinks] at hl
    rw [hcounter]
    exact h.older l (hsub.subset hl)

theorem Left.leavesGroup (hleft : Left graphID group s s') (h : ∀ g, Balanced s g)
    (hmem : graphID ∈ s.connectionsOf group) : LeavesGroup graphID group s s' := by
  refine ⟨fun g => ?_, fun g k => ?_⟩
  · by_cases hg : group = g
    · subst hg
      by_cases hlast : s.timesUsed group = 1
      · obtain ⟨hcreated, htimes, -, hlinks⟩ := account_eq.mp (hleft.last hlast)
        refine balanced_of_unused hcreated htimes ?_ hlinks
        rw [hleft.connectionsOf, if_pos hlast]
      · obtain ⟨port, vl, hport, hfind, haccount⟩ := hleft.shared hlast
        obtain ⟨vl', hfind', -, hports⟩ := (h group).split hport
        cases hfind.symm.trans hfind'
        exact (h group).reduce hmem hlast haccount List.eraseP_sublist hports hleft.counter
    · exact (h g).congr (hleft.elsewhere g hg) hleft.counter.ge
  · by_cases hg : group = g
    · subst hg
      rw [hleft.connectionsOf]
      split
      · next hlast =>
        exact iff_of_false Std.ExtTreeMap.not_mem_empty
          fun hk => hk.2 ⟨rfl, (h group).only_of_last hlast hmem hk.1⟩
      · rw [StringMap.mem_erase]
        simp [and_comm]
    · rw [connectionsOf_congr (hleft.elsewhere g hg)]
      simp [hg]

/-- A deleted graph with one endpoint in each of its groups leaves them. -/
theorem releaseAll_balanced {eps : List EndPointInternal} (h : ∀ g, Balanced s g)
    (heps : (eps.map EndPointInternal.group).Nodup)
    (hmem : ∀ iep ∈ eps, graphID ∈ s.connectionsOf iep.group) :
    Survives (each (releaseInternalEndpoint rofl env graphID) eps) s ∧
    wp (each (releaseInternalEndpoint rofl env graphID) eps)
      (fun _ s' => (∀ g, Balanced s' g) ∧ ∀ g k, k ∈ s'.connectionsOf g ↔
        k ∈ s.connectionsOf g ∧ ¬ (g ∈ eps.map EndPointInternal.group ∧ k = graphID))
      (fun _ => True) s := by
  induction eps generalizing s with
  | nil => exact ⟨survives_pure, h, fun g k => by simp⟩
  | cons iep eps ih =>
    obtain ⟨hfresh, heps⟩ := List.nodup_cons.mp heps
    have hiep := hmem iep List.mem_cons_self
    have hround : wp (releaseInternalEndpoint rofl env graphID iep)
        (fun _ s' => LeavesGroup graphID iep.group s s') (fun _ => True) s :=
      wp_mono releaseInternalEndpoint_left (fun _ _ hleft => hleft.leavesGroup h hiep)
        (fun _ _ => trivial)
    -- the graph is still in the groups of the other endpoints
    have hothers {s₁ : GraphManager} (hleaves : LeavesGroup graphID iep.group s s₁) :
        ∀ e ∈ eps, graphID ∈ s₁.connectionsOf e.group := by
      intro e he
      refine (hleaves.2 e.group graphID).mpr ⟨hmem e (List.mem_cons_of_mem iep he), ?_⟩
      exact fun hgroup => hfresh (hgroup.1 ▸ List.mem_map_of_mem he)
    constructor
    · exact survives_bind (releaseInternalEndpoint_survives (h iep.group) hiep)
        (wp_weaken hround (fun _ _ h₁ => (ih h₁.1 heps (hothers h₁)).1))
    · simp only [each, wp_bind]
      refine wp_weaken hround (fun _ s₁ h₁ => ?_)
      refine wp_mono (ih h₁.1 heps (hothers h₁)).2 (fun _ s₂ h₂ => ⟨h₂.1, fun g k => ?_⟩)
        (fun _ h => h)
      rw [h₂.2, h₁.2, List.map_cons, List.mem_cons, and_assoc]
      refine and_congr_right fun _ => ?_
      rw [eq_comm (a := g), or_and_right, not_or]

end Leave

/-! ## All groups -/

/-- The groups are balanced, and a graph has a port in a group exactly when it has an endpoint
there. -/
structure Ledger (s : GraphManager) : Prop where
  records : ∀ (k : String) (info : GraphInfo), s.tenantLSIs[k]? = some info → info.graph.ID = k ∧
    info.lsi.InOrder s.nextVLinkID ∧
    (info.graph.endPointsInternal.map EndPointInternal.group).Nodup
  balanced : ∀ group, Balanced s group
  members : ∀ group k : String, k ∈ s.connectionsOf group ↔ ∃ info, s.tenantLSIs[k]? = some info ∧
    group ∈ info.graph.endPointsInternal.map EndPointInternal.group

theorem endpointsIn_of_nodup {eps : List EndPointInternal}
    (h : (eps.map EndPointInternal.group).Nodup) (group : String) :
    endpointsIn eps group = if group ∈ eps.map EndPointInternal.group then 1 else 0 := by
  have hcount : endpointsIn eps group = (eps.map EndPointInternal.group).count group := by
    rw [endpointsIn, List.count, List.countP_map]
    rfl
  rw [hcount]
  split
  · next hmem => exact List.count_eq_one_of_mem h hmem
  · next hmem => exact List.count_eq_zero_of_not_mem hmem

/-- With one endpoint for each of its groups, the graphs of a group are counted by its ports. -/
theorem Ledger.size_connectionsOf {s : GraphManager} (h : s.Ledger) (group : String) :
    (s.connectionsOf group).size = s.deployedEndpoints group := by
  let inGroup : String × GraphInfo → Bool := fun entry =>
    group ∈ entry.2.graph.endPointsInternal.map EndPointInternal.group
  have hone (entry : String × GraphInfo) (hentry : entry ∈ s.tenantLSIs.toList) :
      endpointsIn entry.2.graph.endPointsInternal group = if inGroup entry then 1 else 0 := by
    have hinfo := Std.ExtTreeMap.mem_toList_iff_getElem?_eq_some.mp hentry
    rw [endpointsIn_of_nodup (h.records entry.1 entry.2 hinfo).2.2]
    simp [inGroup]
  have hkeys : (s.connectionsOf group).keys.Perm ((s.tenantLSIs.toList.filter inGroup).map Prod.fst) := by
    refine (List.perm_ext_iff_of_nodup Std.ExtTreeMap.nodup_keys ?_).mpr fun k => ?_
    · refine List.Nodup.sublist (List.filter_sublist.map Prod.fst) ?_
      rw [Std.ExtTreeMap.map_fst_toList_eq_keys]
      exact Std.ExtTreeMap.nodup_keys
    · rw [Std.ExtTreeMap.mem_keys, h.members]
      simp only [List.mem_map, List.mem_filter, Prod.exists,
        Std.ExtTreeMap.mem_toList_iff_getElem?_eq_some, inGroup, decide_eq_true_eq]
      constructor
      · intro hk
        obtain ⟨info, hinfo, hgroup⟩ := hk
        exact ⟨k, info, ⟨hinfo, hgroup⟩, rfl⟩
      · intro hk
        obtain ⟨k', info, ⟨hinfo, hgroup⟩, rfl⟩ := hk
        exact ⟨info, hinfo, hgroup⟩
  have hsum (l : List (String × GraphInfo)) :
      l.countP inGroup = (l.map fun entry => if inGroup entry then 1 else 0).sum := by
    induction l with
    | nil => rfl
    | cons entry l ih => rw [List.countP_cons, ih, List.map_cons, List.sum_cons, Nat.add_comm]
  rw [deployedEndpoints, List.map_congr_left hone, ← Std.ExtTreeMap.length_keys, hkeys.length_eq,
    List.length_map, ← List.countP_eq_length_filter, hsum]

section Ledger

variable {rofl : Lowlevel.Rofl} {env : Environment} {s s' : GraphManager}

theorem Ledger.accounted (h : s.Ledger) (group : String) : Accounted s group := by
  have hbalanced := h.balanced group
  refine ⟨hbalanced.created, ?_, hbalanced.length_linksOf.symm, hbalanced.counted.symm⟩
  rw [← hbalanced.counted, h.size_connectionsOf]

/-- The groups of a deletion, at the beginning of its last loop. -/
theorem Ledger.release {graphID : String} (h : s.Ledger) (d : Deletion rofl s graphID) :
    Survives (each (releaseInternalEndpoint rofl env graphID)
      d.info.graph.endPointsInternal)
      { d.onLSI0 with tenantLSIs := s.tenantLSIs.erase d.info.graph.ID } ∧
    wp (each (releaseInternalEndpoint rofl env graphID) d.info.graph.endPointsInternal)
      (fun _ s' => (∀ g, Balanced s' g) ∧ ∀ g k, k ∈ s'.connectionsOf g ↔ k ∈ s.connectionsOf g ∧
        ¬ (g ∈ d.info.graph.endPointsInternal.map EndPointInternal.group ∧ k = graphID))
      (fun _ => True) { d.onLSI0 with tenantLSIs := s.tenantLSIs.erase d.info.graph.ID } := by
  obtain ⟨lowLevel, controller, honLSI0⟩ := d.onLSI0_eq
  rw [honLSI0]
  refine releaseAll_balanced (fun g => (h.balanced g).congr rfl (Nat.le_refl _))
    (h.records graphID d.info d.deployed).2.2 fun iep hiep => ?_
  exact (h.members iep.group graphID).mpr ⟨d.info, d.deployed, List.mem_map_of_mem hiep⟩

theorem Ledger.deleted {graphID : String} (h : s.Ledger)
    (hdelete : deleteGraph rofl env graphID s = .ok (some true, s')) : s'.Ledger := by
  obtain ⟨d, hd, herase, hrelease⟩ := deleteGraph_done hdelete
  obtain ⟨hbalanced, hmembers⟩ := (of_wp (h.release d).2 hrelease).1 () rfl
  rw [(h.records graphID d.info d.deployed).1] at herase
  refine ⟨fun k info hinfo => ?_, hbalanced, fun group k => ?_⟩
  · rw [herase, getElem?_erase] at hinfo
    rw [hd.counter]
    split at hinfo
    · cases hinfo
    · exact h.records k info hinfo
  · rw [hmembers, h.members, herase]
    by_cases hk : graphID = k
    · subst hk
      simp only [d.deployed, getElem?_erase, if_true]
      simp
    · simp only [getElem?_erase, if_neg hk, Ne.symm hk, and_false, not_false_eq_true,
        and_true]

/-- A new graph with one endpoint in each of its groups. -/
theorem Ledger.deployed {graph : Highlevel.Graph} (h : s.Ledger) (d : Deployment rofl env s graph)
    (hsingle : (graph.endPointsInternal.map EndPointInternal.group).Nodup) : d.result.Ledger := by
  have hnew (group : String) : graph.ID ∉ s.connectionsOf group := by
    rw [h.members]
    intro hmem
    obtain ⟨info, hinfo, -⟩ := hmem
    rw [d.fresh] at hinfo
    cases hinfo
  obtain ⟨internalLSIs, next, hstart, hget⟩ :=
    handleControllerForInternalEndpoint_internalLSIs graph { s with nextVLinkID := d.nextID }
  have hconnects := d.connects
  rw [hstart] at hconnects
  have hbalanced (g : String) :
      Balanced { s with nextVLinkID := d.nextID, internalLSIs := internalLSIs,
                        nextControllerPort := next } g := by
    refine (h.balanced g).congr (account_eq.mpr ⟨rfl, rfl, rfl, ?_⟩) d.counter
    have hlsi := hget g
    split at hlsi
    · -- a group without an LSI has no links, with or without a new controller
      next hnew =>
      obtain ⟨port, hlsi⟩ := hlsi
      rw [((h.balanced g).of_not_created hnew.2).2.2, linksOf, hlsi]
      rfl
    · rw [linksOf, hlsi]
      rfl
  obtain ⟨hbalanced', hmembers⟩ :=
    (of_wp (connectAll_balanced hbalanced hsingle fun iep _ => hnew iep.group) hconnects).1 () rfl
  have hrecords : d.connected.tenantLSIs = s.tenantLSIs := d.grows.1.sameRecords.1
  have hresult : d.result.tenantLSIs = s.tenantLSIs.insert graph.ID d.record := by
    rw [Deployment.result, hrecords]
  refine ⟨fun k info hinfo => ?_, fun g => (hbalanced' g).congr rfl (Nat.le_refl _),
    fun group k => ?_⟩
  · rw [hresult, getElem?_insert] at hinfo
    split at hinfo
    · next hk =>
      cases hinfo
      rw [show d.record.graph = graph from d.stored]
      exact ⟨hk, d.inOrder.mono d.grows.2, hsingle⟩
    · obtain ⟨hID, hinOrder, hnodup⟩ := h.records k info hinfo
      exact ⟨hID, hinOrder.mono d.grows.1.2, hnodup⟩
  · rw [show d.result.connectionsOf group = d.connected.connectionsOf group from rfl, hmembers,
      hresult]
    by_cases hk : graph.ID = k
    · subst hk
      have hold : ¬ graph.ID ∈ connectionsOf
          { s with nextVLinkID := d.nextID, internalLSIs := internalLSIs,
                   nextControllerPort := next } group := hnew group
      simp only [hold, getElem?_insert, if_true, false_or, and_true, Option.some.injEq,
        exists_eq_left', show d.record.graph = graph from d.stored]
    · rw [getElem?_insert, if_neg hk]
      simp only [Ne.symm hk, and_false, or_false]
      exact h.members group k

/-- An update that takes no internal endpoint away. -/
theorem Ledger.updated {graphID : String} {newGraph : Highlevel.Graph} (h : s.Ledger)
    (u : Update rofl env s graphID newGraph)
    (hkeeps : ∀ e ∈ u.info.graph.endPointsInternal, e ∈ newGraph.endPointsInternal) :
    u.result.Ledger := by
  obtain ⟨hID, hinOrder, hnodup⟩ := h.records graphID u.info u.deployed
  obtain ⟨hgrown, hle, -⟩ := u.added.links hinOrder
  have hgraph : u.record.graph = u.graph := u.pieces.graph
  have hinternal := u.endPointsInternal_eq hkeeps
  have hget (k : String) : u.result.tenantLSIs[k]? =
      if graphID = k then some u.record else s.tenantLSIs[k]? := by
    rw [Update.result, getElem?_insert]
  refine ⟨fun k info hinfo => ?_, fun g => (h.balanced g).congr rfl hle, fun group k => ?_⟩
  · rw [hget] at hinfo
    split at hinfo
    · next hk =>
      cases hinfo
      rw [hgraph, hinternal, u.graph_ID, hID]
      exact ⟨hk, (u.pieces.links hgrown).1, hnodup⟩
    · obtain ⟨hID', hinOrder', hnodup'⟩ := h.records k info hinfo
      exact ⟨hID', hinOrder'.mono hle, hnodup'⟩
  · rw [show u.result.connectionsOf group = s.connectionsOf group from rfl, h.members, hget]
    by_cases hk : graphID = k
    · subst hk
      simp only [u.deployed, if_true, Option.some.injEq, exists_eq_left', hgraph, hinternal]
    · rw [if_neg hk]

end Ledger

/-! ## Runs -/

/-- The internal endpoints of a deployed graph. -/
def internalEndpointsOf (s : GraphManager) (graphID : String) : List EndPointInternal :=
  ((s.tenantLSIs[graphID]?).map fun info => info.graph.endPointsInternal).getD []

/-- A new graph has at most one internal endpoint in each group, and an update asks for all the
internal endpoints that are deployed. -/
def KeepsAccounts (s : GraphManager) : Operation → Prop
  | .newGraph _ graph => (graph.endPointsInternal.map EndPointInternal.group).Nodup
  | .updateGraph _ graphID newGraph =>
    ∀ e ∈ s.internalEndpointsOf graphID, e ∈ newGraph.endPointsInternal
  | _ => True

/-- The condition on a step: the request is done, and does not disturb the accounts. -/
structure Accountable (rofl : Lowlevel.Rofl) (s : GraphManager) (op : Operation) : Prop where
  done : ∀ o s', call rofl op s = .ok (o, s') → o = some true
  accounts : KeepsAccounts s op

section Runs

variable {rofl : Lowlevel.Rofl} {s s' : GraphManager}

theorem create_ledger {runNFs : Bool} {physicalPorts : StringMap Nat}
    {inBand : Option (String × String)} (h : create rofl runNFs physicalPorts inBand = .ok s) :
    s.Ledger := by
  have hgroups : s.internalLSIs = ∅ ∧ s.internalLSIsCreated = ∅ ∧ s.timesUsedEndPointsInternal = ∅ := by
    cases inBand with
    | none =>
      cases h
      exact ⟨rfl, rfl, rfl⟩
    | some inBand =>
      obtain ⟨port, -, hs⟩ := Failure.bind_eq_ok.mp h
      cases hs
      exact ⟨rfl, rfl, rfl⟩
  obtain ⟨hinternal, hcreated, htimes⟩ := hgroups
  refine ⟨fun k info hinfo => ?_, fun g => ?_, fun group k => ?_⟩
  · rw [create_tenantLSIs h, Std.ExtTreeMap.getElem?_empty] at hinfo
    cases hinfo
  · refine balanced_of_unused ?_ ?_ (create_connectionsOf h g) ?_
    · simp [isCreated, hcreated]
    · simp [timesUsed, htimes]
    · simp [linksOf, hinternal]
  · rw [create_connectionsOf h, create_tenantLSIs h]
    simp

theorem Ledger.onController (h : s.Ledger) (graphID : String) (f : Controller → Controller) :
    (s.onController graphID f).Ledger := by
  unfold GraphManager.onController
  cases hold : s.tenantLSIs[graphID]? with
  | none => exact h
  | some old =>
    refine ⟨fun k info hinfo => ?_, fun g => (h.balanced g).congr rfl (Nat.le_refl _),
      fun group k => ?_⟩
    · simp only [putTenant, getElem?_insert] at hinfo
      split at hinfo
      · next hk =>
        cases hinfo
        exact h.records k old (hk ▸ hold)
      · exact h.records k info hinfo
    · refine (h.members group k).trans ?_
      simp only [putTenant, getElem?_insert]
      split
      · next hk =>
        subst hk
        simp [hold]
      · rfl

theorem step_ledger {op : Operation} (h : s.Ledger) (hop : Accountable rofl s op)
    (hstep : step rofl s op = .ok s') : s'.Ledger := by
  obtain ⟨o, ho⟩ := step_ok.mp hstep
  obtain rfl := hop.done o s' ho
  cases op with
  | newGraph env graph =>
    obtain ⟨d, rfl⟩ := newGraph_done ho
    exact h.deployed d hop.accounts
  | updateGraph env graphID newGraph =>
    obtain ⟨u, rfl⟩ := updateGraph_done ho
    refine h.updated u fun e he => hop.accounts e ?_
    rw [internalEndpointsOf, u.deployed]
    exact he
  | deleteGraph env graphID => exact h.deleted ho
  | lsi0DptOpen | lsi0DptClose =>
    cases ho
    exact ⟨h.records, fun g => (h.balanced g).congr rfl (Nat.le_refl _), h.members⟩
  | tenantDptOpen graphID | tenantDptClose graphID =>
    cases ho
    exact h.onController graphID _

/-- In every state of a run of accountable steps the accounts of all groups agree, and a deletion
can leave the groups of its graph. -/
theorem run_accounted {runNFs : Bool} {physicalPorts : StringMap Nat}
    {inBand : Option (String × String)} (hcreate : create rofl runNFs physicalPorts inBand = .ok s)
    {ops : List Operation} (hsteps : Run.EveryStep (step rofl) (Accountable rofl) s ops) :
    Run.Always (step rofl)
      (fun s => (∀ group, Accounted s group) ∧ ∀ graphID, LeavesGroups rofl s graphID) s ops := by
  refine Run.always_of_invariant (I := Ledger) (fun s op s' => step_ledger) ?_
    (create_ledger hcreate) hsteps
  exact fun s h => ⟨h.accounted, fun graphID d env => (h.release d).1⟩

end Runs

theorem accountable_of_done {rofl : Lowlevel.Rofl} {s : GraphManager} {op : Operation}
    (hdone : (call rofl op s).map Prod.fst = .ok (some true)) (h : KeepsAccounts s op) :
    Accountable rofl s op := by
  refine ⟨fun o s' ho => ?_, h⟩
  rw [ho] at hdone
  cases hdone
  rfl

instance (s : GraphManager) : (op : Operation) → Decidable (KeepsAccounts s op)
  | .newGraph _ _ => inferInstanceAs (Decidable (List.Nodup _))
  | .updateGraph _ _ _ => inferInstanceAs (Decidable (∀ _ ∈ _, _))
  | .deleteGraph _ _ | .lsi0DptOpen | .lsi0DptClose | .tenantDptOpen _ | .tenantDptClose _ =>
    .isTrue trivial

/-- A graph that only has internal endpoints, with the given identifiers, in one group. -/
def meeting (ID : String) (endpoints : List String) : ParsedGraph where
  toGraph := { ID := ID
               endPointsInternal := endpoints.map fun e => { id := e, name := "lan", group := "1" } }
  distinct := List.nodup_nil

/-- Two graphs meet in a group, the first is updated, and both leave. -/
theorem run_accounted_two_graphs :
    let ops := [.newGraph (.obliging { dpid := 1 }) (meeting "a" ["1"]),
      .newGraph (.obliging { dpid := 3 }) (meeting "b" ["1"]),
      .updateGraph (.obliging { dpid := 1 }) "a" (meeting "a" ["1"]),
      .deleteGraph (.obliging { dpid := 1 }) "a",
      .deleteGraph (.obliging { dpid := 3 }) "b"]
    Run.EveryStep (step default) (Accountable default) {} ops ∧
    Run.Always (step default)
      (fun s => (∀ group, Accounted s group) ∧ ∀ graphID, LeavesGroups default s graphID) {} ops := by
  intro ops
  have hdone : Run.EveryStep (step default) (fun s op =>
      (call default op s).map Prod.fst = .ok (some true) ∧ KeepsAccounts s op) {} ops := by
    decide +kernel
  have hsteps : Run.EveryStep (step default) (Accountable default) {} ops :=
    hdone.mono fun _ _ h => accountable_of_done h.1 h.2
  exact ⟨hsteps, run_accounted (show create default false ∅ none = .ok _ from rfl) hsteps⟩

/-- A graph with two endpoints in a group uses it twice and has one port. When another graph is
there, its deletion does not find the port for the second endpoint. -/
theorem deleteGraph_looks_for_second_port :
    ∃ s, Run.exec (step default) ({} : GraphManager)
        [.newGraph (.obliging { dpid := 1 }) (meeting "a" ["1", "2"]),
         .newGraph (.obliging { dpid := 3 }) (meeting "b" ["1"])] = .ok s ∧
      (s.timesUsed "1", s.deployedEndpoints "1", (s.linksOf "1").length,
        (s.connectionsOf "1").size) = (3, 3, 3, 2) ∧
      (deleteGraph default (.obliging { dpid := 1 }) "a" s).map Prod.fst = .error .assertion := by
  decide +kernel

end GraphManager

end UnOrchestrator
