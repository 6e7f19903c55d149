import UnOrchestrator.GraphManager.Requests

/-!
# Groups of internal endpoints

Graphs meet in the groups of internal endpoints. A group has an LSI while it is in use, a
number of uses, and for each graph the port of LSI-0 that leads to this LSI. A new graph
joins a group once for each of its endpoints there, and a deleted graph leaves it as often.

`Covered` is the bookkeeping: behind the number of uses there is a list of holders, one for
each link to the LSI of the group, in which every graph occurs at least as often as it has
endpoints, and which has every graph that is connected. So the last use of a group is that
of its last graph, and a graph that joins or leaves changes no port of another graph
(`connectAll_covered`, `releaseAll_covered`).
-/

namespace UnOrchestrator

open Function (update update_of_ne update_self)

open StringMap (getElem?_erase getElem?_insert)

open Call

open Highlevel

namespace GraphManager

/-- The number of endpoints in a group. -/
def endpointsIn (eps : List EndPointInternal) (group : String) : Nat :=
  eps.countP (fun iep => iep.group = group)

theorem endpointsIn_cons (iep : EndPointInternal) (eps : List EndPointInternal) (group : String) :
    endpointsIn (iep :: eps) group = endpointsIn eps group + if iep.group = group then 1 else 0 := by
  simp only [endpointsIn, List.countP_cons, decide_eq_true_eq]

/-- The holders of the links to the LSI of a group, for the number of endpoints that each graph
has in it. -/
structure HeldBy (s : GraphManager) (group : String) (demand : String → Nat)
    (holders : List String) : Prop where
  counted : holders.length ≤ s.timesUsed group
  demanded : ∀ graphID, demand graphID ≤ holders.count graphID
  connected : ∀ graphID, graphID ∈ s.connectionsOf group → graphID ∈ holders
  created : s.isCreated group = false → holders = []

/-- Every group has holders, for the number of endpoints of each graph in each group. -/
def Covered (s : GraphManager) (demand : String → String → Nat) : Prop :=
  ∀ group, ∃ holders, HeldBy s group (fun graphID => demand graphID group) holders

/-- The ports of all graphs but one are as before. -/
def SameConnections (graphID : String) (s s' : GraphManager) : Prop :=
  ∀ group k : String, k ≠ graphID → (s'.connectionsOf group)[k]? = (s.connectionsOf group)[k]?

variable {graphID : String} {s : GraphManager} {rofl : Lowlevel.Rofl}

theorem SameConnections.trans {s₁ s₂ : GraphManager} (h : SameConnections graphID s s₁)
    (h₁ : SameConnections graphID s₁ s₂) :
    SameConnections graphID s s₂ :=
  fun group k hk => (h₁ group k hk).trans (h group k hk)

/-- Fewer endpoints need no more holders. -/
theorem Covered.mono {s' : GraphManager} {demand demand' : String → String → Nat}
    (h : s.Covered demand) (hle : ∀ graphID group, demand' graphID group ≤ demand graphID group)
    (htimes : s'.timesUsed = s.timesUsed) (hconnections : s'.connectionsOf = s.connectionsOf)
    (hcreated : s'.isCreated = s.isCreated) : s'.Covered demand' := by
  intro group
  obtain ⟨holders, hheld⟩ := h group
  refine ⟨holders, ?_, fun graphID => (hle graphID group).trans (hheld.demanded graphID), ?_, ?_⟩
  · rw [htimes]
    exact hheld.counted
  · rw [hconnections]
    exact hheld.connected
  · rw [hcreated]
    exact hheld.created

/-- What happens in other groups does not matter to the holders. -/
theorem HeldBy.elsewhere {s' : GraphManager} {demand : String → String → Nat} {group : String}
    {joined joined' : String → Nat} {holders : List String}
    (h : HeldBy s group (fun k => update demand graphID joined k group) holders)
    (hsame : s'.account group = s.account group) (hjoined : joined' group = joined group) :
    HeldBy s' group (fun k => update demand graphID joined' k group) holders := by
  obtain ⟨hcreated, htimes, -⟩ := account_eq.mp hsame
  refine ⟨htimes ▸ h.counted, fun k => ?_, connectionsOf_congr hsame ▸ h.connected,
    hcreated ▸ h.created⟩
  have hk := h.demanded k
  by_cases hgraph : k = graphID
  · subst hgraph
    simpa only [update_self, hjoined] using hk
  · simpa only [update_of_ne hgraph] using hk

/-! ## Joining a group -/

section Join

variable {env : Environment} {group : String} {s' : GraphManager} {link : VLink} {port : Nat}

theorem Joins.sameConnections (h : Joins env graphID group s s' link port) :
    SameConnections graphID s s' := by
  intro g k hk
  rw [h.connectionsOf]
  split
  · rw [getElem?_insert, if_neg hk.symm]
  · rfl

/-- The graph becomes one holder more. -/
theorem Joins.covered {demand : String → String → Nat} {joined : String → Nat}
    (h : Joins env graphID group s s' link port) (hs : s.Covered (update demand graphID joined)) :
    s'.Covered (update demand graphID (fun g => joined g + if group = g then 1 else 0)) := by
  intro g
  obtain ⟨holders, hheld⟩ := hs g
  by_cases hg : group = g
  · subst hg
    obtain ⟨hcreated', htimes, -⟩ := account_eq.mp h.account
    refine ⟨graphID :: holders, ?_, fun k => ?_, fun k hk => ?_, fun hcreated => ?_⟩
    · rw [htimes]
      split
      · exact Nat.succ_le_succ hheld.counted
      · next hnew =>
        rw [hheld.created (Bool.eq_false_iff.mpr hnew)]
        exact Nat.le_refl _
    · have hk := hheld.demanded k
      by_cases hgraph : k = graphID
      · subst hgraph
        simp only [update_self, if_true, List.count_cons_self] at hk ⊢
        exact Nat.succ_le_succ hk
      · simpa only [update_of_ne hgraph, List.count_cons_of_ne (Ne.symm hgraph)] using hk
    · rw [h.connectionsOf, if_pos rfl, StringMap.mem_insert] at hk
      rcases hk with rfl | hk
      · exact List.mem_cons_self
      · exact List.mem_cons_of_mem _ (hheld.connected k hk)
    · rw [hcreated'] at hcreated
      cases hcreated
  · exact ⟨holders, hheld.elsewhere (h.elsewhere g hg) (by simp [hg])⟩

end Join

variable {env : Environment} {demand : String → String → Nat}

/-- New controllers go to the groups without an LSI. -/
theorem handleControllerForInternalEndpoint_internalLSIs (graph : Highlevel.Graph) (s : GraphManager) :
    ∃ internalLSIs next, handleControllerForInternalEndpoint graph s =
      { s with internalLSIs := internalLSIs, nextControllerPort := next } ∧ ∀ group : String,
        if (∃ e ∈ graph.endPointsInternal, e.group = group) ∧ s.isCreated group = false then
          ∃ port, internalLSIs[group]? = some { controllerPort := port }
        else internalLSIs[group]? = s.internalLSIs[group]? := by
  unfold handleControllerForInternalEndpoint
  generalize graph.endPointsInternal = eps
  induction eps generalizing s with
  | nil => exact ⟨s.internalLSIs, s.nextControllerPort, rfl, fun group => by simp⟩
  | cons iep eps ih =>
    rw [List.foldl_cons]
    by_cases hcreated : s.isCreated iep.group = true
    · rw [if_pos hcreated]
      obtain ⟨internalLSIs, next, heq, hget⟩ := ih s
      refine ⟨internalLSIs, next, heq, fun group => ?_⟩
      by_cases hgroup : iep.group = group
      · subst hgroup
        simpa [hcreated] using hget iep.group
      · simpa [hgroup] using hget group
    · rw [if_neg hcreated]
      obtain ⟨internalLSIs, next, heq, hget⟩ := ih { s with
        internalLSIs := s.internalLSIs.insert iep.group { controllerPort := s.nextControllerPort }
        nextControllerPort := s.nextControllerPort + 1 }
      refine ⟨internalLSIs, next, heq, fun group => ?_⟩
      have hrest : if (∃ e ∈ eps, e.group = group) ∧ s.isCreated group = false then
            ∃ port, internalLSIs[group]? = some { controllerPort := port }
          else internalLSIs[group]? =
            (s.internalLSIs.insert iep.group { controllerPort := s.nextControllerPort })[group]? := hget group
      rw [getElem?_insert] at hrest
      by_cases hgroup : iep.group = group
      · subst hgroup
        simp only [hcreated, and_true, if_true] at hrest ⊢
        rw [if_pos ⟨iep, List.mem_cons_self, rfl⟩]
        split at hrest
        · exact hrest
        · exact ⟨_, hrest⟩
      · simpa [hgroup] using hrest

/-- New controllers do not concern the groups that are in use. -/
theorem handleControllerForInternalEndpoint_groups (graph : Highlevel.Graph) (s : GraphManager) :
    (handleControllerForInternalEndpoint graph s).timesUsed = s.timesUsed ∧
    (handleControllerForInternalEndpoint graph s).connectionsOf = s.connectionsOf ∧
    (handleControllerForInternalEndpoint graph s).isCreated = s.isCreated := by
  obtain ⟨internalLSIs, next, heq, -⟩ := handleControllerForInternalEndpoint_internalLSIs graph s
  rw [heq]
  exact ⟨rfl, rfl, rfl⟩

/-- A new graph joins the groups of its endpoints. -/
theorem connectAll_covered (eps : List EndPointInternal)
    (h : s.Covered (update demand graphID (fun _ => 0))) :
    wp (each (handleInternalEndpoint rofl env graphID) eps)
      (fun _ s' => SameConnections graphID s s' ∧
        s'.Covered (update demand graphID (endpointsIn eps)))
      (fun _ => True) s := by
  refine wp_weaken (wp_each (I := fun rest s' => SameConnections graphID s s' ∧
    ∃ joined, (∀ group, joined group + endpointsIn rest group = endpointsIn eps group) ∧
      s'.Covered (update demand graphID joined)) ?_ eps s ?_) ?_
  · rintro iep rest s₁ ⟨hsame, joined, hcount, hcovered⟩
    refine wp_mono handleInternalEndpoint_joins ?_ (fun _ _ => trivial)
    rintro _ s₂ ⟨link, port, hjoins⟩
    refine ⟨hsame.trans hjoins.sameConnections, _, fun group => ?_, hjoins.covered hcovered⟩
    rw [← hcount group, endpointsIn_cons]
    omega
  · exact ⟨fun _ _ _ => rfl, fun _ => 0, fun group => Nat.zero_add _, h⟩
  · rintro _ s' ⟨hsame, joined, hcount, hcovered⟩
    obtain rfl : joined = endpointsIn eps := funext hcount
    exact ⟨hsame, hcovered⟩

theorem Deployment.connected_covered {graph : Highlevel.Graph} (d : Deployment rofl env s graph)
    (h : s.Covered demand) :
    SameConnections graph.ID s d.connected ∧
      d.connected.Covered (update demand graph.ID (endpointsIn graph.endPointsInternal)) := by
  obtain ⟨htimes, hconnections, hcreated⟩ :=
    handleControllerForInternalEndpoint_groups graph { s with nextVLinkID := d.nextID }
  have hstart : (handleControllerForInternalEndpoint graph
      { s with nextVLinkID := d.nextID }).Covered (update demand graph.ID fun _ => 0) := by
    refine h.mono (fun k group => ?_) htimes hconnections hcreated
    by_cases hk : k = graph.ID
    · subst hk
      simp
    · rw [update_of_ne hk]
  obtain ⟨hsame, hcovered⟩ := (of_wp (connectAll_covered _ hstart) d.connects).1 () rfl
  refine ⟨fun group k hk => ?_, hcovered⟩
  rw [hsame group k hk, hconnections]
  rfl

/-! ## Leaving a group -/

/-- A holder that leaves alone for the last time was the only one. -/
theorem HeldBy.eq_singleton {group : String} {demand : String → Nat} {holders : List String}
    (h : HeldBy s group demand holders) (hdemand : 0 < demand graphID)
    (hlast : s.timesUsed group = 1) : holders = [graphID] := by
  have hmem : graphID ∈ holders :=
    List.count_pos_iff.mp (Nat.lt_of_lt_of_le hdemand (h.demanded graphID))
  have hlength := h.counted
  match holders, hmem, hlength with
  | [k], hmem, _ => rw [List.mem_singleton.mp hmem]
  | _ :: _ :: _, _, hlength => simp [hlast] at hlength

theorem Left.sameConnections {group : String} {s' : GraphManager} (h : Left graphID group s s')
    (hs : s.Covered demand) (hdemand : 0 < demand graphID group) :
    SameConnections graphID s s' := by
  intro g k hk
  by_cases hg : group = g
  · subst hg
    rw [h.connectionsOf]
    split
    · -- no other graph was connected
      next hlast =>
      obtain ⟨holders, hheld⟩ := hs group
      obtain rfl := hheld.eq_singleton hdemand hlast
      have hnone : (s.connectionsOf group)[k]? = none := by
        rw [← not_not (a := _ = none), ← ne_eq, ← StringMap.mem_iff]
        exact fun hmem => hk (List.mem_singleton.mp (hheld.connected k hmem))
      rw [hnone, Std.ExtTreeMap.getElem?_empty]
    · rw [getElem?_erase, if_neg hk.symm]
  · rw [connectionsOf_congr (h.elsewhere g hg)]

/-- The graph gives up one of its places. -/
theorem Left.covered {group : String} {s' : GraphManager} (h : Left graphID group s s')
    {remaining : String → Nat}
    (hs : s.Covered (update demand graphID (fun g => remaining g + if group = g then 1 else 0))) :
    s'.Covered (update demand graphID remaining) := by
  intro g
  obtain ⟨holders, hheld⟩ := hs g
  by_cases hg : group = g
  · subst hg
    have hown := hheld.demanded graphID
    simp only [update_self, if_true] at hown
    have hmem : graphID ∈ holders :=
      List.count_pos_iff.mp (Nat.lt_of_lt_of_le (Nat.succ_pos _) hown)
    refine ⟨holders.erase graphID, ?_, fun k => ?_, fun k hk => ?_, fun hcreated => ?_⟩
    · rw [h.timesUsed, List.length_erase_of_mem hmem]
      exact Nat.sub_le_sub_right hheld.counted 1
    · by_cases hk : k = graphID
      · subst hk
        rw [update_self, List.count_erase_self]
        exact Nat.le_sub_one_of_lt hown
      · have hother := hheld.demanded k
        simp only [update_of_ne hk] at hother ⊢
        rwa [List.count_erase_of_ne hk]
    · rw [h.connectionsOf] at hk
      split at hk
      · exact absurd hk Std.ExtTreeMap.not_mem_empty
      · rw [StringMap.mem_erase] at hk
        exact (List.mem_erase_of_ne hk.1).mpr (hheld.connected k hk.2)
    · by_cases hlast : s.timesUsed group = 1
      · obtain rfl : holders = [graphID] := hheld.eq_singleton (by simp) hlast
        exact List.erase_cons_head graphID []
      · obtain ⟨_, _, -, -, haccount⟩ := h.shared hlast
        rw [(account_eq.mp haccount).1] at hcreated
        rw [hheld.created hcreated] at hmem
        cases hmem
  · exact ⟨holders, hheld.elsewhere (h.elsewhere g hg) (by simp [hg])⟩

/-- A deleted graph leaves the groups of its endpoints. -/
theorem releaseAll_covered (eps : List EndPointInternal)
    (h : s.Covered (update demand graphID (endpointsIn eps))) :
    wp (each (releaseInternalEndpoint rofl env graphID) eps)
      (fun _ s' => SameConnections graphID s s' ∧
        s'.Covered (update demand graphID (fun _ => 0)))
      (fun _ => True) s := by
  refine wp_each (I := fun rest s' => SameConnections graphID s s' ∧
    s'.Covered (update demand graphID (endpointsIn rest))) ?_ eps s
      ⟨fun _ _ _ => rfl, h⟩
  rintro iep rest s₁ ⟨hsame, hcovered⟩
  refine wp_mono releaseInternalEndpoint_left (fun _ s₂ hleft => ?_) (fun _ _ => trivial)
  have hrest : endpointsIn (iep :: rest) =
      fun g => endpointsIn rest g + if iep.group = g then 1 else 0 :=
    funext (endpointsIn_cons iep rest)
  rw [hrest] at hcovered
  exact ⟨hsame.trans (hleft.sameConnections hcovered (by simp)), hleft.covered hcovered⟩

end GraphManager

end UnOrchestrator
