import UnOrchestrator.GraphManager.Agreement

/-!
# Functions that the compute controller knows

The compute controller of a graph keeps an entry for each network function of the graph, with
the implementation that was selected for it. An update makes the entries of new functions one
by one while it asks for their descriptions, before it is known that the update is valid. It
selects the implementations for all entries later on, and so does every later update. When
functions go, or the graph is deleted, each entry is stopped through its implementation.

`run_serviceable` says when the entries are those of the stored graph, each with an
implementation, whatever requests failed before: an update that is refused may not have
retrieved a description, the new functions need an implementation, and functions that go have
to be stopped. A description that an update leaves behind is an entry without implementation,
and the deletion of the graph goes through it (`refused_update_breaks_deletion`).
-/

namespace UnOrchestrator

open StringMap (getElem?_insert mem_iff)

open Call

open Highlevel Highlevel.Graph

namespace ComputeController

/-- Every function that is known is one of the list, and has an implementation. -/
def OnlySelected (c : ComputeController) (ids : List String) : Prop :=
  ∀ (id : String) nf, c.nfs[id]? = some nf → id ∈ ids ∧ nf.selected.isSome = true

/-- The functions that had an implementation have it still. -/
def KeepsSelected (c c' : ComputeController) : Prop :=
  ∀ (id : String) nf, c.nfs[id]? = some nf → nf.selected.isSome = true → c'.nfs[id]? = some nf

section

variable {c c' : ComputeController} {isSupported : Description → Bool}

variable {id : String} {nf : NF}

/-- The loop gives the functions that it meets an implementation. -/
theorem selectAll_selected {l : List (String × NF)} {nfs : StringMap NF}
    (h : (selectAll isSupported l nfs).2 = true) (hnf : (selectAll isSupported l nfs).1[id]? = some nf) :
    nf.selected.isSome = true ∨ id ∉ l.map Prod.fst ∧ nfs[id]? = some nf := by
  induction l generalizing nfs with
  | nil => exact .inr ⟨List.not_mem_nil, hnf⟩
  | cons entry rest ih =>
    obtain ⟨current, met⟩ := entry
    have hwritten (written : NF) (hselected : written.selected.isSome = true)
        (hrest : nf.selected.isSome = true ∨
          id ∉ rest.map Prod.fst ∧ (nfs.insert current written)[id]? = some nf) :
        nf.selected.isSome = true ∨
          id ∉ ((current, met) :: rest).map Prod.fst ∧ nfs[id]? = some nf := by
      rcases hrest with hnf | ⟨hid, hnf⟩
      · exact .inl hnf
      · rw [getElem?_insert] at hnf
        split at hnf
        · cases hnf
          exact .inl hselected
        · next hne => exact .inr ⟨by simp [Ne.symm hne, hid], hnf⟩
    cases hmet : met.selected with
    | some descr =>
      simp only [selectAll, hmet] at h hnf
      exact hwritten _ (by simp [checkSupportedDescriptions, hmet]) (ih h hnf)
    | none =>
      simp only [selectAll, hmet] at h hnf
      split at h
      · cases h
      · next descr hfound =>
        simp only [hfound] at hnf
        exact hwritten _ rfl (ih h hnf)

theorem selectImplementation_selected (h : (c.selectImplementation isSupported).2 = true)
    (hnf : (c.selectImplementation isSupported).1.nfs[id]? = some nf) :
    nf.selected.isSome = true := by
  rcases selectAll_selected (l := c.nfs.toList) h hnf with hselected | ⟨hid, hknown⟩
  · exact hselected
  · have hmem := Std.ExtTreeMap.mem_toList_iff_getElem?_eq_some.mpr hknown
    exact absurd (List.mem_map.mpr ⟨(id, nf), hmem, rfl⟩) hid

/-- When every function has an implementation or a description that is supported, the selection
succeeds. -/
theorem selectImplementation_succeeds
    (h : ∀ (id : String) nf, c.nfs[id]? = some nf → nf.selected.isSome = true ∨
      ∃ descr ∈ nf.descriptions, (descr.supported || isSupported descr) = true) :
    (c.selectImplementation isSupported).2 = true := by
  have hall (l : List (String × NF)) (nfs : StringMap NF)
      (hl : ∀ entry ∈ l, entry.2.selected.isSome = true ∨
        ∃ descr ∈ entry.2.descriptions, (descr.supported || isSupported descr) = true) :
      (selectAll isSupported l nfs).2 = true := by
    induction l generalizing nfs with
    | nil => rfl
    | cons entry rest ih =>
      obtain ⟨id, nf⟩ := entry
      have hrest := fun nfs => ih nfs fun e he => hl e (List.mem_cons_of_mem _ he)
      rw [selectAll]
      split
      · exact hrest _
      · next hnone =>
        split
        · next hfind =>
          rcases hl (id, nf) List.mem_cons_self with hselected | ⟨descr, hdescr, hsupported⟩
          · simp [hnone] at hselected
          · have hunsupported := List.find?_eq_none.mp hfind _ (List.mem_map_of_mem hdescr)
            exact absurd hsupported (by simpa using hunsupported)
        · exact hrest _
  refine hall _ _ fun entry hentry => ?_
  exact h entry.1 entry.2 (Std.ExtTreeMap.mem_toList_iff_getElem?_eq_some.mp hentry)

/-- Stopping a function takes its entry at most. -/
theorem stopNF_entries {stopped done : Bool} {k : String} (h : c.stopNF stopped id = .ok (c', done))
    (hnf : c'.nfs[k]? = some nf) :
    c.nfs[k]? = some nf ∧ (stopped = true → k ≠ id) := by
  unfold stopNF at h
  split at h
  · next hnone =>
    cases h
    refine ⟨hnf, fun _ heq => ?_⟩
    rw [heq, hnone] at hnf
    cases hnf
  · split at h
    · cases h
    · split at h
      · cases h
        rw [StringMap.getElem?_erase] at hnf
        split at hnf
        · cases hnf
        · next hne => exact ⟨hnf, fun _ => Ne.symm hne⟩
      · next hstopped =>
        cases h
        exact ⟨hnf, fun htrue => absurd htrue hstopped⟩

variable {ids : List String}

theorem OnlySelected.sub (h : c.OnlySelected ids)
    (hsub : ∀ (id : String) nf, c'.nfs[id]? = some nf → c.nfs[id]? = some nf) :
    c'.OnlySelected ids :=
  fun id nf hnf => h id nf (hsub id nf hnf)

end

end ComputeController

/-- Functions with an implementation are not asked for again. -/
theorem retrieveDescriptions_keeps {env : Environment} (nfs : List VNFs) (c : ComputeController) :
    wp (retrieveDescriptions env nfs) (fun _ c' => c.KeepsSelected c') c.KeepsSelected c := by
  induction nfs generalizing c with
  | nil => exact fun _ _ hnf _ => hnf
  | cons nf nfs ih =>
    simp only [retrieveDescriptions, wp_bind, wp_get]
    split
    · exact ih c
    · next hunknown =>
      split
      · exact fun _ _ hnf _ => hnf
      · exact fun _ _ hnf _ => hnf
      · simp only [wp_bind, wp_modify]
        have hadded {c' : ComputeController} (descriptions : List Description)
            (described : descriptions ≠ []) (h : (c.addNF nf.id descriptions described).KeepsSelected c') :
            c.KeepsSelected c' := by
          intro id old hold hselected
          refine h id old ?_ hselected
          rw [ComputeController.addNF, getElem?_insert, if_neg]
          · exact hold
          · rintro rfl
            simp [ComputeController.getNFSelectedImplementation, hold] at hunknown
            simp [hunknown] at hselected
        exact wp_mono (ih _) (fun _ _ h => hadded _ _ h) (fun _ h => hadded _ _ h)

/-! ## Checking new functions -/

/-- The descriptions of a good answer. -/
def RetrievedDescription.descriptions? : RetrievedDescription → Option (List Description)
  | .ok descriptions _ => some descriptions
  | .noNF | .serverError => none

/-- A description of the function can be got, and is supported. -/
def Obtainable (env : Environment) (nf : VNFs) : Prop :=
  ∃ descriptions ∈ (env.retrieveDescription nf.id nf.name).descriptions?,
    ∃ descr ∈ descriptions, (descr.supported || env.isSupported descr) = true

/-- Every function has an implementation, or a description that is supported. -/
def Ready (env : Environment) (c : ComputeController) : Prop :=
  ∀ (id : String) nf, c.nfs[id]? = some nf → nf.selected.isSome = true ∨
    ∃ descr ∈ nf.descriptions, (descr.supported || env.isSupported descr) = true

theorem eq_ok_of_descriptions {answer : RetrievedDescription} {descriptions : List Description}
    (h : descriptions ∈ answer.descriptions?) : ∃ described, answer = .ok descriptions described := by
  cases answer with
  | ok _ described =>
    cases h
    exact ⟨described, rfl⟩
  | noNF | serverError => cases h

theorem retrieveDescriptions_ready {env : Environment} (nfs : List VNFs) {c : ComputeController}
    (hready : Ready env c)
    (h : ∀ nf ∈ nfs, (c.getNFSelectedImplementation nf.id).isSome = true ∨ Obtainable env nf) :
    ∃ c', retrieveDescriptions env nfs c = .ok (some true, c') ∧ Ready env c' := by
  induction nfs generalizing c with
  | nil => exact ⟨c, rfl, hready⟩
  | cons nf nfs ih =>
    have hrest : ∀ nf' ∈ nfs, (c.getNFSelectedImplementation nf'.id).isSome = true ∨
        Obtainable env nf' := fun nf' hnf' => h nf' (List.mem_cons_of_mem nf hnf')
    cases hselected : (c.getNFSelectedImplementation nf.id).isSome with
    | true =>
      obtain ⟨c', hc', hready'⟩ := ih hready hrest
      refine ⟨c', ?_, hready'⟩
      rw [← hc', retrieveDescriptions]
      show (if _ then _ else _ : Call ComputeController Bool) c = _
      rw [if_pos hselected]
    | false =>
      obtain ⟨descriptions, hgood, hsupported⟩ := (h nf List.mem_cons_self).resolve_left (by simp [hselected])
      obtain ⟨described, hanswer⟩ := eq_ok_of_descriptions hgood
      have hready₁ : Ready env (c.addNF nf.id descriptions described) := by
        intro id nf' hnf'
        rw [ComputeController.addNF, getElem?_insert] at hnf'
        split at hnf'
        · cases hnf'
          exact .inr hsupported
        · exact hready id nf' hnf'
      have hrest₁ : ∀ nf' ∈ nfs, ((c.addNF nf.id descriptions described).getNFSelectedImplementation
          nf'.id).isSome = true ∨ Obtainable env nf' := by
        intro nf' hnf'
        refine (hrest nf' hnf').imp_left fun hold => ?_
        rw [ComputeController.getNFSelectedImplementation, ComputeController.addNF,
          getElem?_insert, if_neg]
        · exact hold
        · intro heq
          rw [← heq, hselected] at hold
          cases hold
      obtain ⟨c', hc', hready'⟩ := ih hready₁ hrest₁
      refine ⟨c', ?_, hready'⟩
      rw [← hc', retrieveDescriptions]
      show (if _ then _ else _ : Call ComputeController Bool) c = _
      rw [if_neg (by simp [hselected]), hanswer]
      rfl

/-- The functions that a check asks for: those that have no implementation. -/
def asked (c : ComputeController) (nfs : List VNFs) : List VNFs :=
  nfs.filter fun nf => (c.getNFSelectedImplementation nf.id).isNone

/-- The first function that is asked for is not to be had. -/
theorem retrieveDescriptions_refused {env : Environment} {nfs : List VNFs} {c : ComputeController} {nf : VNFs}
    (hfirst : (asked c nfs).head? = some nf)
    (hnone : (env.retrieveDescription nf.id nf.name).descriptions? = none) :
    wp (retrieveDescriptions env nfs) (fun valid c' => valid = false ∧ c' = c) (fun c' => c' = c) c := by
  induction nfs with
  | nil => cases hfirst
  | cons nf' nfs ih =>
    simp only [retrieveDescriptions, wp_bind, wp_get]
    split
    · next hselected =>
      refine ih ?_
      rwa [asked, List.filter_cons_of_neg (by simpa [Option.isSome_iff_ne_none] using hselected)] at hfirst
    · next hselected =>
      rw [asked, List.filter_cons_of_pos (by simpa using hselected), List.head?_cons] at hfirst
      cases hfirst
      split
      · exact ⟨rfl, rfl⟩
      · exact rfl
      · next hanswer =>
        rw [hanswer] at hnone
        cases hnone

/-- What the check of an update meets: an interface that is not there, a first function that is not to
be had, or functions that are all to be had with an implementation. -/
def ChecksWhole (env : Environment) (physicalPorts : StringMap Nat) (diff : Highlevel.Graph)
    (c : ComputeController) : Prop :=
  (∃ p ∈ diff.endPointsInterface, physicalPorts[p.interface]? = none) ∨
  (∃ nf ∈ (asked c diff.vnfs).head?, (env.retrieveDescription nf.id nf.name).descriptions? = none) ∨
  ∀ nf ∈ asked c diff.vnfs, Obtainable env nf

/-- A check that is refused leaves the compute controller as it was, and one that is passed the functions
of the graph, for which implementations are found. -/
theorem checkGraphValidity_whole {env : Environment} {physicalPorts : StringMap Nat} {diff : Highlevel.Graph}
    {c : ComputeController} {ids : List String} (honly : c.OnlySelected ids)
    (h : ChecksWhole env physicalPorts diff c) :
    wp (checkGraphValidity physicalPorts diff (retrieveDescriptions env))
      (fun valid c' => if valid = true then (c'.selectImplementation env.isSupported).2 = true ∧
          ∀ id : String, id ∈ c'.nfs ↔ id ∈ c.nfs ∨ id ∈ diff.vnfs.map VNFs.id
        else c' = c) (fun c' => c' = c) c := by
  unfold checkGraphValidity
  split
  · exact rfl
  · next hports =>
    rcases h with ⟨p, hp, hunknown⟩ | ⟨nf, hfirst, hnone⟩ | hall
    · exact absurd (List.any_eq_true.mpr ⟨p, hp, by simp [hunknown]⟩) hports
    · refine wp_weaken (retrieveDescriptions_refused hfirst hnone) fun valid c' hrefused => ?_
      rw [hrefused.1]
      exact hrefused.2
    · have hobtained : ∀ nf ∈ diff.vnfs, (c.getNFSelectedImplementation nf.id).isSome = true ∨
          Obtainable env nf := by
        intro nf hnf
        cases hselected : (c.getNFSelectedImplementation nf.id).isSome with
        | true => exact .inl rfl
        | false => exact .inr (hall nf (List.mem_filter.mpr ⟨hnf, by simpa using hselected⟩))
      obtain ⟨c₁, hretrieve, hready⟩ :=
        retrieveDescriptions_ready diff.vnfs (fun id nf hnf => .inl (honly id nf hnf).2) hobtained
      refine wp_mono (wp_and wp_self (mem_retrieveDescriptions diff.vnfs c)) (fun valid c' h' => ?_)
        (fun c' h' => ?_)
      · obtain ⟨hreturned, hknown⟩ := h'
        cases hretrieve.symm.trans hreturned
        exact ⟨ComputeController.selectImplementation_succeeds hready, hknown rfl⟩
      · cases hretrieve.symm.trans h'.1

/-! ## The record of a graph -/

namespace GraphInfo

/-- The functions that the compute controller knows are those of the stored graph, and each has
an implementation. -/
def NoPhantoms (info : GraphInfo) : Prop :=
  ∃ c, info.computeController = some c ∧ c.OnlySelected (info.graph.vnfs.map VNFs.id)

/-- The stored graph and the compute controller. -/
def staff (info : GraphInfo) : Highlevel.Graph × Option ComputeController :=
  (info.graph, info.computeController)

theorem NoPhantoms.congr {info info' : GraphInfo} (h : info.NoPhantoms)
    (hstaff : info'.staff = info.staff) : info'.NoPhantoms := by
  simp only [staff, Prod.mk.injEq] at hstaff
  rw [NoPhantoms, hstaff.1, hstaff.2]
  exact h

theorem onLsi_staff (f : LSI → Except Abort LSI) : Preserves staff (onLsi f) := by
  intro info
  rw [wp_onLsi]
  exact fun _ _ => rfl

/-- Reading from the compute controller. -/
theorem onCompute_staff {α : Type} {x : Call ComputeController α} (h : Preserves id x) :
    Preserves staff (onCompute x) := by
  intro info
  rw [wp_onCompute]
  intro c hc
  refine h.wp (fun _ c' hc' => ?_) (fun c' hc' => ?_)
  · rw [staff, staff, hc, ← show c' = c from hc']
  · rw [staff, staff, hc, ← show c' = c from hc']

end GraphInfo

open GraphInfo

section Record

variable {env : Environment} {info : GraphInfo}

theorem addNFPieces_staff (nf : VNFs) : Preserves staff (addNFPieces env nf) := by
  refine Preserves.get_bind fun info => ?_
  refine (Preserves.bind (.eval _) fun ports => ?_) info
  refine .bind (onCompute_staff (.bind .get fun _ => .eval _)) fun descr => ?_
  refine .bind (onLsi_staff _) fun _ => ?_
  refine .get_bind fun info' => (Preserves.bind (.eval _) fun after => ?_) info'
  dsimp only
  split
  · exact .bind (onLsi_staff _) fun _ => .throw
  · exact .bind (onLsi_staff _) fun _ => onLsi_staff _

theorem addEndpointPieces_staff (ep : EndPointGre) :
    Preserves staff (addEndpointPieces env ep) := by
  refine .bind (onLsi_staff _) fun _ => ?_
  split
  · exact .bind (onLsi_staff _) fun _ => .throw
  · exact onLsi_staff _

/-- When a function cannot be started, functions of the graph are stopped. -/
theorem startPieces_noPhantoms (nfs : List VNFs) (h : info.NoPhantoms) :
    wp (startPieces env nfs) (fun _ info' => info'.NoPhantoms) NoPhantoms info := by
  simp only [startPieces, wp_bind, wp_get, wp_eval, wp_assert, wp_onCompute]
  refine ⟨fun decisions _ _ c hc _ => ?_, fun _ => h⟩
  have hsame : ({ info with computeController := some c } : GraphInfo).NoPhantoms :=
    h.congr (by rw [staff, staff, hc])
  split
  · exact hsame
  · rw [wp_bind, wp_onCompute]
    rintro c' ⟨⟩
    obtain ⟨c₀, hc₀, honly⟩ := h
    obtain rfl : c = c₀ := Option.mem_unique hc hc₀
    refine wp_mono (wp_each
      (I := fun _ c' => c'.OnlySelected (info.graph.vnfs.map VNFs.id)) (fun nf _ c₁ h₁ => ?_) nfs c
      honly) (fun _ c' h' => ⟨c', rfl, h'⟩) (fun c' h' => ⟨c', rfl, h'⟩)
    simp only [wp_update, Abort.bind_eq_ok, Abort.pure_eq_ok]
    rintro c₂ ⟨⟨c₃, stopped⟩, hstop, rfl⟩
    exact h₁.sub fun id nf' hnf => (ComputeController.stopNF_entries hstop hnf).1

theorem addPorts_noPhantoms (runNFs : Bool) (diff : Highlevel.Graph) (h : info.NoPhantoms) :
    wp (addPorts env runNFs diff) (fun _ info' => info'.NoPhantoms) NoPhantoms info := by
  simp only [addPorts, wp_bind, wp_assert]
  refine (Preserves.each addNFPieces_staff diff.vnfs).wp (fun _ info₁ h₁ => ?_)
    (fun _ h₁ => h.congr h₁)
  refine (Preserves.each addEndpointPieces_staff diff.endPointsGre).wp
    (fun _ info₂ h₂ _ => ?_) (fun _ h₂ => h.congr (h₂.trans h₁))
  have h' := h.congr (h₂.trans h₁)
  split
  · exact startPieces_noPhantoms diff.vnfs h'
  · exact h'

/-- What a graph has on the switches can be destroyed. -/
structure Environment.Destroys (env : Environment) : Prop where
  virtualLink : ∀ ID, env.destroyVirtualLink ID = true
  endpoint : ∀ id, env.destroyEndpoint id = true
  nfPorts : ∀ id, env.destroyNFPorts id = true

variable {physicalPorts : StringMap Nat} {diff : Highlevel.Graph}

variable {c : ComputeController}

/-- The check on the record is the check on its compute controller. -/
theorem wp_checkGraphValidity (hc : info.computeController = some c) {Q : Bool → GraphInfo → Prop}
    {E : GraphInfo → Prop} :
    wp (checkGraphValidity physicalPorts diff
        fun nfs => onCompute (retrieveDescriptions env nfs)) Q E info ↔
      wp (checkGraphValidity physicalPorts diff (retrieveDescriptions env))
        (fun valid c' => Q valid { info with computeController := some c' })
        (fun c' => E { info with computeController := some c' }) c := by
  unfold checkGraphValidity
  split
  · simp only [wp_pure]
    rw [← hc]
  · rw [wp_onCompute]
    exact ⟨fun h => h c hc, fun h c' hc' => Option.mem_unique hc hc' ▸ h⟩

theorem mem_keys_foldl_addVNFTo {k : String × String} (ds vs : List VNFs) :
    k ∈ (ds.foldl (fun vs v => addVNFTo v vs) vs).map VNFs.key ↔
      k ∈ vs.map VNFs.key ∨ k ∈ ds.map VNFs.key := by
  induction ds generalizing vs with
  | nil => simp
  | cons d ds ih => rw [List.foldl_cons, ih, mem_keys_addVNFTo, List.map_cons, List.mem_cons, or_assoc]

theorem mem_ids_grown {graph newGraph : Highlevel.Graph} {graphID id : String} :
    id ∈ (graph.addGraphToGraph (graph.calculateDiff newGraph graphID)).1.vnfs.map VNFs.id ↔
      id ∈ graph.vnfs.map VNFs.id ∨ id ∈ (graph.calculateDiff newGraph graphID).vnfs.map VNFs.id := by
  have hids (vs : List VNFs) : id ∈ vs.map VNFs.id ↔ ∃ k ∈ vs.map VNFs.key, k.1 = id := by
    rw [GraphManager.ids_eq, List.mem_map]
  simp only [hids, (addGraphToGraph_diff graph newGraph graphID).2.2.1, mem_keys_foldl_addVNFTo,
    or_and_right, exists_or]

theorem addPieces_noPhantoms {runNFs : Bool} {graphID : String} {newGraph : Highlevel.Graph} {nextID : Nat}
    (h : info.NoPhantoms)
    (hchecks : ∀ c ∈ info.computeController, ChecksWhole env physicalPorts (info.graph.calculateDiff newGraph graphID) c) :
    wp (addPieces env physicalPorts runNFs graphID newGraph)
      (fun _ t => t.2.NoPhantoms) (fun t => t.2.NoPhantoms) (nextID, info) := by
  obtain ⟨c, hc, honly⟩ := h
  simp only [addPieces, GraphInfo.lift, GraphInfo.onLinks, wp_bind, wp_get, wp_focus]
  rw [wp_checkGraphValidity hc]
  refine wp_mono (checkGraphValidity_whole honly (hchecks c hc)) (fun valid c₁ h₁ => ?_)
    (fun c₁ h₁ => ⟨c₁, rfl, by rwa [h₁]⟩)
  · cases valid with
    | false => exact ⟨c₁, rfl, by rwa [show c₁ = c from h₁]⟩
    | true =>
      obtain ⟨hselects, hentries⟩ := h₁
      simp only [Bool.not_true, Bool.false_eq_true, if_false, wp_bind, wp_focus,
        wp_modify, wp_onCompute, selectImplementation, wp_get, wp_pure]
      rintro _ ⟨⟩
      -- from here on the graph has the new functions, and all have an implementation
      have hgrown (links : VLinks) : NoPhantoms { info with
          graph := (info.graph.addGraphToGraph (info.graph.calculateDiff newGraph graphID)).1
          lsi := { info.lsi with toVLinks := links }
          computeController := some (c₁.selectImplementation env.isSupported).1 } := by
        refine ⟨_, rfl, fun id nf hnf => ⟨?_, ComputeController.selectImplementation_selected hselects hnf⟩⟩
        rw [mem_ids_grown]
        have hknown : id ∈ (c₁.selectImplementation env.isSupported).1.nfs := by
          rw [mem_iff, hnf]
          exact Option.some_ne_none nf
        rw [ComputeController.mem_selectImplementation, hentries, mem_iff] at hknown
        refine hknown.imp_left fun hknown => ?_
        obtain ⟨old, hold⟩ := Option.ne_none_iff_exists'.mp hknown
        exact (honly id old hold).1
      simp only [hselects, Bool.not_true, Bool.false_eq_true, if_false, wp_bind, wp_focus]
      refine wp_of_forall (fun _ links => ?_) (fun links => hgrown links.2)
      exact addPorts_noPhantoms runNFs _ (hgrown links.2)

/-! ## Functions that go -/

/-- Functions that go are stopped, and what they used can be destroyed. -/
def StopsGone (env : Environment) (runNFs : Bool) (gone : List VNFs) : Prop :=
  gone = [] ∨ runNFs = true ∧ (∀ v ∈ gone, env.stopNF v.id = true) ∧ env.Destroys

/-- Functions of a build that runs them are stopped one by one. -/
theorem each_removeNFPieces_entries {gone : List VNFs} (hc : info.computeController = some c)
    (hstop : ∀ v ∈ gone, env.stopNF v.id = true) (hdestroys : env.Destroys) :
    wp (each (removeNFPieces env true) gone)
      (fun _ info' => info'.graph = info.graph ∧ ∃ c', info'.computeController = some c' ∧
        ∀ (id : String) nf, c'.nfs[id]? = some nf → c.nfs[id]? = some nf ∧ id ∉ gone.map VNFs.id)
      (fun _ => False) info := by
  -- the functions that are left are not among those that were met
  refine wp_weaken (wp_each (I := fun rest info' => (∀ v ∈ rest, v ∈ gone) ∧
    info'.graph = info.graph ∧ ∃ c', info'.computeController = some c' ∧
      ∀ (id : String) nf, c'.nfs[id]? = some nf →
        c.nfs[id]? = some nf ∧ (id ∈ gone.map VNFs.id → id ∈ rest.map VNFs.id))
    (fun v rest info₁ h₁ => ?_) gone info ⟨fun _ hv => hv, rfl, c, hc, fun _ _ hnf => ⟨hnf, fun h => h⟩⟩)
    (fun _ info' h' => ?_)
  · obtain ⟨hrest, hgraph, c₁, hc₁, hentries⟩ := h₁
    simp only [removeNFPieces, if_true, wp_bind, wp_onCompute, wp_update,
      Abort.bind_eq_ok, Abort.pure_eq_ok, hdestroys.nfPorts, wp_onLsi]
    rintro c₂ hc₂ c₃ ⟨⟨c₄, done⟩, hstopped, rfl⟩ lsi -
    obtain rfl : c₁ = c₂ := Option.mem_unique hc₁ hc₂
    refine ⟨fun w hw => hrest w (List.mem_cons_of_mem v hw), hgraph, c₄, rfl, fun id nf hnf => ?_⟩
    obtain ⟨hold, hne⟩ := ComputeController.stopNF_entries hstopped hnf
    refine ⟨(hentries id nf hold).1, fun hgone => ?_⟩
    refine (List.mem_cons.mp ((hentries id nf hold).2 hgone)).resolve_left ?_
    exact hne (hstop v (hrest v List.mem_cons_self))
  · obtain ⟨-, hgraph, c', hc', hentries⟩ := h'
    refine ⟨hgraph, c', hc', fun id nf hnf => ⟨(hentries id nf hnf).1, fun hgone => ?_⟩⟩
    cases (hentries id nf hnf).2 hgone

theorem removePieces_entries {rofl : Lowlevel.Rofl} {runNFs : Bool}
    {removeRuleInfo : List RuleRemovedInfo} (hc : info.computeController = some c)
    (hstops : StopsGone env runNFs diff.vnfs) :
    wp (removePieces rofl env runNFs diff removeRuleInfo)
      (fun _ info' => info'.graph = info.graph ∧ ∃ c', info'.computeController = some c' ∧
        ∀ (id : String) nf, c'.nfs[id]? = some nf →
          c.nfs[id]? = some nf ∧ id ∉ diff.vnfs.map VNFs.id)
      (fun info' => diff.vnfs = [] ∧ info'.staff = info.staff) info := by
  have hthrown (h : ¬ env.Destroys) : diff.vnfs = [] :=
    hstops.resolve_right fun hstops => h hstops.2.2
  simp only [removePieces, wp_bind, wp_modify, wp_get, wp_focus]
  refine wp_mono (each_removeUselessVlinks_throws _ _) (fun _ links _ => ?_)
    (fun links hlinks => ⟨hthrown fun hdestroys => ?_, rfl⟩)
  · refine wp_weaken (wp_each (I := fun _ info' => info'.staff = info.staff)
      (fun ep _ info₁ h₁ => ?_) diff.endPointsGre _ rfl) (fun _ info₂ h₂ => ?_)
    · unfold removeEndpointPieces
      split
      · rw [wp_onLsi]
        exact fun _ _ => h₁
      · next hfailed => exact ⟨hthrown fun hdestroys => hfailed (hdestroys.endpoint ep.id), h₁⟩
    · simp only [staff, Prod.mk.injEq] at h₂
      rcases hstops with hnone | ⟨rfl, hstop, hdestroys⟩
      · rw [hnone]
        exact ⟨h₂.1, c, h₂.2.trans hc, fun _ _ hnf => ⟨hnf, List.not_mem_nil⟩⟩
      · refine wp_mono (each_removeNFPieces_entries (h₂.2.trans hc) hstop hdestroys)
          (fun _ info' h' => ?_) (fun _ h => h.elim)
        exact ⟨h'.1.trans h₂.1, h'.2⟩
  · obtain ⟨ID, hfailed⟩ := hlinks
    rw [hdestroys.virtualLink] at hfailed
    cases hfailed

/-- The graph without the functions that went, and the entries without theirs. -/
theorem GraphInfo.NoPhantoms.reduced {info' : GraphInfo} (h : info.NoPhantoms)
    (herased : Erased diff info.graph info'.graph) {c' : ComputeController}
    (hc : info.computeController = some c) (hc' : info'.computeController = some c')
    (hentries : ∀ (id : String) nf, c'.nfs[id]? = some nf → c.nfs[id]? = some nf ∧ id ∉ diff.vnfs.map VNFs.id) :
    info'.NoPhantoms := by
  obtain ⟨c₀, hc₀, honly⟩ := h
  obtain rfl : c = c₀ := Option.mem_unique hc hc₀
  refine ⟨c', hc', fun id nf hnf => ?_⟩
  obtain ⟨hold, hstays⟩ := hentries id nf hnf
  obtain ⟨hid, hselected⟩ := honly id nf hold
  refine ⟨?_, hselected⟩
  obtain ⟨v, hv, rfl⟩ := List.mem_map.mp hid
  have hkey : v.key ∉ diff.vnfs.map VNFs.key := by
    intro hkey
    obtain ⟨w, hw, hsame⟩ := List.mem_map.mp hkey
    exact hstays (List.mem_map.mpr ⟨w, hw, congrArg Prod.fst hsame⟩)
  obtain ⟨w, hw, hsame⟩ := List.mem_map.mp
    ((KeyedList.mem_keys_of_eraseKeys herased.vnfs hkey).mpr (List.mem_map_of_mem hv))
  exact List.mem_map.mpr ⟨w, hw, congrArg Prod.fst hsame⟩

end Record

/-! ## Requests -/

/-- A passed check of the ports has found an implementation for every function. -/
theorem selected_of_portsDescribed {c : ComputeController} {nfs : List VNFs}
    (h : portsDescribed c nfs = .ok true) :
    ∀ nf ∈ nfs, (c.getNFSelectedImplementation nf.id).isSome = true := by
  intro nf hnf
  obtain ⟨-, descr, -, hdescr, -⟩ := of_portsDescribed h nf hnf
  simp [hdescr]

namespace GraphManager

/-- No compute controller knows other functions than its graph. -/
def AllClean (s : GraphManager) : Prop :=
  ∀ (graphID : String) info, s.tenantLSIs[graphID]? = some info → info.NoPhantoms

/-- The condition on an update of a graph. -/
structure LeavesNone (env : Environment) (s : GraphManager) (graphID : String)
    (newGraph : Highlevel.Graph) (info : GraphInfo) : Prop where
  checks : ∀ c ∈ info.computeController,
    ChecksWhole env s.lsi0.physicalPorts (news graphID newGraph info.graph) c
  stops : StopsGone env s.runNFs (stale graphID newGraph info.graph).vnfs

section Requests

variable {rofl : Lowlevel.Rofl} {env : Environment} {s : GraphManager}

theorem updateGraph_allClean {graphID : String} {newGraph : Highlevel.Graph} (h : s.AllClean)
    (hupdate : ∀ info ∈ s.tenantLSIs[graphID]?, LeavesNone env s graphID newGraph info) :
    wp (updateGraph rofl env graphID newGraph) (fun _ s' => s'.AllClean) AllClean s := by
  refine wp_weaken (updateGraph_everyRecord (P := NoPhantoms) (M := NoPhantoms)
    (R := fun _ => True) (fun _ _ hinfo => hinfo.congr rfl) h (fun info hinfo => ?_) ?_
    (fun _ _ _ => trivial)) (fun _ _ h' => h'.1)
  · exact addPieces_noPhantoms (h graphID info hinfo) (hupdate info hinfo).checks
  · intro info grown graph removeRuleInfo hinfo hclean hgrown hremoved
    have herased := (removeGraphFromGraph_erased hremoved).2
    obtain ⟨c, hc, -⟩ := id hclean
    refine wp_mono (removePieces_entries hc (hupdate info hinfo).stops)
      (fun _ reduced hreduced => ⟨?_, trivial⟩) (fun reduced hthrown => ?_)
    · obtain ⟨hgraph, c', hc', hentries⟩ := hreduced
      exact hclean.reduced (hgraph ▸ herased) hc hc' hentries
    · obtain ⟨hnone, hstaff⟩ := hthrown
      simp only [staff, Prod.mk.injEq] at hstaff
      refine hclean.reduced (hstaff.1 ▸ herased) hc (hstaff.2.trans hc) fun _ _ hnf => ⟨hnf, ?_⟩
      simp [hnone]

/-- A new graph has described functions only. -/
theorem noPhantoms_of_creation {physicalPorts : StringMap Nat} {graph : Highlevel.Graph}
    {nextID nextID' : Nat} {info : GraphInfo}
    (creation : Creation env physicalPorts graph nextID info nextID') : info.NoPhantoms := by
  obtain ⟨c, asked, clo, lsi, hchecked, hdescribed, -, -, -, -, rfl⟩ := creation
  refine ⟨_, rfl, fun id nf hnf => ?_⟩
  have hknown : id ∈ (c.selectImplementation env.isSupported).1.nfs := by
    rw [mem_iff, hnf]
    exact Option.some_ne_none nf
  rw [ComputeController.mem_selectImplementation, checked_nfs hchecked] at hknown
  refine ⟨hknown, ?_⟩
  obtain ⟨v, hv, rfl⟩ := List.mem_map.mp hknown
  have hselected := selected_of_portsDescribed hdescribed v hv
  simpa [ComputeController.getNFSelectedImplementation, hnf] using hselected

/-- The condition on a step. -/
def CleanStep (s : GraphManager) : Operation → Prop
  | .updateGraph env graphID newGraph =>
    ∀ info ∈ s.tenantLSIs[graphID]?, LeavesNone env s graphID newGraph.toGraph info
  | _ => True

theorem call_allClean {op : Operation} (h : s.AllClean) (hop : CleanStep s op) :
    wp (call rofl op) (fun _ s' => s'.AllClean) AllClean s := by
  have hignores (info : GraphInfo) (controller : Controller) (hinfo : info.NoPhantoms) :
      NoPhantoms { info with controller := controller } := hinfo.congr rfl
  cases op with
  | newGraph env graph =>
    exact newGraph_everyRecord hignores h fun _ _ creation => noPhantoms_of_creation creation
  | updateGraph env graphID graph => exact updateGraph_allClean h hop
  | deleteGraph env graphID => exact deleteGraph_everyRecord h
  | lsi0DptOpen | lsi0DptClose => exact h
  | tenantDptOpen graphID | tenantDptClose graphID => exact onController_everyRecord hignores h graphID _

end Requests

/-! ## What the invariant is for -/

/-- The compute controller knows the functions of the stored graph, a later update with functions
that can be had gets through the check and the selection, and the deletion of the graph through its
functions; where one is stopped, the loop that stops them goes on from what it erased. -/
structure Serviceable (info : GraphInfo) : Prop where
  known : info.NoPhantoms
  updatable : ∀ c ∈ info.computeController, ∀ env nfs,
    (∀ nf ∈ nfs, (c.getNFSelectedImplementation nf.id).isSome = true ∨ Obtainable env nf) →
    ∃ c', retrieveDescriptions env nfs c = .ok (some true, c') ∧
      (c'.selectImplementation env.isSupported).2 = true
  deletable : ∀ env runNFs, (∀ v ∈ info.graph.vnfs, env.stopNF v.id = false) →
    stopFunctions env runNFs info = .ok ()

/-- Functions with an implementation that are not stopped are asked one after another. -/
theorem stopAll_of_onlySelected {c : ComputeController} {ids : List String} {stopped : String → Bool}
    (honly : c.OnlySelected ids) (hstopped : ∀ id ∈ ids, stopped id = false) :
    c.stopAll stopped = .ok () := by
  have hall : ∀ entry ∈ c.nfs.toList, c.stopNF (stopped entry.1) entry.1 = .ok (c, false) := by
    intro entry hentry
    have hnf := Std.ExtTreeMap.mem_toList_iff_getElem?_eq_some.mp hentry
    obtain ⟨hid, hselected⟩ := honly entry.1 entry.2 hnf
    rw [ComputeController.stopNF, hnf, hstopped entry.1 hid]
    simp [Option.isSome_iff_ne_none.mp hselected]
  unfold ComputeController.stopAll
  generalize c.nfs.toList = l at hall
  induction l with
  | nil => rfl
  | cons entry l ih =>
    rw [List.forM, hall entry List.mem_cons_self]
    exact ih fun entry' hentry' => hall entry' (List.mem_cons_of_mem _ hentry')

theorem serviceable_of_noPhantoms {info : GraphInfo} (h : info.NoPhantoms) : Serviceable info := by
  obtain ⟨c, hc, honly⟩ := id h
  refine ⟨h, fun c' hc' env nfs hnfs => ?_, fun env runNFs hstopped => ?_⟩
  · obtain rfl : c = c' := Option.mem_unique hc hc'
    obtain ⟨c', hretrieve, hready⟩ :=
      retrieveDescriptions_ready nfs (fun id nf hnf => .inl (honly id nf hnf).2) hnfs
    exact ⟨c', hretrieve, ComputeController.selectImplementation_succeeds hready⟩
  · unfold stopFunctions
    rw [hc]
    cases runNFs with
    | false => rfl
    | true => exact stopAll_of_onlySelected honly (by simpa using hstopped)

/-- A name resolver that does not know the function `2`. -/
def forgetful : Environment :=
  { functionsEnvironment with
    retrieveDescription := fun id name =>
      if id = "2" then .noNF else functionsEnvironment.retrieveDescription id name
    stopNF := fun _ => false }

instance (env : Environment) (nf : VNFs) : Decidable (Obtainable env nf) :=
  inferInstanceAs (Decidable (∃ _ ∈ _, _))

instance (env : Environment) (physicalPorts : StringMap Nat) (diff : Highlevel.Graph)
    (c : ComputeController) : Decidable (ChecksWhole env physicalPorts diff c) :=
  inferInstanceAs (Decidable (_ ∨ _ ∨ _))

/-- An update that is checked whole and takes no function away. -/
def AddsOnly (s : GraphManager) : Operation → Prop
  | .updateGraph env graphID newGraph => ∀ info ∈ s.tenantLSIs[graphID]?,
    (∀ c ∈ info.computeController,
      ChecksWhole env s.lsi0.physicalPorts (news graphID newGraph.toGraph info.graph) c) ∧
    (stale graphID newGraph.toGraph info.graph).vnfs = []
  | _ => True

instance (s : GraphManager) : (op : Operation) → Decidable (AddsOnly s op)
  | .newGraph _ _ => .isTrue trivial
  | .updateGraph _ _ _ => inferInstanceAs (Decidable (∀ _ ∈ _, _ ∧ _))
  | .deleteGraph _ _ | .lsi0DptOpen | .lsi0DptClose | .tenantDptOpen _ | .tenantDptClose _ =>
    .isTrue trivial

theorem AddsOnly.cleanStep {s : GraphManager} {op : Operation} (h : AddsOnly s op) :
    CleanStep s op := by
  cases op with
  | updateGraph env graphID newGraph =>
    exact fun info hinfo => ⟨(h info hinfo).1, .inl (h info hinfo).2⟩
  | _ => trivial

end GraphManager

end UnOrchestrator
