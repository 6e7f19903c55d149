import UnOrchestrator.GraphManager.Phantoms
import UnOrchestrator.Highlevel.Completion

/-!
# Requests that fail

A request for a new graph first makes the record of the graph on its own, then connects the
graph to its internal endpoints, then adds its rules to LSI-0, then lowers them to the tenant
LSI. Each of these steps can fail, and the later ones leave behind what the earlier ones wrote.
So a failed request has changed nothing if it is not granted the pieces of its record, or has
nothing to write before it can fail for the last time (`newGraph_unchanged`).

An update that fails leaves the record of its graph alone exactly when it fails in the check of
the new pieces (`updateGraph_unchanged_iff`).
-/

namespace UnOrchestrator

open Call

open Highlevel

namespace ComputeController

variable {isSupported : Description → Bool} {id : String}

/-- Where an implementation comes from: it was there, or is a description that is supported. -/
theorem selectAll_source {l : List (String × NF)} {nfs : StringMap NF} {nf : NF} {descr : Description}
    (h : (selectAll isSupported l nfs).1[id]? = some nf) (hdescr : nf.selected = some descr) :
    nfs[id]? = some nf ∨ ∃ old, (id, old) ∈ l ∧ (old.selected = some descr ∨
      ∃ d ∈ old.descriptions, (d.supported || isSupported d) = true ∧ descr.portTypes = d.portTypes) := by
  induction l generalizing nfs with
  | nil => exact .inl h
  | cons entry rest ih =>
    obtain ⟨current, met⟩ := entry
    have hlater {nfs' : StringMap NF} (h : (selectAll isSupported rest nfs').1[id]? = some nf)
        (hnew : nfs'[id]? = some nf → nfs[id]? = some nf ∨ id = current ∧ (met.selected = some descr ∨
          ∃ d ∈ met.descriptions, (d.supported || isSupported d) = true ∧ descr.portTypes = d.portTypes)) :
        nfs[id]? = some nf ∨ ∃ old, (id, old) ∈ (current, met) :: rest ∧ (old.selected = some descr ∨
          ∃ d ∈ old.descriptions, (d.supported || isSupported d) = true ∧
            descr.portTypes = d.portTypes) := by
      rcases ih h with hwritten | ⟨old, hold, hsource⟩
      · rcases hnew hwritten with hbefore | ⟨rfl, hsource⟩
        · exact .inl hbefore
        · exact .inr ⟨met, List.mem_cons_self, hsource⟩
      · exact .inr ⟨old, List.mem_cons_of_mem _ hold, hsource⟩
    rw [selectAll] at h
    split at h
    · next selected hmet =>
      refine hlater h fun hwritten => ?_
      rw [StringMap.getElem?_insert] at hwritten
      split at hwritten
      · next hid =>
        cases hwritten
        exact .inr ⟨hid.symm, .inl hdescr⟩
      · exact .inl hwritten
    · split at h
      · exact .inl h
      · next found hfound =>
        refine hlater h fun hwritten => ?_
        rw [StringMap.getElem?_insert] at hwritten
        split at hwritten
        · next hid =>
          cases hwritten
          cases hdescr
          obtain ⟨d, hd, rfl⟩ := List.mem_map.mp (List.mem_of_find?_eq_some hfound)
          exact .inr ⟨hid.symm, .inr ⟨d, hd, by simpa using List.find?_some hfound, rfl⟩⟩
        · exact .inl hwritten

end ComputeController

/-- The functions that a check adds come from the answers to its questions. -/
theorem retrieveDescriptions_source {env : Environment} (nfs : List VNFs) (c : ComputeController) :
    wp (retrieveDescriptions env nfs) (fun _ c' => ∀ (id : String) nf, c'.nfs[id]? = some nf →
      c.nfs[id]? = some nf ∨ nf.selected = none ∧ ∃ v ∈ nfs, v.id = id ∧
        nf.descriptions ∈ (env.retrieveDescription v.id v.name).descriptions?) (fun _ => True) c := by
  induction nfs generalizing c with
  | nil => exact fun _ _ hnf => .inl hnf
  | cons v nfs ih =>
    simp only [retrieveDescriptions, wp_bind, wp_get]
    split
    · refine wp_weaken (ih c) fun _ c' h id nf hnf => (h id nf hnf).imp_right fun hnew => ?_
      exact ⟨hnew.1, hnew.2.imp fun w hw => ⟨List.mem_cons_of_mem _ hw.1, hw.2⟩⟩
    · split
      · exact fun _ _ hnf => .inl hnf
      · trivial
      · next descriptions described hanswer =>
        simp only [wp_bind, wp_modify]
        refine wp_weaken (ih _) fun _ c' h id nf hnf => ?_
        rcases h id nf hnf with hadded | ⟨hnone, w, hw, hsource⟩
        · rw [ComputeController.addNF, StringMap.getElem?_insert] at hadded
          split at hadded
          · next hid =>
            cases hadded
            exact .inr ⟨rfl, v, List.mem_cons_self, hid, by rw [hanswer]; rfl⟩
          · exact .inl hadded
        · exact .inr ⟨hnone, w, List.mem_cons_of_mem _ hw, hsource⟩

namespace GraphManager

/-! ## New graphs -/

/-- The records of the graphs, the rules of LSI-0 and the groups of internal endpoints are as
before. -/
structure Unchanged (s s' : GraphManager) : Prop where
  tenantLSIs : s'.tenantLSIs = s.tenantLSIs
  graphLSI0lowLevel : s'.graphLSI0lowLevel = s.graphLSI0lowLevel
  lsi0Rules : s'.lsi0Controller.graph = s.lsi0Controller.graph
  internalLSIs : s'.internalLSIs = s.internalLSIs
  internalLSIsCreated : s'.internalLSIsCreated = s.internalLSIsCreated
  internalLSIsConnections : s'.internalLSIsConnections = s.internalLSIsConnections
  timesUsed : s'.timesUsedEndPointsInternal = s.timesUsedEndPointsInternal

/-- A description that is supported can be had for a function, with a type for each of its ports.
Functions with one identifier share their descriptions. -/
def Served (env : Environment) (vnfs : List VNFs) (nf : VNFs) : Prop :=
  ∃ v ∈ vnfs, v.id = nf.id ∧
    ∃ descriptions ∈ (env.retrieveDescription v.id v.name).descriptions?,
      ∃ descr ∈ descriptions, (descr.supported || env.isSupported descr) = true ∧
        ∀ ports, nf.getPortsId = .ok ports → ports.all descr.portTypes.contains = true

/-- What a request for a new graph is granted before it writes anything: its interfaces are ports of
LSI-0, its functions are served, the switch manager makes its LSI, and its functions start. -/
structure Granted (env : Environment) (s : GraphManager) (graph : Highlevel.Graph) : Prop where
  interfaces : ∀ p ∈ graph.endPointsInterface, s.lsi0.physicalPorts[p.interface]? ≠ none
  served : ∀ nf ∈ graph.vnfs, Served env graph.vnfs nf
  lsi : ∃ clo, env.createLsi = some clo ∧ clo.physicalPorts.length ≤ 1
  started : s.runNFs = true → ∀ nf ∈ graph.vnfs, env.startNF nf.id = true

/-- The rule concerns the tenant LSI only. -/
def inside (r : Rule) : Bool :=
  match r.match.type, r.action.type with
  | .nf _ _, .networkFunction _ _ | .nf _ _, .endPointGre _
  | .endPointGre _, .endPointGre _ | .endPointGre _, .networkFunction _ _ => true
  | _, _ => false

/-- The rule is from or to a physical port that LSI-0 does not have. -/
def Stray (lsi0 : LSI) (r : Rule) : Prop :=
  ∃ port, lsi0.physicalPorts[port]? = none ∧ (r.match.type = .port port ∨ r.action.type = .port port)

/-- A request for a new graph cannot both write and fail: it is not granted, or the graph has no internal
endpoint, and its rules are all on the tenant LSI, or one of them names a port that is not there. -/
def NothingWritten (env : Environment) (s : GraphManager) (graph : Highlevel.Graph) : Prop :=
  ¬ Granted env s graph ∨ graph.endPointsInternal = [] ∧
    ((∀ r ∈ graph.rules, inside r = true) ∨ ∃ r ∈ graph.rules, Stray s.lsi0 r)

section NewGraph

variable {rofl : Lowlevel.Rofl} {env : Environment} {graph : Highlevel.Graph} {s : GraphManager}

/-- A function that passed the check and the selection is served. -/
theorem served_of_creation {physicalPorts : StringMap Nat} {nextID nextID' : Nat} {info : GraphInfo}
    (creation : Creation env physicalPorts graph nextID info nextID') {nf : VNFs} (hnf : nf ∈ graph.vnfs) :
    Served env graph.vnfs nf := by
  obtain ⟨ports, descr, hports, hdescr, htyped⟩ := of_portsDescribed creation.described nf hnf
  obtain ⟨known, hknown, hselected⟩ := Option.bind_eq_some_iff.mp hdescr
  have hchecked := creation.checked
  unfold checkGraphValidity at hchecked
  split at hchecked
  · cases hchecked
  · have hsources := (of_wp (retrieveDescriptions_source graph.vnfs {}) hchecked).1 true rfl
    have hnew {old : NF} (hold : creation.c.nfs[nf.id]? = some old) := (hsources nf.id old hold).resolve_left
      (by simp)
    rcases ComputeController.selectAll_source hknown hselected with hold | ⟨old, hold, hsource⟩
    · rw [(hnew hold).1] at hselected
      cases hselected
    · obtain ⟨hnone, v, hv, hid, hanswer⟩ := hnew (Std.ExtTreeMap.mem_toList_iff_getElem?_eq_some.mp hold)
      obtain ⟨d, hd, hsupported, htypes⟩ := hsource.resolve_left (by simp [hnone])
      refine ⟨v, hv, hid, _, hanswer, d, hd, hsupported, fun ports' hports' => ?_⟩
      cases hports.symm.trans hports'
      rwa [htypes] at htyped

theorem createTenant_granted {nextID : Nat} :
    wp (createTenant env s.lsi0.physicalPorts s.runNFs graph)
      (fun created _ => created.isSome = true → Granted env s graph) (fun _ => True) nextID := by
  have hlast : wp (createTenant env s.lsi0.physicalPorts s.runNFs graph) (fun created _ =>
      created.isSome = true → (∃ clo, env.createLsi = some clo ∧ clo.physicalPorts.length ≤ 1) ∧
        (s.runNFs = true → ∀ nf ∈ graph.vnfs, env.startNF nf.id = true)) (fun _ => True) nextID := by
    unfold createTenant
    rw [wp_bind, wp_locally]
    refine wp_of_forall (fun valid c => ?_) fun _ => trivial
    cases valid with
    | false => exact fun h => Bool.noConfusion h
    | true =>
      simp only [Bool.not_true, Bool.false_eq_true, if_false]
      split
      · trivial
      · simp only [wp_bind, wp_get, wp_modify, wp_eval, Failure.ofAbort_eq_ok]
        refine ⟨fun described _ => ?_, fun _ => trivial⟩
        split
        · exact fun h => Bool.noConfusion h
        · simp only [wp_bind, wp_eval, wp_assert, Failure.ofAbort_eq_ok]
          refine ⟨fun asked _ _ => ?_, fun _ => trivial⟩
          split
          · trivial
          · next clo hclo =>
            split
            · trivial
            · next hsingle =>
              simp only [wp_bind, wp_eval, wp_assert, Failure.ofAbort_eq_ok]
              refine ⟨fun lsi _ _ => ?_, fun _ => trivial⟩
              split
              · trivial
              · next hstarted =>
                refine fun _ => ⟨⟨clo, hclo, by omega⟩, fun hruns => ?_⟩
                simpa [hruns] using hstarted
  refine wp_mono (wp_and createTenant_steps hlast) (fun created nextID' h hsome => ?_) fun _ _ => trivial
  obtain ⟨info, rfl⟩ := Option.isSome_iff_exists.mp hsome
  obtain ⟨creation⟩ := h.1.2 info rfl
  obtain ⟨hlsi, hstarted⟩ := h.2 rfl
  refine ⟨fun p hp hnone => ?_, fun nf hnf => served_of_creation creation hnf, hlsi, hstarted⟩
  have hchecked := creation.checked
  unfold checkGraphValidity at hchecked
  rw [if_pos (List.any_eq_true.mpr ⟨p, hp, by simp [hnone]⟩)] at hchecked
  cases hchecked

/-- A rule on the tenant LSI gives no rule on LSI-0, and one with a port that is not there none either. -/
theorem lowerRuleToLSI0_inside {tenantLSI lsi0 : LSI} {connections : InternalConnections} {r : Rule}
    {o : Option Lowlevel.Rule}
    (h : GraphTranslator.lowerRuleToLSI0 graph.ID tenantLSI lsi0 connections r = .ok o) :
    (inside r = true → o = none) ∧ ¬ Stray lsi0 r := by
  unfold GraphTranslator.lowerRuleToLSI0 at h
  refine ⟨fun hinside => ?_, ?_⟩
  · unfold inside at hinside
    split at hinside
    · simp_all
    · simp_all
    · simp_all
    · simp_all
    · cases hinside
  · rintro ⟨port, hnone, hmatch | haction⟩
    · simp [hmatch, hnone] at h
    · cases hmatch : r.match.type <;> simp [hmatch, haction, hnone, Failure.bind_eq_ok] at h

theorem newGraph_failure (h : NothingWritten env s graph) :
    wp (newGraph rofl env graph) (fun done s' => done = false → Unchanged s s') (Unchanged s) s := by
  simp only [newGraph, wp_bind, wp_get, wp_assert, wp_focus]
  intro _
  have hsame (nextID : Nat) : Unchanged s { s with nextVLinkID := nextID } := ⟨rfl, rfl, rfl, rfl, rfl, rfl, rfl⟩
  refine wp_mono createTenant_granted (fun created nextID hgranted => ?_) fun nextID _ => hsame nextID
  cases created with
  | none => exact fun _ => hsame nextID
  | some info =>
    obtain ⟨hinternal, hrules⟩ := h.resolve_left (not_not.mpr (hgranted rfl))
    simp only [hinternal, each, handleControllerForInternalEndpoint, List.foldl_nil, wp_bind, wp_modify,
      wp_get, wp_eval, wp_pure]
    refine ⟨fun l hl => ⟨fun _ _ h => Bool.noConfusion h, fun _ => ?_⟩, fun _ => hsame nextID⟩
    have hlowered := GraphTranslator.lowerGraphToLSI0_eq_ok.mp hl
    have hnone : l.rules = [] := by
      rcases hrules with hinside | ⟨r, hr, hstray⟩
      · refine List.eq_nil_iff_forall_not_mem.mpr fun low hlow => ?_
        obtain ⟨r, hr, hlower⟩ := GraphTranslator.mem_lowerGraphToLSI0 hl hlow
        cases (lowerRuleToLSI0_inside hlower).1 (hinside r hr)
      · obtain ⟨_, hlower⟩ := Failure.ok_of_collect hlowered hr
        exact absurd hstray (lowerRuleToLSI0_inside hlower).2
    refine ⟨rfl, Lowlevel.Graph.ext ?_, rfl, rfl, rfl, rfl, rfl⟩
    rw [Lowlevel.Graph.addRules_rules, hnone, List.append_nil]

/-- A graph with a rule between two physical ports, and a rule on the given port of a network
function that has only its first port. -/
def strayPort (port : Int) : Highlevel.Graph where
  ID := "g"
  rules := [{ «match» := { type := .port "eth0" }, action := { type := .port "eth1" },
              ruleID := "1", priority := 1 },
            { «match» := { type := .nf "fw" port }, action := { type := .networkFunction "fw" 1 },
              ruleID := "2", priority := 1 }]
  vnfs := [{ id := "fw", name := "firewall", ports := [{ id := "inout:0" }] }]

/-- An answer to the LSI of such a graph. -/
def strayEnvironment : Environment :=
  .obliging { dpid := 1, networkFunctionsPorts := [("fw", [("fw_1", 11)])] }

/-- A graph with a rule between two physical ports and, with the identifiers given, more rules
from the first of them to a network function. -/
def firewalled (ruleIDs : List String) : Highlevel.Graph where
  ID := "g"
  rules := { «match» := { type := .port "eth0" }, action := { type := .port "eth1" },
             ruleID := "1", priority := 1 } ::
    ruleIDs.map fun ID => { «match» := { type := .port "eth0" },
                            action := { type := .networkFunction "fw" 1 },
                            ruleID := ID, priority := 2 }
  vnfs := [{ id := "fw", name := "firewall", ports := [{ id := "inout:0" }] }]

/-- A manager that has deployed such a graph with two rules, and the link for the second one. -/
def deployedFirewall : GraphManager :=
  match newGraph default (.obliging { dpid := 1, networkFunctionsPorts := [("fw", [("fw_1", 11)])],
                                      virtualLinks := [(5, 6)] }) (firewalled ["2"])
      { lsi0 := { physicalPorts := .ofList [("eth0", 1), ("eth1", 2)] compare } } with
  | .ok (some true, s) => s
  | _ => {}

end NewGraph

end GraphManager

/-! ## Updates -/

/-- What a repeated update depends on: the stored graph, its LSI and the rules on it, and whether
the compute controller of the graph is still there. -/
def GraphInfo.deployed (info : GraphInfo) : Highlevel.Graph × LSI × Controller × Bool :=
  (info.graph, info.lsi, info.controller, info.computeController.isSome)

/-- The network function has no selected description, and none can be retrieved for it. -/
def Undescribed (env : Environment) (c : ComputeController) (nf : VNFs) : Prop :=
  c.getNFSelectedImplementation nf.id = none ∧
    ∀ descriptions described, env.retrieveDescription nf.id nf.name ≠ .ok descriptions described

/-- How the check of new pieces can fail: an interface is no physical port of LSI-0, or the
description of a network function is missing. -/
inductive CheckFails (env : Environment) (physicalPorts : StringMap Nat) (info : GraphInfo)
    (diff : Highlevel.Graph) : Prop where
  | interface (p : EndPointInterface) (hp : p ∈ diff.endPointsInterface)
      (hnone : physicalPorts[p.interface]? = none)
  | description (c : ComputeController) (hc : info.computeController = some c) (nf : VNFs)
      (hnf : nf ∈ diff.vnfs) (hnone : Undescribed env c nf)

theorem getNFSelectedImplementation_addNF {c : ComputeController} {id : String}
    {descriptions : List Description} {described : descriptions ≠ []}
    (h : c.getNFSelectedImplementation id = none) (id' : String) :
    (c.addNF id descriptions described).getNFSelectedImplementation id' =
      c.getNFSelectedImplementation id' := by
  unfold ComputeController.getNFSelectedImplementation ComputeController.addNF at *
  rw [StringMap.getElem?_insert]
  by_cases hid : id = id'
  · subst hid
    rw [if_pos rfl, h]
    rfl
  · rw [if_neg hid]

theorem retrieveDescriptions_spec {env : Environment} (nfs : List VNFs) (c : ComputeController) :
    wp (retrieveDescriptions env nfs)
      (fun valid _ => valid = true ↔ ∀ nf ∈ nfs, ¬ Undescribed env c nf)
      (fun _ => ∃ nf ∈ nfs, Undescribed env c nf) c := by
  induction nfs generalizing c with
  | nil => exact ⟨fun _ nf hnf => (by cases hnf), fun _ => rfl⟩
  | cons nf nfs ih =>
    simp only [retrieveDescriptions, wp_bind, wp_get]
    -- the rest of the loop sees the same selected descriptions
    have hrest (c' : ComputeController) (hsame : ∀ id, c'.getNFSelectedImplementation id =
        c.getNFSelectedImplementation id) (hnf : ¬ Undescribed env c nf) :
        wp (retrieveDescriptions env nfs)
          (fun valid _ => valid = true ↔ ∀ nf' ∈ nf :: nfs, ¬ Undescribed env c nf')
          (fun _ => ∃ nf' ∈ nf :: nfs, Undescribed env c nf') c' := by
      refine wp_mono (ih c') (fun valid _ hvalid => ?_) (fun _ hmissing => ?_)
      · rw [hvalid, List.forall_mem_cons]
        simp only [Undescribed, hsame] at hnf ⊢
        exact ⟨fun h => ⟨hnf, h⟩, And.right⟩
      · obtain ⟨nf', hnf', hnone⟩ := hmissing
        exact ⟨nf', List.mem_cons_of_mem nf hnf', (hsame _).symm.trans hnone.1, hnone.2⟩
    split
    · next hselected =>
      refine hrest c (fun _ => rfl) fun hnone => ?_
      rw [hnone.1] at hselected
      cases hselected
    · next hselected =>
      have hnone : c.getNFSelectedImplementation nf.id = none :=
        Option.not_isSome_iff_eq_none.mp hselected
      split
      · next hanswer =>
        refine iff_of_false Bool.noConfusion fun h => h nf List.mem_cons_self ⟨hnone, ?_⟩
        intro _ _ hok
        rw [hanswer] at hok
        cases hok
      · next hanswer =>
        refine ⟨nf, List.mem_cons_self, hnone, fun _ _ hok => ?_⟩
        rw [hanswer] at hok
        cases hok
      · next descriptions described hanswer =>
        simp only [wp_bind, wp_modify]
        exact hrest _ (getNFSelectedImplementation_addNF hnone) fun h => h.2 _ _ hanswer

namespace GraphInfo

/-- A call on the compute controller, which must be there, leaves the rest alone. -/
theorem onCompute_deployed {α : Type} {x : Call ComputeController α} {Q : α → Prop} {E : Prop}
    {info : GraphInfo} (h : ∀ c, info.computeController = some c →
      wp x (fun a _ => Q a) (fun _ => E) c) :
    wp (onCompute x)
      (fun a info' => info'.deployed = info.deployed ∧ info.computeController.isSome = true ∧ Q a)
      (fun info' => info'.deployed = info.deployed ∧ E) info := by
  rw [wp_onCompute]
  intro c hc
  refine wp_mono (h c hc) (fun a c' ha => ⟨?_, ?_, ha⟩) (fun c' he => ⟨?_, he⟩)
  · simp only [deployed, hc, Option.isSome_some]
  · simp only [hc, Option.isSome_some]
  · simp only [deployed, hc, Option.isSome_some]

end GraphInfo

section Update

variable {rofl : Lowlevel.Rofl} {env : Environment} {physicalPorts : StringMap Nat} {runNFs : Bool}

theorem checkGraphValidity_fails (diff : Highlevel.Graph) (info : GraphInfo) :
    wp (checkGraphValidity physicalPorts diff
        (fun nfs => GraphInfo.onCompute (retrieveDescriptions env nfs)))
      (fun valid info' => info'.deployed = info.deployed ∧
        (valid = true ↔ ¬ CheckFails env physicalPorts info diff))
      (fun info' => info'.deployed = info.deployed ∧ CheckFails env physicalPorts info diff) info := by
  unfold checkGraphValidity
  split
  · next hany =>
    obtain ⟨p, hp, hnone⟩ := List.any_eq_true.mp hany
    exact ⟨rfl, iff_of_false Bool.noConfusion
      fun h => h (.interface p hp (Option.isNone_iff_eq_none.mp hnone))⟩
  · next hany =>
    simp only [List.any_eq_true, not_exists, not_and] at hany
    refine wp_weaken (GraphInfo.onCompute_deployed
      (Q := fun valid => valid = true ↔ ¬ CheckFails env physicalPorts info diff)
      (E := CheckFails env physicalPorts info diff) fun c hc => ?_)
      (fun valid info' h => ⟨h.1, h.2.2⟩)
    refine wp_mono (retrieveDescriptions_spec diff.vnfs c) (fun valid _ hvalid => ?_)
      (fun _ hmissing => ?_)
    · rw [hvalid]
      constructor
      · intro hall hfails
        cases hfails with
        | interface p hp hnone => exact hany p hp (Option.isNone_iff_eq_none.mpr hnone)
        | description c' hc' nf hnf hnone =>
          cases hc.symm.trans hc'
          exact hall nf hnf hnone
      · exact fun hpasses nf hnf hnone => hpasses (.description c hc nf hnf hnone)
    · obtain ⟨nf, hnf, hnone⟩ := hmissing
      exact .description c hc nf hnf hnone

/-- Without new rules no link is asked for. -/
theorem addVlinks_throws_rules {addVirtualLink : Nat → Option (Nat × Nat)} {rules : List Rule}
    {attached : RuleRemovedInfo → Bool} (t : Nat × VLinks) :
    wp (addVlinks addVirtualLink (identifyVirtualLinksRequired rules attached))
      (fun _ _ => True) (fun _ => rules ≠ []) t := by
  by_cases hrules : rules = []
  · subst hrules
    exact trivial
  · exact wp_of_forall (fun _ _ => trivial) fun _ => hrules

/-- Without new network functions and GRE endpoints the steps behind the links do not throw. -/
theorem addPorts_throws {diff : Highlevel.Graph} (info : GraphInfo) :
    wp (addPorts env runNFs diff) (fun _ _ => True)
      (fun _ => ¬ (diff.endPointsGre = [] ∧ diff.vnfs = [])) info := by
  by_cases hempty : diff.endPointsGre = [] ∧ diff.vnfs = []
  · simp only [addPorts, hempty.1, hempty.2, each, wp_bind, wp_pure, wp_assert]
    intro _
    split
    · simp only [startPieces, wp_bind, wp_get, wp_eval_ofAbort, wp_assert]
      intro decisions hdecisions
      simp only [List.zip_nil_left, List.partition_eq_filter_filter, List.filter_nil, List.all_nil,
        if_true, wp_pure]
      intro _
      refine wp_mono (GraphInfo.onCompute_deployed (Q := fun _ => True) (E := False) ?_)
        (fun _ _ _ => trivial) (fun _ h => h.2.elim)
      exact fun c _ => trivial
    · exact trivial
  · exact wp_of_forall (fun _ _ => trivial) fun _ => hempty

/-- Adding pieces to a record that fails leaves the record alone exactly when the check has
failed. -/
theorem addPieces_failure {graphID : String} {newGraph : Highlevel.Graph} {nextID : Nat}
    {info : GraphInfo} (hg : info.graph.Distinct) :
    let diff := info.graph.calculateDiff newGraph graphID
    wp (addPieces env physicalPorts runNFs graphID newGraph)
      (fun _ _ => ¬ CheckFails env physicalPorts info diff)
      (fun t => t.2.deployed = info.deployed ↔ CheckFails env physicalPorts info diff)
      (nextID, info) := by
  intro diff
  simp only [addPieces, GraphInfo.lift, GraphInfo.onLinks, wp_bind, wp_get, wp_focus]
  refine wp_mono (checkGraphValidity_fails _ info) (fun valid info₁ h₁ => ?_)
    (fun info₁ h₁ => iff_of_true h₁.1 h₁.2)
  obtain ⟨hdeployed₁, hvalid⟩ := h₁
  cases valid with
  | false => exact iff_of_true hdeployed₁ (not_not.mp fun h => Bool.noConfusion (hvalid.mpr h))
  | true =>
    have hpasses : ¬ CheckFails env physicalPorts info diff := hvalid.mp rfl
    have hgraph₁ : info₁.graph = info.graph := congrArg Prod.fst hdeployed₁
    -- once the graph has grown, the record is the same only if there was nothing to add
    have hgrown {info' : GraphInfo} (hinfo' : info'.graph = (info.graph.addGraphToGraph diff).1)
        (hpieces : ¬ (diff.rules = [] ∧ diff.endPointsGre = [] ∧ diff.vnfs = [])) :
        info'.deployed = info.deployed ↔ CheckFails env physicalPorts info diff := by
      refine iff_of_false (fun hsame => hpieces ?_) hpasses
      exact Graph.eq_nil_of_addGraphToGraph_eq hg (hinfo'.symm.trans (congrArg Prod.fst hsame))
    simp only [Bool.not_true, Bool.false_eq_true, if_false, wp_bind, wp_focus,
      wp_modify, hgraph₁]
    refine wp_mono (GraphInfo.onCompute_deployed (Q := fun _ => True) (E := False)
      fun c _ => ?_) (fun selected info₂ h₂ => ?_) (fun _ h => h.2.elim)
    · simp only [selectImplementation, wp_bind, wp_get, wp_modify, wp_pure]
    · obtain ⟨hdeployed₂, hsome, -⟩ := h₂
      have hgraph₂ : info₂.graph = (info.graph.addGraphToGraph diff).1 :=
        congrArg Prod.fst hdeployed₂
      cases selected with
      | false =>
        refine iff_of_false (fun hsame => ?_) hpasses
        have hgone : false = info.computeController.isSome :=
          congrArg (fun d : Highlevel.Graph × LSI × Controller × Bool => d.2.2.2) hsame
        have hthere : info₁.computeController.isSome = info.computeController.isSome :=
          congrArg (fun d : Highlevel.Graph × LSI × Controller × Bool => d.2.2.2) hdeployed₁
        exact Bool.noConfusion (hgone.trans (hthere.symm.trans hsome))
      | true =>
        simp only [Bool.not_true, Bool.false_eq_true, if_false, wp_bind, wp_focus]
        refine wp_mono (addVlinks_throws_rules _) (fun _ v _ => ?_)
          (fun _ hrules => hgrown hgraph₂ fun h => hrules h.1)
        refine wp_mono (wp_and (addPorts_preserves env runNFs diff _)
          (addPorts_throws _)) (fun _ _ _ => hpasses) (fun info₃ h₃ => ?_)
        have hgraph₃ : info₃.graph = info₂.graph := congrArg Prod.fst h₃.1
        exact hgrown (hgraph₃.trans hgraph₂) fun h => h₃.2 h.2

/-- Without stale pieces the removal from the LSI does not throw. -/
theorem removePieces_throws {diff : Highlevel.Graph} {removeRuleInfo : List RuleRemovedInfo}
    (info : GraphInfo) :
    wp (removePieces rofl env runNFs diff removeRuleInfo)
      (fun _ info' => info'.graph = info.graph)
      (fun info' => info'.graph = info.graph ∧
        ¬ (removeRuleInfo = [] ∧ diff.endPointsGre = [] ∧ diff.vnfs = [])) info := by
  by_cases hempty : removeRuleInfo = [] ∧ diff.endPointsGre = [] ∧ diff.vnfs = []
  · simp only [removePieces, hempty.1, hempty.2.1, hempty.2.2, each, wp_bind, wp_get,
      wp_modify, wp_focus, wp_pure]
  · simp only [removePieces, wp_bind, wp_get, wp_modify, wp_focus]
    refine wp_of_forall (fun _ v => ?_) (fun _ => ⟨trivial, hempty⟩)
    have hframe : Preserves GraphInfo.graph (do
        each (removeEndpointPieces env) diff.endPointsGre
        each (removeNFPieces env runNFs) diff.vnfs) :=
      Preserves.map Prod.fst
        (.bind (.each (removeEndpointPieces_preserves env) _) fun _ =>
          .each (removeNFPieces_preserves env runNFs) _)
    rw [← wp_bind]
    exact hframe.wp (fun _ _ h => h) (fun _ h => ⟨h, hempty⟩)

end Update

namespace GraphManager

section Update

variable {rofl : Lowlevel.Rofl} {env : Environment} {graphID : String} {newGraph : Highlevel.Graph}
  {s : GraphManager} {info : GraphInfo}

/-- The record of a graph is there, with everything that a repeated update depends on. -/
def SameTenant (graphID : String) (info : GraphInfo) (s' : GraphManager) : Prop :=
  ∃ info', s'.tenantLSIs[graphID]? = some info' ∧ info'.deployed = info.deployed

theorem sameTenant_putTenant {t : Nat × GraphInfo} :
    SameTenant graphID info (s.putTenant graphID t) ↔ t.2.deployed = info.deployed := by
  simp [SameTenant, putTenant]

theorem updateGraph_failure (hinfo : s.tenantLSIs[graphID]? = some info)
    (hg : info.graph.Distinct) (hn : newGraph.Distinct) :
    let diff := info.graph.calculateDiff newGraph graphID
    wp (updateGraph rofl env graphID newGraph)
      (fun done s' => done = false →
        (SameTenant graphID info s' ↔ CheckFails env s.lsi0.physicalPorts info diff))
      (fun s' => SameTenant graphID info s' ↔ CheckFails env s.lsi0.physicalPorts info diff) s := by
  intro diff
  refine wp_updateGraph fun info' hinfo' => ?_
  obtain rfl : info = info' := Option.mem_unique hinfo hinfo'
  refine wp_mono (wp_and (addPieces_failure hg) addPieces_spec) ?_
    (fun t h _ => sameTenant_putTenant.trans h.1)
  rintro _ grown ⟨hpasses, rfl, -, hadded⟩ old graph removeRuleInfo hremove after
  -- a record with the old graph would mean that there was nothing to do
  have hdone {s' : GraphManager} {info' : GraphInfo} (hrecord : s'.tenantLSIs[graphID]? = some info')
      (hgraph : info'.graph = graph) (hpieces : ¬ (diff.rules = [] ∧ removeRuleInfo = [] ∧
        old.endPointsGre = [] ∧ old.vnfs = [])) :
      SameTenant graphID info s' ↔ CheckFails env s.lsi0.physicalPorts info diff := by
    refine iff_of_false (fun hsame => hpieces ?_) hpasses
    obtain ⟨info'', hrecord', hdeployed⟩ := hsame
    obtain rfl : info' = info'' := Option.mem_unique hrecord hrecord'
    obtain rfl : info.graph = graph := (congrArg Prod.fst hdeployed).symm.trans hgraph
    simp only [old, hadded.graph] at hremove ⊢
    obtain ⟨⟨hrules, -⟩, hstaleRules, hgre, hvnfs⟩ := Graph.eq_nil_of_unchanged_update hg hn hremove
    obtain ⟨⟨g₁, hinfos⟩, -⟩ := Graph.removeGraphFromGraph_erased hremove
    rw [hstaleRules] at hinfos
    cases hinfos
    exact ⟨hrules, rfl, hgre, hvnfs⟩
  refine wp_mono (removePieces_throws _) (fun _ reduced hgraph => ?_) (fun reduced h => ?_)
  · have hthrown (hthrown : diff.rules ≠ []) {s' : GraphManager}
        (hrecord : s'.tenantLSIs[graphID]? = some reduced) :
        SameTenant graphID info s' ↔ CheckFails env s.lsi0.physicalPorts info diff :=
      hdone hrecord hgraph fun h => hthrown h.1
    refine ⟨fun graphLSI0 _ => ⟨fun graphTenant _ h => Bool.noConfusion h, fun hTenant => ?_⟩,
      fun hLSI0 => ?_⟩
    · refine hthrown (fun hrules => ?_) (by simp [after, exchanged])
      rw [GraphTranslator.lowerGraphToTenantLSI_nil hrules] at hTenant
      cases hTenant
    · refine hthrown (fun hrules => ?_) (by simp [after, exchanged])
      rw [GraphTranslator.lowerGraphToLSI0_nil hrules] at hLSI0
      cases hLSI0
  · exact hdone (by simp [after, exchanged]) h.1 fun hnone => h.2 hnone.2

/-- An update that fails, by its answer or by an exception, has left the record of the graph
alone exactly when the check of the new pieces has failed. -/
theorem updateGraph_unchanged_iff {o : Option Bool} {s' : GraphManager}
    (hinfo : s.tenantLSIs[graphID]? = some info) (hg : info.graph.Distinct) (hn : newGraph.Distinct)
    (h : updateGraph rofl env graphID newGraph s = .ok (o, s')) (hfail : o ≠ some true) :
    SameTenant graphID info s' ↔ CheckFails env s.lsi0.physicalPorts info
      (info.graph.calculateDiff newGraph graphID) := by
  obtain ⟨hreturned, hthrown⟩ := Call.of_wp (updateGraph_failure hinfo hg hn) h
  cases o with
  | none => exact hthrown rfl
  | some done =>
    cases done with
    | true => exact absurd rfl hfail
    | false => exact hreturned false rfl rfl

end Update

/-- The switch manager cannot make the link for a new rule: the update returns false with the rule
in the stored graph. Repeated with a switch manager that can, the update has nothing to do, and
returns true without the rule on LSI-0. -/
theorem updateGraph_leaves_graph_grown :
    let s : GraphManager := { lsi0 := { physicalPorts := .ofList [("eth0", 1), ("eth1", 2)] compare } }
    let first := do
      let _ ← newGraph default strayEnvironment (firewalled [])
      updateGraph default { strayEnvironment with addVirtualLink := fun _ => none } "g"
        (firewalled ["2"])
    let again := do
      let _ ← first
      updateGraph default strayEnvironment "g" (firewalled ["2"])
    let observed (r : Option Bool × GraphManager) :=
      (r.1, r.2.tenantLSIs["g"]?.map (fun info => info.graph.rules.map (·.ruleID)),
        r.2.graphLSI0lowLevel.rules.map (·.flowID))
    (first s).map observed = .ok (some false, some ["1", "2"], ["g_1"]) ∧
      (again s).map observed = .ok (some true, some ["1", "2"], ["g_1"]) := by
  decide +kernel

/-- A graph with one more rule than the deployed one, and an interface that is not there. -/
def withStrayInterface : Highlevel.Graph :=
  { firewalled ["2", "3"] with endPointsInterface := [{ id := "1", name := "lan", interface := "eth7" }] }

/-- An update with such a graph, of one with rules, a network function and a link. -/
theorem updateGraph_unchanged_refused :
    ∃ info s', deployedFirewall.tenantLSIs["g"]? = some info ∧
      (info.graph.vnfs.length, info.lsi.virtualLinks.length, info.controller.graph.rules.length) = (1, 1, 1) ∧
      updateGraph default strayEnvironment "g" withStrayInterface deployedFirewall = .ok (some false, s') ∧
      SameTenant "g" info s' := by
  obtain ⟨info, hinfo, hrules, hvnfs, hsizes, hinterface⟩ : ∃ info ∈ deployedFirewall.tenantLSIs["g"]?,
      (info.graph.rules.map Rule.key).Nodup ∧ (info.graph.vnfs.map VNFs.key).Nodup ∧
      (info.graph.vnfs.length, info.lsi.virtualLinks.length, info.controller.graph.rules.length) =
        (1, 1, 1) ∧
      ∃ p ∈ (info.graph.calculateDiff withStrayInterface "g").endPointsInterface,
        deployedFirewall.lsi0.physicalPorts[p.interface]? = none := by
    decide +kernel
  obtain ⟨⟨o, s'⟩, hrefused, ho⟩ : ∃ r, updateGraph default strayEnvironment "g" withStrayInterface
      deployedFirewall = .ok r ∧ r.1 = some false := by
    decide +kernel
  cases ho
  obtain ⟨p, hp, hnone⟩ := hinterface
  exact ⟨info, s', hinfo, hsizes, hrefused, (updateGraph_unchanged_iff hinfo ⟨hrules, hvnfs⟩
    ⟨by decide, by decide⟩ hrefused (by decide)).mpr (.interface p hp hnone)⟩

end GraphManager

end UnOrchestrator
