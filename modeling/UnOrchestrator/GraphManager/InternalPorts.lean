import UnOrchestrator.GraphManager.Accounting
import UnOrchestrator.Parser.References

/-!
# The ports towards internal endpoints

An internal endpoint is named by a group, which is a text. A rule reaches the endpoint
through a port of LSI-0, which the manager records by group and graph when it deploys the
graph. A rule with the endpoint as its output looks the port up under the text of the group.
A rule that matches on the endpoint looks it up under another text: the parser has read the
group as a number, and the number is printed for the lookup.

`groupResolves_iff` says for which groups the two lookups agree with the record. The group
has to be printed as it was read: a leading zero, a sign, a blank or a number of more than 32
bits leads to another group or to none, and a group that is no number is never read.

Different groups have different ports over every run in which LSI-0 gives each new link a
port of its own (`run_portsDistinct`).
-/

namespace UnOrchestrator

open Function (update_of_ne update_self)

open StringMap (getElem?_erase getElem?_insert)

open Failure (bind_eq_ok orElse_eq_ok)

open Call

open Highlevel GraphTranslator

namespace GraphManager

/-! ## One round of a deployment -/

/-- The counter of the links is ahead of the links of all groups. -/
def OldLinks (s : GraphManager) : Prop := ∀ group, ∀ l ∈ s.linksOf group, l.ID < s.nextVLinkID

theorem OldLinks.mono {s s' : GraphManager} (h : s.OldLinks)
    (hlinks : ∀ group, ∀ l ∈ s'.linksOf group, l ∈ s.linksOf group)
    (hcounter : s.nextVLinkID ≤ s'.nextVLinkID) : s'.OldLinks :=
  fun group l hl => Nat.lt_of_lt_of_le (h group l (hlinks group l hl)) hcounter

/-- A round takes the next number for its link. -/
theorem OldLinks.grow {s s' : GraphManager} (h : s.OldLinks)
    (hlinks : ∀ group, ∀ l ∈ s'.linksOf group, l ∈ s.linksOf group ∨ l.ID = s.nextVLinkID)
    (hcounter : s'.nextVLinkID = s.nextVLinkID + 1) : s'.OldLinks := by
  intro group l hl
  rw [hcounter]
  rcases hlinks group l hl with hl | hID
  · exact Nat.lt_succ_of_lt (h group l hl)
  · rw [hID]
    exact Nat.lt_succ_self _

theorem Joins.links {env : Environment} {graphID group : String} {s s' : GraphManager}
    {link : VLink} {port : Nat} (h : Joins env graphID group s s' link port) :
    ∀ g, ∀ l ∈ s'.linksOf g, l ∈ s.linksOf g ∨ l.ID = s.nextVLinkID := by
  intro g l hl
  by_cases hg : group = g
  · subst hg
    rw [(account_eq.mp h.account).2.2.2] at hl
    rcases List.mem_append.mp hl with hl | hl
    · split at hl
      · exact .inl hl
      · cases hl
    · exact .inr (by rw [List.mem_singleton.mp hl, h.number])
  · rw [(account_eq.mp (h.elsewhere g hg)).2.2.2] at hl
    exact .inl hl

/-! ## Different groups -/

/-- Different groups are reached through different ports of LSI-0. -/
def PortsDistinct (s : GraphManager) : Prop :=
  ∀ (g g' k k' : String) (p : Nat), (s.connectionsOf g)[k]? = some p →
    (s.connectionsOf g')[k']? = some p → g = g'

/-- LSI-0 gives each link a port of its own, and none that is in use. -/
structure OwnPorts (s : GraphManager) (env : Environment) : Prop where
  once : ∀ q q' p, env.lsi0Port q = some p → env.lsi0Port q' = some p → q = q'
  unused : ∀ q p, env.lsi0Port q = some p → ∀ g k : String, (s.connectionsOf g)[k]? ≠ some p

/-- The ports of a graph during its deployment: those that were asked for have a request each. -/
structure Handed (env : Environment) (graphID : String) (s s' : GraphManager)
    (origin : String → Option LinkRequest) : Prop where
  old : ∀ g, origin g = none → s'.connectionsOf g = s.connectionsOf g
  others : SameConnections graphID s s'
  handed : ∀ g q, origin g = some q →
    ∃ p, (s'.connectionsOf g)[graphID]? = some p ∧ env.lsi0Port q = some p
  asked : ∀ g q, origin g = some q → q = .lsi g ∨ ∃ ID < s'.nextVLinkID, q = .link ID
  single : ∀ g g' q, origin g = some q → origin g' = some q → g = g'

section Deploy

variable {rofl : Lowlevel.Rofl} {env : Environment} {graphID group : String}
  {s s₁ s₂ : GraphManager} {link : VLink} {port : Nat}

/-- A round gives the port of its group a new request. -/
theorem Handed.round {origin : String → Option LinkRequest} (h : Handed env graphID s s₁ origin)
    (hlinks : s₁.OldLinks) (hround : Joins env graphID group s₁ s₂ link port) :
    ∃ q, Handed env graphID s s₂ (Function.update origin group (some q)) := by
  have hports := hround.connectionsOf
  obtain ⟨q, hq, hanswer⟩ := hround.answer
  rw [← hround.port (hlinks group)] at hanswer
  -- no earlier port of another group was asked for in the same way
  have hnew {g : String} (hg : g ≠ group) (hq' : origin g = some q) : False := by
    rcases h.asked g q hq' with rfl | ⟨ID, hlt, rfl⟩
    · rcases hq with hq | hq
      · exact hg (LinkRequest.lsi.inj hq)
      · cases hq
    · rcases hq with hq | hq
      · cases hq
      · exact Nat.ne_of_lt hlt (LinkRequest.link.inj hq)
  refine ⟨q, fun g hg => ?_, fun g k hk => ?_, fun g q' hg => ?_, fun g q' hg => ?_,
    fun g g' q' hg hg' => ?_⟩
  · have hne : g ≠ group := by
      rintro rfl
      simp at hg
    rw [update_of_ne hne] at hg
    rw [hports, if_neg hne.symm, h.old g hg]
  · rw [hports]
    split
    · rw [getElem?_insert, if_neg hk.symm, h.others g k hk]
    · rw [h.others g k hk]
  · by_cases hne : g = group
    · subst hne
      rw [update_self, Option.some.injEq] at hg
      exact ⟨port, by rw [hports, if_pos rfl, getElem?_insert, if_pos rfl], hg ▸ hanswer⟩
    · rw [update_of_ne hne] at hg
      rw [hports, if_neg (Ne.symm hne)]
      exact h.handed g q' hg
  · rw [hround.counter]
    by_cases hne : g = group
    · subst hne
      rw [update_self, Option.some.injEq] at hg
      subst hg
      exact hq.imp id fun hq => ⟨_, Nat.lt_succ_self _, hq⟩
    · rw [update_of_ne hne] at hg
      exact (h.asked g q' hg).imp id fun ⟨ID, hlt, hID⟩ => ⟨ID, Nat.lt_succ_of_lt hlt, hID⟩
  · by_cases hne : g = group <;> by_cases hne' : g' = group
    · rw [hne, hne']
    · subst hne
      rw [update_self, Option.some.injEq] at hg
      rw [update_of_ne hne', ← hg] at hg'
      exact (hnew hne' hg').elim
    · subst hne'
      rw [update_self, Option.some.injEq] at hg'
      rw [update_of_ne hne, ← hg'] at hg
      exact (hnew hne hg).elim
    · rw [update_of_ne hne] at hg
      rw [update_of_ne hne'] at hg'
      exact h.single g g' q' hg hg'

/-- Ports that LSI-0 gives once keep groups apart. -/
theorem Handed.portsDistinct {origin : String → Option LinkRequest}
    (h : Handed env graphID s s₁ origin) (hs : s.PortsDistinct) (hown : s.OwnPorts env) :
    s₁.PortsDistinct := by
  -- a port is an old one of the group, or the answer to the request of the group
  have hport {g k : String} {p : Nat} (hp : (s₁.connectionsOf g)[k]? = some p) :
      (s.connectionsOf g)[k]? = some p ∨ ∃ q, origin g = some q ∧ env.lsi0Port q = some p := by
    cases horigin : origin g with
    | none =>
      rw [h.old g horigin] at hp
      exact .inl hp
    | some q =>
      by_cases hk : k = graphID
      · obtain ⟨p', hp', hanswer⟩ := h.handed g q horigin
        rw [hk, hp', Option.some.injEq] at hp
        exact .inr ⟨q, rfl, hp ▸ hanswer⟩
      · rw [h.others g k hk] at hp
        exact .inl hp
  intro g g' k k' p hp hp'
  rcases hport hp with hp | ⟨q, hq, hanswer⟩ <;> rcases hport hp' with hp' | ⟨q', hq', hanswer'⟩
  · exact hs g g' k k' p hp hp'
  · exact absurd hp (hown.unused q' p hanswer' g k)
  · exact absurd hp' (hown.unused q p hanswer g' k')
  · obtain rfl := hown.once q q' p hanswer hanswer'
    exact h.single g g' q hq hq'

theorem connectAll_portsDistinct (eps : List EndPointInternal) (hs : s.PortsDistinct)
    (hlinks : s.OldLinks) (hown : s.OwnPorts env) :
    wp (each (handleInternalEndpoint rofl env graphID) eps)
      (fun _ s' => s'.OldLinks ∧ s'.PortsDistinct) (fun s' => s'.OldLinks ∧ s'.PortsDistinct) s := by
  refine wp_weaken (wp_each (I := fun _ s' => s'.OldLinks ∧
    ∃ origin, Handed env graphID s s' origin) ?_ eps s ?_) ?_
  · rintro iep _ s₁ ⟨hlinks₁, origin, hhanded⟩
    refine wp_mono handleInternalEndpoint_joins ?_
      (fun s₂ hthrown => ⟨hlinks₁.grow hthrown.links hthrown.counter, ?_⟩)
    · rintro _ s₂ ⟨link, port, hround⟩
      obtain ⟨q, hhanded₂⟩ := hhanded.round hlinks₁ hround
      exact ⟨hlinks₁.grow hround.links hround.counter, _, hhanded₂⟩
    · have h₁ := hhanded.portsDistinct hs hown
      unfold PortsDistinct
      rw [hthrown.ports]
      exact h₁
  · exact ⟨hlinks, fun _ => none, fun _ _ => rfl, fun _ _ _ => rfl, nofun, nofun, nofun⟩
  · rintro _ s' ⟨hlinks', origin, hhanded⟩
    exact ⟨hlinks', hhanded.portsDistinct hs hown⟩

/-- Every endpoint of a new graph has a port. -/
theorem connectAll_recorded (eps : List EndPointInternal) :
    wp (each (handleInternalEndpoint rofl env graphID) eps)
      (fun _ s' => ∀ e ∈ eps, ∃ p, (s'.connectionsOf e.group)[graphID]? = some p)
      (fun _ => True) s := by
  refine wp_weaken (wp_each (I := fun rest s' => ∀ e ∈ eps, e ∈ rest ∨
    ∃ p, (s'.connectionsOf e.group)[graphID]? = some p) ?_ eps s fun e he => .inl he) ?_
  · intro iep rest s₁ h
    refine wp_mono handleInternalEndpoint_joins ?_ (fun _ _ => trivial)
    rintro _ s₂ ⟨link, port, hround⟩ e he
    by_cases hgroup : iep.group = e.group
    · exact .inr ⟨port, by rw [hround.connectionsOf, if_pos hgroup, getElem?_insert, if_pos rfl]⟩
    · rw [hround.connectionsOf, if_neg hgroup]
      rcases h e he with hmem | hport
      · rcases List.mem_cons.mp hmem with rfl | hmem
        · exact absurd rfl hgroup
        · exact .inl hmem
      · exact .inr hport
  · intro _ s' h e he
    rcases h e he with hmem | hport
    · cases hmem
    · exact hport

end Deploy

/-! ## Runs -/

section Update

variable {rofl : Lowlevel.Rofl} {env : Environment} {graphID : String} {s : GraphManager}

theorem addVlinks_counter {addVirtualLink : Nat → Option (Nat × Nat)} (required : VlinksRequired)
    (t : Nat × VLinks) :
    wp (addVlinks addVirtualLink required) (fun _ t' => t.1 ≤ t'.1) (fun t' => t.1 ≤ t'.1) t := by
  refine wp_each (I := fun _ t' => t.1 ≤ t'.1) (fun targets _ t₁ h => ?_) _ t (Nat.le_refl _)
  simp only [addVlinkTo, wp_bind, wp_get, wp_modify]
  split
  · exact Nat.le_succ_of_le h
  · simp only [wp_update, Abort.bind_eq_ok]
    rintro t₂ ⟨v, -, vlink, -, _, -, ht₂⟩
    obtain rfl := Except.ok.inj ht₂
    exact Nat.le_succ_of_le h

theorem lift_counter {α : Type} (x : Call GraphInfo α) :
    Preserves Prod.fst (GraphInfo.lift x) := by
  intro t
  rw [GraphInfo.lift, wp_focus]
  exact wp_of_forall (fun _ _ => rfl) fun _ => rfl

theorem addPieces_counter {physicalPorts : StringMap Nat} {runNFs : Bool}
    {newGraph : Highlevel.Graph} (t : Nat × GraphInfo) :
    wp (addPieces env physicalPorts runNFs graphID newGraph) (fun _ t' => t.1 ≤ t'.1)
      (fun t' => t.1 ≤ t'.1) t := by
  have hlift {α : Type} {x : Call GraphInfo α} {Q : α → Nat × GraphInfo → Prop}
      {E : Nat × GraphInfo → Prop} {t : Nat × GraphInfo} (hQ : ∀ a t', t'.1 = t.1 → Q a t')
      (hE : ∀ t', t'.1 = t.1 → E t') : wp (GraphInfo.lift x) Q E t :=
    (lift_counter x).wp hQ hE
  have hsame {t' : Nat × GraphInfo} (h : t'.1 = t.1) : t.1 ≤ t'.1 := h.symm.le
  simp only [addPieces, wp_bind, wp_get]
  refine hlift (fun valid t₁ h₁ => ?_) fun _ => hsame
  split
  · exact hsame h₁
  · rw [wp_bind]
    refine hlift (fun _ t₂ h₂ => ?_) fun _ h => hsame (h.trans h₁)
    rw [wp_bind]
    refine hlift (fun selected t₃ h₃ => ?_) fun _ h => hsame (h.trans (h₂.trans h₁))
    have h₃ : t₃.1 = t.1 := h₃.trans (h₂.trans h₁)
    split
    · rw [wp_bind]
      exact hlift (fun _ t₄ h₄ => hsame (h₄.trans h₃)) fun _ h => hsame (h.trans h₃)
    · simp only [wp_bind, GraphInfo.onLinks, wp_focus]
      refine wp_mono (addVlinks_counter _ _) (fun _ l hl => ?_) fun _ hl => h₃ ▸ hl
      have hl : t.1 ≤ l.1 := h₃ ▸ hl
      exact hlift (fun _ t₅ h₅ => Nat.le_trans hl h₅.symm.le) fun _ h => Nat.le_trans hl h.symm.le

theorem updateGraph_quiet {newGraph : Highlevel.Graph} :
    wp (updateGraph rofl env graphID newGraph) (fun _ s' => Quiet s s') (fun s' => Quiet s s')
      s := by
  refine wp_updateGraph fun info _ => ?_
  refine wp_mono (addPieces_counter _) (fun diff t ht => ?_) fun t ht => .of_eq rfl rfl ht
  intro old graph removeRuleInfo _ after
  exact wp_of_forall (fun _ reduced => ⟨fun _ _ => ⟨fun _ _ => .of_eq rfl rfl ht,
    fun _ => .of_eq rfl rfl ht⟩, fun _ => .of_eq rfl rfl ht⟩) fun _ => .of_eq rfl rfl ht

end Update

/-- A new graph asks for ports that LSI-0 gives once. -/
def FreshPorts (s : GraphManager) : Operation → Prop
  | .newGraph env _ => s.OwnPorts env
  | _ => True

/-- What runs keep. -/
structure PortsKept (s : GraphManager) : Prop where
  links : s.OldLinks
  distinct : s.PortsDistinct

section Runs

variable {rofl : Lowlevel.Rofl} {s s' : GraphManager}

theorem PortsKept.quiet (h : s.PortsKept) (hquiet : Quiet s s') : s'.PortsKept :=
  ⟨h.links.mono hquiet.links hquiet.counter, fun g g' k k' p hp hp' =>
    h.distinct g g' k k' p (hquiet.ports g k p hp) (hquiet.ports g' k' p hp')⟩

theorem newGraph_portsKept {env : Environment} {graph : Highlevel.Graph} (h : s.PortsKept)
    (hown : s.OwnPorts env) :
    wp (newGraph rofl env graph) (fun _ s' => s'.PortsKept) PortsKept s := by
  simp only [newGraph, wp_bind, wp_get, wp_assert, wp_focus]
  intro _
  refine wp_mono createTenant_spec (fun created nextID hcreated => ?_)
    (fun nextID hle => h.quiet (.of_eq rfl rfl hle))
  have hquiet : Quiet s { s with nextVLinkID := nextID } := .of_eq rfl rfl hcreated.1
  cases created with
  | none => exact h.quiet hquiet
  | some info =>
    obtain ⟨internalLSIs, next, heq, hget⟩ :=
      handleControllerForInternalEndpoint_internalLSIs graph { s with nextVLinkID := nextID }
    simp only [wp_bind, wp_modify, heq]
    have hstart : Quiet s { s with nextVLinkID := nextID, internalLSIs := internalLSIs,
                                   nextControllerPort := next } := by
      refine ⟨hquiet.counter, fun g l hl => ?_, hquiet.ports⟩
      have hlsi := hget g
      split at hlsi
      · obtain ⟨port, hlsi⟩ := hlsi
        simp [linksOf, hlsi] at hl
      · rwa [linksOf, hlsi] at hl
    have hstart' := h.quiet hstart
    refine wp_mono (connectAll_portsDistinct _ hstart'.distinct hstart'.links
      ⟨hown.once, hown.unused⟩) (fun _ s₁ h₁ => ?_) (fun _ h₁ => ⟨h₁.1, h₁.2⟩)
    have h₁ : s₁.PortsKept := ⟨h₁.1, h₁.2⟩
    simp only [wp_get, wp_eval, wp_pure]
    exact ⟨fun _ _ => ⟨fun _ _ => h₁.quiet (.of_eq rfl rfl (Nat.le_refl _)),
      fun _ => h₁.quiet (.of_eq rfl rfl (Nat.le_refl _))⟩, fun _ => h₁⟩

theorem call_portsKept {op : Operation} (h : s.PortsKept) (hop : FreshPorts s op) :
    wp (call rofl op) (fun _ s' => s'.PortsKept) PortsKept s := by
  have hcontroller (graphID : String) (f : Controller → Controller) :
      (onController graphID f s).PortsKept := by
    unfold onController
    split
    · exact h
    · exact h.quiet (.of_eq rfl rfl (Nat.le_refl _))
  cases op with
  | newGraph env graph => exact newGraph_portsKept h hop
  | updateGraph env graphID graph =>
    exact wp_mono updateGraph_quiet (fun _ _ hq => h.quiet hq) (fun _ hq => h.quiet hq)
  | deleteGraph env graphID =>
    exact deleteGraph_keeps h fun _ _ hd => h.quiet hd.quiet
  | lsi0DptOpen | lsi0DptClose => exact h.quiet (.of_eq rfl rfl (Nat.le_refl _))
  | tenantDptOpen graphID | tenantDptClose graphID => exact hcontroller graphID _

theorem create_portsKept {runNFs : Bool} {physicalPorts : StringMap Nat}
    {inBand : Option (String × String)} (h : create rofl runNFs physicalPorts inBand = .ok s) :
    s.PortsKept := by
  have hempty : ({} : GraphManager).PortsKept := by
    refine ⟨fun g l hl => ?_, fun g g' k k' p hp => ?_⟩
    · simp [linksOf] at hl
    · simp [connectionsOf] at hp
  cases inBand with
  | none =>
    cases h
    exact hempty.quiet (.of_eq rfl rfl (Nat.le_refl _))
  | some inBand =>
    obtain ⟨port, -, hs⟩ := bind_eq_ok.mp h
    cases hs
    exact hempty.quiet (.of_eq rfl rfl (Nat.le_refl _))

/-- Over every run in which LSI-0 gives each link a port of its own, different groups are reached
through different ports. -/
theorem run_portsDistinct {runNFs : Bool} {physicalPorts : StringMap Nat}
    {inBand : Option (String × String)} (hcreate : create rofl runNFs physicalPorts inBand = .ok s)
    {ops : List Operation} (hsteps : Run.EveryStep (step rofl) FreshPorts s ops) :
    Run.Always (step rofl) PortsDistinct s ops :=
  Run.always_of_invariant (I := PortsKept)
    (fun _ _ _ h hop hstep => step_keeps (call_portsKept h hop) hstep) (fun _ h => h.distinct)
    (create_portsKept hcreate) hsteps

end Runs

/-! ## The two lookups -/

/-- Whoever names an endpoint of the group, as the input or as the output of a rule, gets the
port. -/
structure Reaches (connections : InternalConnections) (graphID group : String) (port : Nat) :
    Prop where
  input : ∀ (tables : Parser.EndPointTables) (reference : String),
    Parser.isEndPointReference reference = true →
    tables.find (epName reference) = some (.internal group) →
    ∃ input, Parser.portIn tables reference = .ok input ∧ ∀ hlr tenantLSI lsi0 lsi0Rule,
      hlr.match.type = input.type →
      lowerRuleToLSI0 graphID tenantLSI lsi0 connections hlr = .ok (some lsi0Rule) →
      lsi0Rule.match.inPort = .port port
  output : ∀ (tables : Parser.EndPointTables) (reference : String),
    Parser.isEndPointReference reference = true →
    tables.find (epName reference) = some (.internal group) →
    ∃ action, Parser.outputToPort tables reference = .ok (some action) ∧
      ∀ hlr tenantLSI lsi0 lsi0Rule, hlr.action.type = action.type →
        lowerRuleToLSI0 graphID tenantLSI lsi0 connections hlr = .ok (some lsi0Rule) →
        lsi0Rule.action.output = .port port

/-- The name of a group stands for one port of each graph, and for no port of another group. -/
structure GroupResolves (group : String) : Prop where
  agrees : ∀ rofl env (graph : Highlevel.Graph) s s',
    newGraph rofl env graph s = .ok (some true, s') →
    (∃ iep ∈ graph.endPointsInternal, iep.group = group) →
    ∃ port, (s'.connectionsOf group)[graph.ID]? = some port ∧
      Reaches s'.internalLSIsConnections graph.ID group port
  distinct : ∀ rofl runNFs physicalPorts inBand s ops,
    create rofl runNFs physicalPorts inBand = .ok s →
    Run.EveryStep (step rofl) FreshPorts s ops →
    Run.Always (step rofl) (fun s => ∀ (group' k k' : String) (p : Nat),
      (s.connectionsOf group)[k]? = some p → (s.connectionsOf group')[k']? = some p →
        group = group') s ops

section Lookups

variable {graphID group : String} {tenantLSI lsi0 : LSI} {connections : InternalConnections}
  {hlr : Rule} {lsi0Rule : Lowlevel.Rule}

theorem copiedMatch_inPort {inPort : Lowlevel.InPort} {m : Highlevel.Match} {low : Lowlevel.Match}
    (h : copiedMatch inPort m = .ok low) : low.inPort = inPort := by
  rw [copiedMatch, Lowlevel.Match.setAllCommonFields_new] at h
  split at h
  · cases h
    rfl
  · cases h

/-- A rule from an internal endpoint is looked up under the number of its group. -/
theorem inPort_of_internal {n : Nat} (hinput : hlr.match.type = .endPointInternal n)
    (h : lowerRuleToLSI0 graphID tenantLSI lsi0 connections hlr = .ok (some lsi0Rule)) :
    lsi0Rule.match.inPort = .port (portToBeUsed connections (toString n) graphID) := by
  unfold lowerRuleToLSI0 at h
  simp only [hinput] at h
  cases houtput : hlr.action.type <;> simp only [houtput] at h
  case port => cases h
  case endPointInternal => cases h
  all_goals
    obtain ⟨low, hlow, h⟩ := bind_eq_ok.mp h
    obtain ⟨vlink, -, h⟩ := bind_eq_ok.mp h
    cases h
    exact copiedMatch_inPort hlow

/-- A rule to an internal endpoint is looked up under the name of its group. -/
theorem output_of_internal (houtput : hlr.action.type = .endPointInternal group)
    (h : lowerRuleToLSI0 graphID tenantLSI lsi0 connections hlr = .ok (some lsi0Rule)) :
    lsi0Rule.action.output = .port (portToBeUsed connections group graphID) := by
  unfold lowerRuleToLSI0 at h
  simp only [houtput] at h
  cases hinput : hlr.match.type <;> simp only [hinput] at h
  case generic => cases h
  case endPointInternal => cases h
  case port =>
    obtain ⟨inputPort, -, h⟩ := bind_eq_ok.mp h
    obtain ⟨low, -, h⟩ := bind_eq_ok.mp h
    cases h
  all_goals
    obtain ⟨vlink, -, h⟩ := bind_eq_ok.mp h
    cases h
    rfl

/-- The parser has read the group of an internal endpoint that it accepts as an input. -/
theorem read_of_portIn {tables : Parser.EndPointTables} {reference : String} {input : Parser.PortIn}
    (hendpoint : Parser.isEndPointReference reference = true)
    (hfind : tables.find (epName reference) = some (.internal group))
    (h : Parser.portIn tables reference = .ok input) :
    ∃ n, CString.scanUnsigned 10 group = some n ∧ input.type = .endPointInternal n := by
  simp only [Parser.portIn, hendpoint, hfind, if_true] at h
  split at h
  · cases h
  · split at h
    · next n hread =>
      cases h
      exact ⟨n, hread, rfl⟩
    · cases h

/-- A group that is printed as it was read is found by both lookups. -/
theorem reaches_of_printed {n port : Nat} (hread : CString.scanUnsigned 10 group = some n)
    (hprinted : toString n = group)
    (hport : ((connections[group]?).getD ∅)[graphID]? = some port) :
    Reaches connections graphID group port := by
  have hused : portToBeUsed connections group graphID = port := by simp [portToBeUsed, hport]
  have hnonempty : group ≠ "" := by
    rintro rfl
    cases hread
  refine ⟨fun tables reference hendpoint hfind => ?_, fun tables reference hendpoint hfind => ?_⟩
  · refine ⟨{ type := .endPointInternal n, inputEndpoint := reference, greInput := by simp }, ?_,
      fun hlr tenantLSI lsi0 lsi0Rule hinput h => ?_⟩
    · simp [Parser.portIn, hendpoint, hfind, hnonempty, hread]
    · rw [inPort_of_internal hinput h, hprinted, hused]
  · refine ⟨{ type := .endPointInternal group, endpointName := reference }, ?_,
      fun hlr tenantLSI lsi0 lsi0Rule houtput h => ?_⟩
    · simp [Parser.outputToPort, hendpoint, hfind, hnonempty]
    · rw [output_of_internal houtput h, hused]

end Lookups

/-- A graph with one internal endpoint, of the given group. -/
def joining (group : String) : Highlevel.Graph where
  ID := "a"
  endPointsInternal := [{ id := "1", name := "lan", group := group }]

/-- The first graph with an endpoint of a group is deployed, and its port is the only one. -/
theorem newGraph_joining (group : String) :
    ∃ s', newGraph default (.obliging { dpid := 1 }) (joining group) {} = .ok (some true, s') ∧
      s'.internalLSIsConnections =
        (∅ : StringMap (StringMap Nat)).insert group ((∅ : StringMap Nat).insert "a" 100) := by
  exact ⟨_, rfl, rfl⟩

/-- A rule on an internal endpoint whose group was read as a number. -/
def fromInternal (n : Nat) : Rule where
  «match» := { type := .endPointInternal n }
  action := { type := .networkFunction "fw" 1 }
  ruleID := "1"
  priority := 1

theorem lowerRuleToLSI0_fromInternal (graphID : String) (connections : InternalConnections)
    (n : Nat) : ∃ lsi0Rule, lowerRuleToLSI0 graphID
      { virtualLinks := [{ ID := 0 }], nfsVlinks := .ofList [("fw_1", 0)] compare } {} connections
      (fromInternal n) = .ok (some lsi0Rule) := by
  exact ⟨_, rfl⟩

/-- The name of a group resolves exactly if it is the text of the number that it is read as. -/
theorem groupResolves_iff (group : String) : GroupResolves group ↔
    ∃ n, CString.scanUnsigned 10 group = some n ∧ toString n = group := by
  constructor
  · intro h
    obtain ⟨s', hdeployed, hconnections⟩ := newGraph_joining group
    obtain ⟨port, hport, hreaches⟩ := h.agrees _ _ _ _ _ hdeployed ⟨_, List.mem_singleton_self _, rfl⟩
    obtain rfl : port = 100 := by
      simpa [connectionsOf, hconnections, joining, eq_comm] using hport
    let tables : Parser.EndPointTables := { internalId := (∅ : StringMap String).insert "1" group }
    have hfind : tables.find (epName "endpoint:1") = some (.internal group) := by
      rw [show epName "endpoint:1" = "1" by decide +kernel]
      simp [Parser.EndPointTables.find, tables]
    obtain ⟨input, hinput, hlowered⟩ := hreaches.input tables "endpoint:1" (by decide +kernel) hfind
    obtain ⟨n, hread, htype⟩ := read_of_portIn (by decide +kernel) hfind hinput
    refine ⟨n, hread, ?_⟩
    by_contra hne
    -- the lookup under another name ends at port 0
    obtain ⟨lsi0Rule, hlsi0Rule⟩ := lowerRuleToLSI0_fromInternal "a" s'.internalLSIsConnections n
    have hinPort := hlowered (fromInternal n) _ _ lsi0Rule htype.symm hlsi0Rule
    rw [inPort_of_internal rfl hlsi0Rule, portToBeUsed, hconnections, StringMap.getElem?_insert,
      if_neg (Ne.symm hne)] at hinPort
    simp at hinPort
  · rintro ⟨n, hread, hprinted⟩
    refine ⟨fun rofl env graph s s' h hjoins => ?_,
      fun rofl runNFs physicalPorts inBand s ops hcreate hsteps => ?_⟩
    · obtain ⟨iep, hiep, hgroup⟩ := hjoins
      obtain ⟨d, rfl⟩ := newGraph_done h
      obtain ⟨port, hport⟩ :=
        (Call.of_wp (connectAll_recorded graph.endPointsInternal) d.connects).1 () rfl iep hiep
      rw [hgroup] at hport
      exact ⟨port, hport, reaches_of_printed hread hprinted hport⟩
    · exact (run_portsDistinct hcreate hsteps).mono fun s h group' k k' p => h group group' k k' p

/-- A document with a rule from an internal endpoint of the group `01` to a firewall. -/
def leadingZero : Json :=
  Parser.oneRule
    [.obj [("id", .str "fw"), ("name", .str "firewall"), ("ports", .arr [.obj [("id", .str "inout:0")]])]]
    [.obj [("id", .str "1"), ("internal", .obj [("internal-group", .str "01")])]]
    "endpoint:1" [Parser.outputTo "vnf:fw:inout:0"]

/-- The switch gives the port of the firewall and the link towards it these numbers. -/
def oneFirewall : Environment :=
  .obliging { dpid := 1, networkFunctionsPorts := [("fw", [("fw_1", 11)])],
              virtualLinks := [(1, 101)] }

/-- The port towards the group `01` is recorded as 100, and the rule waits on port 0. -/
theorem leadingZero_not_resolved :
    ∃ graph, Parser.parseGraph .none "g" leadingZero = .ok graph ∧
      ∃ s', newGraph default oneFirewall graph {} = .ok (some true, s') ∧
        (s'.connectionsOf "01")["g"]? = some 100 ∧
        s'.graphLSI0lowLevel.rules.map (fun r => r.match.inPort) = [.port 0] := by
  have hclosed : ∃ graph ∈ (Parser.parseGraph .none "g" leadingZero).toOption,
      ∃ made, newGraph default oneFirewall graph {} = .ok made ∧ made.1 = some true ∧
        (made.2.connectionsOf "01")["g"]? = some 100 ∧
        made.2.graphLSI0lowLevel.rules.map (fun r => r.match.inPort) = [.port 0] := by
    decide +kernel
  obtain ⟨graph, hparse, ⟨done, s'⟩, hmade, rfl, hport, hrules⟩ := hclosed
  exact ⟨graph, Failure.toOption_eq_some.mp hparse, s', hmade, hport, hrules⟩

end GraphManager

end UnOrchestrator
