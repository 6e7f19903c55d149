import UnOrchestrator.GraphManager.Forwarding

/-!
# Which graphs can be lowered

A rule that the translator does not handle can end the request with an exception, or the whole
process with a failed assertion or a dereferenced end of a map. `Aborts` and `Throws` list the
rules of either kind, by the pair of endpoints, by what the switches know about their ports and
by whether the match can be copied; `lower_eq_abort_iff` and `lower_eq_thrown_iff` say that the
lists are complete, for a rule whose target has its virtual link.

The translator takes the rules in order, so a rule of the first kind ends the process unless an
exception comes before it (`lowering_safe_iff`).
-/

namespace UnOrchestrator

open Highlevel GraphTranslator

namespace Switches

/-- A rule whose translation to a switch ends the process. -/
def Aborts (sw : Switches) (side : Side) (r : Rule) : Prop :=
  match side, r.match.type, r.action.type with
  | _, .generic, _ => True
  | .lsi0, .port port, _ => (sw.numberOf (.port port)).isSome ∧ ¬ r.match.Copyable
  | .lsi0, .endPointInternal _, .port _ | .lsi0, .endPointInternal _, .endPointInternal _ => True
  | .lsi0, .endPointInternal _, .networkFunction _ _ | .lsi0, .endPointInternal _, .endPointGre _
  | .lsi0, .endPointGre _, .port _ => ¬ r.match.Copyable
  | .tenant, .endPointGre _, .endPointGre _ => True
  | .tenant, .endPointGre _, .networkFunction nfId port =>
    ¬ r.match.Copyable ∨ sw.numberOf (.nf nfId port) = none
  | .tenant, .endPointGre _, _ => ¬ r.match.Copyable
  | .tenant, .nf nf nfPort, _ => (sw.numberOf (.nf nf nfPort)).isSome ∧ ¬ r.match.Copyable
  | _, _, _ => False

/-- A rule whose translation to a switch throws an exception. -/
def Throws (sw : Switches) (side : Side) (r : Rule) : Prop :=
  match side, r.match.type, r.action.type with
  | .lsi0, .port port, .port portName => sw.numberOf (.port port) = none ∨
      r.match.Copyable ∧ sw.numberOf (.port portName) = none
  | .lsi0, .port port, _ => sw.numberOf (.port port) = none
  | .lsi0, .endPointGre _, .port portName =>
    r.match.Copyable ∧ sw.numberOf (.port portName) = none
  | .lsi0, .nf _ _, .port portName => sw.numberOf (.port portName) = none
  | .tenant, .port _, .networkFunction nfId port
  | .tenant, .endPointInternal _, .networkFunction nfId port =>
    sw.numberOf (.nf nfId port) = none
  | .tenant, .nf nf nfPort, .networkFunction nfId port => sw.numberOf (.nf nf nfPort) = none ∨
      r.match.Copyable ∧ sw.numberOf (.nf nfId port) = none
  | .tenant, .nf nf nfPort, _ => sw.numberOf (.nf nf nfPort) = none
  | _, _, _ => False

instance (sw : Switches) (side : Side) (r : Rule) : Decidable (sw.Aborts side r) := by
  unfold Aborts
  split <;> infer_instance

variable {sw : Switches} {side : Side} {r : Rule}

theorem none_or_some_and {α : Type} {o : Option α} {P : Prop} :
    o = none ∨ (∃ a, o = some a) ∧ P ↔ o = none ∨ P := by
  cases o <;> simp

/-- Exactly the rules that are listed end the process or throw an exception. -/
theorem lower_eq_error_iff
    (hlinked : ∀ t, r.requiredVlink = some t → ∃ l, sw.tenantLSI.linkOf t = some l) :
    ((∃ why, sw.lower side r = .error (.abort why)) ↔ sw.Aborts side r) ∧
      (sw.lower side r = .error .thrown ↔ sw.Throws side r) := by
  have hport (port : String) : sw.lsi0.physicalPorts[port]? = sw.numberOf (.port port) := rfl
  have hnf (nfId : String) (port : Int) :
      sw.tenantLSI.nfPort nfId (nfPortName nfId port) = sw.numberOf (.nf nfId port) := rfl
  have hcopied (inPort : Lowlevel.InPort) := copiedMatch_eq inPort r.match
  by_cases hcopy : r.match.Copyable
  all_goals
    simp only [hcopy, if_true, if_false] at hcopied
    unfold Rule.requiredVlink at hlinked
    unfold Aborts Throws lower lowerRuleToLSI0 lowerRuleToTenantLSI greToPortMatch nfOutput
    cases side <;> cases htype : r.match.type <;> cases haction : r.action.type <;>
      simp only [htype, haction, Match.matchOnPort, Match.matchOnEndPointInternal, Match.matchOnNF,
        Match.matchOnEndPointGre] at hlinked ⊢ <;>
      (try obtain ⟨l, hl⟩ := hlinked _ rfl) <;>
      simp [*, Action.removedInfo, Failure.bind_eq_error, Failure.orElse_eq_error,
        Failure.pure_ne_error, vlinkOf_of_linkOf, Option.isSome_iff_exists, -bind_pure_comp]
  -- what is left are pairs of endpoints of which either can be unknown
  all_goals exact none_or_some_and

/-- A rule between a physical port and an internal endpoint, which is not supported. -/
def betweenPortAndInternal (r : Rule) : Bool :=
  match r.match.type, r.action.type with
  | .port _, .endPointInternal _ | .endPointInternal _, .port _ => true
  | _, _ => false

/-- All other rules become at least one rule. -/
theorem lower_isSome (hr : betweenPortAndInternal r = false) {o₀ o₁ : Option Lowlevel.Rule}
    (h₀ : sw.lower .lsi0 r = .ok o₀) (h₁ : sw.lower .tenant r = .ok o₁) :
    o₀.isSome ∨ o₁.isSome := by
  unfold betweenPortAndInternal at hr
  unfold lower lowerRuleToLSI0 at h₀
  unfold lower lowerRuleToTenantLSI at h₁
  cases htype : r.match.type <;> cases haction : r.action.type <;>
    simp only [htype, haction, Failure.bind_eq_ok, Failure.pure_eq_ok, reduceCtorEq] at hr h₀ h₁ <;>
    grind

/-- The translations of a graph, first to LSI-0 and then to the tenant LSI, do not end the
process: either one of them throws an exception, or every rule has become at least one rule. -/
def LowersSafely (sw : Switches) (graph : Highlevel.Graph) : Prop :=
  match lowerGraphToLSI0 graph sw.tenantLSI sw.lsi0 sw.internalLSIsConnections with
  | .error (.abort _) => False
  | .error .thrown => True
  | .ok lsi0Graph =>
    match lowerGraphToTenantLSI graph sw.tenantLSI with
    | .error (.abort _) => False
    | .error .thrown => True
    | .ok tenantGraph =>
      ∀ r ∈ graph.rules, (∃ low ∈ lsi0Graph.rules, sw.lower .lsi0 r = .ok (some low)) ∨
        ∃ low ∈ tenantGraph.rules, sw.lower .tenant r = .ok (some low)

/-- An exception comes before every rule that would end the process. -/
def ThrowsInTime (sw : Switches) (side : Side) (rules : List Rule) : Prop :=
  ∀ before r after, rules = before ++ r :: after → sw.Aborts side r → ∃ b ∈ before, sw.Throws side b

/-- A list of rules ends the process unless an exception comes before each rule that does. -/
theorem collect_ne_abort_iff {rules : List Rule}
    (hlinked : ∀ r ∈ rules, ∀ t, r.requiredVlink = some t → ∃ l, sw.tenantLSI.linkOf t = some l) :
    (∀ why, Failure.collect (sw.lower side) rules ≠ .error (.abort why)) ↔
      sw.ThrowsInTime side rules := by
  constructor
  · rintro h before r after rfl haborts
    obtain ⟨why, hwhy⟩ := (lower_eq_error_iff (hlinked r (by simp))).1.mpr haborts
    -- the first rule to fail is not the one that ends the process
    cases hcollect : Failure.collect (sw.lower side) before with
    | ok rules =>
      refine absurd (Failure.collect_eq_error.mpr ⟨before, r, after, rfl, fun b hb => ?_, hwhy⟩) (h why)
      exact Failure.ok_of_collect hcollect hb
    | error e =>
      obtain ⟨first, b, rest, rfl, hfirst, hb⟩ := Failure.collect_eq_error.mp hcollect
      cases e with
      | abort why' =>
        refine absurd (Failure.collect_eq_error.mpr
          ⟨first, b, rest ++ r :: after, by simp, hfirst, hb⟩) (h why')
      | thrown => exact ⟨b, by simp, (lower_eq_error_iff (hlinked b (by simp))).2.mp hb⟩
  · intro h why hcollect
    obtain ⟨before, r, after, rfl, hbefore, hr⟩ := Failure.collect_eq_error.mp hcollect
    have haborts := (lower_eq_error_iff (hlinked r (by simp))).1.mp ⟨why, hr⟩
    obtain ⟨b, hb, hthrows⟩ := h before r after rfl haborts
    obtain ⟨o, ho⟩ := hbefore b hb
    rw [(lower_eq_error_iff (hlinked b (by simp [hb]))).2.mpr hthrows] at ho
    cases ho

/-- A list of rules throws an exception when it does not end the process and some rule throws. -/
theorem collect_eq_thrown_iff {rules : List Rule}
    (hlinked : ∀ r ∈ rules, ∀ t, r.requiredVlink = some t → ∃ l, sw.tenantLSI.linkOf t = some l)
    (hintime : sw.ThrowsInTime side rules) :
    Failure.collect (sw.lower side) rules = .error .thrown ↔ ∃ r ∈ rules, sw.Throws side r := by
  constructor
  · intro h
    obtain ⟨before, r, after, rfl, -, hr⟩ := Failure.collect_eq_error.mp h
    exact ⟨r, by simp, (lower_eq_error_iff (hlinked r (by simp))).2.mp hr⟩
  · rintro ⟨r, hr, hthrows⟩
    have hfails := (lower_eq_error_iff (hlinked r hr)).2.mpr hthrows
    cases hcollect : Failure.collect (sw.lower side) rules with
    | ok rules =>
      obtain ⟨o, ho⟩ := Failure.ok_of_collect hcollect hr
      rw [hfails] at ho
      cases ho
    | error e =>
      cases e with
      | abort why => exact absurd hcollect ((collect_ne_abort_iff hlinked).mpr hintime why)
      | thrown => rfl

end Switches

/-- The translations of a new graph without rules between physical ports and internal endpoints
are safe exactly when an exception comes before every rule that would end the process. -/
theorem lowering_safe_iff {env : Environment} {physicalPorts : StringMap Nat} {runNFs : Bool}
    {graph : Highlevel.Graph} {nextID nextID' : Nat} {info : GraphInfo}
    (hcreated : createTenant env physicalPorts runNFs graph nextID = .ok (some (some info), nextID'))
    (hdocumented : ∀ r ∈ graph.rules, Switches.betweenPortAndInternal r = false)
    (lsi0 : LSI) (connections : InternalConnections) :
    let sw := info.switches lsi0 connections
    sw.LowersSafely graph ↔ sw.ThrowsInTime .lsi0 graph.rules ∧
      ((∃ r ∈ graph.rules, sw.Throws .lsi0 r) ∨ sw.ThrowsInTime .tenant graph.rules) := by
  intro sw
  obtain ⟨rfl, hlinked, -⟩ := linked_of_created hcreated
  have hlsi0 : lowerGraphToLSI0 info.graph sw.tenantLSI sw.lsi0 sw.internalLSIsConnections =
      Failure.collect (sw.lower .lsi0) info.graph.rules >>= fun rules => pure { rules := rules } := rfl
  have htenant : lowerGraphToTenantLSI info.graph sw.tenantLSI =
      Failure.collect (sw.lower .tenant) info.graph.rules >>= fun rules => pure { rules := rules } := rfl
  have hintime (side : Side) : (∀ why, Failure.collect (sw.lower side) info.graph.rules ≠
      .error (.abort why)) ↔ sw.ThrowsInTime side info.graph.rules :=
    Switches.collect_ne_abort_iff hlinked
  rw [Switches.LowersSafely, hlsi0, htenant, ← hintime]
  cases h₀ : Failure.collect (sw.lower .lsi0) info.graph.rules with
  | error e =>
    cases e with
    | abort why => exact ⟨False.elim, fun h => h.1 why rfl⟩
    | thrown =>
      have hsafe : ∀ why, Except.error .thrown ≠ (.error (.abort why) : Except Failure (List Lowlevel.Rule)) :=
        nofun
      have hthrows := (Switches.collect_eq_thrown_iff hlinked ((hintime .lsi0).mp (h₀ ▸ hsafe))).mp h₀
      exact ⟨fun _ => ⟨hsafe, .inl hthrows⟩, fun _ => trivial⟩
  | ok rules₀ =>
    have hreturns : ¬ ∃ r ∈ info.graph.rules, sw.Throws .lsi0 r := by
      rintro ⟨r, hr, hthrows⟩
      obtain ⟨o, ho⟩ := Failure.ok_of_collect h₀ hr
      rw [(Switches.lower_eq_error_iff (hlinked r hr)).2.mpr hthrows] at ho
      cases ho
    rw [or_iff_right hreturns, ← hintime]
    cases h₁ : Failure.collect (sw.lower .tenant) info.graph.rules with
    | error e =>
      cases e with
      | abort why => exact ⟨False.elim, fun h => h.2 why rfl⟩
      | thrown => exact ⟨fun _ => ⟨nofun, nofun⟩, fun _ => trivial⟩
    | ok rules₁ =>
      refine ⟨fun _ => ⟨nofun, nofun⟩, fun _ r hr => ?_⟩
      obtain ⟨o₀, ho₀⟩ := Failure.ok_of_collect h₀ hr
      obtain ⟨o₁, ho₁⟩ := Failure.ok_of_collect h₁ hr
      rcases Switches.lower_isSome (hdocumented r hr) ho₀ ho₁ with hsome | hsome
      · obtain ⟨low, rfl⟩ := Option.isSome_iff_exists.mp hsome
        exact .inl ⟨low, (Failure.mem_collect h₀).mpr ⟨r, hr, ho₀⟩, ho₀⟩
      · obtain ⟨low, rfl⟩ := Option.isSome_iff_exists.mp hsome
        exact .inr ⟨low, (Failure.mem_collect h₁).mpr ⟨r, hr, ho₁⟩, ho₁⟩

open GraphManager in
/-- A firewall between two ports is lowered. -/
theorem lowering_safe_firewall :
    let graph := (firewallGraph [toFirewall, fromFirewall] (by decide)).toGraph
    ∃ info nextID', createTenant firewallEnvironment twoPorts false graph 0 =
        .ok (some (some info), nextID') ∧
      (info.switches { physicalPorts := twoPorts } ∅).LowersSafely graph := by
  intro graph
  have hmade : ∃ made ∈ recordMade (createTenant firewallEnvironment twoPorts false graph 0),
      let sw := made.1.switches { physicalPorts := twoPorts } ∅
      ∀ r ∈ graph.rules, ¬ sw.Aborts .lsi0 r ∧ ¬ sw.Aborts .tenant r := by
    decide +kernel
  obtain ⟨made, hmade, hsafe⟩ := hmade
  have hcreated := eq_of_recordMade hmade
  refine ⟨made.1, made.2, hcreated, (lowering_safe_iff hcreated (by decide) _ _).mpr ⟨?_, .inr ?_⟩⟩
  · intro before r after hrules haborts
    exact absurd haborts (hsafe r (by rw [hrules]; simp)).1
  · intro before r after hrules haborts
    exact absurd haborts (hsafe r (by rw [hrules]; simp)).2

open GraphManager in
/-- A rule from one tunnel to another one is accepted, and fails an assertion. -/
theorem lowering_asserts_between_tunnels :
    let tunnel (id : String) : EndPointGre :=
      { id := id, name := "", localIp := "10.0.0.1", remoteIp := "10.0.0.2", greKey := "1" }
    let graph : Highlevel.Graph := {
      ID := "g"
      rules := [{ «match» := { type := .endPointGre "t", inputEndpoint := "endpoint:t",
                               greInput := by rintro _ ⟨⟩; decide },
                  action := { type := .endPointGre "u" }, ruleID := "1", priority := 1 }]
      endPointsGre := [tunnel "t", tunnel "u"] }
    let env := Environment.obliging { dpid := 1, endpointsPorts := [("t", 20), ("u", 21)] }
    (∀ r ∈ graph.rules, Switches.betweenPortAndInternal r = false) ∧
    ∃ made ∈ recordMade (createTenant env twoPorts false graph 0),
      lowerGraphToLSI0 graph made.1.lsi { physicalPorts := twoPorts } ∅ = .ok {} ∧
      lowerGraphToTenantLSI graph made.1.lsi = .error (.abort .assertion) := by
  decide +kernel

end UnOrchestrator
