import UnOrchestrator.Lib.FlowTable
import UnOrchestrator.Lib.Run
import UnOrchestrator.Lowlevel.Graph

/-!
# The OpenFlow controller of an LSI

A controller keeps the rules of its LSI and, while the datapath is connected,
sends a flow-mod for every change. Several rules can share one entry of the
switch's table, so a change to the rule list and the flow-mods sent for it need
not match.

`Agrees` is the property the controller is for: while the datapath is open, the
table is what installing the rules on an empty table gives. Installing rules and
(re)connecting always establish or keep it. Whether a removal keeps it depends on
the rules that share an entry before the call (`sharing`): `Clean` says how many of
them have to be removed, and which of them may be the last (`run_agrees_iff_clean`).
-/

namespace UnOrchestrator

open Lowlevel

/-- `Controller`, with the flow table of the datapath it is connected to. -/
structure Controller where
  graph : Lowlevel.Graph := {}
  isOpen : Bool := false
  flowTable : FlowTable (List OxmField × Nat) (List FlowAction) := .empty

namespace Controller

variable (rofl : Rofl)

/-- `Controller::installNewRulesIntoLSI`. -/
def installNewRulesIntoLSI (c : Controller) (rules : List Rule) : Controller :=
  if c.isOpen then
    { c with flowTable := c.flowTable.installAll (rules.map (Rule.flowEntry rofl)) }
  else c

/-- `Controller::removeRulesFromLSI`. -/
def removeRulesFromLSI (c : Controller) (rules : List Rule) : Controller :=
  if c.isOpen then
    { c with flowTable := c.flowTable.deleteAll (rules.map (Rule.flowKey rofl)) }
  else c

def installNewRules (c : Controller) (rules : List Rule) : Controller :=
  installNewRulesIntoLSI rofl { c with graph := c.graph.addRules rules } rules

/-- `Controller::removeRules`. The flow-mods are sent for all rules, also for those whose
entry another rule of the graph shares. -/
def removeRules (c : Controller) (rules : List Rule) : Except Abort Controller :=
  (c.graph.removeRules rules).map
    (fun graph => removeRulesFromLSI rofl { c with graph := graph } rules)

/-- `Controller::removeRuleFromID`. An unknown identifier is ignored, and no flow-mod is sent
when the graph has an equal rule under another identifier. -/
def removeRuleFromID (c : Controller) (ID : String) : Controller :=
  match c.graph.getRule ID with
  | none => c
  | some rule =>
    let (graph, another) := c.graph.removeRuleFromID ID
    if another then { c with graph := graph }
    else removeRulesFromLSI rofl { c with graph := graph } [rule]

/-- `Controller::handle_dpt_open`: the table is reset and all rules are installed. -/
def handleDptOpen (c : Controller) : Controller :=
  installNewRulesIntoLSI rofl { c with isOpen := true, flowTable := .empty } c.graph.rules

def handleDptClose (c : Controller) : Controller := { c with isOpen := false }

/-! The rule list of a controller changes as that of any low-level graph. -/

@[simp] theorem installNewRulesIntoLSI_graph (c : Controller) (rules : List Rule) :
    (installNewRulesIntoLSI rofl c rules).graph = c.graph := by
  unfold installNewRulesIntoLSI
  split <;> rfl

@[simp] theorem removeRulesFromLSI_graph (c : Controller) (rules : List Rule) :
    (removeRulesFromLSI rofl c rules).graph = c.graph := by
  unfold removeRulesFromLSI
  split <;> rfl

variable {k : List OxmField × Nat} {rules : List Rule} {c : Controller}

/-- Entries of other rules are left alone. -/
theorem removeRulesFromLSI_flowTable (c : Controller) (hk : k ∉ rules.map (Rule.flowKey rofl)) :
    (removeRulesFromLSI rofl c rules).flowTable k = c.flowTable k := by
  unfold removeRulesFromLSI
  split
  · exact (FlowTable.deleteAll_apply _ _ _).trans (if_neg hk)
  · rfl

@[simp] theorem installNewRules_graph (c : Controller) (rules : List Rule) :
    (c.installNewRules rofl rules).graph = c.graph.addRules rules :=
  installNewRulesIntoLSI_graph rofl _ rules

theorem removeRuleFromID_graph (c : Controller) (ID : String) :
    (c.removeRuleFromID rofl ID).graph = (c.graph.removeRuleFromID ID).1 := by
  unfold removeRuleFromID
  cases hget : c.graph.getRule ID with
  | none => simp only [Lowlevel.Graph.removeRuleFromID, hget]
  | some rule =>
    dsimp only
    split
    · rfl
    · exact removeRulesFromLSI_graph rofl _ [rule]

theorem foldl_removeRuleFromID_graph (IDs : List String) (c : Controller) :
    (IDs.foldl (fun c ID => c.removeRuleFromID rofl ID) c).graph =
      IDs.foldl (fun g ID => (g.removeRuleFromID ID).1) c.graph := by
  induction IDs generalizing c with
  | nil => rfl
  | cons ID IDs ih => rw [List.foldl_cons, ih, removeRuleFromID_graph, List.foldl_cons]

/-- The calls a controller serves, each under its mutex. -/
inductive Operation where
  | installNewRules (rules : List Rule)
  | removeRules (rules : List Rule)
  | removeRuleFromID (ID : String)
  | handleDptOpen
  | handleDptClose

def step (c : Controller) : Operation → Except Abort Controller
  | .installNewRules rules => .ok (c.installNewRules rofl rules)
  | .removeRules rules => c.removeRules rofl rules
  | .removeRuleFromID ID => .ok (c.removeRuleFromID rofl ID)
  | .handleDptOpen => .ok (c.handleDptOpen rofl)
  | .handleDptClose => .ok c.handleDptClose

/-! ## Agreement -/

/-- The table that installing rules in order on an empty table gives. -/
def installed (rules : List Rule) : FlowTable (List OxmField × Nat) (List FlowAction) :=
  FlowTable.empty.installAll (rules.map (Rule.flowEntry rofl))

/-- While the datapath is open, its table is the one the current rules ask for. -/
def Agrees (c : Controller) : Prop := c.isOpen = true → c.flowTable = installed rofl c.graph.rules

/-- The entry that rules ask for under a key: the actions of the last rule with that key. -/
def entryOf (rules : List Rule) (k : List OxmField × Nat) : Option (List FlowAction) :=
  FlowTable.entry (rules.map (Rule.flowEntry rofl)) k

theorem installed_apply (rules : List Rule) (k : List OxmField × Nat) :
    installed rofl rules k = entryOf rofl rules k :=
  (FlowTable.installAll_apply _ _ k).trans (Option.or_none)

/-- The rules that share an entry of the table, in their order. -/
def sharing (rules : List Rule) (k : List OxmField × Nat) : List Rule :=
  rules.filter (fun r => r.flowKey rofl = k)

theorem mem_sharing {r : Rule} : r ∈ sharing rofl rules k ↔ r ∈ rules ∧ r.flowKey rofl = k := by
  simp [sharing]

/-- The last of the rules that share an entry has put its actions there. -/
theorem entryOf_eq_getLast (rules : List Rule) (k : List OxmField × Nat) :
    entryOf rofl rules k = (sharing rofl rules k).getLast?.map Rule.flowActions := by
  induction rules with
  | nil => rfl
  | cons r rules ih =>
    have hrest : entryOf rofl (r :: rules) k =
        (entryOf rofl rules k).or (if r.flowKey rofl = k then some r.flowActions else none) := rfl
    simp only [hrest, ih, sharing, List.filter_cons]
    by_cases hk : r.flowKey rofl = k
    · rw [if_pos hk, if_pos (decide_eq_true hk), List.getLast?_cons]
      cases (rules.filter fun r => r.flowKey rofl = k).getLast? <;> rfl
    · rw [if_neg hk, if_neg (by simpa using hk), Option.or_none]

theorem entryOf_eq_none (rules : List Rule) (k : List OxmField × Nat) :
    entryOf rofl rules k = none ↔ ∀ r ∈ rules, r.flowKey rofl ≠ k := by
  rw [entryOf, FlowTable.entry_eq_none]
  simp [Rule.flowEntry]

theorem installed_eq_iff (rules other : List Rule) :
    installed rofl rules = installed rofl other ↔ ∀ k, entryOf rofl rules k = entryOf rofl other k := by
  simp only [FlowTable.eq_iff, installed_apply]

/-- Deleting keys from the table of some rules gives the table of others exactly when the
others ask for nothing under the deleted keys and for the same elsewhere. -/
theorem deleteAll_installed_eq_iff (rules other : List Rule) (ks : List (List OxmField × Nat)) :
    (installed rofl rules).deleteAll ks = installed rofl other ↔
      (∀ r ∈ other, r.flowKey rofl ∉ ks) ∧
      ∀ k ∉ ks, entryOf rofl rules k = entryOf rofl other k := by
  simp only [FlowTable.eq_iff, FlowTable.deleteAll_apply, installed_apply]
  constructor
  · intro hk
    refine ⟨fun r hr hmem => ?_, fun k hmem => by rw [← hk k, if_neg hmem]⟩
    have hnone := hk (r.flowKey rofl)
    rw [if_pos hmem, eq_comm, entryOf_eq_none] at hnone
    exact hnone r hr rfl
  · rintro ⟨hdeleted, hkept⟩ k
    split
    · next hmem =>
      exact ((entryOf_eq_none rofl other k).mpr (fun r hr heq => hdeleted r hr (heq ▸ hmem))).symm
    · next hmem => exact hkept k hmem

theorem entryOf_drop_one {l₁ l₂ : List Rule} {r : Rule} (hk : r.flowKey rofl ≠ k) :
    entryOf rofl (l₁ ++ r :: l₂) k = entryOf rofl (l₁ ++ l₂) k := by
  simp only [entryOf, List.map_append, List.map_cons]
  exact FlowTable.entry_drop_one hk

/-- Each removal by equality takes out one of the rules that share the entry of the rule asked for,
and no other. -/
theorem removeRules_sharing {g g' : Lowlevel.Graph} (h : g.removeRules rules = .ok g')
    (k : List OxmField × Nat) :
    (sharing rofl g.rules k).length = (sharing rofl g'.rules k).length + (sharing rofl rules k).length ∧
      (k ∉ rules.map (Rule.flowKey rofl) → entryOf rofl g'.rules k = entryOf rofl g.rules k) := by
  induction rules generalizing g with
  | nil =>
    simp only [Lowlevel.Graph.removeRules, List.foldlM_nil, Abort.pure_eq_ok] at h
    rw [h]
    exact ⟨rfl, fun _ => rfl⟩
  | cons r rs ih =>
    simp only [Lowlevel.Graph.removeRules, List.foldlM_cons, Abort.bind_eq_ok] at h
    obtain ⟨g₁, hr, hrs⟩ := h
    obtain ⟨hlength, hentry⟩ := ih hrs
    obtain ⟨l₁, it, l₂, hbefore, hafter, hequal⟩ := Lowlevel.Graph.removeRule_ok hr
    have hit : it.flowKey rofl = r.flowKey rofl := Rule.flowKey_eq_of_isEqual hequal
    constructor
    · rw [hafter] at hlength
      simp only [sharing, hbefore, List.filter_append, List.filter_cons, hit, List.length_append] at hlength ⊢
      split
      · simp only [List.length_cons]
        omega
      · exact hlength
    · intro hk
      rw [List.map_cons, List.mem_cons, not_or] at hk
      rw [hentry hk.2, hafter, hbefore, entryOf_drop_one rofl (hit.trans_ne (Ne.symm hk.1))]

/-! ## Clean removals -/

/-- The removals that keep the table in agreement with the rules. `removeRules` deletes the entries of
the rules asked for, so it has to be asked for all the rules that share them. `removeRuleFromID` takes
out the first rule with the identifier. Without an equal rule under another identifier it deletes the
entry, which no other rule may share. With one it deletes nothing, and what is left in the table must
not be due to the rule that goes: a later rule shares the entry, or the last earlier one that does has
the same actions. -/
def Clean (c : Controller) : Operation → Prop
  | .removeRules rules => c.isOpen = true → ∀ r ∈ rules,
      (sharing rofl c.graph.rules (r.flowKey rofl)).length = (sharing rofl rules (r.flowKey rofl)).length
  | .removeRuleFromID ID => c.isOpen = true → ∀ l₁ rule l₂, c.graph.rules = l₁ ++ rule :: l₂ →
      rule.flowID = ID → (∀ r ∈ l₁, r.flowID ≠ ID) →
      if ∃ again ∈ l₁ ++ l₂, again.flowID ≠ ID ∧ rule.isEqual again = true then
        sharing rofl l₂ (rule.flowKey rofl) ≠ [] ∨
          ∃ last ∈ (sharing rofl l₁ (rule.flowKey rofl)).getLast?, last.flowActions = rule.flowActions
      else ∀ r ∈ l₁ ++ l₂, r.flowKey rofl ≠ rule.flowKey rofl
  | _ => True

theorem installNewRules_agrees (h : c.Agrees rofl) (rules : List Rule) :
    (c.installNewRules rofl rules).Agrees rofl := by
  intro hopen
  cases hc : c.isOpen with
  | false => simp [installNewRules, installNewRulesIntoLSI, hc] at hopen
  | true =>
    simp only [installNewRules, installNewRulesIntoLSI, hc, if_true, installed,
      Lowlevel.Graph.addRules_rules, List.map_append, FlowTable.installAll_append]
    rw [h hc]
    rfl

theorem handleDptOpen_agrees (c : Controller) : (c.handleDptOpen rofl).Agrees rofl := by
  intro _
  simp only [handleDptOpen, installNewRulesIntoLSI, if_true]
  rfl

theorem removeRules_agrees_iff {c' : Controller} (h : c.Agrees rofl)
    (hstep : c.removeRules rofl rules = .ok c') :
    c'.Agrees rofl ↔ c.Clean rofl (.removeRules rules) := by
  cases hg : c.graph.removeRules rules with
  | error e => simp [removeRules, hg, Except.map] at hstep
  | ok g =>
    simp only [removeRules, hg, Except.map, Except.ok.injEq] at hstep
    subst hstep
    have hcount := removeRules_sharing rofl hg
    cases hopen : c.isOpen with
    | false => simp [Agrees, Clean, removeRulesFromLSI, hopen]
    | true =>
      simp only [Agrees, removeRulesFromLSI, hopen, if_true, true_imp_iff, h hopen,
        deleteAll_installed_eq_iff, Clean]
      rw [and_iff_left fun k hk => ((hcount k).2 hk).symm]
      constructor
      · intro hgone r hr
        have hnone : sharing rofl g.rules (r.flowKey rofl) = [] := by
          refine List.filter_eq_nil_iff.mpr fun q hq hkey => hgone q hq ?_
          rw [of_decide_eq_true hkey]
          exact List.mem_map_of_mem hr
        rw [(hcount _).1, hnone, List.length_nil, Nat.zero_add]
      · intro hall q hq hmem
        obtain ⟨r, hr, hkey⟩ := List.mem_map.mp hmem
        have hnone : (sharing rofl g.rules (r.flowKey rofl)).length = 0 := by
          have hsame := hall r hr
          rw [(hcount _).1] at hsame
          omega
        have hleft := (mem_sharing rofl).mpr ⟨hq, hkey.symm⟩
        rw [List.length_eq_zero_iff.mp hnone] at hleft
        cases hleft

/-- Where no deletion is sent, the entry is right if the removed rule had not written it, or others
would have written the same. -/
theorem entryOf_keep_iff {l₁ l₂ : List Rule} {rule : Rule} :
    entryOf rofl (l₁ ++ rule :: l₂) (rule.flowKey rofl) = entryOf rofl (l₁ ++ l₂) (rule.flowKey rofl) ↔
      sharing rofl l₂ (rule.flowKey rofl) ≠ [] ∨
        ∃ last ∈ (sharing rofl l₁ (rule.flowKey rofl)).getLast?, last.flowActions = rule.flowActions := by
  simp only [entryOf_eq_getLast, sharing, List.filter_append, List.filter_cons, decide_true, if_true,
    List.getLast?_append, List.getLast?_cons]
  cases hlast : (l₂.filter fun r => r.flowKey rofl = rule.flowKey rofl).getLast? with
  | some last =>
    have hsome : l₂.filter (fun r => r.flowKey rofl = rule.flowKey rofl) ≠ [] := by
      intro hnil
      rw [hnil] at hlast
      cases hlast
    simp [hsome]
  | none =>
    rw [List.getLast?_eq_none_iff.mp hlast]
    cases (l₁.filter fun r => r.flowKey rofl = rule.flowKey rofl).getLast? with
    | none => simp
    | some last => simp [eq_comm]

theorem removeRuleFromID_agrees_iff (h : c.Agrees rofl) (ID : String) :
    (c.removeRuleFromID rofl ID).Agrees rofl ↔ c.Clean rofl (.removeRuleFromID ID) := by
  cases hopen : c.isOpen with
  | false =>
    refine ⟨fun _ ho => absurd ho (by simp [hopen]), fun _ ho => ?_⟩
    exact absurd ho (by unfold removeRuleFromID; split <;> simp [removeRulesFromLSI, hopen])
  | true =>
    simp only [Clean, hopen, true_imp_iff]
    cases hrule : c.graph.getRule ID with
    | none =>
      refine iff_of_true (by simpa [removeRuleFromID, hrule] using h) fun l₁ rule l₂ hsplit hID => ?_
      have hnot := List.find?_eq_none.mp hrule rule (by rw [hsplit]; simp)
      exact absurd (beq_iff_eq.mpr hID) hnot
    | some rule =>
      obtain ⟨l₁, l₂, hbefore, hafter, hID, hfirst⟩ := Lowlevel.Graph.getRule_some hrule
      rw [Lowlevel.Graph.forall_first_iff hbefore hID hfirst]
      simp only [← Lowlevel.Graph.removeRuleFromID_snd hrule hbefore hID]
      have hothers {k : List OxmField × Nat} (hk : rule.flowKey rofl ≠ k) :
          entryOf rofl c.graph.rules k = entryOf rofl (c.graph.removeRuleFromID ID).1.rules k := by
        rw [hbefore, hafter, entryOf_drop_one rofl hk]
      cases hsame : (c.graph.removeRuleFromID ID).2 with
      | true =>
        -- no deletion is sent: the table still holds what the rules asked for before
        have hstate : (c.removeRuleFromID rofl ID).Agrees rofl ↔
            ∀ k, entryOf rofl c.graph.rules k =
              entryOf rofl (c.graph.removeRuleFromID ID).1.rules k := by
          simp only [removeRuleFromID, hrule, hsame, if_true, Agrees, hopen, true_imp_iff, h hopen,
            installed_eq_iff]
        rw [hstate, if_pos rfl, ← entryOf_keep_iff, ← hbefore, ← hafter]
        constructor
        · exact fun hk => hk _
        · intro hkey k
          by_cases hk : rule.flowKey rofl = k
          · exact hk ▸ hkey
          · exact hothers hk
      | false =>
        simp only [removeRuleFromID, hrule, hsame, Bool.false_eq_true, if_false, Agrees,
          removeRulesFromLSI, hopen, if_true, true_imp_iff, h hopen, List.map_cons, List.map_nil,
          deleteAll_installed_eq_iff, List.mem_singleton, hafter]
        exact and_iff_left (fun k hk => hafter ▸ hothers (Ne.symm hk))

/-- A step keeps the agreement exactly when it is clean. -/
theorem step_agrees_iff_clean {c' : Controller} (h : c.Agrees rofl) {op : Operation}
    (hstep : c.step rofl op = .ok c') : c'.Agrees rofl ↔ c.Clean rofl op := by
  cases op with
  | installNewRules rules =>
    cases hstep
    exact iff_of_true (installNewRules_agrees rofl h rules) trivial
  | removeRules rules => exact removeRules_agrees_iff rofl h hstep
  | removeRuleFromID ID =>
    cases hstep
    exact removeRuleFromID_agrees_iff rofl h ID
  | handleDptOpen =>
    cases hstep
    exact iff_of_true (handleDptOpen_agrees rofl c) trivial
  | handleDptClose =>
    cases hstep
    exact iff_of_true (fun hopen => by cases hopen) trivial

/-- From an empty graph, controller and switch agree in every state of a run exactly when
every removal of the run is clean. -/
theorem run_agrees_iff_clean (ops : List Operation) :
    Run.Always (step rofl) (Agrees rofl) {} ops ↔ Run.EveryStep (step rofl) (Clean rofl) {} ops :=
  Run.always_iff_everyStep (fun _ _ _ h hstep => step_agrees_iff_clean rofl h hstep)
    (fun hopen => by cases hopen)

/-- A rule from port 1 to port 2 under the given identifier. -/
def oneToTwo (flowID : String) : Rule where
  «match» := { inPort := .port 1 }
  action := { output := .port 2 }
  flowID := flowID
  priority := 1

/-- Two graphs need the same entry, and the rule of one is removed: the entry is gone while
the rule of the other is still in the list. -/
theorem removeRules_deletes_shared_entry :
    ∃ c, Run.exec (step default) {} [.handleDptOpen,
        .installNewRules [oneToTwo "a_1", oneToTwo "b_1"], .removeRules [oneToTwo "a_1"]] = .ok c ∧
      ¬ c.Agrees default := by
  refine ⟨_, rfl, fun h => ?_⟩
  have hkey := congrFun (h rfl) ((oneToTwo "b_1").flowKey default)
  revert hkey
  decide

end Controller

end UnOrchestrator
