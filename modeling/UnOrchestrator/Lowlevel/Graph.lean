import UnOrchestrator.Lib.KeyedList
import UnOrchestrator.Lowlevel.Rule

/-!
# Low-level graphs

The rule list of one LSI. Rules are appended without any check, and removed in
two ways: `removeRule` takes the first rule that compares equal, whatever its
identifier, and `removeRuleFromID` takes the first rule with an identifier and
reports whether an equal rule under another identifier is in the list.
-/

namespace UnOrchestrator.Lowlevel

/-- `lowlevel::Graph`. -/
@[ext]
structure Graph where
  rules : List Rule := []
  deriving DecidableEq

namespace Graph

def addRule (g : Graph) (rule : Rule) : Graph := { rules := g.rules ++ [rule] }

def addRules (g : Graph) (rules : List Rule) : Graph := rules.foldl addRule g

/-- `Graph::getRule`; the source throws when there is no such rule. -/
def getRule (g : Graph) (ID : String) : Option Rule := g.rules.find? (fun r => r.flowID == ID)

/-- `Graph::removeRule`: the first equal rule goes; its absence fails an assertion. -/
def removeRule (g : Graph) (rule : Rule) : Except Abort Graph :=
  if g.rules.any (fun it => it.isEqual rule) then
    .ok { rules := g.rules.eraseP (fun it => it.isEqual rule) }
  else .error .assertion

def removeRules (g : Graph) (rules : List Rule) : Except Abort Graph := rules.foldlM removeRule g

/-- `Graph::removeRuleFromID`: the first rule with the identifier goes, if there is one. The
result says whether an equal rule with another identifier was in the list. -/
def removeRuleFromID (g : Graph) (ID : String) : Graph × Bool :=
  match g.getRule ID with
  | none => (g, false)
  | some it =>
    ({ rules := g.rules.eraseP (fun r => r.flowID == ID) },
      g.rules.any (fun again => it.flowID != again.flowID && it.isEqual again))

@[simp] theorem addRules_rules (g : Graph) (rules : List Rule) :
    (g.addRules rules).rules = g.rules ++ rules := by
  unfold addRules
  induction rules generalizing g with
  | nil => simp
  | cons r rs ih => simp [ih, addRule]

variable {g : Graph} {rule : Rule} {ID : String} {p : Rule → Bool}

/-- A removal that returns erased one rule, equal to the one asked for. -/
theorem removeRule_ok {g' : Graph} (h : g.removeRule rule = .ok g') :
    ∃ l₁ it l₂, g.rules = l₁ ++ it :: l₂ ∧ g'.rules = l₁ ++ l₂ ∧ it.isEqual rule = true := by
  simp only [removeRule] at h
  split at h
  · next hany =>
    obtain ⟨a, ha, hp⟩ := List.any_eq_true.mp hany
    obtain ⟨it, l₁, l₂, -, hit, hsplit, herase⟩ := List.exists_of_eraseP (p := fun it => it.isEqual rule) ha hp
    cases h
    exact ⟨l₁, it, l₂, hsplit, herase, hit⟩
  · cases h

/-- A lookup that succeeds splits the list at the rule that `removeRuleFromID` erases. -/
theorem getRule_some (h : g.getRule ID = some rule) :
    ∃ l₁ l₂, g.rules = l₁ ++ rule :: l₂ ∧ (g.removeRuleFromID ID).1.rules = l₁ ++ l₂ ∧
      rule.flowID = ID ∧ ∀ r ∈ l₁, r.flowID ≠ ID := by
  obtain ⟨hID, l₁, l₂, hsplit, hfirst⟩ := List.find?_eq_some_iff_append.mp h
  have hbefore : ∀ r ∈ l₁, ¬ (r.flowID == ID) = true := by simpa using hfirst
  refine ⟨l₁, l₂, hsplit, ?_, by simpa using hID, by simpa using hbefore⟩
  simp only [removeRuleFromID, h]
  rw [hsplit, List.eraseP_append_right _ hbefore, List.eraseP_cons_of_pos (p := fun r : Rule => r.flowID == ID) hID]

/-- There is one place where the first rule with an identifier stands. -/
theorem forall_first_iff {l₁ l₂ : List Rule} {P : List Rule → Rule → List Rule → Prop}
    (hsplit : g.rules = l₁ ++ rule :: l₂) (hID : rule.flowID = ID) (hfirst : ∀ r ∈ l₁, r.flowID ≠ ID) :
    (∀ m₁ it m₂, g.rules = m₁ ++ it :: m₂ → it.flowID = ID → (∀ r ∈ m₁, r.flowID ≠ ID) → P m₁ it m₂) ↔
      P l₁ rule l₂ := by
  refine ⟨fun h => h _ _ _ hsplit hID hfirst, fun h m₁ it m₂ hm hit hbefore => ?_⟩
  rw [hsplit] at hm
  rcases List.append_eq_append_iff.mp hm with ⟨l, rfl, hl⟩ | ⟨l, rfl, hl⟩
  · cases l with
    | nil =>
      obtain ⟨rfl, rfl⟩ := List.cons.inj hl
      rwa [List.append_nil]
    | cons a l =>
      obtain ⟨rfl, -⟩ := List.cons.inj hl
      exact absurd hID (hbefore rule (by simp))
  · cases l with
    | nil =>
      obtain ⟨rfl, rfl⟩ := List.cons.inj hl
      rwa [List.append_nil] at h
    | cons a l =>
      obtain ⟨rfl, -⟩ := List.cons.inj hl
      exact absurd hit (hfirst it (by simp))

/-- Whether `removeRuleFromID` finds an equal rule, in the words of the rules around it. -/
theorem removeRuleFromID_snd {l₁ l₂ : List Rule} (h : g.getRule ID = some rule)
    (hsplit : g.rules = l₁ ++ rule :: l₂) (hID : rule.flowID = ID) :
    (g.removeRuleFromID ID).2 = true ↔
      ∃ again ∈ l₁ ++ l₂, again.flowID ≠ ID ∧ rule.isEqual again = true := by
  subst hID
  simp only [removeRuleFromID, h, List.any_eq_true, hsplit, Bool.and_eq_true, bne_iff_ne]
  constructor
  · rintro ⟨again, hmem, hne, hequal⟩
    rcases List.mem_append.mp hmem with hmem | hmem
    · exact ⟨again, List.mem_append_left _ hmem, Ne.symm hne, hequal⟩
    · rcases List.mem_cons.mp hmem with rfl | hmem
      · exact absurd rfl hne
      · exact ⟨again, List.mem_append_right _ hmem, Ne.symm hne, hequal⟩
  · rintro ⟨again, hmem, hne, hequal⟩
    refine ⟨again, ?_, Ne.symm hne, hequal⟩
    exact ((List.sublist_cons_self rule l₂).append_left l₁).subset hmem

/-- A removal takes out the first rule with the same contents. -/
theorem removeRule_of_eraseKey {rest : List Rule}
    (h : KeyedList.eraseKey Rule.compared rule.compared g.rules = some rest) :
    g.removeRule rule = .ok { rules := rest } := by
  have hfirst : ∀ {rules rest : List Rule},
      KeyedList.eraseKey Rule.compared rule.compared rules = some rest →
      rules.any (fun it => it.isEqual rule) = true ∧
        rules.eraseP (fun it => it.isEqual rule) = rest := by
    intro rules
    induction rules with
    | nil => exact fun h => by cases h
    | cons it rules ih =>
      intro rest h
      rw [KeyedList.eraseKey] at h
      split at h
      · next heq =>
        cases h
        simp [Rule.isEqual_iff.mpr heq]
      · next hne =>
        obtain ⟨rest₁, hrest₁, rfl⟩ := Option.map_eq_some_iff.mp h
        obtain ⟨hany, herase⟩ := ih hrest₁
        have hnot : it.isEqual rule = false :=
          Bool.eq_false_iff.mpr fun heq => hne (Rule.isEqual_iff.mp heq)
        simp [hnot, hany, herase]
  obtain ⟨hany, herase⟩ := hfirst h
  rw [removeRule, if_pos hany, herase]

theorem removeRules_of_eraseKeys {rules rest : List Rule}
    (h : KeyedList.eraseKeys Rule.compared (rules.map Rule.compared) g.rules = some rest) :
    g.removeRules rules = .ok { rules := rest } := by
  induction rules generalizing g with
  | nil =>
    cases h
    rfl
  | cons rule rules ih =>
    obtain ⟨rest₁, hfirst, hrest⟩ := Option.bind_eq_some_iff.mp h
    rw [removeRules, List.foldlM_cons, removeRule_of_eraseKey hfirst]
    exact ih hrest

/-- A removal by identifiers does not concern rules with other identifiers. -/
theorem filter_removeRuleFromID (g : Graph) (hp : ∀ r : Rule, r.flowID = ID → p r = false) :
    (g.removeRuleFromID ID).1.rules.filter p = g.rules.filter p := by
  cases hget : g.getRule ID with
  | none => simp only [removeRuleFromID, hget]
  | some rule =>
    obtain ⟨l₁, l₂, hsplit, hremoved, hID, -⟩ := getRule_some hget
    rw [hremoved, hsplit, List.filter_append, List.filter_append, List.filter_cons, hp rule hID]
    rfl

theorem filter_foldl_removeRuleFromID {IDs : List String} (g : Graph)
    (hp : ∀ ID ∈ IDs, ∀ r : Rule, r.flowID = ID → p r = false) :
    (IDs.foldl (fun g ID => (g.removeRuleFromID ID).1) g).rules.filter p = g.rules.filter p := by
  induction IDs generalizing g with
  | nil => rfl
  | cons ID IDs ih =>
    rw [List.foldl_cons, ih _ fun ID' h' => hp ID' (List.mem_cons_of_mem ID h')]
    exact filter_removeRuleFromID g (hp ID List.mem_cons_self)

theorem mem_of_foldl_removeRuleFromID {IDs : List String} {r : Rule}
    (h : r ∈ (IDs.foldl (fun g ID => (g.removeRuleFromID ID).1) g).rules) : r ∈ g.rules := by
  induction IDs generalizing g with
  | nil => exact h
  | cons ID IDs ih =>
    have hr := ih h
    cases hget : g.getRule ID with
    | none => simpa only [removeRuleFromID, hget] using hr
    | some rule =>
      obtain ⟨l₁, l₂, hsplit, hremoved, -⟩ := getRule_some hget
      rw [hremoved] at hr
      rw [hsplit]
      exact (List.sublist_cons_self rule l₂).append_left l₁ |>.subset hr

/-- Among rules that include all those with the identifier, and have distinct identifiers, the
removal drops the rule with the identifier. -/
theorem filter_removeRuleFromID_own (g : Graph) (hp : ∀ r : Rule, r.flowID = ID → p r = true)
    (hnodup : ((g.rules.filter p).map Rule.flowID).Nodup) :
    (g.removeRuleFromID ID).1.rules.filter p =
      (g.rules.filter p).filter (fun r => r.flowID ≠ ID) := by
  cases hget : g.getRule ID with
  | none =>
    simp only [removeRuleFromID, hget]
    refine (List.filter_eq_self.mpr fun r hr => ?_).symm
    simpa using List.find?_eq_none.mp hget r (List.mem_of_mem_filter hr)
  | some rule =>
    obtain ⟨l₁, l₂, hsplit, hremoved, hID, -⟩ := getRule_some hget
    have hrules : g.rules.filter p = l₁.filter p ++ rule :: l₂.filter p := by
      rw [hsplit, List.filter_append, List.filter_cons_of_pos (hp rule hID)]
    rw [hrules, List.map_append, List.map_cons] at hnodup
    have hothers : ∀ r ∈ l₁.filter p ++ l₂.filter p, r.flowID ≠ ID := by
      intro r hr heq
      refine (List.nodup_middle.mp hnodup).notMem ?_
      rw [hID, ← heq, ← List.map_append]
      exact List.mem_map_of_mem hr
    have hkept : (l₁.filter p ++ l₂.filter p).filter (fun r => r.flowID ≠ ID) =
        l₁.filter p ++ l₂.filter p :=
      List.filter_eq_self.mpr fun r hr => by simpa using hothers r hr
    rw [hremoved, hrules, List.filter_append, ← hkept, List.filter_append, List.filter_append,
      List.filter_cons_of_neg (by simp [hID])]

theorem filter_foldl_removeRuleFromID_own (IDs : List String) (g : Graph)
    (hp : ∀ ID ∈ IDs, ∀ r : Rule, r.flowID = ID → p r = true)
    (hnodup : ((g.rules.filter p).map Rule.flowID).Nodup) :
    (IDs.foldl (fun g ID => (g.removeRuleFromID ID).1) g).rules.filter p =
      (g.rules.filter p).filter (fun r => r.flowID ∉ IDs) := by
  induction IDs generalizing g with
  | nil => simp
  | cons ID IDs ih =>
    have hone := filter_removeRuleFromID_own g (hp ID List.mem_cons_self) hnodup
    rw [List.foldl_cons, ih _ (fun ID' h' => hp ID' (List.mem_cons_of_mem ID h')) ?_, hone,
      List.filter_filter]
    · congr 1
      funext r
      simp [Bool.and_comm]
    · rw [hone]
      exact hnodup.sublist (List.filter_sublist.map Rule.flowID)

end Graph

end UnOrchestrator.Lowlevel
