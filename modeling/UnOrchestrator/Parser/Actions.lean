import UnOrchestrator.Parser.Spec

/-!
# The actions of a rule

The array `actions` lists objects with a single member each: one output, and any number
of tag operations. `parseActions_eq_ok_iff` says what is made of an accepted array: the
output as its reference resolves, followed by the explicit tag operations in their order.
-/

namespace UnOrchestrator.Parser

open Highlevel CString Failure

/-- What an element of `actions` asks for. -/
inductive ActionStep where
  | output (reference : String) (action : Option Action)
  | generic (ga : GenericAction)
  | nothing

namespace ActionStep

def output? : ActionStep → Option (String × Option Action)
  | output reference action => some (reference, action)
  | _ => none

def generic? : ActionStep → Option GenericAction
  | generic ga => some ga
  | _ => none

def apply (st : ActionsState) : ActionStep → ActionsState
  | output _ action => { st with action := action, foundOneOutputToPort := true }
  | generic ga => { st with genericActions := st.genericActions ++ [ga] }
  | nothing => st

end ActionStep

/-- The member of an element, on its own. -/
def actionStep (tables : EndPointTables) (name : String) (value : Json) :
    Except Failure ActionStep :=
  if name = "output_to_port" then do
    let reference ← value.getString
    let action ← outputToPort tables reference
    pure (.output reference action)
  else if name = "push_vlan" then do
    let s ← value.getString
    pure (.generic ⟨.vlanPush, pushLabel s⟩)
  else if name = "pop_vlan" then do
    let isVlanPop ← value.getBool
    pure (if isVlanPop then .generic ⟨.vlanPop, 0⟩ else .nothing)
  else if name ∈ ignoredActions then do
    let _ ← value.getString
    pure .nothing
  else .error .thrown

section Actions

variable {tables : EndPointTables}

variable {value : Json}

theorem actionStep_eq_output {name : String} {reference : String} {action : Option Action} :
    actionStep tables name value = .ok (.output reference action) ↔
      name = "output_to_port" ∧ value = .str reference ∧ outputToPort tables reference = .ok action := by
  unfold actionStep
  split_ifs with houtput hpush hpop hignored
  · simp only [bind_eq_ok, pure_eq_ok, Json.getString_eq_ok, ActionStep.output.injEq]
    constructor
    · rintro ⟨reference, rfl, action, haction, rfl, rfl⟩
      exact ⟨houtput, rfl, haction⟩
    · rintro ⟨-, rfl, haction⟩
      exact ⟨reference, rfl, action, haction, rfl, rfl⟩
  · simp [houtput, -bind_pure_comp]
  · cases hbool : value.getBool with
    | error e => simp [houtput]
    | ok isVlanPop => cases isVlanPop <;> simp [houtput]
  · simp [houtput, -bind_pure_comp]
  · simp [houtput]

theorem parseActionKey_eq_ok_iff {st st' : ActionsState} {name : String} :
    parseActionKey tables st name value = .ok st' ↔ ∃ step, actionStep tables name value = .ok step ∧
      (step.output?.isSome → st.foundOneOutputToPort = false) ∧ st' = step.apply st := by
  unfold parseActionKey actionStep
  split_ifs with houtput hfound hpush hpop hignored
  · simp only [bind_eq_ok, pure_eq_ok, reduceCtorEq, and_false, exists_false, false_iff]
    rintro ⟨_, ⟨reference, -, action, -, rfl⟩, hnew, -⟩
    exact Bool.false_ne_true ((hnew rfl).symm.trans hfound)
  · simp only [bind_eq_ok, pure_eq_ok]
    constructor
    · rintro ⟨reference, href, action, haction, rfl⟩
      exact ⟨_, ⟨reference, href, action, haction, rfl⟩, fun _ => by simpa using hfound, rfl⟩
    · rintro ⟨_, ⟨reference, href, action, haction, rfl⟩, -, rfl⟩
      exact ⟨reference, href, action, haction, rfl⟩
  · simp only [bind_eq_ok, pure_eq_ok]
    constructor
    · rintro ⟨s, hs, rfl⟩
      exact ⟨_, ⟨s, hs, rfl⟩, by simp [ActionStep.output?], rfl⟩
    · rintro ⟨_, ⟨s, hs, rfl⟩, -, rfl⟩
      exact ⟨s, hs, rfl⟩
  · cases hbool : value.getBool with
    | error e => simp
    | ok isVlanPop => cases isVlanPop <;> simp [ActionStep.apply, ActionStep.output?, eq_comm (a := st')]
  · cases hstring : value.getString <;> simp [ActionStep.apply, ActionStep.output?, eq_comm (a := st')]
  · simp

/-- An element of `actions` stands for what its one member asks for. -/
def ActionFrom (tables : EndPointTables) (value : Json) (step : ActionStep) : Prop :=
  ∃ o name v, value.getObject = .ok o ∧ o.toList = [(name, v)] ∧ actionStep tables name v = .ok step

theorem parseAction_eq_ok_iff {st st' : ActionsState} :
    parseAction tables st value = .ok st' ↔ ∃ step, ActionFrom tables value step ∧
      (step.output?.isSome → st.foundOneOutputToPort = false) ∧ st' = step.apply st := by
  have hsize (o : Json.Object) : o.size = 1 ↔ ∃ name v, o.toList = [(name, v)] := by
    rw [← Std.ExtTreeMap.length_toList, List.length_eq_one_iff]
    simp
  simp only [parseAction, bind_eq_ok, ActionFrom]
  constructor
  · rintro ⟨o, ho, h⟩
    split_ifs at h with hone
    obtain ⟨name, v, hlist⟩ := (hsize o).mp (by omega)
    simp only [Json.forEach, hlist, List.foldlM_cons, List.foldlM_nil, bind_pure] at h
    obtain ⟨step, hstep, hrest⟩ := parseActionKey_eq_ok_iff.mp h
    exact ⟨step, ⟨o, name, v, ho, hlist, hstep⟩, hrest⟩
  · rintro ⟨step, ⟨o, name, v, ho, hlist, hstep⟩, hrest⟩
    refine ⟨o, ho, ?_⟩
    rw [if_neg (by simpa using (hsize o).mpr ⟨name, v, hlist⟩)]
    simp only [Json.forEach, hlist, List.foldlM_cons, List.foldlM_nil, bind_pure]
    exact parseActionKey_eq_ok_iff.mpr ⟨step, hstep, hrest⟩

/-- What a list of steps leaves: the last output, and all tag operations. -/
theorem foldl_apply (steps : List ActionStep) (st : ActionsState) :
    steps.foldl ActionStep.apply st =
      { action := ((steps.filterMap ActionStep.output?).getLast?.map Prod.snd).getD st.action
        genericActions := st.genericActions ++ steps.filterMap ActionStep.generic?
        foundOneOutputToPort :=
          st.foundOneOutputToPort || (steps.filterMap ActionStep.output?).length ≠ 0 } := by
  induction steps generalizing st with
  | nil => simp
  | cons step steps ih =>
    rw [List.foldl_cons, ih]
    cases step with
    | output reference action =>
      rw [List.filterMap_cons_some (f := ActionStep.output?) rfl,
        List.filterMap_cons_none (f := ActionStep.generic?) rfl, List.getLast?_cons]
      cases (steps.filterMap ActionStep.output?).getLast? <;> simp [ActionStep.apply]
    | generic ga =>
      rw [List.filterMap_cons_none (f := ActionStep.output?) rfl,
        List.filterMap_cons_some (f := ActionStep.generic?) rfl]
      simp [ActionStep.apply]
    | nothing =>
      rw [List.filterMap_cons_none (f := ActionStep.output?) rfl,
        List.filterMap_cons_none (f := ActionStep.generic?) rfl]
      rfl

theorem foldl_addGenericAction (gas : List GenericAction) (a : Action) :
    gas.foldl Action.addGenericAction a = { a with genericActions := a.genericActions ++ gas } := by
  induction gas generalizing a with
  | nil => simp
  | cons ga gas ih => rw [List.foldl_cons, ih]; simp [Action.addGenericAction]

theorem parseActions_eq_ok_iff {a : Action} :
    parseActions tables value = .ok a ↔ ∃ items, value = .arr items ∧
      ∃ steps, List.Forall₂ (ActionFrom tables) items steps ∧
      ∃ reference action, steps.filterMap ActionStep.output? = [(reference, some action)] ∧
        a = { action with
          genericActions := action.genericActions ++ steps.filterMap ActionStep.generic? } := by
  -- all outputs have one identifier, so that there is at most one
  have hloop := Json.foldlM_fresh_iff (ActionFrom tables)
    (fun step => step.output?.map fun _ => "") (fun st i => st.foundOneOutputToPort = true ∧ i = "")
    ActionStep.apply
    (fun st v st' => by
      rw [parseAction_eq_ok_iff]
      refine exists_congr fun step => and_congr_right fun _ => and_congr_left fun _ => ?_
      cases step.output? <;> simp)
    (fun st step i => by
      cases step <;> simp [ActionStep.apply, ActionStep.output?, or_comm, eq_comm (a := "")])
  have hids (steps : List ActionStep) : (steps.filterMap fun step => step.output?.map fun _ => "") =
      (steps.filterMap ActionStep.output?).map fun _ => "" := List.map_filterMap.symm
  simp only [parseActions, bind_eq_ok, Json.getArray_eq_ok, hloop, hids]
  refine exists_congr fun items => and_congr_right fun _ => ?_
  constructor
  · rintro ⟨_, ⟨steps, hsteps, hnodup, -, rfl⟩, ha⟩
    refine ⟨steps, hsteps, ?_⟩
    rw [foldl_apply] at ha
    cases houtputs : steps.filterMap ActionStep.output? with
    | nil => simp [houtputs] at ha
    | cons output rest =>
      cases rest with
      | cons => simp [houtputs] at hnodup
      | nil =>
        obtain ⟨reference, action⟩ := output
        cases action with
        | none => simp [houtputs] at ha
        | some action =>
          simp only [houtputs, foldl_addGenericAction] at ha
          exact ⟨reference, action, rfl, by simpa using ha.symm⟩
  · rintro ⟨steps, hsteps, reference, action, houtputs, rfl⟩
    refine ⟨_, ⟨steps, hsteps, by simp [houtputs], by simp, rfl⟩, ?_⟩
    rw [foldl_apply]
    simp [houtputs, foldl_addGenericAction]

/-- The output that an element asks for. -/
def outputText (action : Json) : Option String := Json.text (membersOf action) "output_to_port"

/-- The explicit tag operation that an element asks for. -/
def explicitAction (action : Json) : Option GenericAction :=
  match Json.text (membersOf action) "push_vlan" with
  | some s => some ⟨.vlanPush, pushLabel s⟩
  | none =>
    if Json.member Json.getBool (membersOf action) "pop_vlan" = some true then some ⟨.vlanPop, 0⟩
    else none

/-- The one member of an accepted element is what the element is read for. -/
theorem ActionFrom.reads {item : Json} {step : ActionStep} (h : ActionFrom tables item step) :
    outputText item = step.output?.map Prod.fst ∧ explicitAction item = step.generic? := by
  obtain ⟨o, name, v, ho, hlist, hstep⟩ := h
  have hmembers (k : String) : membersOf item k = if k = name then some v else none := by
    rw [membersOf_of_getObject ho]
    have hiff (w : Json) : o[k]? = some w ↔ k = name ∧ w = v := by
      rw [← Std.ExtTreeMap.mem_toList_iff_getElem?_eq_some, hlist]
      simp
    split_ifs with hk
    · exact (hiff v).mpr ⟨hk, rfl⟩
    · exact Option.eq_none_iff_forall_ne_some.mpr fun w hw => hk ((hiff w).mp hw).1
  have htext (k : String) : Json.text (membersOf item) k =
      if k = name then v.getString.toOption else none := by
    rw [Json.text, Json.member, hmembers]
    split_ifs <;> rfl
  have hbool (k : String) : Json.member Json.getBool (membersOf item) k =
      if k = name then v.getBool.toOption else none := by
    rw [Json.member, hmembers]
    split_ifs <;> rfl
  simp only [outputText, explicitAction, htext, hbool]
  unfold actionStep at hstep
  split_ifs at hstep with houtput hpush hpop hignored
  · subst houtput
    simp only [bind_eq_ok, pure_eq_ok] at hstep
    obtain ⟨reference, href, action, -, rfl⟩ := hstep
    simp [href, ActionStep.output?, ActionStep.generic?]
  · subst hpush
    simp only [bind_eq_ok, pure_eq_ok] at hstep
    obtain ⟨s, hs, rfl⟩ := hstep
    simp [hs, ActionStep.output?, ActionStep.generic?]
  · subst hpop
    simp only [bind_eq_ok, pure_eq_ok] at hstep
    obtain ⟨isVlanPop, hpop, rfl⟩ := hstep
    cases isVlanPop <;> simp [hpop, ActionStep.output?, ActionStep.generic?]
  · simp only [bind_eq_ok, pure_eq_ok] at hstep
    obtain ⟨s, -, rfl⟩ := hstep
    simp [ActionStep.output?, ActionStep.generic?, Ne.symm houtput, Ne.symm hpush, Ne.symm hpop]

/-- What is read from accepted actions: one output as it resolves, and the tag operations. -/
theorem parseActions_reads {a : Action} (h : parseActions tables value = .ok a) :
    ∃ items, value = .arr items ∧ ∃ reference action,
      items.filterMap outputText = [reference] ∧
      outputToPort tables reference = .ok (some action) ∧
      a = { action with
        genericActions := action.genericActions ++ items.filterMap explicitAction } := by
  obtain ⟨items, rfl, steps, hsteps, reference, action, houtput, rfl⟩ := parseActions_eq_ok_iff.mp h
  have hmem : (reference, some action) ∈ steps.filterMap ActionStep.output? := by simp [houtput]
  obtain ⟨step, hstep, hkind⟩ := List.mem_filterMap.mp hmem
  obtain ⟨item, -, o, name, v, -, -, hread⟩ := Json.exists_mem_left hsteps hstep
  obtain rfl : step = .output reference (some action) := by
    cases step <;> simp_all [ActionStep.output?]
  have houtputs : items.filterMap outputText = (steps.filterMap ActionStep.output?).map Prod.fst := by
    rw [List.map_filterMap]
    exact Json.filterMap_eq_of_forall₂ (fun _ _ h => h.reads.1) hsteps
  refine ⟨items, rfl, reference, action, ?_, (actionStep_eq_output.mp hread).2.2, ?_⟩
  · rw [houtputs, houtput]
    rfl
  · rw [Json.filterMap_eq_of_forall₂ (fun _ _ h => h.reads.2) hsteps]

end Actions

end UnOrchestrator.Parser
