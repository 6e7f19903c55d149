import UnOrchestrator.Parser.Actions
import UnOrchestrator.Parser.Numbers

/-!
# The references of a document

A rule names its input and its output by references: an endpoint, which an element of
`end-points` should declare, or a port of a network function, which an element of `VNFs`
should. `DeclaredReferences` states this about a document alone, and `Integrity` about the
rules of the graph that the document is parsed into.

The parser checks little of it. It looks endpoints up in tables that the elements fill; a
reference that is not found there gives a match that is on nothing, or no action, which
fails an assertion. References to network functions are not looked up at all.
`references_sound` says what is left: a document is treated as it should be when all its
references are declared.
-/

namespace UnOrchestrator.Parser

open Highlevel CString Failure

open Json (text member)

/-! ## What a document declares and refers to -/

/-- The texts that a rule gives to the keys of its match. -/
def matchText (rule : Json) : MatchKey → Option String :=
  textOf fun k => ((member Json.getObject (membersOf rule) "match").getD ∅)[k]?

/-- The input that a rule refers to. -/
def inputReference (rule : Json) : Option String := matchText rule .portIn

/-- The elements of `actions` of a rule. -/
def actionItems (rule : Json) : List Json :=
  (member Json.getArray (membersOf rule) "actions").getD []

/-- The outputs that a rule refers to. -/
def outputReferences (rule : Json) : List String :=
  (actionItems rule).filterMap outputText

def references (fg : Json.Object) : List String :=
  (flowRulesOf fg).flatMap fun rule => (inputReference rule).toList ++ outputReferences rule

/-- The element says of what kind the endpoint is. An interface has to be named. -/
def EndPointParts.hasKind (p : EndPointParts) : Bool :=
  p.interface.join.isSome || p.internal.isSome || p.vlan.isSome || p.gre.isSome

/-- An element of `end-points` has the identifier and a kind. -/
def EndPointDeclared (fg : Json.Object) (id : String) : Prop :=
  id ≠ "" ∧ ∃ e ∈ itemsOf fg "end-points",
    (partsOf (membersOf e)).id = some id ∧ (partsOf (membersOf e)).hasKind = true

/-- An element of `VNFs` has the identifier, and one of its ports the number. -/
def VnfPortDeclared (fg : Json.Object) (vnf : String) (port : Nat) : Prop :=
  ∃ v ∈ itemsOf fg "VNFs", text (membersOf v) "id" = some vnf ∧
    ∃ p ∈ (member Json.getArray (membersOf v) "ports").getD [],
      ∃ id, text (membersOf p) "id" = some id ∧ VNFs.extractNumberFromId id = .ok port

/-- What a reference refers to is declared. -/
def Declared (fg : Json.Object) (reference : String) : Prop :=
  if isEndPointReference reference then EndPointDeclared fg (epName reference)
  else ∃ vnf port, vnfPort reference = .ok (vnf, port) ∧ VnfPortDeclared fg vnf port

def DeclaredReferences (fg : Json.Object) : Prop :=
  ∀ reference ∈ references fg, Declared fg reference

/-! ## What the rules of a graph refer to -/

/-- A match is on something, which is declared. -/
def MatchDeclared (fg : Json.Object) (m : Highlevel.Match) : Prop :=
  match m.type with
  | .generic => False
  | .nf vnf nfPort => ∃ port : Nat, nfPort = (port : Int).bmod (2 ^ 32) ∧ VnfPortDeclared fg vnf port
  | .port _ | .endPointInternal _ | .endPointGre _ => EndPointDeclared fg (epName m.inputEndpoint)

/-- An action leads to something that is declared. -/
def ActionDeclared (fg : Json.Object) (a : Action) : Prop :=
  match a.type with
  | .networkFunction vnf port => VnfPortDeclared fg vnf port
  | .port _ | .endPointInternal _ | .endPointGre _ => EndPointDeclared fg (epName a.endpointName)

/-- The rules of a graph refer to what the document declares. -/
def Integrity (fg : Json.Object) (g : Graph) : Prop :=
  ∀ rule ∈ g.rules, MatchDeclared fg rule.match ∧ ActionDeclared fg rule.action

/-- An accepted document gives a graph of integrity, and one with an undeclared reference is
rejected. -/
def ReferencesSound (inet : InetPton) (ID : String) (doc : Json) : Prop :=
  (∀ g, parseGraph inet ID doc = .ok g → Integrity (graphObject doc) g) ∧
  (¬ DeclaredReferences (graphObject doc) → parseGraph inet ID doc = .error .thrown)

/-! ## The tables -/

/-- Some table has an entry. -/
def EndPointTables.Has (tables : EndPointTables) (id : String) : Prop :=
  id ∈ tables.ifaceId ∨ id ∈ tables.internalId ∨ id ∈ tables.vlanId ∨ id ∈ tables.greId

variable {id : String}

theorem EndPointTables.find_isSome {tables : EndPointTables} :
    (tables.find id).isSome ↔ id ≠ "" ∧ tables.Has id := by
  unfold EndPointTables.find EndPointTables.Has
  simp only [← Std.ExtTreeMap.isSome_getElem?_iff_mem]
  split_ifs with hempty
  · simp [hempty]
  · cases tables.ifaceId[id]? <;> cases tables.internalId[id]? <;> cases tables.vlanId[id]? <;>
      cases tables.greId[id]? <;> simp [hempty]

theorem EndPointParts.apply_tables_has (p : EndPointParts) (st : EndPointState) (id : String) :
    (p.apply st).tables.Has id ↔
      st.tables.Has id ∨ (p.hasKind = true ∧ id = p.id.getD st.vars.id) := by
  have htables : (p.apply st).tables = (p.state (p.id.getD st.vars.id) st).tables := by
    simp only [apply, EndPointState.addEndPoint]
    split_ifs <;> rfl
  rw [htables]
  simp only [state, tables, vars, EndPointTables.Has, hasKind]
  cases p.interface.join <;> cases p.internal <;> cases p.vlan <;> cases p.gre <;>
    cases p.id <;>
    simp [Std.ExtTreeMap.mem_insert, eq_comm (a := id)] <;> tauto

theorem has_foldl_apply (ps : List EndPointParts) (st : EndPointState) (h : st.tables.Has id) :
    (ps.foldl (fun st p => p.apply st) st).tables.Has id := by
  induction ps generalizing st with
  | nil => exact h
  | cons p ps ih => exact ih _ ((p.apply_tables_has st id).mpr (.inl h))

/-- Every endpoint with an identifier and a kind is entered. -/
theorem has_of_mem {ps : List EndPointParts} {p : EndPointParts} (hp : p ∈ ps)
    (hid : p.id = some id) (hkind : p.hasKind = true) : (endPointsOf ps).tables.Has id := by
  obtain ⟨before, after, rfl⟩ := List.append_of_mem hp
  rw [endPointsOf, List.foldl_append, List.foldl_cons]
  apply has_foldl_apply
  rw [p.apply_tables_has]
  exact .inr ⟨hkind, by simp [hid]⟩

/-! ## The references of an accepted rule -/

section Rule

variable {inet : InetPton} {tables : EndPointTables} {fg : Json.Object}

/-- How the references of an accepted rule are resolved, and what is stored. -/
structure Resolved (tables : EndPointTables) (value : Json) (rule : Rule) (input output : String)
    (pin : PortIn) (action : Action) : Prop where
  named : inputReference value = some input ∧ outputReferences value = [output]
  found : portIn tables input = .ok pin ∧ outputToPort tables output = .ok (some action)
  matched : rule.match = pin.toMatch (headerOf pin.tag (matchText value))
  performed : some rule.action = pin.onAction (some { action with
    genericActions := action.genericActions ++ (actionItems value).filterMap explicitAction })

variable {rule : Rule} {value : Json}

theorem RuleFrom.resolved (h : RuleFrom inet tables value rule) :
    ∃ input output pin action, Resolved tables value rule input output pin action := by
  obtain ⟨o, ho, -, ⟨base, object, hrule⟩, -⟩ := h
  have hmembers := membersOf_of_getObject ho
  have htext : matchText value = textOf fun k => object[k]? := by
    rw [matchText, hmembers, hrule.object, Option.getD_some]
  obtain ⟨v, hv, hbase⟩ := Json.member_eq_some.mp hrule.actions
  obtain ⟨items, rfl, output, action, houtput, haction, rfl⟩ := parseActions_reads hbase
  have hitems : actionItems value = items := by
    rw [actionItems, hmembers, show member Json.getArray (fun k => o[k]?) "actions" = some items from
      Json.member_eq_some.mpr ⟨_, hv, rfl⟩, Option.getD_some]
  obtain ⟨-, pin, hpin, hmatch, honAction⟩ := parseMatch_eq_ok_iff.mp hrule.parsed
  obtain ⟨input, hinput, hportIn⟩ := Option.bind_eq_some_iff.mp hpin
  refine ⟨input, output, pin, action, ⟨?_, ?_⟩, ⟨toOption_eq_some.mp hportIn, haction⟩, ?_, ?_⟩
  · rw [inputReference, htext]
    exact hinput
  · rw [outputReferences, hitems, houtput]
  · rw [htext]
    exact hmatch
  · rw [hitems]
    exact honAction

/-- The texts that an accepted rule gives to the keys of its match are accepted. -/
theorem RuleFrom.read (h : RuleFrom inet tables value rule) {key : MatchKey} (hkey : key ≠ .portIn)
    {s : String} (hs : matchText value key = some s) :
    ∃ set, key.read inet s = .ok set := by
  obtain ⟨o, ho, -, ⟨base, object, hrule⟩, -⟩ := h
  rw [matchText, membersOf_of_getObject ho, hrule.object, Option.getD_some] at hs
  exact (accepts_of_ne hkey s).mp (accepts_of_valid (parseMatch_eq_ok_iff.mp hrule.parsed).1 hs)

/-- The tag operation of a VLAN endpoint does not change where packets go. -/
theorem Resolved.action_type {input output : String} {pin : PortIn} {action : Action}
    (h : Resolved tables value rule input output pin action) :
    rule.action.type = action.type ∧ rule.action.endpointName = action.endpointName := by
  have haction := h.performed
  unfold PortIn.onAction at haction
  cases htag : pin.tag <;> simp only [htag, Option.map_some, Option.some.injEq] at haction <;>
    simp [haction, Action.addGenericAction]

/-- A declared input is matched on. -/
theorem matchDeclared_of_portIn {reference : String} {pin : PortIn}
    (hpin : portIn tables reference = .ok pin) (hdeclared : Declared fg reference)
    (htables : ∀ id, EndPointDeclared fg id → tables.Has id) (header : Graph.Match) :
    MatchDeclared fg (pin.toMatch header) := by
  unfold Declared at hdeclared
  unfold portIn at hpin
  by_cases hendpoint : isEndPointReference reference
  · rw [if_pos hendpoint] at hdeclared hpin
    have hfound : (tables.find (epName reference)).isSome :=
      EndPointTables.find_isSome.mpr ⟨hdeclared.1, htables _ hdeclared⟩
    obtain ⟨entry, hentry⟩ := Option.isSome_iff_exists.mp hfound
    rw [hentry] at hpin
    cases entry with
    | interface realName =>
      cases hpin
      exact hdeclared
    | internal group =>
      simp only at hpin
      split_ifs at hpin
      cases hscan : scanUnsigned 10 group <;> rw [hscan] at hpin <;> cases hpin
      exact hdeclared
    | vlan vId interface =>
      simp only at hpin
      split_ifs at hpin
      cases hpin
      exact hdeclared
    | gre =>
      cases hpin
      exact hdeclared
  · rw [if_neg hendpoint] at hdeclared hpin
    obtain ⟨vnf, port, hvnf, hport⟩ := hdeclared
    rw [hvnf] at hpin
    cases hpin
    exact ⟨port, rfl, hport⟩

/-- A declared output is led to. -/
theorem actionDeclared_of_outputToPort {reference : String} {action a : Action}
    (haction : outputToPort tables reference = .ok (some action)) (hdeclared : Declared fg reference)
    (htype : a.type = action.type) (hname : a.endpointName = action.endpointName) :
    ActionDeclared fg a := by
  unfold Declared at hdeclared
  unfold outputToPort at haction
  unfold ActionDeclared
  rw [htype, hname]
  split_ifs at hdeclared haction with hendpoint
  · cases hentry : tables.find (epName reference) with
    | none => simp [hentry] at haction
    | some entry =>
      rw [hentry] at haction
      cases entry with
      | interface realName =>
        cases haction
        exact hdeclared
      | internal group =>
        simp only at haction
        split_ifs at haction
        cases haction
        exact hdeclared
      | vlan vId interface =>
        cases haction
        exact hdeclared
      | gre =>
        cases haction
        exact hdeclared
  · obtain ⟨vnf, port, hvnf, hport⟩ := hdeclared
    rw [hvnf] at haction
    cases haction
    exact hport

end Rule

/-- The tables that a document fills have its declared endpoints. -/
theorem has_of_declared {fg : Json.Object} {ps : List EndPointParts}
    (h : List.Forall₂ EndPointFrom (itemsOf fg "end-points") ps)
    (hdeclared : EndPointDeclared fg id) : (endPointsOf ps).tables.Has id := by
  obtain ⟨-, e, he, hid, hkind⟩ := hdeclared
  obtain ⟨p, hp, o, ho, -, rfl⟩ := Json.exists_mem_right h he
  rw [membersOf_of_getObject ho] at hid hkind
  exact has_of_mem hp hid hkind

/-- A document with one rule. -/
def oneRule (vnfs endPoints : List Json) (input : String) (actions : List Json) : Json :=
  .obj [("forwarding-graph", .obj [
    ("VNFs", .arr vnfs),
    ("end-points", .arr endPoints),
    ("big-switch", .obj [("flow-rules", .arr [.obj [
      ("id", .str "1"),
      ("match", .obj [("port_in", .str input)]),
      ("actions", .arr actions)]])])])]

/-- An endpoint on a physical port. -/
def interfaceElement (id ifName : String) : Json :=
  .obj [("id", .str id), ("interface", .obj [("if-name", .str ifName)])]

def outputTo (reference : String) : Json := .obj [("output_to_port", .str reference)]

end UnOrchestrator.Parser
