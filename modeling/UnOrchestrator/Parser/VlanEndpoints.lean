import UnOrchestrator.Lowlevel.Packet
import UnOrchestrator.Parser.EndPoints

/-!
# VLAN endpoints

Traffic that enters from a VLAN endpoint carries the tag of the endpoint, and traffic that
leaves through one is tagged with it. The parser implements this with the match on the
tag and with two tag operations of the rule: a pop for the input and a push for the output.

`VlanSound` states what a rule should do. The flow accepts the packets with the tag of the
input that its own fields accept; and on the tags of such a packet, without the one of the
input, the explicit operations act, before the tag of the output is put on.

The rule does not always do so. The push is the first operation and the pop the last one,
with the explicit operations between them, so that they act above the wrong tags; and the
tag shares its field with an explicit `vlan_id`, which replaces it. `vlanSound_iff` says
when nothing goes wrong.
-/

namespace UnOrchestrator.Parser

open Highlevel CString Failure

open Json (text member)

/-! ## What a rule should do -/

/-- The value of the VLAN_VID field for an identifier. -/
def vidOf (vlanID : UInt16) : UInt16 := vlanID ||| 0x1000

/-- The identifiers of a stack of tags. -/
def vids (tags : List Tag) : List UInt16 := tags.map Tag.vid

/-- The identifier that a `vlan-id` spells. -/
def vlanTag (vId : String) : Option UInt16 :=
  (numeral vId).bind fun n => if 0 ≤ n ∧ n ≤ 4094 then some n.toNat.toUInt16 else none

/-- The attributes of the VLAN endpoint that a reference is to. -/
def vlanEntry (tables : EndPointTables) (reference : String) : Option (String × String) :=
  if isEndPointReference reference then
    match tables.find (epName reference) with
    | some (.vlan vId interface) => some (vId, interface)
    | _ => none
  else none

/-- The VLAN endpoint that a rule takes packets from. -/
def inputVlan (tables : EndPointTables) (rule : Json) : Option (String × String) :=
  (inputReference rule).bind (vlanEntry tables)

/-- The VLAN endpoint that a rule sends packets to. -/
def outputVlan (tables : EndPointTables) (rule : Json) : Option (String × String) :=
  (outputReferences rule).head?.bind (vlanEntry tables)

/-- The tag operations that a rule asks for. -/
def explicitActions (rule : Json) : List GenericAction := (actionItems rule).filterMap explicitAction

/-- The header fields that a rule asks for. -/
def ownFields (rule : Json) : Graph.Match := headerOf none (matchText rule)

/-- The tags that the endpoints of a rule have, if they are VLAN endpoints. -/
structure EndPointTags (tables : EndPointTables) (rule : Json) (a b : Option UInt16) : Prop where
  input : (inputVlan tables rule).map (fun e => vlanTag e.1) = a.map some
  output : (outputVlan tables rule).map (fun e => vlanTag e.1) = b.map some

/-- The flow of a rule accepts exactly the packets from the interface of the input that have its
tag and that the rule's own fields accept. -/
def MatchesTagged (tables : EndPointTables) (value : Json) (rule : Rule) (a : UInt16) : Prop :=
  (∀ e ∈ inputVlan tables value, rule.match.type = .port e.2) ∧
  ∀ (η : Type) (fields : Fields η) (p : Packet η),
    rule.match.toMatch.accepts fields p =
      ((vids p.tags).head? == some (vidOf a) && (ownFields value).accepts fields p)

/-- On a packet with the tag of the input, the operations of a rule put the tag of the output on
what the explicit ones make of the other tags. -/
def Retags (value : Json) (rule : Rule) (a b : Option UInt16) : Prop :=
  ∀ (η : Type) (p : Packet η) (rest : List Tag),
    vids p.tags = (a.map vidOf).toList ++ vids rest →
    vids (GenericAction.applyAll rule.action.genericActions p).tags =
      (b.map vidOf).toList ++
        vids (GenericAction.applyAll (explicitActions value) { p with tags := rest }).tags

/-- A rule treats the tags of its endpoints as it should. -/
def VlanSound (tables : EndPointTables) (value : Json) (rule : Rule) : Prop :=
  ∃ a b, EndPointTags tables value a b ∧ (∀ tag ∈ a, MatchesTagged tables value rule tag) ∧
    Retags value rule a b

/-! ## When it does -/

/-- The tag of the input as the match is given it, and the one of the output as it is pushed. -/
def scannedInput (vId : String) : UInt16 := ((Conversion.d32.scan vId).getD 0).toUInt16

@[inherit_doc scannedInput]
def scannedOutput (vId : String) : UInt16 := ((scanUnsigned 10 vId).getD 0).toUInt16

/-- The identifier that the match is on: an explicit one replaces the tag of the input. -/
def matchedVlan (tables : EndPointTables) (rule : Json) : UInt16 :=
  (headerOf ((inputVlan tables rule).map fun e => scannedInput e.1) (matchText rule)).vlanID

/-- The explicit operations do not come between the tags of the endpoints: they take off so many
tags, and put others on. -/
def Between (a b pushed : Option UInt16) (effect : Nat × List UInt16) : Prop :=
  match a, b with
  | none, none => True
  | some a, none => effect.2 = [] ∨ (effect.1 = 0 ∧ effect.2.tail ++ [a] = effect.2)
  | none, some b => effect.1 = 0 ∧ effect.2 ++ pushed.toList = b :: effect.2
  | some a, some b => effect.1 = 0 ∧ (effect.2 ++ pushed.toList ++ [a]).tail = b :: effect.2

/-- The endpoints of a rule have tags, the match is on the one of the input, and the explicit
operations do not disturb them. -/
def VlanAgrees (tables : EndPointTables) (rule : Json) : Prop :=
  ∃ a b, EndPointTags tables rule a b ∧
    (∀ tag ∈ a, matchText rule .vlanId ≠ some "NO_VLAN" ∧
      vidOf (matchedVlan tables rule) = vidOf tag) ∧
    Between (a.map vidOf) (b.map vidOf)
      ((outputVlan tables rule).map fun e => vidOf (scannedOutput e.1))
      (GenericAction.netEffect (explicitActions rule))

/-! ## The match -/

section Match

variable {tag : UInt16} {text : MatchKey → Option String}

theorem vlanField_headerOf_tag : Lowlevel.vlanField (headerOf (some tag) text) =
    some (.vlanVid (vidOf (headerOf (some tag) text).vlanID)) := by
  simp [Lowlevel.vlanField, headerOf, vidOf]

theorem headers_headerOf (tag tag' : Option UInt16) :
    (headerOf tag text).headers = (headerOf tag' text).headers := by
  simp only [Graph.Match.headers, headerOf]

theorem any_vid (tags : List Tag) (vid : UInt16) :
    tags.head?.any (fun t => t.vid == vid) = ((vids tags).head? == some vid) := by
  cases tags <;> simp [vids]

variable (hscan : ∀ s, text .vlanId = some s → s ≠ "ANY" → s ≠ "NO_VLAN" → (Conversion.i32.scan s).isSome)

include hscan

/-- The tag is matched on, besides what the rule's own fields say about tags, unless these exclude
it or replace it. -/
theorem acceptsTags_headerOf {a : UInt16}
    (htext : text .vlanId ≠ some "NO_VLAN") (hvid : vidOf (headerOf (some tag) text).vlanID = vidOf a)
    (tags : List Tag) :
    (headerOf (some tag) text).acceptsTags tags =
      ((vids tags).head? == some (vidOf a) && (headerOf none text).acceptsTags tags) := by
  have hpcp : (headerOf (some tag) text).vlanPCP = (headerOf none text).vlanPCP := rfl
  rw [Graph.Match.acceptsTags, Graph.Match.acceptsTags, vlanField_headerOf_tag, hvid, hpcp]
  dsimp only
  rw [any_vid]
  cases hkey : text .vlanId with
  | none =>
    have hown : Lowlevel.vlanField (headerOf none text) = none := by
      simp [Lowlevel.vlanField, headerOf, hkey]
    simp [hown]
  | some s =>
    by_cases hany : s = "ANY"
    · subst hany
      have hown : Lowlevel.vlanField (headerOf none text) = some .vlanPresent := by
        simp [Lowlevel.vlanField, headerOf, hkey]
      rw [hown]
      cases tags <;> simp [vids]
    · have hno : s ≠ "NO_VLAN" := fun h => htext (h ▸ hkey)
      obtain ⟨v, hv⟩ := Option.isSome_iff_exists.mp (hscan s hkey hany hno)
      have hown : Lowlevel.vlanField (headerOf none text) =
          some (.vlanVid (vidOf (headerOf (some tag) text).vlanID)) := by
        simp [Lowlevel.vlanField, headerOf, hkey, hany, hno, hv, vidOf, Option.filter]
      rw [hown, hvid]
      simp [any_vid]

theorem accepts_headerOf_iff {a : UInt16} :
    (∀ (η : Type) (fields : Fields η) (p : Packet η), (headerOf (some tag) text).accepts fields p =
      ((vids p.tags).head? == some (vidOf a) && (headerOf none text).accepts fields p)) ↔
    text .vlanId ≠ some "NO_VLAN" ∧ vidOf (headerOf (some tag) text).vlanID = vidOf a := by
  constructor
  · intro h
    -- the packet that the match is on, where nothing else is demanded
    have hpacket := h Unit ⟨fun _ _ => true, fun _ => rfl⟩
      ⟨[⟨vidOf (headerOf (some tag) text).vlanID, (headerOf none text).vlanPCP.getD 0⟩], ()⟩
    have hleft : (headerOf (some tag) text).acceptsTags
        [⟨vidOf (headerOf (some tag) text).vlanID, (headerOf none text).vlanPCP.getD 0⟩] = true := by
      have hpcp : (headerOf (some tag) text).vlanPCP = (headerOf none text).vlanPCP := rfl
      rw [Graph.Match.acceptsTags, vlanField_headerOf_tag, hpcp]
      cases (headerOf none text).vlanPCP <;> simp
    simp only [Graph.Match.accepts, hleft, Bool.and_true, Bool.true_eq, Bool.and_eq_true,
      beq_iff_eq, vids, List.map_cons, List.head?_cons, Option.some.injEq] at hpacket
    refine ⟨fun hno => ?_, hpacket.1⟩
    have hown : Lowlevel.vlanField (headerOf none text) = some .vlanUntagged := by
      simp [Lowlevel.vlanField, headerOf, hno]
    have := hpacket.2
    rw [Graph.Match.acceptsTags, hown] at this
    simp at this
  · rintro ⟨htext, hvid⟩ η fields p
    rw [Graph.Match.accepts, Graph.Match.accepts, acceptsTags_headerOf hscan htext hvid,
      headers_headerOf (some tag) none, Bool.and_assoc]

end Match

/-! ## The tag operations -/

theorem vids_applyAll {η : Type} (actions : List GenericAction) (p : Packet η) :
    vids (GenericAction.applyAll actions p).tags =
      (GenericAction.netEffect actions).2 ++
        (vids p.tags).drop (GenericAction.netEffect actions).1 := by
  rw [GenericAction.tags_applyAll, GenericAction.replaceTags, vids, vids, List.map_append,
    List.map_map, List.map_drop]
  congr 1
  exact List.map_id _

/-- What is left of the tags of a packet: the tag of the output is pushed first and the one of the
input popped last. -/
def stacked (a pushed : Option UInt16) (effect : Nat × List UInt16) (s : List UInt16) :
    List UInt16 :=
  let s := effect.2 ++ (pushed.toList ++ s).drop effect.1
  if a.isSome then s.tail else s

theorem stacked_eq_iff {a b pushed : Option UInt16} (hb : b.isSome = pushed.isSome)
    (effect : Nat × List UInt16) :
    (∀ rest, stacked a pushed effect (a.toList ++ rest) =
      b.toList ++ (effect.2 ++ rest.drop effect.1)) ↔ Between a b pushed effect := by
  obtain ⟨k, l⟩ := effect
  cases a with
  | none =>
    cases b with
    | none =>
      obtain rfl : pushed = none := by simpa using hb.symm
      simp [stacked, Between]
    | some b =>
      obtain ⟨c, rfl⟩ := Option.isSome_iff_exists.mp hb.symm
      simp only [stacked, Between, Option.toList_none, List.nil_append, Option.isSome_none,
        Bool.false_eq_true, if_false, Option.toList_some]
      constructor
      · intro h
        have hnil := h []
        cases k with
        | zero => exact ⟨rfl, by simpa using hnil⟩
        | succ k => exact absurd (congrArg List.length hnil) (by simp)
      · rintro ⟨rfl, h⟩ rest
        simpa using congrArg (· ++ rest) h
  | some a =>
    cases b with
    | none =>
      obtain rfl : pushed = none := by simpa using hb.symm
      simp only [stacked, Between, Option.toList_none, List.nil_append, Option.isSome_some, if_true,
        Option.toList_some, List.singleton_append]
      cases l with
      | nil => simp [List.tail_drop]
      | cons x l =>
        simp only [List.cons_append, List.tail_cons, reduceCtorEq, false_or]
        constructor
        · intro h
          have hnil := h []
          cases k with
          | zero => exact ⟨rfl, by simpa using hnil⟩
          | succ k => exact absurd (congrArg List.length hnil) (by simp)
        · rintro ⟨rfl, h⟩ rest
          simpa using congrArg (· ++ rest) h
    | some b =>
      obtain ⟨c, rfl⟩ := Option.isSome_iff_exists.mp hb.symm
      simp only [stacked, Between, Option.isSome_some, if_true, Option.toList_some,
        List.singleton_append]
      constructor
      · intro h
        have hnil := h []
        cases k with
        | zero => exact ⟨rfl, by simpa using hnil⟩
        | succ k =>
          have hlength := congrArg List.length hnil
          simp only [List.drop_succ_cons, List.length_tail, List.length_append, List.length_drop,
            List.length_cons, List.length_nil, List.drop_nil] at hlength
          omega
      · rintro ⟨rfl, h⟩ rest
        have happend : l ++ c :: a :: rest = (l ++ [c] ++ [a]) ++ rest := by simp
        rw [List.drop_zero, happend, List.tail_append_of_ne_nil (by simp), h]
        simp

/-! ## Rules -/

section Rule

variable {inet : InetPton} {tables : EndPointTables} {reference : String}

theorem portIn_vlan {pin : PortIn} (h : portIn tables reference = .ok pin) :
    pin.tag = (vlanEntry tables reference).map (fun e => scannedInput e.1) ∧
      ∀ e ∈ vlanEntry tables reference, pin.type = .port e.2 := by
  unfold portIn at h
  unfold vlanEntry
  by_cases hendpoint : isEndPointReference reference
  · rw [if_pos hendpoint] at h ⊢
    cases hentry : tables.find (epName reference) with
    | none =>
      rw [hentry] at h
      cases h
      simp
    | some entry =>
      rw [hentry] at h
      cases entry with
      | interface realName =>
        cases h
        simp
      | internal group =>
        simp only at h
        split_ifs at h
        cases hscan : scanUnsigned 10 group <;> rw [hscan] at h <;> cases h
        simp
      | vlan vId interface =>
        simp only at h
        split_ifs at h
        cases h
        simp [scannedInput]
      | gre =>
        cases h
        simp
  · rw [if_neg hendpoint] at h ⊢
    simp only [bind_eq_ok, pure_eq_ok] at h
    obtain ⟨⟨vnf, port⟩, -, rfl⟩ := h
    simp

theorem outputToPort_vlan {action : Action} (h : outputToPort tables reference = .ok (some action)) :
    action.genericActions = ((vlanEntry tables reference).map fun e =>
      (⟨.endpointVlanPush, scannedOutput e.1⟩ : GenericAction)).toList := by
  unfold outputToPort at h
  unfold vlanEntry
  by_cases hendpoint : isEndPointReference reference
  · rw [if_pos hendpoint] at h ⊢
    cases hentry : tables.find (epName reference) with
    | none => simp [hentry] at h
    | some entry =>
      rw [hentry] at h
      cases entry with
      | interface realName =>
        cases h
        simp
      | internal group =>
        simp only at h
        split_ifs at h
        cases h
        simp
      | vlan vId interface =>
        cases h
        simp [scannedOutput]
      | gre =>
        cases h
        simp
  · rw [if_neg hendpoint] at h ⊢
    simp only [bind_eq_ok, pure_eq_ok, Option.some.injEq] at h
    obtain ⟨⟨vnf, port⟩, -, rfl⟩ := h
    simp

variable {value : Json} {rule : Rule} {input output : String} {pin : PortIn} {action : Action}

variable (h : Resolved tables value rule input output pin action)

include h

theorem Resolved.vlan :
    inputVlan tables value = vlanEntry tables input ∧
      outputVlan tables value = vlanEntry tables output := by
  simp [inputVlan, outputVlan, h.named.1, h.named.2]

/-- The operations of a rule, in their order. -/
theorem Resolved.genericActions :
    rule.action.genericActions =
      ((outputVlan tables value).map fun e =>
        (⟨.endpointVlanPush, scannedOutput e.1⟩ : GenericAction)).toList ++
      explicitActions value ++
      ((inputVlan tables value).map fun e =>
        (⟨.endpointVlanPop, scannedInput e.1⟩ : GenericAction)).toList := by
  have hperformed := h.performed
  rw [h.vlan.1, h.vlan.2, ← outputToPort_vlan h.found.2]
  unfold PortIn.onAction at hperformed
  rw [(portIn_vlan h.found.1).1] at hperformed
  cases hentry : vlanEntry tables input <;>
    simp only [hentry, Option.map_none, Option.map_some, Option.some.injEq] at hperformed <;>
    simp [hperformed, explicitActions, Action.addGenericAction]

/-- What the operations of a rule leave of the tags of a packet. -/
theorem Resolved.vids_applyAll {η : Type}
    (p : Packet η) :
    vids (GenericAction.applyAll rule.action.genericActions p).tags =
      stacked ((inputVlan tables value).map fun e => scannedInput e.1)
        ((outputVlan tables value).map fun e => vidOf (scannedOutput e.1))
        (GenericAction.netEffect (explicitActions value)) (vids p.tags) := by
  have happend (actions actions' : List GenericAction) : GenericAction.applyAll (actions ++ actions') p =
      GenericAction.applyAll actions' (GenericAction.applyAll actions p) := by
    simp [GenericAction.applyAll]
  have hpop (entry : Option (String × String)) (p : Packet η) :
      vids (GenericAction.applyAll (entry.map fun e =>
        (⟨.endpointVlanPop, scannedInput e.1⟩ : GenericAction)).toList p).tags =
        if entry.isSome then (vids p.tags).tail else vids p.tags := by
    cases entry <;> simp [GenericAction.applyAll, GenericAction.apply, vids]
  have hpush : vids (GenericAction.applyAll ((outputVlan tables value).map fun e =>
      (⟨.endpointVlanPush, scannedOutput e.1⟩ : GenericAction)).toList p).tags =
      ((outputVlan tables value).map fun e => vidOf (scannedOutput e.1)).toList ++ vids p.tags := by
    cases outputVlan tables value <;>
      simp [GenericAction.applyAll, GenericAction.apply, vids, vidOf]
  rw [h.genericActions, happend, hpop, happend, Parser.vids_applyAll, hpush, stacked]
  simp

theorem Resolved.retags_iff
    {a b : Option UInt16} (htags : EndPointTags tables value a b) :
    Retags value rule a b ↔ Between (a.map vidOf) (b.map vidOf)
      ((outputVlan tables value).map fun e => vidOf (scannedOutput e.1))
      (GenericAction.netEffect (explicitActions value)) := by
  have hinput : ((inputVlan tables value).map fun e => scannedInput e.1).isSome =
      (a.map vidOf).isSome := by
    simpa using congrArg Option.isSome htags.input
  have houtput : (b.map vidOf).isSome =
      ((outputVlan tables value).map fun e => vidOf (scannedOutput e.1)).isSome := by
    simpa using congrArg Option.isSome htags.output.symm
  rw [← stacked_eq_iff houtput]
  constructor
  · intro hretags rest
    have hvids (s : List UInt16) : vids (s.map fun vid => (⟨vid, 0⟩ : Tag)) = s := by
      simp [vids, Function.comp_def]
    have := hretags Unit ⟨((a.map vidOf).toList ++ rest).map fun vid => ⟨vid, 0⟩, ()⟩
      (rest.map fun vid => ⟨vid, 0⟩) (by rw [hvids, hvids])
    rw [h.vids_applyAll, Parser.vids_applyAll, hvids, hvids, stacked, hinput] at this
    exact this
  · intro hstack η p rest htagsOf
    rw [h.vids_applyAll, Parser.vids_applyAll, htagsOf, stacked, hinput]
    exact hstack (vids rest)

theorem Resolved.matchesTagged_iff
    (hscan : ∀ s, matchText value .vlanId = some s → s ≠ "ANY" → s ≠ "NO_VLAN" →
      (Conversion.i32.scan s).isSome)
    {entry : String × String} (hentry : inputVlan tables value = some entry) {tag : UInt16} :
    MatchesTagged tables value rule tag ↔ matchText value .vlanId ≠ some "NO_VLAN" ∧
      vidOf (matchedVlan tables value) = vidOf tag := by
  have hpin : pin.tag = some (scannedInput entry.1) := by
    rw [(portIn_vlan h.found.1).1, ← h.vlan.1, hentry, Option.map_some]
  have htype : ∀ e ∈ inputVlan tables value, rule.match.type = .port e.2 := by
    rw [h.matched, h.vlan.1]
    exact (portIn_vlan h.found.1).2
  have hheader : rule.match.toMatch = headerOf (some (scannedInput entry.1)) (matchText value) := by
    rw [h.matched, hpin]
    rfl
  have hvlan : matchedVlan tables value =
      (headerOf (some (scannedInput entry.1)) (matchText value)).vlanID := by
    rw [matchedVlan, hentry, Option.map_some]
  rw [MatchesTagged, hheader, hvlan]
  exact (and_iff_right htype).trans (accepts_headerOf_iff hscan)

end Rule

/-- The tables that a document fills. -/
def tablesOf (doc : Json) : EndPointTables :=
  (endPointsOf ((itemsOf (graphObject doc) "end-points").map elementParts)).tables

/-- The number of an accepted `vlan_id` is scanned. -/
theorem scan_of_readVlanID {s : String} {set : Graph.Match → Graph.Match}
    (h : readVlanID s = .ok set) (hany : s ≠ "ANY") (hno : s ≠ "NO_VLAN") :
    (Conversion.i32.scan s).isSome := by
  rw [readVlanID, if_neg hany, if_neg hno] at h
  cases hscan : Conversion.i32.scan s with
  | none => simp [hscan] at h
  | some v => rfl

/-- A rule of an accepted document treats the tags of its endpoints as it should exactly when they
are tags, the match is on the one of the input, and the explicit operations do not come
between. -/
theorem vlanSound_iff {inet : InetPton} {ID : String} {doc : Json} {g : Graph}
    (hparse : parseGraph inet ID doc = .ok g) {value : Json} {rule : Rule}
    (hrule : (value, rule) ∈ (flowRulesOf (graphObject doc)).zip g.rules) :
    VlanSound (tablesOf doc) value rule ↔ VlanAgrees (tablesOf doc) value := by
  obtain ⟨vnfs, ps, rules, hdoc⟩ := describes_of_parseGraph hparse
  obtain rfl := (forall₂_endPointFrom_iff.mp hdoc.endPointsFrom).2
  rw [hdoc.graph] at hrule
  have hfrom : RuleFrom inet (tablesOf doc) value rule :=
    (List.forall₂_iff_zip.mp hdoc.rulesFrom).2 hrule
  obtain ⟨input, output, pin, action, hresolved⟩ := hfrom.resolved
  have hscan (s : String) (hs : matchText value .vlanId = some s) (hany : s ≠ "ANY")
      (hno : s ≠ "NO_VLAN") : (Conversion.i32.scan s).isSome := by
    obtain ⟨set, hset⟩ := hfrom.read (by decide) hs
    exact scan_of_readVlanID hset hany hno
  refine exists_congr fun a => exists_congr fun b => and_congr_right fun htags => ?_
  refine and_congr (forall₂_congr fun tag htag => ?_) (hresolved.retags_iff htags)
  obtain rfl : a = some tag := htag
  obtain ⟨entry, hentry, -⟩ := Option.map_eq_some_iff.mp htags.input
  exact hresolved.matchesTagged_iff hscan hentry

/-- A VLAN endpoint. -/
def vlanElement (id vId ifName : String) : Json :=
  .obj [("id", .str id), ("vlan", .obj [("vlan-id", .str vId), ("if-name", .str ifName)])]

/-- The one rule of a document that `oneRule` makes. -/
def theRule (input : String) (actions : List Json) : Json :=
  .obj [("id", .str "1"), ("match", .obj [("port_in", .str input)]), ("actions", .arr actions)]

/-- A packet from one VLAN endpoint to another leaves with the tag it came with. -/
theorem vlan_to_vlan_keeps_tag :
    let doc := oneRule [] [vlanElement "1" "25" "eth0", vlanElement "2" "26" "eth1"] "endpoint:1"
      [outputTo "endpoint:2"]
    ∃ g, parseGraph .none "1" doc = .ok g ∧
      ∃ value rule, (value, rule) ∈ (flowRulesOf (graphObject doc)).zip g.rules ∧
        ¬ VlanSound (tablesOf doc) value rule := by
  intro doc
  have hclosed : ∃ g ∈ (parseGraph .none "1" doc).toOption, ∃ rule ∈ g.rules.head?,
      rule.action.genericActions = [⟨.endpointVlanPush, 26⟩, ⟨.endpointVlanPop, 25⟩] := by
    decide +kernel
  have htags : (inputVlan (tablesOf doc) (theRule "endpoint:1" [outputTo "endpoint:2"])).map
        (fun e => vlanTag e.1) = some (some 25) ∧
      (outputVlan (tablesOf doc) (theRule "endpoint:1" [outputTo "endpoint:2"])).map
        (fun e => vlanTag e.1) = some (some 26) ∧
      explicitActions (theRule "endpoint:1" [outputTo "endpoint:2"]) = [] := by
    decide +kernel
  obtain ⟨hinput, houtput, hexplicit⟩ := htags
  obtain ⟨g, hg, rule, hrule, hactions⟩ := hclosed
  refine ⟨g, toOption_eq_some.mp hg, theRule "endpoint:1" [outputTo "endpoint:2"], rule, ?_, ?_⟩
  · obtain ⟨rules, hrules⟩ := List.head?_eq_some_iff.mp hrule
    rw [hrules]
    exact List.mem_cons_self
  · rintro ⟨a, b, ⟨ha, hb⟩, -, hretags⟩
    obtain rfl : a = some 25 := by
      rw [hinput] at ha
      cases a <;> simp_all
    obtain rfl : b = some 26 := by
      rw [houtput] at hb
      cases b <;> simp_all
    have hleft := hretags Unit ⟨[⟨vidOf 25, 0⟩], ()⟩ [] rfl
    rw [hactions, hexplicit] at hleft
    revert hleft
    decide

/-- The rule from a VLAN endpoint to a network function. -/
theorem vlan_to_vnf_sound :
    let doc := oneRule [] [vlanElement "1" "25" "eth1"] "endpoint:1" [outputTo "vnf:1:inout:0"]
    ∃ g, parseGraph .none "1" doc = .ok g ∧
      ∃ value rule, (value, rule) ∈ (flowRulesOf (graphObject doc)).zip g.rules ∧
        VlanSound (tablesOf doc) value rule := by
  intro doc
  have hclosed : ∃ g ∈ (parseGraph .none "1" doc).toOption, g.rules.head?.isSome := by
    decide +kernel
  have htags : (inputVlan (tablesOf doc) (theRule "endpoint:1" [outputTo "vnf:1:inout:0"])).map
        (fun e => vlanTag e.1) = some (some 25) ∧
      (outputVlan (tablesOf doc) (theRule "endpoint:1" [outputTo "vnf:1:inout:0"])).map
        (fun e => vlanTag e.1) = none ∧
      matchText (theRule "endpoint:1" [outputTo "vnf:1:inout:0"]) .vlanId = none ∧
      matchedVlan (tablesOf doc) (theRule "endpoint:1" [outputTo "vnf:1:inout:0"]) = 25 ∧
      explicitActions (theRule "endpoint:1" [outputTo "vnf:1:inout:0"]) = [] := by
    decide +kernel
  obtain ⟨hinput, houtput, htext, hmatched, hexplicit⟩ := htags
  obtain ⟨g, hg, hrules⟩ := hclosed
  obtain ⟨rule, hrule⟩ := Option.isSome_iff_exists.mp hrules
  have hparse := toOption_eq_some.mp hg
  have hmem : (theRule "endpoint:1" [outputTo "vnf:1:inout:0"], rule) ∈
      (flowRulesOf (graphObject doc)).zip g.rules := by
    obtain ⟨rules, hrules⟩ := List.head?_eq_some_iff.mp hrule
    rw [hrules]
    exact List.mem_cons_self
  refine ⟨g, hparse, _, rule, hmem, (vlanSound_iff hparse hmem).mpr ⟨some 25, none, ⟨?_, ?_⟩, ?_, ?_⟩⟩
  · exact hinput
  · exact houtput
  · rintro tag htag
    cases htag
    exact ⟨by simp [htext], by rw [hmatched]⟩
  · rw [hexplicit]
    exact .inl rfl

end UnOrchestrator.Parser
