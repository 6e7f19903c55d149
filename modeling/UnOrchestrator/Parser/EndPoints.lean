import UnOrchestrator.Lib.CarryLoop
import UnOrchestrator.Parser.References

/-!
# Endpoints are read one after the other

The loop over `end-points` keeps its variables from one element to the next: the
identifier, the name, the interface, the group, the VLAN identifier and the flags of the
kinds that were seen. `Reads` lists, for an element, the variables whose old value it takes
over. It does so for an attribute that it does not give; a tunnel does it for its name even
where one is given, because the member `name` comes after `gre-tunnel`; and an element of
no kind takes over a flag that an earlier one of two kinds has left.

With this account the loop is a `CarryLoop`. `orderIndependent_iff` says what follows for
documents: each endpoint is built from its element alone in every order of the array, with
identifiers pairwise distinct, exactly when no element reads what another leaves and the
identifiers that the elements have alone are distinct.
-/

namespace UnOrchestrator.Parser

open Highlevel CString Failure

open Json (text member)

/-! ## What an element builds -/

/-- The endpoint that is added after the members of an element. -/
inductive AddedEndPoint where
  | interface (e : EndPointInterface)
  | internal (e : EndPointInternal)
  | vlan (e : EndPointVlan)
  deriving DecidableEq

def AddedEndPoint.id : AddedEndPoint → String
  | .interface e => e.id
  | .internal e => e.id
  | .vlan e => e.id

/-- What an element adds to the graph, a tunnel at once and another endpoint at the end, and the
entries by which the rules find it. -/
structure Built where
  gre : Option EndPointGre
  added : Option AddedEndPoint
  ifaceEntry : Option (String × String)
  internalEntry : Option (String × String)
  vlanEntry : Option (String × String × String)
  deriving DecidableEq

attribute [ext] Built

namespace Built

/-- The identifiers of the endpoints. -/
def ids (b : Built) : List String :=
  b.gre.toList.map EndPointGre.id ++ b.added.toList.map AddedEndPoint.id

def addTo (g : Graph) (b : Built) : Graph :=
  let g := match b.gre with
    | some e => g.addEndPointGre e
    | none => g
  match b.added with
  | some (.interface e) => g.addEndPointInterface e
  | some (.internal e) => g.addEndPointInternal e
  | some (.vlan e) => g.addEndPointVlan e
  | none => g

/-- A table with one more entry. -/
def insertEntry {β : Type} (t : StringMap β) : Option (String × β) → StringMap β
  | some (id, entry) => t.insert id entry
  | none => t

def enter (t : EndPointTables) (b : Built) : EndPointTables where
  ifaceId := insertEntry t.ifaceId b.ifaceEntry
  internalId := insertEntry t.internalId b.internalEntry
  vlanId := insertEntry t.vlanId b.vlanEntry
  greId := insertEntry t.greId (b.gre.map fun e => (e.id, e.localIp))

end Built

namespace EndPointParts

/-- The interface that the element gives; the one of `vlan` is read last. -/
def ifName (p : EndPointParts) : Option String :=
  p.vlan.bind VlanAttributes.ifName <|> p.interface.join

/-- What is built with the variables as earlier elements have left them. -/
def built (v : EndPointVars) (p : EndPointParts) : Built :=
  let id := p.id.getD v.id
  let eName := p.name.getD v.eName
  let interface := p.ifName.getD v.interface
  let inGroup := p.internal.join.getD v.inGroup
  let vId := (p.vlan.bind VlanAttributes.vlanId).getD v.vId
  { gre := p.gre.map fun e => { e with id := id, name := v.eName }
    added :=
      if v.eIf || p.interface.isSome then some (.interface ⟨id, eName, interface⟩)
      else if v.eInternal || p.internal.isSome then some (.internal ⟨id, eName, inGroup⟩)
      else if v.eVlan || p.vlan.isSome then some (.vlan ⟨id, eName, vId, interface⟩)
      else none
    ifaceEntry := p.interface.join.map fun ifName => (id, ifName)
    internalEntry := if p.internal.isSome then some (id, inGroup) else none
    vlanEntry := if p.vlan.isSome then some (id, vId, interface) else none }

/-- The variables that are left: the flag of the kind that was added is reset. -/
def next (v : EndPointVars) (p : EndPointParts) : EndPointVars where
  id := p.id.getD v.id
  vId := (p.vlan.bind VlanAttributes.vlanId).getD v.vId
  eName := p.name.getD v.eName
  interface := p.ifName.getD v.interface
  inGroup := p.internal.join.getD v.inGroup
  eIf := false
  eInternal := (v.eIf || p.interface.isSome) && (v.eInternal || p.internal.isSome)
  eVlan := ((v.eIf || p.interface.isSome) || (v.eInternal || p.internal.isSome)) &&
    (v.eVlan || p.vlan.isSome)

theorem vars_eq (p : EndPointParts) (v : EndPointVars) :
    p.vars (p.id.getD v.id) v =
      { p.next v with
        eIf := v.eIf || p.interface.isSome
        eInternal := v.eInternal || p.internal.isSome
        eVlan := v.eVlan || p.vlan.isSome } := by
  have hid : p.id.getD (if p.gre.isSome then p.id.getD v.id else v.id) = p.id.getD v.id := by
    cases p.id <;> simp
  rw [vars, hid]
  rfl

/-- One element of the array. -/
theorem apply_eq (p : EndPointParts) (st : EndPointState) :
    p.apply st =
      { vars := p.next st.vars
        usedEndpointID := usedAfter st.usedEndpointID p.id
        tables := (p.built st.vars).enter st.tables
        graph := (p.built st.vars).addTo st.graph } := by
  have htables : p.tables (p.id.getD st.vars.id) (p.vars (p.id.getD st.vars.id) st.vars) st.tables =
      (p.built st.vars).enter st.tables := by
    simp only [tables, Built.enter, built, vars_eq, next]
    congr 1
    · cases p.interface.join <;> rfl
    · split_ifs <;> rfl
    · split_ifs <;> rfl
    · cases p.gre <;> rfl
  rw [apply, state, htables]
  generalize (p.built st.vars).enter st.tables = t
  simp only [EndPointState.addEndPoint, vars_eq, next, EndPointParts.graph, Built.addTo, built]
  cases st.vars.eIf || p.interface.isSome <;> cases st.vars.eInternal || p.internal.isSome <;>
    cases st.vars.eVlan || p.vlan.isSome <;> cases p.gre <;> rfl

end EndPointParts

/-! ## The variables that an element reads -/

/-- The variables of the loop. -/
inductive EndPointVar where
  | id | vId | eName | interface | inGroup | eIf | eInternal | eVlan
  deriving DecidableEq

/-- The variable has the value it is declared with. -/
def EndPointVar.Initial : EndPointVar → EndPointVars → Prop
  | .id, v => v.id = ""
  | .vId, v => v.vId = ""
  | .eName, v => v.eName = ""
  | .interface, v => v.interface = ""
  | .inGroup, v => v.inGroup = ""
  | .eIf, v => v.eIf = false
  | .eInternal, v => v.eInternal = false
  | .eVlan, v => v.eVlan = false

namespace EndPointParts

/-- The element takes over the old value of the variable. -/
def Reads (p : EndPointParts) : EndPointVar → Prop
  | .id => p.id = none ∧ (p.gre.isSome ∨ p.interface.isSome ∨ p.internal.isSome ∨ p.vlan.isSome)
  | .vId => p.vlan.isSome ∧ p.vlan.bind VlanAttributes.vlanId = none
  | .eName => p.gre.isSome ∨ p.name = none ∧ (p.interface.isSome ∨ p.internal.isSome ∨ p.vlan.isSome)
  | .interface => p.ifName = none ∧ (p.interface.isSome ∨ p.vlan.isSome)
  | .inGroup => p.internal.isSome ∧ p.internal.join = none
  | .eIf => p.interface = none
  | .eInternal => p.interface = none ∧ p.internal = none
  | .eVlan => p.interface = none ∧ p.internal = none ∧ p.vlan = none

section Reads

variable {v : EndPointVars} {p : EndPointParts}

theorem getD_eq_getD_iff {o : Option String} {s t : String} :
    o.getD s = o.getD t ↔ (o = none → s = t) := by
  cases o <;> simp

theorem gre_built_eq_iff : (p.built v).gre = (p.built {}).gre ↔
    (p.gre.isSome → (p.id = none → v.id = "") ∧ v.eName = "") := by
  cases hgre : p.gre <;> simp [built, hgre, getD_eq_getD_iff]

theorem ifaceEntry_built_eq_iff : (p.built v).ifaceEntry = (p.built {}).ifaceEntry ↔
    (p.interface.join.isSome → p.id = none → v.id = "") := by
  cases hif : p.interface.join <;> simp [built, hif, getD_eq_getD_iff]

theorem internalEntry_built_eq_iff : (p.built v).internalEntry = (p.built {}).internalEntry ↔
    (p.internal.isSome →
      (p.id = none → v.id = "") ∧ (p.internal.join = none → v.inGroup = "")) := by
  cases hinternal : p.internal <;> simp [built, hinternal, getD_eq_getD_iff]

theorem vlanEntry_built_eq_iff : (p.built v).vlanEntry = (p.built {}).vlanEntry ↔
    (p.vlan.isSome → (p.id = none → v.id = "") ∧
      (p.vlan.bind VlanAttributes.vlanId = none → v.vId = "") ∧
      (p.ifName = none → v.interface = "")) := by
  cases hvlan : p.vlan <;> simp [built, hvlan, getD_eq_getD_iff]

theorem added_built_eq_iff : (p.built v).added = (p.built {}).added ↔
    (p.interface.isSome → (p.id = none → v.id = "") ∧ (p.name = none → v.eName = "") ∧
      (p.ifName = none → v.interface = "")) ∧
    (p.interface = none → v.eIf = false ∧
      (p.internal.isSome → (p.id = none → v.id = "") ∧ (p.name = none → v.eName = "") ∧
        (p.internal.join = none → v.inGroup = "")) ∧
      (p.internal = none → v.eInternal = false ∧
        (p.vlan.isSome → (p.id = none → v.id = "") ∧ (p.name = none → v.eName = "") ∧
          (p.vlan.bind VlanAttributes.vlanId = none → v.vId = "") ∧
          (p.ifName = none → v.interface = "")) ∧
        (p.vlan = none → v.eVlan = false))) := by
  cases hif : p.interface with
  | some ifName => simp [built, hif, getD_eq_getD_iff]
  | none =>
    cases heIf : v.eIf with
    | true =>
      simp only [built, hif, heIf]
      split_ifs <;> simp_all
    | false =>
      cases hinternal : p.internal with
      | some inGroup => simp [built, hif, heIf, hinternal, getD_eq_getD_iff]
      | none =>
        cases heInternal : v.eInternal with
        | true =>
          simp only [built, hif, heIf, hinternal, heInternal]
          split_ifs <;> simp_all
        | false =>
          cases hvlan : p.vlan with
          | some vlan =>
            simp [built, hif, heIf, hinternal, heInternal, hvlan, getD_eq_getD_iff]
          | none => simp [built, hif, heIf, hinternal, heInternal, hvlan]

theorem built_eq_iff : p.built v = p.built {} ↔ ∀ x, p.Reads x → x.Initial v := by
  have hparts : p.built v = p.built {} ↔
      (p.built v).gre = (p.built {}).gre ∧ (p.built v).added = (p.built {}).added ∧
      (p.built v).ifaceEntry = (p.built {}).ifaceEntry ∧
      (p.built v).internalEntry = (p.built {}).internalEntry ∧
      (p.built v).vlanEntry = (p.built {}).vlanEntry := Built.ext_iff
  rw [hparts, gre_built_eq_iff, added_built_eq_iff, ifaceEntry_built_eq_iff,
    internalEntry_built_eq_iff, vlanEntry_built_eq_iff]
  constructor
  · rintro ⟨hgre, ⟨hIf, hnotIf⟩, -, hinternal, hvlan⟩ x hx
    cases x with
    | id =>
      obtain ⟨hnone, h | h | h | h⟩ := hx
      · exact (hgre h).1 hnone
      · exact (hIf h).1 hnone
      · exact (hinternal h).1 hnone
      · exact (hvlan h).1 hnone
    | vId => exact (hvlan hx.1).2.1 hx.2
    | eName =>
      rcases hx with h | ⟨hnone, h⟩
      · exact (hgre h).2
      · -- the name goes to the endpoint of the first kind that is there
        cases hi : p.interface with
        | some ifName => exact (hIf (by simp [hi])).2.1 hnone
        | none =>
          obtain ⟨-, hint, hnotInt⟩ := hnotIf hi
          cases hn : p.internal with
          | some inGroup => exact (hint (by simp [hn])).2.1 hnone
          | none => exact ((hnotInt hn).2.1 (by simpa [hi, hn] using h)).2.1 hnone
    | interface =>
      obtain ⟨hnone, h | h⟩ := hx
      · exact (hIf h).2.2 hnone
      · exact (hvlan h).2.2 hnone
    | inGroup => exact (hinternal hx.1).2 hx.2
    | eIf => exact (hnotIf hx).1
    | eInternal => exact ((hnotIf hx.1).2.2 hx.2).1
    | eVlan => exact ((hnotIf hx.1).2.2 hx.2.1).2.2 hx.2.2
  · intro h
    have hid (hkind : p.gre.isSome ∨ p.interface.isSome ∨ p.internal.isSome ∨ p.vlan.isSome)
        (hnone : p.id = none) : v.id = "" := h .id ⟨hnone, hkind⟩
    have hname (hkind : p.interface.isSome ∨ p.internal.isSome ∨ p.vlan.isSome)
        (hnone : p.name = none) : v.eName = "" := h .eName (.inr ⟨hnone, hkind⟩)
    have hifName (hkind : p.interface.isSome ∨ p.vlan.isSome) (hnone : p.ifName = none) :
        v.interface = "" := h .interface ⟨hnone, hkind⟩
    refine ⟨fun hg => ⟨hid (.inl hg), h .eName (.inl hg)⟩, ⟨?_, ?_⟩, ?_, ?_, ?_⟩
    · exact fun hi => ⟨hid (.inr (.inl hi)), hname (.inl hi), hifName (.inl hi)⟩
    · intro hi
      refine ⟨h .eIf hi, fun hn => ⟨hid (.inr (.inr (.inl hn))), hname (.inr (.inl hn)), ?_⟩, ?_⟩
      · exact fun hnone => h .inGroup ⟨hn, hnone⟩
      · intro hn
        refine ⟨h .eInternal ⟨hi, hn⟩, fun hv => ?_, fun hv => h .eVlan ⟨hi, hn, hv⟩⟩
        exact ⟨hid (.inr (.inr (.inr hv))), hname (.inr (.inr hv)),
          fun hnone => h .vId ⟨hv, hnone⟩, hifName (.inr hv)⟩
    · intro hi
      apply hid
      cases hif : p.interface <;> simp_all
    · exact fun hn => ⟨hid (.inr (.inr (.inl hn))), fun hnone => h .inGroup ⟨hn, hnone⟩⟩
    · exact fun hv => ⟨hid (.inr (.inr (.inr hv))), fun hnone => h .vId ⟨hv, hnone⟩,
        hifName (.inr hv)⟩

theorem next_initial (x : EndPointVar) (hreads : ∀ y, p.Reads y → y.Initial v) (hx : x.Initial v)
    (halone : x.Initial (p.next {})) : x.Initial (p.next v) := by
  have hgetD {o : Option String} {s : String} (hs : s = "") (ho : o.getD "" = "") : o.getD s = "" := by
    rw [hs, ho]
  cases x with
  | id => exact hgetD hx halone
  | vId => exact hgetD hx halone
  | eName => exact hgetD hx halone
  | interface => exact hgetD hx halone
  | inGroup => exact hgetD hx halone
  | eIf => rfl
  | eInternal =>
    cases hi : p.interface with
    | some ifName => simp_all [EndPointVar.Initial, next]
    | none =>
      have heIf : v.eIf = false := hreads .eIf hi
      simp [EndPointVar.Initial, next, heIf, hi]
  | eVlan =>
    cases hi : p.interface with
    | some ifName => simp_all [EndPointVar.Initial, next]
    | none =>
      have heIf : v.eIf = false := hreads .eIf hi
      cases hn : p.internal with
      | some inGroup => simp_all [EndPointVar.Initial, next]
      | none =>
        have heInternal : v.eInternal = false := hreads .eInternal ⟨hi, hn⟩
        simp [EndPointVar.Initial, next, heIf, hi, hn, heInternal]

end Reads

end EndPointParts

/-- What the members of an element say. -/
def elementParts (element : Json) : EndPointParts := partsOf (membersOf element)

/-- The loop over `end-points`. -/
def endPointLoop : CarryLoop Json EndPointVars Built EndPointVar where
  init := {}
  step v element := (elementParts element).next v
  out v element := (elementParts element).built v
  Initial := EndPointVar.Initial
  Reads element := (elementParts element).Reads
  initial_init x := by cases x <;> rfl
  out_eq_iff _ _ := EndPointParts.built_eq_iff
  leaves _ _ x hreads hx halone := EndPointParts.next_initial x hreads hx halone

/-- What the elements build goes into the tables and the graph. -/
theorem foldl_apply_run (items : List Json) (st : EndPointState) :
    ((items.map elementParts).foldl (fun st p => p.apply st) st).tables =
      (endPointLoop.run st.vars items).foldl Built.enter st.tables ∧
    ((items.map elementParts).foldl (fun st p => p.apply st) st).graph =
      (endPointLoop.run st.vars items).foldl Built.addTo st.graph := by
  induction items generalizing st with
  | nil => exact ⟨rfl, rfl⟩
  | cons element items ih =>
    obtain ⟨htables, hgraph⟩ := ih ((elementParts element).apply st)
    rw [EndPointParts.apply_eq] at htables hgraph
    rw [List.map_cons, List.foldl_cons, EndPointParts.apply_eq]
    exact ⟨htables, hgraph⟩

/-! ## Endpoints with distinct identifiers -/

namespace Built

def interfaces (b : Built) : List EndPointInterface :=
  match b.added with
  | some (.interface e) => [e]
  | _ => []

def internals (b : Built) : List EndPointInternal :=
  match b.added with
  | some (.internal e) => [e]
  | _ => []

def vlans (b : Built) : List EndPointVlan :=
  match b.added with
  | some (.vlan e) => [e]
  | _ => []

def gres (b : Built) : List EndPointGre := b.gre.toList

theorem addTo_eq (g : Graph) (b : Built) :
    b.addTo g = { g with
      endPointsInterface := KeyedList.pushAll id g.endPointsInterface b.interfaces
      endPointsInternal := KeyedList.pushAll id g.endPointsInternal b.internals
      endPointsGre := KeyedList.pushAll EndPointGre.key g.endPointsGre b.gres
      endPointsVlan := KeyedList.pushAll id g.endPointsVlan b.vlans } := by
  obtain ⟨gre, added, _, _, _⟩ := b
  rcases gre with _ | gre <;> rcases added with _ | (e | e | e) <;> rfl

theorem foldl_addTo_eq (bs : List Built) (g : Graph) :
    bs.foldl addTo g = { g with
      endPointsInterface := KeyedList.pushAll id g.endPointsInterface (bs.flatMap interfaces)
      endPointsInternal := KeyedList.pushAll id g.endPointsInternal (bs.flatMap internals)
      endPointsGre := KeyedList.pushAll EndPointGre.key g.endPointsGre (bs.flatMap gres)
      endPointsVlan := KeyedList.pushAll id g.endPointsVlan (bs.flatMap vlans) } := by
  induction bs generalizing g with
  | nil => rfl
  | cons b bs ih =>
    rw [List.foldl_cons, ih, addTo_eq]
    simp [KeyedList.pushAll]

/-- The endpoints of one kind are added as they are, when all identifiers are distinct. -/
theorem pushAll_eq_flatMap {α κ : Type} [DecidableEq κ] (key : α → κ) (ident : κ → String)
    (part : Built → List α) (hpart : ∀ b, ((part b).map fun a => ident (key a)).Sublist b.ids)
    {bs : List Built} (hids : (bs.flatMap ids).Nodup) :
    KeyedList.pushAll key [] (bs.flatMap part) = bs.flatMap part := by
  have hsub : ((bs.flatMap part).map fun a => ident (key a)).Sublist (bs.flatMap ids) := by
    rw [List.map_flatMap]
    induction bs with
    | nil => exact .slnil
    | cons b bs ih =>
      rw [List.flatMap_cons, List.nodup_append] at hids
      exact (hpart b).append (ih hids.2.1)
  have hnodup : ((bs.flatMap part).map key).Nodup := by
    apply List.Nodup.of_map ident
    rw [List.map_map]
    exact hids.sublist hsub
  exact (KeyedList.pushAll_eq_append hnodup (by simp)).trans (List.nil_append _)

theorem foldl_addTo_of_nodup {bs : List Built} (hids : (bs.flatMap ids).Nodup) :
    bs.foldl addTo { ID := "" } =
      { ID := "", endPointsInterface := bs.flatMap interfaces,
        endPointsInternal := bs.flatMap internals, endPointsGre := bs.flatMap gres,
        endPointsVlan := bs.flatMap vlans } := by
  rw [foldl_addTo_eq]
  have hinterfaces := pushAll_eq_flatMap id EndPointInterface.id interfaces (fun b => by
    obtain ⟨gre, added, _, _, _⟩ := b
    rcases added with _ | (e | e | e) <;> simp [interfaces, ids, AddedEndPoint.id]) hids
  have hinternals := pushAll_eq_flatMap id EndPointInternal.id internals (fun b => by
    obtain ⟨gre, added, _, _, _⟩ := b
    rcases added with _ | (e | e | e) <;> simp [internals, ids, AddedEndPoint.id]) hids
  have hvlans := pushAll_eq_flatMap id EndPointVlan.id vlans (fun b => by
    obtain ⟨gre, added, _, _, _⟩ := b
    rcases added with _ | (e | e | e) <;> simp [vlans, ids, AddedEndPoint.id]) hids
  have hgres := pushAll_eq_flatMap EndPointGre.key Prod.fst gres (fun b => by
    simp [gres, ids, EndPointGre.key]) hids
  rw [hinterfaces, hinternals, hvlans, hgres]

theorem insertEntry_comm {β : Type} (t : StringMap β) {o o' : Option (String × β)}
    (h : ∀ e ∈ o, ∀ e' ∈ o', e.1 ≠ e'.1) :
    insertEntry (insertEntry t o) o' = insertEntry (insertEntry t o') o := by
  rcases o with _ | e
  · rfl
  rcases o' with _ | e'
  · rfl
  have hne := h e rfl e' rfl
  apply Std.ExtTreeMap.ext_getElem?
  intro k
  simp only [insertEntry, Std.ExtTreeMap.getElem?_insert, Std.LawfulEqCmp.compare_eq_iff_eq]
  grind

/-- An entry is under the identifier of one of the endpoints. -/
structure EntriesKnown (b : Built) : Prop where
  iface : ∀ e ∈ b.ifaceEntry, e.1 ∈ b.ids
  internal : ∀ e ∈ b.internalEntry, e.1 ∈ b.ids
  vlan : ∀ e ∈ b.vlanEntry, e.1 ∈ b.ids

theorem enter_comm {b b' : Built} (hb : b.EntriesKnown) (hb' : b'.EntriesKnown)
    (hdisjoint : b.ids.Disjoint b'.ids) (t : EndPointTables) :
    enter (enter t b) b' = enter (enter t b') b := by
  have hne {β : Type} {o o' : Option (String × β)} (ho : ∀ e ∈ o, e.1 ∈ b.ids)
      (ho' : ∀ e ∈ o', e.1 ∈ b'.ids) : ∀ e ∈ o, ∀ e' ∈ o', e.1 ≠ e'.1 := by
    intro e he e' he' heq
    exact hdisjoint (ho e he) (heq ▸ ho' e' he')
  have hgre (b : Built) : ∀ e ∈ b.gre.map fun e => (e.id, e.localIp), e.1 ∈ b.ids := by
    obtain ⟨gre, _, _, _, _⟩ := b
    cases gre <;> simp [ids]
  simp only [enter]
  rw [insertEntry_comm _ (hne hb.iface hb'.iface), insertEntry_comm _ (hne hb.internal hb'.internal),
    insertEntry_comm _ (hne hb.vlan hb'.vlan), insertEntry_comm _ (hne (hgre b) (hgre b'))]

/-- With distinct identifiers the tables do not depend on the order. -/
theorem foldl_enter_perm {bs bs' : List Built} (hperm : bs'.Perm bs)
    (hknown : ∀ b ∈ bs, b.EntriesKnown) (hids : (bs.flatMap ids).Nodup) (t : EndPointTables) :
    bs'.foldl enter t = bs.foldl enter t := by
  refine (hperm.symm.foldl_eq' (fun b hb b' hb' t => ?_) t).symm
  by_cases heq : b = b'
  · rw [heq]
  · have : Std.Symm (Function.onFun List.Disjoint ids) := ⟨fun _ _ h => List.Disjoint.symm h⟩
    have hdisjoint := (List.nodup_flatMap.mp hids).2.forall hb hb' heq
    exact enter_comm (hknown b hb) (hknown b' hb') hdisjoint t

end Built

theorem EndPointParts.entriesKnown_built (p : EndPointParts) : (p.built {}).EntriesKnown := by
  constructor
  · cases hif : p.interface <;> simp [built, hif, Built.ids, AddedEndPoint.id]
  · cases hif : p.interface <;> cases hinternal : p.internal <;>
      simp [built, hif, hinternal, Built.ids, AddedEndPoint.id]
  · cases hif : p.interface <;> cases hinternal : p.internal <;> cases hvlan : p.vlan <;>
      simp [built, hif, hinternal, hvlan, Built.ids, AddedEndPoint.id]

/-! ## Documents -/

/-- A document's graph with another array of endpoints. -/
def replaceEndPoints (fg : Json.Object) (items : List Json) : Json.Object :=
  fg.insert "end-points" (.arr items)

/-- In every order of the array the document is accepted, each element builds what it builds
alone, with identifiers that are pairwise distinct, and the graph has the same endpoints. -/
def OrderIndependent (inet : InetPton) (ID : String) (doc : Json) (g : Graph) : Prop :=
  ∀ items, items.Perm (itemsOf (graphObject doc) "end-points") →
    endPointLoop.run {} items = items.map endPointLoop.alone ∧
    ((items.map endPointLoop.alone).flatMap Built.ids).Nodup ∧
    ∃ g', parseGraph inet ID (documentOf (replaceEndPoints (graphObject doc) items)) = .ok g' ∧
      g'.endPointsInterface.Perm g.endPointsInterface ∧
      g'.endPointsInternal.Perm g.endPointsInternal ∧
      g'.endPointsGre.Perm g.endPointsGre ∧ g'.endPointsVlan.Perm g.endPointsVlan

/-- No element reads what another leaves, and the identifiers that the elements have alone are
distinct. -/
def IndependentElements (items : List Json) : Prop :=
  items.Pairwise (fun a b => endPointLoop.Undisturbed a b ∧ endPointLoop.Undisturbed b a) ∧
  ((items.map endPointLoop.alone).flatMap Built.ids).Nodup

theorem forall₂_endPointFrom_iff {items : List Json} {ps : List EndPointParts} :
    List.Forall₂ EndPointFrom items ps ↔
      (∀ v ∈ items, EndPointFrom v (elementParts v)) ∧ ps = items.map elementParts := by
  have hfrom {v : Json} {p : EndPointParts} (h : EndPointFrom v p) : p = elementParts v := by
    obtain ⟨o, ho, -, rfl⟩ := h
    rw [elementParts, membersOf_of_getObject ho]
  constructor
  · intro h
    induction h with
    | nil => simp
    | cons hv _ ih =>
      obtain rfl := hfrom hv
      exact ⟨by simpa using ⟨hv, ih.1⟩, by simp [ih.2]⟩
  · rintro ⟨h, rfl⟩
    rw [List.forall₂_map_right_iff, List.forall₂_same]
    exact h

section Document

variable {inet : InetPton} {ID : String}

/-- What the array leaves when all elements build what they build alone. -/
theorem endPointsOf_of_run {items : List Json}
    (hrun : endPointLoop.run {} items = items.map endPointLoop.alone) :
    (endPointsOf (items.map elementParts)).tables =
      (items.map endPointLoop.alone).foldl Built.enter {} ∧
    (endPointsOf (items.map elementParts)).graph =
      (items.map endPointLoop.alone).foldl Built.addTo { ID := "" } := by
  rw [← hrun]
  exact foldl_apply_run items _

theorem getElem?_replaceEndPoints (fg : Json.Object) (items : List Json) (name : String) :
    (replaceEndPoints fg items)[name]? =
      if "end-points" = name then some (.arr items) else fg[name]? := by
  rw [replaceEndPoints, Std.ExtTreeMap.getElem?_insert]
  simp only [Std.LawfulEqCmp.compare_eq_iff_eq]

/-- A document with the endpoints in another order describes the same rules, if the tables are the
same. -/
theorem describes_replaceEndPoints {fg : Json.Object} {vnfs : List (Option String × VNFs)}
    {rules : List Rule} {g : Graph}
    (h : Describes inet ID fg vnfs ((itemsOf fg "end-points").map elementParts) rules g)
    {items : List Json} (hperm : items.Perm (itemsOf fg "end-points"))
    (htables : (endPointsOf (items.map elementParts)).tables =
      (endPointsOf ((itemsOf fg "end-points").map elementParts)).tables) :
    Describes inet ID (replaceEndPoints fg items) vnfs (items.map elementParts) rules
      (withEndPoints g (endPointsOf (items.map elementParts)).graph) := by
  have hget := getElem?_replaceEndPoints fg items
  have hitems : itemsOf (replaceEndPoints fg items) "end-points" = items := by
    simp [itemsOf, member, hget, Json.getArray]
  have hvnfs : itemsOf (replaceEndPoints fg items) "VNFs" = itemsOf fg "VNFs" := by
    simp [itemsOf, member, hget]
  have hflow : flowRulesOf (replaceEndPoints fg items) = flowRulesOf fg := by
    simp [flowRulesOf, member, hget]
  constructor
  · intro name v hv
    rw [hget] at hv
    split_ifs at hv with hname
    · cases hv
      simp [← hname, validForwardingGraph, Json.getArray]
    · exact h.members name v hv
  · rw [hvnfs]
    exact h.vnfsFrom
  · exact h.vnfIds
  · rw [hitems, forall₂_endPointFrom_iff]
    refine ⟨fun v hv => ?_, rfl⟩
    exact (forall₂_endPointFrom_iff.mp h.endPointsFrom).1 v (hperm.subset hv)
  · exact ((hperm.map elementParts).filterMap EndPointParts.id).nodup_iff.mpr h.endPointIds
  · rw [hflow, htables]
    exact h.rulesFrom
  · exact h.ruleIds
  · rw [h.graph]
    simp [withEndPoints, text, member, hget]

/-- Endpoints are local and order independent exactly when their elements are independent. -/
theorem orderIndependent_iff {doc : Json} {g : Graph} (hparse : parseGraph inet ID doc = .ok g) :
    OrderIndependent inet ID doc g ↔ IndependentElements (itemsOf (graphObject doc) "end-points") := by
  obtain ⟨vnfs, ps, rules, hdoc⟩ := describes_of_parseGraph hparse
  obtain rfl := (forall₂_endPointFrom_iff.mp hdoc.endPointsFrom).2
  constructor
  · intro h
    exact ⟨CarryLoop.forall_perm_run_iff.mp fun items hperm => (h items hperm).1,
      (h _ (List.Perm.refl _)).2.1⟩
  · rintro ⟨hpairs, hids⟩ items hperm
    have hrun := CarryLoop.forall_perm_run_iff.mpr hpairs
    have hbuilt := hperm.map endPointLoop.alone
    have hids' : ((items.map endPointLoop.alone).flatMap Built.ids).Nodup :=
      (hbuilt.flatMap_right Built.ids).nodup_iff.mpr hids
    obtain ⟨htables, hgraph⟩ := endPointsOf_of_run (hrun items hperm)
    obtain ⟨htables₀, hgraph₀⟩ := endPointsOf_of_run (hrun _ (List.Perm.refl _))
    have hsame : (endPointsOf (items.map elementParts)).tables =
        (endPointsOf ((itemsOf (graphObject doc) "end-points").map elementParts)).tables := by
      rw [htables, htables₀]
      refine Built.foldl_enter_perm hbuilt (fun b hb => ?_) hids {}
      obtain ⟨element, -, rfl⟩ := List.mem_map.mp hb
      exact (elementParts element).entriesKnown_built
    refine ⟨hrun items hperm, hids', _, parseGraph_documentOf.mpr
      ⟨_, _, _, describes_replaceEndPoints hdoc hperm hsame⟩, ?_⟩
    rw [hgraph, Built.foldl_addTo_of_nodup hids', hdoc.graph, hgraph₀,
      Built.foldl_addTo_of_nodup hids]
    exact ⟨hbuilt.flatMap_right _, hbuilt.flatMap_right _, hbuilt.flatMap_right _,
      hbuilt.flatMap_right _⟩

end Document

/-- A tunnel with a name of its own. -/
def greElement (id name : String) : Json :=
  .obj [("id", .str id), ("name", .str name), ("gre-tunnel", .obj [
    ("local-ip", .str "10.0.0.1"), ("remote-ip", .str "10.0.0.2"), ("gre-key", .str "1")])]

/-- An endpoint on a physical port with a name. -/
def namedElement (id name ifName : String) : Json :=
  .obj [("id", .str id), ("name", .str name), ("interface", .obj [("if-name", .str ifName)])]

/-- A tunnel gets the name of the endpoint before it, and none if it is the first. An endpoint
without an identifier gets the one of the endpoint before it. -/
theorem tunnel_named_by_predecessor :
    (∃ g ∈ (parseGraph .none "1" (oneRule [] [namedElement "1" "lan" "eth0", greElement "2" "wan"]
        "endpoint:1" [outputTo "endpoint:2"])).toOption,
      g.endPointsGre.map EndPointGre.name = ["lan"]) ∧
    (∃ g ∈ (parseGraph .none "1" (oneRule [] [greElement "2" "wan", namedElement "1" "lan" "eth0"]
        "endpoint:1" [outputTo "endpoint:2"])).toOption,
      g.endPointsGre.map EndPointGre.name = [""]) ∧
    (∃ g ∈ (parseGraph .none "1" (oneRule [] [namedElement "1" "lan" "eth0",
        .obj [("interface", .obj [("if-name", .str "eth1")])]]
        "endpoint:1" [outputTo "endpoint:1"])).toOption,
      g.endPointsInterface.map EndPointInterface.id = ["1", "1"]) := by
  decide +kernel

/-- Two endpoints on physical ports with all their attributes. -/
theorem named_orderIndependent :
    ∃ g, parseGraph .none "1" (oneRule [] [namedElement "1" "lan" "eth0", namedElement "2" "wan" "eth1"]
        "endpoint:1" [outputTo "endpoint:2"]) = .ok g ∧
      OrderIndependent .none "1" (oneRule [] [namedElement "1" "lan" "eth0",
        namedElement "2" "wan" "eth1"] "endpoint:1" [outputTo "endpoint:2"]) g := by
  have hclosed : (parseGraph .none "1" (oneRule [] [namedElement "1" "lan" "eth0",
      namedElement "2" "wan" "eth1"] "endpoint:1" [outputTo "endpoint:2"])).toOption.isSome = true := by
    decide +kernel
  have hitems : itemsOf (graphObject (oneRule [] [namedElement "1" "lan" "eth0",
      namedElement "2" "wan" "eth1"] "endpoint:1" [outputTo "endpoint:2"])) "end-points" =
        [namedElement "1" "lan" "eth0", namedElement "2" "wan" "eth1"] := by
    rfl
  have hparts (id name ifName : String) : elementParts (namedElement id name ifName) =
      { id := some id, name := some name, interface := some (some ifName), internal := none,
        vlan := none, gre := none } := by
    rfl
  obtain ⟨g, hg⟩ := Option.isSome_iff_exists.mp hclosed
  have hparse := toOption_eq_some.mp hg
  refine ⟨g, hparse, (orderIndependent_iff hparse).mpr ?_⟩
  rw [hitems]
  have hreads (a : Json) (id name ifName : String) :
      endPointLoop.Undisturbed a (namedElement id name ifName) := by
    intro x hx
    simp only [endPointLoop, hparts] at hx
    cases x <;> simp [EndPointParts.Reads, EndPointParts.ifName] at hx
  constructor
  · simp [hreads]
  · simp [CarryLoop.alone, endPointLoop, hparts, EndPointParts.built, Built.ids, AddedEndPoint.id]

end UnOrchestrator.Parser
