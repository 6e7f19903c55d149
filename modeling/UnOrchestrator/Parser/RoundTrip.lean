import UnOrchestrator.Parser.MatchRoundTrip
import UnOrchestrator.Parser.EndPoints

/-!
# A graph through its JSON

A client that gets a graph and sends it back should arrive at the same graph. This is
settled here for graphs whose rules match on the input alone; what becomes of the header
fields is in `MatchRoundTrip`.

`graph_roundTrips_iff` names what a graph needs for it. Endpoints and network functions
need distinct identifiers, which the parser demands of a document but not of what it builds
from it. A tunnel is read before its own `name`, so it comes back with the name of the
endpoint that is printed before it. A rule comes back if its references are printed and
lead, through the endpoints of the graph, to what it holds. A rule with an explicit tag
operation never does: the operation is printed into the object of the output, and the
parser asserts that such an object has one member.
-/

namespace UnOrchestrator.Parser

open List (Forall₂ flatMap_append foldl_cons forall_mem_cons map_cons mem_map)

open Json (Object arr forall_ofMembers getArray getElem?_ofMembers getInt getObject_ofObject getString lastOf
  member_eq_some ofMembers)

open Highlevel CString Failure

open Json (text member)

/-! ## Endpoints -/

theorem parseInterface_printed (ifName : String) :
    parseInterface (.ofObject (ofMembers [("if-name", some (.str ifName))])) =
      .ok (some ifName) := by
  refine parseInterface_eq_ok_iff.mpr ⟨_, getObject_ofObject _, ?_, ?_⟩
  · apply forall_ofMembers
    simp [validInterface, getString]
  · simp [text, member, getElem?_ofMembers, lastOf, getString]

theorem parseInternal_printed (group : String) :
    parseInternal (.ofObject (ofMembers [("internal-group", some (.str group))])) =
      .ok (some group) := by
  refine parseInternal_eq_ok_iff.mpr ⟨_, getObject_ofObject _, ?_, ?_⟩
  · apply forall_ofMembers
    simp [getString]
  · simp [text, member, getElem?_ofMembers, lastOf, getString]

theorem parseVlan_printed (vlanId ifName : String) :
    parseVlan (.ofObject (ofMembers [("vlan-id", some (.str vlanId)),
      ("if-name", some (.str ifName))])) = .ok ⟨some vlanId, some ifName⟩ := by
  refine parseVlan_eq_ok_iff.mpr ⟨_, getObject_ofObject _, ?_, ?_⟩
  · apply forall_ofMembers
    simp [validVlan, getString]
  · simp [text, member, getElem?_ofMembers, lastOf, getString]

theorem parseGre_printed (e : EndPointGre) :
    parseGre "" "" (.ofObject (ofMembers [
      ("local-ip", some (.str e.localIp)),
      ("remote-ip", some (.str e.remoteIp)),
      ("gre-key", some (.str e.greKey)),
      ("ttl", if e.ttl = "" then none else some (.str e.ttl)),
      ("secure", some (.bool e.isSafe))])) = .ok { e with id := "", name := "" } := by
  refine parseGre_eq_ok_iff.mpr ⟨_, getObject_ofObject _, ?_, ?_, ?_⟩
  · apply forall_ofMembers
    by_cases httl : e.ttl = "" <;> simp [validGre, getString, Json.getBool, httl]
  · simp [text, member, getElem?_ofMembers, lastOf, getString]
  · by_cases httl : e.ttl = "" <;>
      simp [greOf, text, member, getElem?_ofMembers, lastOf, getString, Json.getBool, httl]

/-- A printed endpoint is accepted, and says what it was printed from. -/
structure Says (o : Json.Object) (p : EndPointParts) : Prop where
  members : ∀ name v, o[name]? = some v → validEndPoint ∅ name v
  parts : partsOf (fun k => o[k]?) = p

theorem Says.endPointFrom {o : Object} {p : EndPointParts} (h : Says o p) :
    EndPointFrom (.ofObject o) p ∧ elementParts (.ofObject o) = p := by
  have hobject := getObject_ofObject o
  exact ⟨⟨o, hobject, h.members, h.parts.symm⟩, by
    rw [elementParts, membersOf_of_getObject hobject, h.parts]⟩

theorem says_interface (e : EndPointInterface) : Says e.toJSON
    ⟨some e.id, some e.name, some (some e.interface), none, none, none⟩ := by
  have hparse := parseInterface_printed e.interface
  constructor
  · apply forall_ofMembers
    simp [validEndPoint, getString, hparse]
  · simp [partsOf, text, member, EndPointInterface.toJSON, getElem?_ofMembers, lastOf,
      getString, hparse]

theorem says_internal (e : EndPointInternal) : Says e.toJSON
    ⟨some e.id, some e.name, none, some (some e.group), none, none⟩ := by
  have hparse := parseInternal_printed e.group
  constructor
  · apply forall_ofMembers
    simp [validEndPoint, getString, hparse]
  · simp [partsOf, text, member, EndPointInternal.toJSON, getElem?_ofMembers, lastOf,
      getString, hparse]

theorem says_gre (e : EndPointGre) : Says e.toJSON
    ⟨some e.id, some e.name, none, none, none, some { e with id := "", name := "" }⟩ := by
  have hparse := parseGre_printed e
  constructor
  · apply forall_ofMembers
    simp [validEndPoint, getString, hparse]
  · simp [partsOf, text, member, EndPointGre.toJSON, getElem?_ofMembers, lastOf,
      getString, hparse]

theorem says_vlan (e : EndPointVlan) : Says e.toJSON
    ⟨some e.id, some e.name, none, none, some ⟨some e.vlanId, some e.interface⟩, none⟩ := by
  have hparse := parseVlan_printed e.vlanId e.interface
  constructor
  · apply forall_ofMembers
    simp [validEndPoint, getString, hparse]
  · simp [partsOf, text, member, EndPointVlan.toJSON, getElem?_ofMembers, lastOf,
      getString, hparse]

namespace Built

/-! What a printed endpoint is read as. -/

def ofInterface (e : EndPointInterface) : Built :=
  ⟨none, some (.interface e), some (e.id, e.interface), none, none⟩

def ofInternal (e : EndPointInternal) : Built :=
  ⟨none, some (.internal e), none, some (e.id, e.group), none⟩

def ofGre (e : EndPointGre) : Built := ⟨some e, none, none, none, none⟩

def ofVlan (e : EndPointVlan) : Built :=
  ⟨none, some (.vlan e), none, none, some (e.id, e.vlanId, e.interface)⟩

end Built

/-- No kind is pending. -/
def Settled (v : EndPointVars) : Prop := v.eIf = false ∧ v.eInternal = false ∧ v.eVlan = false

/-- What a printed element is read as, which may depend on the name that is left over, and the name
that it leaves itself. -/
def ReadsAs (element : Json) (build : String → Built) (name : String) : Prop :=
  ∀ v, Settled v → (elementParts element).built v = build v.eName ∧
    Settled ((elementParts element).next v) ∧ ((elementParts element).next v).eName = name

theorem readsAs_interface (e : EndPointInterface) :
    ReadsAs (.ofObject e.toJSON) (fun _ => .ofInterface e) e.name := by
  rintro v ⟨hIf, hInternal, hVlan⟩
  rw [(says_interface e).endPointFrom.2]
  simp [EndPointParts.built, EndPointParts.next, EndPointParts.ifName, Built.ofInterface, Settled,
    hInternal, hVlan]

theorem readsAs_internal (e : EndPointInternal) :
    ReadsAs (.ofObject e.toJSON) (fun _ => .ofInternal e) e.name := by
  rintro v ⟨hIf, hInternal, hVlan⟩
  rw [(says_internal e).endPointFrom.2]
  simp [EndPointParts.built, EndPointParts.next, EndPointParts.ifName, Built.ofInternal, Settled,
    hIf, hVlan]

theorem readsAs_gre (e : EndPointGre) :
    ReadsAs (.ofObject e.toJSON) (fun name => .ofGre { e with name := name }) e.name := by
  rintro v ⟨hIf, hInternal, hVlan⟩
  rw [(says_gre e).endPointFrom.2]
  simp [EndPointParts.built, EndPointParts.next, EndPointParts.ifName, Built.ofGre, Settled, hIf,
    hInternal, hVlan]

theorem readsAs_vlan (e : EndPointVlan) :
    ReadsAs (.ofObject e.toJSON) (fun _ => .ofVlan e) e.name := by
  rintro v ⟨hIf, hInternal, hVlan⟩
  rw [(says_vlan e).endPointFrom.2]
  simp [EndPointParts.built, EndPointParts.next, EndPointParts.ifName, Built.ofVlan, Settled, hIf,
    hInternal]

/-- A list in which each element is given the name of the one before it. -/
def chained {ε β : Type} (build : String → ε → β) (name : ε → String) (prev : String) :
    List ε → List β
  | [] => []
  | e :: es => build prev e :: chained build name (name e) es

theorem chained_const {ε β : Type} (f : ε → β) (name : ε → String) (prev : String) (es : List ε) :
    chained (fun _ => f) name prev es = es.map f := by
  induction es generalizing prev with
  | nil => rfl
  | cons e es ih => rw [chained, ih, map_cons]

theorem run_printed {ε : Type} {print : ε → Json} {build : String → ε → Built} {name : ε → String}
    (h : ∀ e, ReadsAs (print e) (fun prev => build prev e) (name e)) (es : List ε)
    {v : EndPointVars} (hv : Settled v) :
    endPointLoop.run v (es.map print) = chained build name v.eName es ∧
    Settled ((es.map print).foldl endPointLoop.step v) ∧
    ((es.map print).foldl endPointLoop.step v).eName = (es.map name).getLast?.getD v.eName := by
  induction es generalizing v with
  | nil => exact ⟨rfl, hv, rfl⟩
  | cons e es ih =>
    obtain ⟨hbuilt, hsettled, hname⟩ := h e v hv
    obtain ⟨hrun, hlast, hlastName⟩ := ih hsettled
    rw [hname] at hrun hlastName
    refine ⟨?_, hlast, ?_⟩
    · rw [map_cons, CarryLoop.run, chained]
      exact congrArg₂ _ hbuilt hrun
    · rw [map_cons, map_cons, foldl_cons, List.getLast?_cons, Option.getD_some]
      exact hlastName

/-- The name of the last endpoint that is printed before the tunnels. -/
def nameBeforeTunnels (g : Graph) : String :=
  (g.endPointsInterface.map EndPointInterface.name ++
    g.endPointsInternal.map EndPointInternal.name).getLast?.getD ""

/-- What the endpoints of a graph are read as, with other names for the tunnels. -/
def readBack (g : Graph) (tunnels : List EndPointGre) : List Built :=
  g.endPointsInterface.map .ofInterface ++ g.endPointsInternal.map .ofInternal ++
    tunnels.map .ofGre ++ g.endPointsVlan.map .ofVlan

/-- The tunnels of a graph as they are read: each has the name of the endpoint before it. -/
def renamedTunnels (g : Graph) : List EndPointGre :=
  chained (fun name e => { e with name := name }) EndPointGre.name (nameBeforeTunnels g) g.endPointsGre

theorem run_endPointsJSON (g : Graph) :
    endPointLoop.run {} g.endPointsJSON = readBack g (renamedTunnels g) := by
  have hstart : Settled {} := ⟨rfl, rfl, rfl⟩
  obtain ⟨hif, hifSettled, hifName⟩ := run_printed readsAs_interface g.endPointsInterface hstart
  obtain ⟨hint, hintSettled, hintName⟩ := run_printed readsAs_internal g.endPointsInternal hifSettled
  obtain ⟨hgre, hgreSettled, -⟩ := run_printed readsAs_gre g.endPointsGre hintSettled
  obtain ⟨hvlan, -, -⟩ := run_printed readsAs_vlan g.endPointsVlan hgreSettled
  have hname : (g.endPointsInternal.map EndPointInternal.name).getLast?.getD
      ((g.endPointsInterface.map EndPointInterface.name).getLast?.getD "") = nameBeforeTunnels g := by
    rw [nameBeforeTunnels, List.getLast?_append]
    cases (g.endPointsInternal.map EndPointInternal.name).getLast? <;> simp
  have hgres (prev : String) (es : List EndPointGre) :
      chained (fun name e => Built.ofGre { e with name := name }) EndPointGre.name prev es =
        (chained (fun name e => ({ e with name := name } : EndPointGre)) EndPointGre.name prev es).map
          Built.ofGre := by
    induction es generalizing prev with
    | nil => rfl
    | cons e es ih => rw [chained, ih, chained, map_cons]
  rw [chained_const] at hif hint hvlan
  rw [hgres, hintName, hifName, hname] at hgre
  simp only [Graph.endPointsJSON, CarryLoop.run_append, List.foldl_append, hif, hint, hgre, hvlan]
  rfl

/-- The identifiers of the endpoints of a graph. -/
def endPointIdsOf (g : Graph) : List String :=
  g.endPointsInterface.map EndPointInterface.id ++ g.endPointsInternal.map EndPointInternal.id ++
    g.endPointsGre.map EndPointGre.id ++ g.endPointsVlan.map EndPointVlan.id

/-- The tables by which rules find the endpoints of a graph. -/
def graphTables (g : Graph) : EndPointTables := (readBack g g.endPointsGre).foldl Built.enter {}

theorem map_renamedTunnels {β : Type} (f : EndPointGre → β)
    (hf : ∀ e name, f { e with name := name } = f e) (g : Graph) :
    (renamedTunnels g).map f = g.endPointsGre.map f := by
  have hchain (prev : String) (es : List EndPointGre) :
      (chained (fun name e => ({ e with name := name } : EndPointGre)) EndPointGre.name prev es).map f =
        es.map f := by
    induction es generalizing prev with
    | nil => rfl
    | cons e es ih => rw [chained, map_cons, ih, hf, map_cons]
  exact hchain _ _

theorem renamedTunnels_eq_iff (g : Graph) :
    renamedTunnels g = g.endPointsGre ↔ ∀ e ∈ g.endPointsGre, e.name = nameBeforeTunnels g := by
  have hchain (prev : String) (es : List EndPointGre) :
      chained (fun name e => ({ e with name := name } : EndPointGre)) EndPointGre.name prev es = es ↔
        ∀ e ∈ es, e.name = prev := by
    induction es generalizing prev with
    | nil => simp [chained]
    | cons e es ih =>
      have hhead : ({ e with name := prev } : EndPointGre) = e ↔ e.name = prev :=
        ⟨fun h => (congrArg EndPointGre.name h).symm, fun h => by rw [← h]⟩
      rw [chained, List.cons.injEq, hhead, ih, forall_mem_cons]
      exact and_congr_right fun h => by rw [h]
  exact hchain _ _

theorem foldl_enter_readBack (g : Graph) :
    (readBack g (renamedTunnels g)).foldl Built.enter {} = graphTables g := by
  have hgre (es : List EndPointGre) (t : EndPointTables) : (es.map Built.ofGre).foldl Built.enter t =
      (es.map fun e => (e.id, e.localIp)).foldl
        (fun t entry => { t with greId := t.greId.insert entry.1 entry.2 }) t := by
    induction es generalizing t with
    | nil => rfl
    | cons e es ih =>
      rw [map_cons, foldl_cons, ih]
      rfl
  simp only [graphTables, readBack, List.foldl_append, hgre, map_renamedTunnels
    (fun e => (e.id, e.localIp)) (fun _ _ => rfl)]

theorem ids_readBack (g : Graph) : (readBack g (renamedTunnels g)).flatMap Built.ids = endPointIdsOf g := by
  have hids {ε : Type} (build : ε → Built) (id : ε → String) (h : ∀ e, (build e).ids = [id e])
      (es : List ε) : (es.map build).flatMap Built.ids = es.map id := by
    induction es with
    | nil => rfl
    | cons e es ih => rw [map_cons, List.flatMap_cons, h, ih, map_cons]; rfl
  rw [readBack, flatMap_append, flatMap_append, flatMap_append,
    hids _ EndPointInterface.id fun _ => rfl, hids _ EndPointInternal.id fun _ => rfl,
    hids _ EndPointGre.id fun _ => rfl, hids _ EndPointVlan.id fun _ => rfl,
    map_renamedTunnels EndPointGre.id fun _ _ => rfl]
  rfl

/-- What the printed endpoints of a graph are read as. -/
theorem endPointsOf_printed (g : Graph) :
    (endPointsOf (g.endPointsJSON.map elementParts)).tables = graphTables g ∧
    ((endPointIdsOf g).Nodup → (endPointsOf (g.endPointsJSON.map elementParts)).graph =
      { ID := "", endPointsInterface := g.endPointsInterface,
        endPointsInternal := g.endPointsInternal, endPointsGre := renamedTunnels g,
        endPointsVlan := g.endPointsVlan }) := by
  obtain ⟨htables, hgraph⟩ := foldl_apply_run g.endPointsJSON { graph := { ID := "" } }
  rw [run_endPointsJSON] at htables hgraph
  refine ⟨htables.trans (foldl_enter_readBack g), fun hids => hgraph.trans ?_⟩
  rw [Built.foldl_addTo_of_nodup (by rwa [ids_readBack])]
  have hnil {ε γ : Type} (es : List ε) : es.flatMap (fun _ => ([] : List γ)) = [] :=
    List.flatMap_eq_nil_iff.mpr fun _ _ => rfl
  simp [readBack, flatMap_append, List.flatMap_map, Built.interfaces, Built.internals,
    Built.gres, Built.vlans, Built.ofInterface, Built.ofInternal, Built.ofGre, Built.ofVlan, hnil]

/-! ## Network functions -/

/-- A port that the parser has accepted. -/
def ValidPort (p : VnfPort) : Prop :=
  p.configuration.macAddress ≠ "" →
    validateMac p.configuration.macAddress ∧ isUnicastMac p.configuration.macAddress

theorem parseVnfPort_printed {p : VnfPort} (h : ValidPort p) :
    parseVnfPort (.ofObject p.toJSON) = .ok p := by
  obtain ⟨id, name, mac⟩ := p
  refine parseVnfPort_eq_ok_iff.mpr ⟨_, getObject_ofObject _, ?_, ?_⟩
  · apply forall_ofMembers
    by_cases hmac : mac.macAddress = ""
    · simp [validVnfPort, getString, hmac]
    · simpa [validVnfPort, getString, hmac] using h hmac
  · obtain ⟨mac⟩ := mac
    by_cases hmac : mac = "" <;>
      simp [vnfPortOf, text, member, VnfPort.toJSON, getElem?_ofMembers, lastOf,
        getString, hmac]

theorem vnfFrom_printed {v : VNFs} (h : ∀ p ∈ v.ports, ValidPort p) :
    VnfFrom (.ofObject v.toJSON) (some v.id, v) := by
  obtain ⟨id, name, groups, vnfTemplate, ports⟩ := v
  have hgroups : (arr (groups.map .str)).mapArray getString = .ok groups := by
    refine Json.mapArray_eq_ok.mpr ⟨_, rfl, ?_⟩
    rw [List.forall₂_map_left_iff, List.forall₂_same]
    exact fun _ _ => rfl
  have hports : (arr (ports.map fun p => .ofObject p.toJSON)).mapArray parseVnfPort =
      .ok ports := by
    refine Json.mapArray_eq_ok.mpr ⟨_, rfl, ?_⟩
    rw [List.forall₂_map_left_iff, List.forall₂_same]
    exact fun p hp => parseVnfPort_printed (h p hp)
  refine ⟨_, getObject_ofObject _, ?_, ?_, ?_⟩
  · apply forall_ofMembers
    by_cases hnone : groups = [] <;> simp [validVnf, getString, hnone, hports, hgroups]
  · simp [text, member, VNFs.toJSON, getElem?_ofMembers, lastOf, getString]
  · by_cases hnone : groups = [] <;>
      simp [vnfOf, text, member, VNFs.toJSON, getElem?_ofMembers, lastOf, getString, hports, hgroups, hnone]

variable {value : Json}

theorem VnfFrom.unique {vnf vnf' : Option String × VNFs} (h : VnfFrom value vnf) (h' : VnfFrom value vnf') :
    vnf = vnf' := by
  obtain ⟨o, ho, -, -, rfl⟩ := h
  obtain ⟨o', ho', -, -, rfl⟩ := h'
  cases ho.symm.trans ho'
  rfl

theorem VnfFrom.validPort {vnf : Option String × VNFs} (h : VnfFrom value vnf) :
    ∀ p ∈ vnf.2.ports, ValidPort p := by
  obtain ⟨o, -, -, -, rfl⟩ := h
  intro p hp hmac
  simp only [vnfOf] at hp
  cases hports : member (Json.mapArray parseVnfPort) (fun k => o[k]?) "ports" with
  | none => simp [hports] at hp
  | some ports =>
    rw [hports, Option.getD_some] at hp
    obtain ⟨v, -, hv⟩ := member_eq_some.mp hports
    obtain ⟨items, -, hitems⟩ := Json.mapArray_eq_ok.mp hv
    obtain ⟨item, -, hitem⟩ := Json.exists_mem_left hitems hp
    obtain ⟨o', -, hvalid, rfl⟩ := parseVnfPort_eq_ok_iff.mp hitem
    cases htext : text (fun k => o'[k]?) "mac" with
    | none => simp [vnfPortOf, htext] at hmac
    | some mac =>
      have := hvalid "mac" _ (Json.text_eq_some.mp htext)
      simpa [validVnfPort, vnfPortOf, htext] using this

theorem mem_addVNFTo {P : VnfPort → Prop} {vnf : VNFs} (hvnf : ∀ p ∈ vnf.ports, P p) {l : List VNFs}
    (hl : ∀ v ∈ l, ∀ p ∈ v.ports, P p) : ∀ v ∈ Graph.addVNFTo vnf l, ∀ p ∈ v.ports, P p := by
  have hports (ps : List VnfPort) (hps : ∀ p ∈ ps, P p) (v : VNFs) (hv : ∀ p ∈ v.ports, P p) :
      ∀ p ∈ (ps.foldl VNFs.addPort v).ports, P p := by
    induction ps generalizing v with
    | nil => exact hv
    | cons port ps ih =>
      refine ih (fun p hp => hps p (List.mem_cons_of_mem _ hp)) _ fun p hp => ?_
      simp only [VNFs.addPort, KeyedList.pushNew] at hp
      split_ifs at hp
      · exact hv p hp
      · rcases List.mem_append.mp hp with hp | hp
        · exact hv p hp
        · exact hps p (List.mem_cons.mpr (.inl (List.mem_singleton.mp hp)))
  induction l with
  | nil => simpa [Graph.addVNFTo] using hvnf
  | cons v l ih =>
    rw [forall_mem_cons] at hl
    rw [Graph.addVNFTo]
    split_ifs with hkey
    · rw [forall_mem_cons]
      exact ⟨hports vnf.ports hvnf v hl.1, hl.2⟩
    · rw [forall_mem_cons]
      exact ⟨hl.1, ih hl.2⟩

/-- The ports of the network functions of an accepted graph are valid. -/
theorem validPort_vnfsOf {items : List Json} {vnfs : List (Option String × VNFs)}
    (h : Forall₂ VnfFrom items vnfs) : ∀ v ∈ vnfsOf vnfs, ∀ p ∈ v.ports, ValidPort p := by
  have hfold (l : List VNFs) (hl : ∀ v ∈ l, ∀ p ∈ v.ports, ValidPort p) :
      ∀ v ∈ vnfs.foldl (fun l vnf => Graph.addVNFTo vnf.2 l) l, ∀ p ∈ v.ports, ValidPort p := by
    induction h generalizing l with
    | nil => exact hl
    | cons hv _ ih => exact ih _ (mem_addVNFTo hv.validPort hl)
  exact hfold [] (by simp)

/-- Network functions with distinct identifiers are kept as they are. -/
theorem vnfsOf_of_nodup {vs : List VNFs} (h : (vs.map VNFs.id).Nodup) :
    vnfsOf (vs.map fun v => (some v.id, v)) = vs := by
  have hnew {v : VNFs} {l : List VNFs} (hl : v.id ∉ l.map VNFs.id) :
      Graph.addVNFTo v l = l ++ [v] := by
    induction l with
    | nil => rfl
    | cons w l ih =>
      rw [map_cons, List.mem_cons, not_or] at hl
      rw [Graph.addVNFTo, if_neg fun hkey => hl.1 (congrArg Prod.fst hkey).symm, ih hl.2]
      rfl
  have hfold (l : List VNFs) (hl : ((l ++ vs).map VNFs.id).Nodup) :
      (vs.map fun v => (some v.id, v)).foldl (fun l vnf => Graph.addVNFTo vnf.2 l) l = l ++ vs := by
    induction vs generalizing l with
    | nil => simp
    | cons v vs ih =>
      have hv : v.id ∉ l.map VNFs.id := by
        intro hmem
        rw [List.map_append, map_cons, List.nodup_append] at hl
        exact hl.2.2 _ hmem _ List.mem_cons_self rfl
      rw [map_cons, foldl_cons, hnew hv, ih (List.nodup_cons.mp h).2 _ (by simpa using hl)]
      simp
  exact hfold [] h

/-! ## Rules -/

/-- A match on the input alone, with the tag of a VLAN endpoint at most. -/
def InputOnly (m : Highlevel.Match) : Prop := ∃ tag, m.toMatch = headerOf tag fun _ => none

/-- A priority that was read: the parser cuts it to 32 bits and extends the sign. -/
def ReadPriority (priority : Nat) : Prop := ∃ n : Int, priority = (n.bmod (2 ^ 32) % 2 ^ 64).toNat

/-- Of a match on the input alone, the input is printed. -/
theorem printed_of_inputOnly {m : Highlevel.Match} (h : InputOnly m) (p : Option String) :
    printed p m.toMatch = fun key => if key = .portIn then p else none := by
  obtain ⟨tag, htag⟩ := h
  rw [htag]
  funext key
  cases key <;> simp [printed, headerOf]

variable {inet : InetPton} {tables : EndPointTables}

theorem parseMatch_printed_iff {m m' : Highlevel.Match} (h : InputOnly m) {p : Option String} {base : Action}
    {a : Option Action} :
    parseMatch inet tables (m.toMatch.toJSON p) (some base) = .ok (m', a) ↔
      ∃ input pin, p = some input ∧ portIn tables input = .ok pin ∧
        m' = pin.toMatch (headerOf pin.tag fun _ => none) ∧ a = pin.onAction (some base) := by
  have htext := (textOf_toJSON p m.toMatch).trans (printed_of_inputOnly h p)
  have hheader (tag : Option UInt16) :
      headerOf tag (fun key => if key = .portIn then p else none) = headerOf tag fun _ => none := by
    simp [headerOf]
  have hinput (pin : PortIn) : inputOf tables (fun k => (m.toMatch.toJSON p)[k]?) = some pin ↔
      ∃ input, p = some input ∧ portIn tables input = .ok pin := by
    simp only [inputOf, htext, if_true, Option.bind_eq_some_iff, toOption_eq_some]
  simp only [parseMatch_eq_ok_iff, htext, hheader, hinput]
  constructor
  · rintro ⟨-, pin, ⟨input, hp, hpin⟩, hm, ha⟩
    exact ⟨input, pin, hp, hpin, hm, ha⟩
  · rintro ⟨input, pin, rfl, hpin, hm, ha⟩
    refine ⟨fun name v hv => ?_, pin, ⟨input, rfl, hpin⟩, hm, ha⟩
    obtain ⟨tag, htag⟩ := h
    obtain ⟨key, s, hname, hv, hs⟩ := exists_key_of_toJSON (by rw [htag]; rfl) (by rw [htag]; rfl) hv
    rw [printed_of_inputOnly ⟨tag, htag⟩] at hs
    refine ⟨key, s, hname, hv, ?_⟩
    dsimp only at hs
    split_ifs at hs with hkey
    subst hkey
    obtain rfl := Option.some.inj hs
    exact ⟨pin, hpin, fun _ => rfl⟩

theorem vlanMember_ne_output (ga : GenericAction) : (vlanMember ga).1 ≠ "output_to_port" := by
  unfold vlanMember
  cases ga.type <;> simp

theorem getElem?_action (a : Action) (k : String) : a.toJSON[k]? =
    (lastOf (a.genericActions.map vlanMember) k <|>
      if "output_to_port" = k then some (.str a.endpointName) else none) :=
  getElem?_ofMembers _ _

/-- A printed action is accepted if it has no explicit tag operation, which would be a second
member of its object. -/
theorem parseActions_printed_iff {a base : Action} :
    parseActions tables (.arr [.ofObject a.toJSON]) = .ok base ↔
      outputToPort tables a.endpointName = .ok (some base) ∧
        ∀ ga ∈ a.genericActions, (vlanMember ga).2 = none := by
  rw [parseActions_eq_ok_iff]
  constructor
  · rintro ⟨items, hitems, steps, hsteps, reference, action, houtput, rfl⟩
    obtain rfl := arr.inj hitems
    obtain ⟨step, _, ⟨o, name, v, ho, hlist, hstep⟩, hnil, rfl⟩ := List.forall₂_cons_left_iff.mp hsteps
    obtain rfl := List.forall₂_nil_left_iff.mp hnil
    obtain rfl : step = .output reference (some action) := by
      cases step with
      | output => cases houtput; rfl
      | generic => cases houtput
      | nothing => cases houtput
    obtain ⟨rfl, rfl, haction⟩ := actionStep_eq_output.mp hstep
    obtain rfl := Except.ok.inj (ho.symm.trans (getObject_ofObject _))
    have honly {k : String} {w : Json} (hk : a.toJSON[k]? = some w) :
        k = "output_to_port" ∧ w = .str reference := by
      rw [← Std.ExtTreeMap.mem_toList_iff_getElem?_eq_some, hlist] at hk
      simpa using hk
    have hnone {ga : GenericAction} (hga : ga ∈ a.genericActions) : (vlanMember ga).2 = none := by
      by_contra hsome
      obtain ⟨w, hw⟩ := Option.isSome_iff_exists.mp
        (Json.isSome_lastOf (List.mem_map_of_mem hga) (Option.isSome_iff_ne_none.mpr hsome))
      exact vlanMember_ne_output ga (honly (by rw [getElem?_action, hw]; rfl)).1
    refine ⟨?_, fun ga hga => hnone hga⟩
    have hname : a.toJSON["output_to_port"]? = some (.str a.endpointName) := by
      rw [getElem?_action, Json.lastOf_eq_none fun member hmember => ?_]
      · rfl
      · obtain ⟨ga, hga, rfl⟩ := mem_map.mp hmember
        exact .inr (hnone hga)
    obtain rfl := Json.str.inj (honly hname).2
    rw [haction, List.filterMap_cons_none rfl, List.filterMap_nil, List.append_nil]
  · rintro ⟨haction, hnone⟩
    have hobject : a.toJSON = (∅ : Object).insert "output_to_port" (.str a.endpointName) := by
      refine Std.ExtTreeMap.ext_getElem? fun k => ?_
      rw [getElem?_action, Json.lastOf_eq_none fun member hmember => ?_, Std.ExtTreeMap.getElem?_insert]
      · simp
      · obtain ⟨ga, hga, rfl⟩ := mem_map.mp hmember
        exact .inr (hnone ga hga)
    refine ⟨_, rfl, [.output a.endpointName (some base)], .cons ⟨_, "output_to_port", _,
      getObject_ofObject _, by rw [hobject]; rfl, actionStep_eq_output.mpr ⟨rfl, rfl, haction⟩⟩ .nil,
      a.endpointName, base, rfl, ?_⟩
    rw [List.filterMap_cons_none rfl, List.filterMap_nil, List.append_nil]

/-- The references of a rule lead, through the tables, to what the rule holds, and nothing is done
to the packets beyond that. -/
structure ResolvesTo (tables : EndPointTables) (rule : Rule) (input : String) (pin : PortIn)
    (action : Action) : Prop where
  written : rule.match.portInMember = .ok (some input)
  found : portIn tables input = .ok pin ∧
    outputToPort tables rule.action.endpointName = .ok (some action)
  matched : rule.match = pin.toMatch (headerOf pin.tag fun _ => none)
  performed : some rule.action = pin.onAction (some action)
  implicit : ∀ ga ∈ rule.action.genericActions, ga.type = .endpointVlanPush ∨ ga.type = .endpointVlanPop

def Resolves (tables : EndPointTables) (rule : Rule) : Prop :=
  ∃ input pin action, ResolvesTo tables rule input pin action

variable {rule : Rule} {o : Json.Object}

/-- The members of a printed rule. -/
theorem members_of_toJSON (h : rule.toJSON = .ok o) :
    (∀ name v, o[name]? = some v → validRule name v) ∧
    o["id"]? = some (.str rule.ruleID) ∧ o["priority"]? = some (.int rule.priority) ∧
    o["actions"]? = some (.arr [.ofObject rule.action.toJSON]) ∧
    ∃ p, rule.match.portInMember = .ok p ∧
      o["match"]? = some (.ofObject (rule.match.toMatch.toJSON p)) := by
  simp only [Rule.toJSON, Match.toJSON, Abort.bind_eq_ok] at h
  obtain ⟨_, ⟨p, hp, hm⟩, ho⟩ := h
  obtain rfl := Except.ok.inj hm
  obtain rfl := Except.ok.inj ho
  refine ⟨forall_ofMembers ?_, ?_, ?_, ?_, p, hp, ?_⟩
  · simp [validRule, getString, getInt]
  all_goals simp [getElem?_ofMembers, lastOf]

/-- A priority that was read is read again. -/
theorem priority_again {priority : Nat} (h : ReadPriority priority) :
    ((priority : Int).bmod (2 ^ 32) % 2 ^ 64).toNat = priority := by
  obtain ⟨n, rfl⟩ := h
  have hsmall : (n.bmod (2 ^ 32) % 2 ^ 64).bmod (2 ^ 32) = n.bmod (2 ^ 32) := by
    simp only [Int.bmod_def]
    omega
  rw [Int.toNat_of_nonneg (Int.emod_nonneg _ (by norm_num)), hsmall]

/-- A printed rule is read as itself exactly when its references resolve. -/
theorem ruleFrom_printed_iff (honly : InputOnly rule.match) (hpriority : ReadPriority rule.priority)
    (ho : rule.toJSON = .ok o) : RuleFrom inet tables (.ofObject o) rule ↔ Resolves tables rule := by
  have himplicit (ga : GenericAction) : (vlanMember ga).2 = none ↔
      ga.type = .endpointVlanPush ∨ ga.type = .endpointVlanPop := by
    unfold vlanMember
    cases ga.type <;> simp
  obtain ⟨hvalid, hid, hprio, hactions, p, hp, hmatch⟩ := members_of_toJSON ho
  have hbase (base : Action) : member (parseActions tables) (fun k => o[k]?) "actions" = some base ↔
      outputToPort tables rule.action.endpointName = .ok (some base) ∧
        ∀ ga ∈ rule.action.genericActions, (vlanMember ga).2 = none := by
    rw [← parseActions_printed_iff, member_eq_some]
    simp [hactions]
  have hobject : member Json.getObject (fun k => o[k]?) "match" =
      some (rule.match.toMatch.toJSON p) :=
    member_eq_some.mpr ⟨_, hmatch, getObject_ofObject _⟩
  constructor
  · rintro ⟨o', ho', -, ⟨base, object, hrule⟩, -⟩
    obtain rfl := Except.ok.inj ((getObject_ofObject o).symm.trans ho')
    obtain ⟨houtput, hnone⟩ := (hbase base).mp hrule.actions
    obtain rfl := Option.mem_unique hobject hrule.object
    obtain ⟨input, pin, rfl, hpin, hm, ha⟩ := (parseMatch_printed_iff honly).mp hrule.parsed
    exact ⟨input, pin, base, hp, ⟨hpin, houtput⟩, hm, ha, fun ga hga => (himplicit ga).mp (hnone ga hga)⟩
  · rintro ⟨input, pin, base, h⟩
    obtain rfl := Except.ok.inj (h.written.symm.trans hp)
    refine ⟨o, getObject_ofObject o, hvalid, ⟨base, _, ⟨?_, hobject, ?_, ?_, ?_⟩⟩, ?_⟩
    · exact (hbase base).mpr ⟨h.found.2, fun ga hga => (himplicit ga).mpr (h.implicit ga hga)⟩
    · exact (parseMatch_printed_iff honly).mpr ⟨input, pin, rfl, h.found.1, h.matched, h.performed⟩
    · exact Json.text_eq_some.mpr hid
    · have hmember : member getInt (fun k => o[k]?) "priority" =
          some ((rule.priority : Int).bmod (2 ^ 32)) := member_eq_some.mpr ⟨_, hprio, rfl⟩
      rw [priorityOf, hmember, Option.map_some, Option.getD_some, priority_again hpriority]
    · intro hpop
      obtain ⟨ga, hga, htype⟩ := List.any_eq_true.mp hpop
      rcases h.implicit ga hga with heq | heq <;> simp [heq] at htype

/-- A rule that was parsed from a match on the input alone. -/
theorem RuleFrom.inputOnly (h : RuleFrom inet tables value rule)
    (honly : ∀ key, key ≠ .portIn → matchText value key = none) :
    InputOnly rule.match ∧ ReadPriority rule.priority := by
  obtain ⟨input, output, pin, action, hresolved⟩ := h.resolved
  have htext : matchText value = fun key => if key = .portIn then some input else none := by
    funext key
    split_ifs with hkey
    · rw [hkey]
      exact hresolved.named.1
    · exact honly key hkey
  refine ⟨⟨pin.tag, ?_⟩, ?_⟩
  · rw [hresolved.matched, htext, headerOf_portIn pin.tag (fun _ => none) input]
    rfl
  · obtain ⟨o, -, -, ⟨base, object, hrule⟩, -⟩ := h
    rw [hrule.priority, priorityOf]
    cases hmember : member getInt (fun k => o[k]?) "priority" with
    | none => exact ⟨0, by decide⟩
    | some n =>
      obtain ⟨v, -, hv⟩ := member_eq_some.mp hmember
      cases v with
      | int m =>
        obtain rfl := Except.ok.inj hv
        exact ⟨m, rfl⟩
      | _ => cases hv

/-! ## Graphs -/

/-- The graph is printed, and read back from there. -/
def GraphRoundTrips (inet : InetPton) (g : Graph) : Prop :=
  ∃ o, g.toJSON = .ok o ∧ parseGraph inet g.ID (documentOf o) = .ok g

/-- What a graph has to be like to be read back. -/
structure PrintableGraph (g : Graph) : Prop where
  endPointIds : (endPointIdsOf g).Nodup
  tunnelNames : ∀ e ∈ g.endPointsGre, e.name = nameBeforeTunnels g
  vnfIds : (g.vnfs.map VNFs.id).Nodup
  rules : ∀ rule ∈ g.rules, Resolves (graphTables g) rule

variable {g : Graph}

/-- What is found in a printed graph. -/
theorem document_of_toJSON (h : g.toJSON = .ok o) :
    (∀ name v, o[name]? = some v → validForwardingGraph name v) ∧
    itemsOf o "end-points" = g.endPointsJSON ∧
    itemsOf o "VNFs" = g.vnfs.map (fun v => .ofObject v.toJSON) ∧
    text (fun k => o[k]?) "name" = some g.name ∧
    ∃ objects, Forall₂ (fun (r : Rule) object => r.toJSON = .ok object) g.rules objects ∧
      flowRulesOf o = objects.map .ofObject := by
  simp only [Graph.toJSON, Abort.bind_eq_ok] at h
  obtain ⟨objects, hobjects, ho⟩ := h
  obtain rfl := Except.ok.inj ho
  have hswitch : validBigSwitch (.ofObject (ofMembers [
      ("flow-rules", some (.arr (objects.map .ofObject)))])) := by
    refine ⟨_, objects.map .ofObject, getObject_ofObject _, ?_, ?_⟩
    · simp [getElem?_ofMembers, lastOf]
    · apply forall_ofMembers
      simp
  refine ⟨?_, ?_, ?_, ?_, objects, Abort.forall₂_of_mapM hobjects, ?_⟩
  · apply forall_ofMembers
    simp [validForwardingGraph, getString, getArray, hswitch]
  · by_cases hnone : g.endPointsJSON = [] <;>
      simp [itemsOf, member, getElem?_ofMembers, lastOf, getArray, hnone]
  · by_cases hnone : g.vnfs = [] <;>
      simp [itemsOf, member, getElem?_ofMembers, lastOf, getArray, hnone]
  · simp [text, member, getElem?_ofMembers, lastOf, getString]
  · simp [flowRulesOf, itemsOf, member, getElem?_ofMembers, lastOf, getArray]

/-- Every printed endpoint is accepted and says its identifier. -/
theorem endPointFrom_printed :
    (∀ v ∈ g.endPointsJSON, EndPointFrom v (elementParts v)) ∧
    (g.endPointsJSON.map elementParts).filterMap EndPointParts.id = endPointIdsOf g := by
  have hfrom {ε : Type} {print : ε → Object} {parts : ε → EndPointParts}
      (h : ∀ e, Says (print e) (parts e)) (es : List ε) :
      ∀ v ∈ es.map fun e => Json.ofObject (print e), EndPointFrom v (elementParts v) := by
    intro v hv
    obtain ⟨e, -, rfl⟩ := mem_map.mp hv
    obtain ⟨hfrom, heq⟩ := (h e).endPointFrom
    rwa [heq]
  have hids {ε : Type} {print : ε → Object} {parts : ε → EndPointParts} {id : ε → String}
      (h : ∀ e, Says (print e) (parts e)) (hid : ∀ e, (parts e).id = some (id e)) (es : List ε) :
      ((es.map fun e => Json.ofObject (print e)).map elementParts).filterMap EndPointParts.id =
        es.map id := by
    induction es with
    | nil => rfl
    | cons e es ih =>
      rw [map_cons, map_cons, List.filterMap_cons_some ((congrArg _ (h e).endPointFrom.2).trans
        (hid e)), ih, map_cons]
  refine ⟨fun v hv => ?_, ?_⟩
  · simp only [Graph.endPointsJSON, List.mem_append] at hv
    rcases hv with ((hv | hv) | hv) | hv
    · exact hfrom says_interface _ v hv
    · exact hfrom says_internal _ v hv
    · exact hfrom says_gre _ v hv
    · exact hfrom says_vlan _ v hv
  · simp only [Graph.endPointsJSON, List.map_append, List.filterMap_append, endPointIdsOf]
    rw [hids says_interface fun _ => rfl, hids says_internal fun _ => rfl, hids says_gre fun _ => rfl,
      hids says_vlan fun _ => rfl]

/-- The network functions of a printed graph. -/
theorem forall₂_vnfFrom_printed {vs : List VNFs} (hvalid : ∀ v ∈ vs, ∀ p ∈ v.ports, ValidPort p)
    {vnfs : List (Option String × VNFs)} :
    Forall₂ VnfFrom (vs.map fun v => .ofObject v.toJSON) vnfs ↔
      vnfs = vs.map fun v => (some v.id, v) := by
  constructor
  · intro h
    rw [List.forall₂_map_left_iff] at h
    induction h with
    | nil => rfl
    | cons hv _ ih =>
      rw [forall_mem_cons] at hvalid
      rw [map_cons, hv.unique (vnfFrom_printed hvalid.1), ih hvalid.2]
  · rintro rfl
    rw [List.forall₂_map_left_iff, List.forall₂_map_right_iff, List.forall₂_same]
    exact fun v hv => vnfFrom_printed (hvalid v hv)

/-- The rules of a printed graph. -/
theorem forall₂_ruleFrom_printed {rules : List Rule}
    (hrules : ∀ r ∈ rules, InputOnly r.match ∧ ReadPriority r.priority) {objects : List Object}
    (h : Forall₂ (fun (r : Rule) object => r.toJSON = .ok object) rules objects) :
    Forall₂ (RuleFrom inet tables) (objects.map .ofObject) rules ↔
      ∀ r ∈ rules, Resolves tables r := by
  induction h with
  | nil => simp
  | cons hr _ ih =>
    rw [forall_mem_cons] at hrules
    rw [map_cons, List.forall₂_cons, ruleFrom_printed_iff hrules.1.1 hrules.1.2 hr, ih hrules.2,
      forall_mem_cons]

/-- A graph whose rules match on the input alone survives a round trip exactly when it is
printable. -/
theorem graph_roundTrips_iff {inet : InetPton} {ID : String} {doc : Json} {g : Graph}
    (hparse : parseGraph inet ID doc = .ok g)
    (honly : ∀ value ∈ flowRulesOf (graphObject doc), ∀ key, key ≠ .portIn →
      matchText value key = none) :
    GraphRoundTrips inet g ↔ PrintableGraph g := by
  obtain ⟨vnfs₀, ps₀, rules₀, hdoc⟩ := describes_of_parseGraph hparse
  have hrules : ∀ r ∈ g.rules, InputOnly r.match ∧ ReadPriority r.priority := by
    intro r hr
    obtain ⟨value, hvalue, hfrom⟩ := Json.exists_mem_left hdoc.rulesFrom
      (show r ∈ rules₀ by rwa [hdoc.graph] at hr)
    exact hfrom.inputOnly (honly value hvalue)
  have hports : ∀ v ∈ g.vnfs, ∀ p ∈ v.ports, ValidPort p := by
    rw [hdoc.graph]
    exact validPort_vnfsOf hdoc.vnfsFrom
  have hruleIds : (g.rules.map Rule.ruleID).Nodup := by
    rw [hdoc.graph]
    exact hdoc.ruleIds
  constructor
  · rintro ⟨o, ho, hback⟩
    obtain ⟨-, hends, hvnfs, -, objects, hobjects, hflow⟩ := document_of_toJSON ho
    obtain ⟨vnfs, ps, rules, h⟩ := parseGraph_documentOf.mp hback
    have hps := h.endPointsFrom
    rw [hends] at hps
    obtain rfl := (forall₂_endPointFrom_iff.mp hps).2
    have hvs := h.vnfsFrom
    rw [hvnfs] at hvs
    obtain rfl := (forall₂_vnfFrom_printed hports).mp hvs
    have hids : (endPointIdsOf g).Nodup := by
      rw [← endPointFrom_printed.2]
      exact h.endPointIds
    obtain ⟨htables, hgraph⟩ := endPointsOf_printed g
    refine ⟨hids, (renamedTunnels_eq_iff g).mp ?_, ?_, ?_⟩
    · have htunnels := congrArg Graph.endPointsGre h.graph
      rw [hgraph hids] at htunnels
      exact htunnels.symm
    · have hvnfIds := h.vnfIds
      rw [List.filterMap_map] at hvnfIds
      simpa [Function.comp_def] using hvnfIds
    · obtain rfl : g.rules = rules := congrArg Graph.rules h.graph
      have hfrom := h.rulesFrom
      rw [hflow, htables] at hfrom
      exact (forall₂_ruleFrom_printed hrules hobjects).mp hfrom
  · intro hprintable
    obtain ⟨objects, hobjects⟩ := (Abort.mapM_returns_iff (f := fun r : Rule => r.toJSON)).mpr
      fun r hr => by
        obtain ⟨input, pin, action, hresolves⟩ := hprintable.rules r hr
        rw [Rule.toJSON, Match.toJSON, hresolves.written]
        exact ⟨_, rfl⟩
    obtain ⟨o, ho⟩ : ∃ o, g.toJSON = .ok o := by
      rw [Graph.toJSON, hobjects]
      exact ⟨_, rfl⟩
    obtain ⟨hvalid, hends, hvnfs, hname, objects, hobjects, hflow⟩ := document_of_toJSON ho
    obtain ⟨htables, hgraph⟩ := endPointsOf_printed g
    refine ⟨o, ho, parseGraph_documentOf.mpr ⟨g.vnfs.map fun v => (some v.id, v),
      g.endPointsJSON.map elementParts, g.rules, hvalid, ?_, ?_, ?_, ?_, ?_, hruleIds, ?_⟩⟩
    · rw [hvnfs]
      exact (forall₂_vnfFrom_printed hports).mpr rfl
    · rw [List.filterMap_map]
      simpa [Function.comp_def] using hprintable.vnfIds
    · rw [hends]
      exact forall₂_endPointFrom_iff.mpr ⟨endPointFrom_printed.1, rfl⟩
    · rw [endPointFrom_printed.2]
      exact hprintable.endPointIds
    · rw [hflow, htables]
      exact (forall₂_ruleFrom_printed hrules hobjects).mpr hprintable.rules
    · rw [hname, hgraph hprintable.endPointIds, vnfsOf_of_nodup hprintable.vnfIds,
        (renamedTunnels_eq_iff g).mpr hprintable.tunnelNames]
      rfl

/-- The rule of a document with one rule matches on the input alone. -/
theorem matchText_oneRule (vnfs endPoints : List Json) (input : String) (actions : List Json) :
    ∀ value ∈ flowRulesOf (graphObject (oneRule vnfs endPoints input actions)), ∀ key,
      key ≠ .portIn → matchText value key = none := by
  intro value hvalue key hkey
  obtain rfl := List.mem_singleton.mp hvalue
  cases key <;> first | rfl | exact absurd rfl hkey

/-- The tag that a rule adds is printed into the object of its output, and the parser asserts that
such an object has one member. -/
theorem pushed_tag_not_parsed_again :
    ∃ g, parseGraph .none "1" (oneRule [] [interfaceElement "1" "eth0"] "endpoint:1"
        [.obj [("push_vlan", .str "5")], outputTo "endpoint:1"]) = .ok g ∧
      ∃ o, g.toJSON = .ok o ∧ parseGraph .none g.ID (documentOf o) = .error (.abort .assertion) := by
  have hclosed : ∃ g ∈ (parseGraph .none "1" (oneRule [] [interfaceElement "1" "eth0"] "endpoint:1"
        [.obj [("push_vlan", .str "5")], outputTo "endpoint:1"])).toOption,
      ∃ o ∈ g.toJSON.toOption, parseGraph .none g.ID (documentOf o) = .error (.abort .assertion) := by
    decide +kernel
  obtain ⟨g, hg, o, ho, hback⟩ := hclosed
  refine ⟨g, toOption_eq_some.mp hg, o, ?_, hback⟩
  cases hjson : g.toJSON with
  | error e => simp [hjson] at ho
  | ok o' => simpa [hjson] using ho

/-- A graph that leads one interface to another is read back. -/
theorem interfaces_roundTrip :
    ∃ g, parseGraph .none "1" (oneRule [] [interfaceElement "1" "eth0", interfaceElement "2" "eth1"]
        "endpoint:1" [outputTo "endpoint:2"]) = .ok g ∧ GraphRoundTrips .none g := by
  let pin : PortIn := { type := .port "eth0", inputEndpoint := "endpoint:1", greInput := nofun }
  let action : Action := { type := .port "eth1", endpointName := "endpoint:2" }
  let rule : Rule :=
    { «match» := pin.toMatch {}, action := action, ruleID := "1", priority := 0 }
  let g : Graph :=
    { ID := "1", rules := [rule], endPointsInterface := [⟨"1", "", "eth0"⟩, ⟨"2", "", "eth1"⟩] }
  have hparse : parseGraph .none "1" (oneRule [] [interfaceElement "1" "eth0",
      interfaceElement "2" "eth1"] "endpoint:1" [outputTo "endpoint:2"]) = .ok g := by
    decide +kernel
  refine ⟨g, hparse, (graph_roundTrips_iff hparse (matchText_oneRule _ _ _ _)).mpr ⟨?_, ?_, ?_, ?_⟩⟩
  · decide
  · simp [g]
  · simp [g]
  · intro r hr
    obtain rfl := List.mem_singleton.mp hr
    refine ⟨"endpoint:1", pin, action, rfl, ⟨?_, ?_⟩, rfl, rfl, by simp [rule, action]⟩
    · decide +kernel
    · decide +kernel

end UnOrchestrator.Parser
