import UnOrchestrator.Parser.Graph

/-!
# What the loops of the parser compute

Each loop over the members of an object comes down to a condition on the members and a
record of what they say. This module states these records and conditions for the parts of
a document.
-/

namespace UnOrchestrator.Parser

open Option (bind_some getD_some map_some some)

open Json (Object forEach forEach_eq_ok_iff getObject getString)

open Highlevel CString Failure

open Json (text member)

/-! ## Network functions -/

/-- The members that a port of a network function can have. -/
def validVnfPort (name : String) (v : Json) : Prop :=
  if name = "id" then Returns v.getString
  else if name = "name" then Returns v.getString
  else if name = "mac" then ∃ mac, v = .str mac ∧ validateMac mac ∧ isUnicastMac mac
  else name = "unify-ip"

/-- The port that the members describe. -/
def vnfPortOf (seen : String → Option Json) : VnfPort where
  id := (text seen "id").getD ""
  name := (text seen "name").getD ""
  configuration := { macAddress := (text seen "mac").getD "" }

variable {value : Json} {st' : EndPointState}

/-- A port of a network function is accepted exactly if all its members are, in any order. -/
theorem parseVnfPort_eq_ok_iff {port : VnfPort} :
    parseVnfPort value = .ok port ↔ ∃ o, value.getObject = .ok o ∧
      (∀ name v, o[name]? = some v → validVnfPort name v) ∧ port = vnfPortOf fun k => o[k]? := by
  rw [parseVnfPort, bind_eq_ok]
  refine exists_congr fun o => and_congr_right fun _ => ?_
  refine forEach_eq_ok_iff validVnfPort vnfPortOf ?_ o port
  intro seen name v _ r
  simp only [parseVnfPortKey, validVnfPort]
  split_ifs with hid hname hmac hip
  · subst hid
    exact bind_pure_eq_ok_iff fun s hs => by simp [vnfPortOf, hs]
  · subst hname
    exact bind_pure_eq_ok_iff fun s hs => by simp [vnfPortOf, hs]
  · subst hmac
    simp only [bind_eq_ok, Json.getString_eq_ok]
    constructor
    · rintro ⟨mac, rfl, hr⟩
      split_ifs at hr with hvalid hunicast
      rw [pure_eq_ok] at hr
      refine ⟨⟨mac, rfl, by simpa using hvalid, by simpa using hunicast⟩, ?_⟩
      simp [← hr, vnfPortOf, getString]
    · rintro ⟨⟨mac, rfl, hvalid, hunicast⟩, rfl⟩
      refine ⟨mac, rfl, ?_⟩
      simp [hvalid, hunicast, vnfPortOf, getString]
  · subst hip
    simp only [true_and]
    exact pure_eq_ok_iff (by simp [vnfPortOf])
  · simp [hip]

/-- The members that a network function can have, after others whose identifiers are used. -/
def validVnf (used : StringSet) (name : String) (v : Json) : Prop :=
  if name = "name" then Returns v.getString
  else if name = "vnf_template" then Returns v.getString
  else if name = "id" then ∃ id, v = .str id ∧ id ∉ used
  else if name = "unify-control" then True
  else if name = "unify-env-variables" then True
  else if name = "ports" then Returns (v.mapArray parseVnfPort)
  else if name = "groups" then Returns (v.mapArray Json.getString)
  else False

/-- The network function that the members describe. -/
def vnfOf (seen : String → Option Json) : VNFs where
  id := (text seen "id").getD ""
  name := (text seen "name").getD ""
  groups := (member (Json.mapArray Json.getString) seen "groups").getD []
  vnfTemplate := (text seen "vnf_template").getD ""
  ports := (member (Json.mapArray parseVnfPort) seen "ports").getD []

/-- The identifiers that are used after an element. -/
def usedAfter (used : StringSet) (id : Option String) : StringSet :=
  match id with
  | some id => used.insert id
  | none => used

/-- A network function is accepted exactly if all its members are and it has a name. -/
theorem parseVnf_eq_ok_iff {st st' : StringSet × Graph} :
    parseVnf st value = .ok st' ↔ ∃ o, value.getObject = .ok o ∧
      (∀ name v, o[name]? = some v → validVnf st.1 name v) ∧
      (text (fun k => o[k]?) "name").isSome ∧
      st' = (usedAfter st.1 (text (fun k => o[k]?) "id"), st.2.addVNF (vnfOf fun k => o[k]?)) := by
  let build (seen : String → Option Json) : VnfState :=
    { id := (vnfOf seen).id, name := (vnfOf seen).name, vnfTemplate := (vnfOf seen).vnfTemplate,
      groups := (vnfOf seen).groups, ports := (vnfOf seen).ports,
      foundName := (text seen "name").isSome, usedVNFID := usedAfter st.1 (text seen "id") }
  have hloop (o : Object) (s : VnfState) :
      forEach o { usedVNFID := st.1 } parseVnfKey = .ok s ↔
        (∀ name v, o[name]? = some v → validVnf st.1 name v) ∧ s = build fun k => o[k]? := by
    refine forEach_eq_ok_iff (validVnf st.1) build ?_ o s
    intro seen name v hseen r
    have hnew {β : Type} (read : Json → Except Failure β) : member read seen name = none := by
      simp [member, hseen name le_rfl]
    simp only [parseVnfKey, validVnf]
    split_ifs with hname htemplate hid hcontrol henv hports hgroups
    · subst hname
      exact bind_pure_eq_ok_iff fun s hs => by
        simp [build, vnfOf, hs]
    · subst htemplate
      exact bind_pure_eq_ok_iff fun s hs => by
        simp [build, vnfOf, hs]
    · subst hid
      simp only [← Json.getString_eq_ok]
      have hused : (build seen).usedVNFID = st.1 := by simp [build, text, hnew, usedAfter]
      rw [hused]
      exact bind_guard_eq_ok_iff fun s hs _ => by
        simp [build, vnfOf, hs, usedAfter]
    · subst hcontrol
      simp only [true_and]
      exact pure_eq_ok_iff (by simp [build, vnfOf])
    · subst henv
      simp only [true_and]
      exact pure_eq_ok_iff (by simp [build, vnfOf])
    · subst hports
      exact bind_pure_eq_ok_iff fun ports h => by
        simp [build, vnfOf, h, hnew]
    · subst hgroups
      exact bind_pure_eq_ok_iff fun ports h => by
        simp [build, vnfOf, h, hnew]
    · simp
  simp only [parseVnf, bind_eq_ok, hloop]
  refine exists_congr fun o => and_congr_right fun _ => ?_
  constructor
  · rintro ⟨s, ⟨hvalid, rfl⟩, hst⟩
    refine ⟨hvalid, ?_⟩
    split_ifs at hst with hfound
    exact ⟨hfound, (pure_eq_ok.mp hst).symm⟩
  · rintro ⟨hvalid, hfound, rfl⟩
    exact ⟨_, ⟨hvalid, rfl⟩, by rw [if_pos hfound]; rfl⟩

/-! ## Endpoints -/

/-- The members of the object `interface`. -/
def validInterface (name : String) (v : Json) : Prop :=
  if name = "node-id" then Returns v.getString
  else if name = "if-name" then Returns v.getString
  else False

/-- The object `interface`: it may have two members and no others. -/
theorem parseInterface_eq_ok_iff {ifName : Option String} :
    parseInterface value = .ok ifName ↔ ∃ o, value.getObject = .ok o ∧
      (∀ name v, o[name]? = some v → validInterface name v) ∧
      ifName = text (fun k => o[k]?) "if-name" := by
  rw [parseInterface, bind_eq_ok]
  refine exists_congr fun o => and_congr_right fun _ => ?_
  refine forEach_eq_ok_iff validInterface (fun seen => text seen "if-name") ?_ o ifName
  intro seen name v _ r
  simp only [validInterface]
  split_ifs with hnode hif
  · subst hnode
    exact bind_pure_eq_ok_iff fun s hs => by simp
  · subst hif
    exact bind_pure_eq_ok_iff fun s hs => by simp [hs]
  · simp

/-- The object `internal`: other members than the group are not looked at. -/
theorem parseInternal_eq_ok_iff {inGroup : Option String} :
    parseInternal value = .ok inGroup ↔ ∃ o, value.getObject = .ok o ∧
      (∀ name v, o[name]? = some v → name = "internal-group" → Returns v.getString) ∧
      inGroup = text (fun k => o[k]?) "internal-group" := by
  rw [parseInternal, bind_eq_ok]
  refine exists_congr fun o => and_congr_right fun _ => ?_
  refine forEach_eq_ok_iff (fun name v => name = "internal-group" → Returns v.getString)
    (fun seen => text seen "internal-group") ?_ o inGroup
  intro seen name v _ r
  split_ifs with hgroup
  · subst hgroup
    simp only [true_implies]
    exact bind_pure_eq_ok_iff fun s hs => by simp [hs]
  · simp only [hgroup, false_implies, true_and]
    exact pure_eq_ok_iff (by simp [Ne.symm hgroup])

/-- The members of the object `vlan` that are looked at. -/
def validVlan (name : String) (v : Json) : Prop :=
  if name = "vlan-id" then Returns v.getString
  else if name = "if-name" then Returns v.getString
  else if name = "node-id" then Returns v.getString
  else True

/-- The object `vlan`: other members than three are not looked at. -/
theorem parseVlan_eq_ok_iff {vlan : VlanAttributes} :
    parseVlan value = .ok vlan ↔ ∃ o, value.getObject = .ok o ∧
      (∀ name v, o[name]? = some v → validVlan name v) ∧
      vlan = ⟨text (fun k => o[k]?) "vlan-id", text (fun k => o[k]?) "if-name"⟩ := by
  rw [parseVlan, bind_eq_ok]
  refine exists_congr fun o => and_congr_right fun _ => ?_
  refine forEach_eq_ok_iff validVlan
    (fun seen => (⟨text seen "vlan-id", text seen "if-name"⟩ : VlanAttributes)) ?_ o vlan
  intro seen name v _ r
  simp only [validVlan]
  split_ifs with hid hif hnode
  · subst hid
    exact bind_pure_eq_ok_iff fun s hs => by simp [hs]
  · subst hif
    exact bind_pure_eq_ok_iff fun s hs => by simp [hs]
  · subst hnode
    exact bind_pure_eq_ok_iff fun s hs => by simp
  · simp only [true_and]
    exact pure_eq_ok_iff (by simp [Ne.symm hid, Ne.symm hif])

/-- The members of the object `gre-tunnel`. -/
def validGre (name : String) (v : Json) : Prop :=
  if name = "local-ip" then Returns v.getString
  else if name = "remote-ip" then Returns v.getString
  else if name = "ttl" then Returns v.getString
  else if name = "gre-key" then Returns v.getString
  else if name = "secure" then Returns v.getBool
  else False

/-- The tunnel that the members describe; the three attributes without a default must be
given. -/
def greOf (id eName : String) (seen : String → Option Json) : EndPointGre where
  id := id
  name := eName
  localIp := (text seen "local-ip").getD ""
  remoteIp := (text seen "remote-ip").getD ""
  greKey := (text seen "gre-key").getD ""
  ttl := (text seen "ttl").getD ""
  isSafe := (member Json.getBool seen "secure").getD false

/-- A tunnel is accepted exactly if its members are and the addresses and the key are given. -/
theorem parseGre_eq_ok_iff {id eName : String} {e : EndPointGre} :
    parseGre id eName value = .ok e ↔ ∃ o, value.getObject = .ok o ∧
      (∀ name v, o[name]? = some v → validGre name v) ∧
      (∀ name ∈ ["local-ip", "remote-ip", "gre-key"], (text (fun k => o[k]?) name).isSome) ∧
      e = greOf id eName fun k => o[k]? := by
  let build (seen : String → Option Json) : GreAttributes :=
    { localIp := text seen "local-ip", remoteIp := text seen "remote-ip",
      greKey := text seen "gre-key", ttl := (text seen "ttl").getD "",
      safe := (member Json.getBool seen "secure").getD false }
  have hloop (o : Object) (gre : GreAttributes) :
      forEach o {} parseGreKey = .ok gre ↔
        (∀ name v, o[name]? = some v → validGre name v) ∧ gre = build fun k => o[k]? := by
    refine forEach_eq_ok_iff validGre build ?_ o gre
    intro seen name v _ r
    simp only [parseGreKey, validGre]
    split_ifs with hlocal hremote httl hkey hsecure
    · subst hlocal
      exact bind_pure_eq_ok_iff fun s hs => by simp [build, hs]
    · subst hremote
      exact bind_pure_eq_ok_iff fun s hs => by simp [build, hs]
    · subst httl
      exact bind_pure_eq_ok_iff fun s hs => by simp [build, hs]
    · subst hkey
      exact bind_pure_eq_ok_iff fun s hs => by simp [build, hs]
    · subst hsecure
      exact bind_pure_eq_ok_iff fun s hs => by simp [build, hs]
    · simp
  simp only [parseGre, bind_eq_ok, hloop]
  refine exists_congr fun o => and_congr_right fun _ => ?_
  constructor
  · rintro ⟨gre, ⟨hvalid, rfl⟩, he⟩
    refine ⟨hvalid, ?_⟩
    cases hlocal : text (fun k => o[k]?) "local-ip" <;>
      cases hremote : text (fun k => o[k]?) "remote-ip" <;>
      cases hkey : text (fun k => o[k]?) "gre-key" <;>
      simp only [build, hlocal, hremote, hkey, reduceCtorEq] at he
    rw [pure_eq_ok] at he
    exact ⟨by simp [hlocal, hremote, hkey], by simp [← he, greOf, hlocal, hremote, hkey]⟩
  · rintro ⟨hvalid, hgiven, rfl⟩
    refine ⟨_, ⟨hvalid, rfl⟩, ?_⟩
    simp only [List.forall_mem_cons, Option.isSome_iff_exists] at hgiven
    obtain ⟨⟨localIp, hlocal⟩, ⟨remoteIp, hremote⟩, ⟨greKey, hkey⟩, -⟩ := hgiven
    simp only [build, greOf, hlocal, hremote, hkey]
    rfl

/-- The identifier and the name of a tunnel have no part in what is accepted. -/
theorem parseGre_rename (id eName : String) (value : Json) :
    parseGre id eName value =
      (parseGre "" "" value >>= fun e => pure { e with id := id, name := eName }) := by
  unfold parseGre
  cases value.getObject with
  | error e => rfl
  | ok o =>
    simp only [ok_bind]
    cases forEach o {} parseGreKey with
    | error e => rfl
    | ok gre =>
      simp only [ok_bind]
      cases gre.localIp <;> cases gre.remoteIp <;> cases gre.greKey <;> rfl

/-- The members of an endpoint, after others whose identifiers are used. -/
def validEndPoint (used : StringSet) (name : String) (v : Json) : Prop :=
  if name = "id" then ∃ id, v.getString = .ok id ∧ id ∉ used
  else if name = "name" then Returns v.getString
  else if name = "type" then Returns v.getString
  else if name = "interface" then Returns (parseInterface v)
  else if name = "internal" then Returns (parseInternal v)
  else if name = "interface-out" then True
  else if name = "vlan" then Returns (parseVlan v)
  else if name = "gre-tunnel" then Returns (parseGre "" "" v)
  else Returns v.getString

/-- What the members of an endpoint say: its identifier and name, and for each kind the
attributes, if it is of the kind. -/
structure EndPointParts where
  id : Option String
  name : Option String
  interface : Option (Option String)
  internal : Option (Option String)
  vlan : Option VlanAttributes
  gre : Option EndPointGre
  deriving DecidableEq

def partsOf (seen : String → Option Json) : EndPointParts where
  id := text seen "id"
  name := text seen "name"
  interface := member parseInterface seen "interface"
  internal := member parseInternal seen "internal"
  vlan := member parseVlan seen "vlan"
  gre := member (parseGre "" "") seen "gre-tunnel"

namespace EndPointParts

/-- The variables after the members; a tunnel has set the identifier that was found ahead. -/
def vars (p : EndPointParts) (ahead : String) (v : EndPointVars) : EndPointVars where
  id := p.id.getD (if p.gre.isSome then ahead else v.id)
  vId := (p.vlan.bind VlanAttributes.vlanId).getD v.vId
  eName := p.name.getD v.eName
  interface := (p.vlan.bind VlanAttributes.ifName <|> p.interface.join).getD v.interface
  inGroup := p.internal.join.getD v.inGroup
  eIf := v.eIf || p.interface.isSome
  eInternal := v.eInternal || p.internal.isSome
  eVlan := v.eVlan || p.vlan.isSome

/-- The tables after the members, which have left the variables as given. -/
def tables (p : EndPointParts) (ahead : String) (v : EndPointVars) (t : EndPointTables) :
    EndPointTables where
  ifaceId := match p.interface.join with
    | some ifName => t.ifaceId.insert v.id ifName
    | none => t.ifaceId
  internalId := if p.internal.isSome then t.internalId.insert v.id v.inGroup else t.internalId
  vlanId := if p.vlan.isSome then t.vlanId.insert v.id (v.vId, v.interface) else t.vlanId
  greId := match p.gre with
    | some e => t.greId.insert ahead e.localIp
    | none => t.greId

/-- The graph after the members: a tunnel is added at once, with the name that an earlier
element has left. -/
def graph (p : EndPointParts) (ahead eName : String) (g : Graph) : Graph :=
  match p.gre with
  | some e => g.addEndPointGre { e with id := ahead, name := eName }
  | none => g

/-- The state after the members. -/
def state (p : EndPointParts) (ahead : String) (st : EndPointState) : EndPointState where
  vars := p.vars ahead st.vars
  usedEndpointID := usedAfter st.usedEndpointID p.id
  tables := p.tables ahead (p.vars ahead st.vars) st.tables
  graph := p.graph ahead st.vars.eName st.graph

end EndPointParts

theorem idAhead_eq_ok_iff {endPoint : Object} {id ahead : String} :
    idAhead endPoint id = .ok ahead ↔
      (∀ w, endPoint["id"]? = some w → Returns w.getString) ∧
        ahead = (text (fun k => endPoint[k]?) "id").getD id := by
  unfold idAhead
  cases hlater : endPoint["id"]? with
  | none =>
    rw [pure_eq_ok_iff rfl]
    simp [text, member, hlater]
  | some w => cases hw : w.getString <;> simp [text, member, hlater, hw, eq_comm]

/-- One round of the loop over the members of an endpoint. -/
theorem parseEndPointKey_eq_ok_iff (endPoint : Object) (st : EndPointState) {ahead : String}
    (hahead : ahead = (text (fun k => endPoint[k]?) "id").getD st.vars.id)
    {seen : String → Option Json} {name : String} {v : Json}
    (hseen : ∀ k, name ≤ k → seen k = none) (r : EndPointState) :
    parseEndPointKey endPoint ((partsOf seen).state ahead st) name v = .ok r ↔
      (validEndPoint st.usedEndpointID name v ∧
        (name = "gre-tunnel" → ∀ w, endPoint["id"]? = some w → Returns w.getString)) ∧
      r = (partsOf (Function.update seen name (some v))).state ahead st := by
  have hnone {β : Type} (read : Json → Except Failure β) {k : String} (hk : name ≤ k) :
      member read seen k = none := by
    simp [member, hseen k hk]
  simp only [parseEndPointKey, validEndPoint]
  split_ifs with hid hname htype hif hinternal hout hvlan hgre
  · subst hid
    have hused : ((partsOf seen).state ahead st).usedEndpointID = st.usedEndpointID := by
      simp [EndPointParts.state, partsOf, hnone, usedAfter]
    rw [hused]
    simp only [String.reduceEq, false_implies, and_true]
    refine bind_guard_eq_ok_iff fun s hs _ => ?_
    simp [EndPointParts.state, EndPointParts.vars, EndPointParts.tables, EndPointParts.graph,
      partsOf, text, hs, usedAfter, hnone]
  · subst hname
    simp only [String.reduceEq, false_implies, and_true]
    refine bind_pure_eq_ok_iff fun s hs => ?_
    have hparts : partsOf (Function.update seen "name" (some v)) =
        { partsOf seen with name := some s } := by
      simp [partsOf, hs]
    rw [hparts]
    rfl
  · subst htype
    simp only [String.reduceEq, false_implies, and_true]
    refine bind_pure_eq_ok_iff fun s hs => ?_
    simp [partsOf]
  · subst hif
    simp only [String.reduceEq, false_implies, and_true]
    cases hv : parseInterface v with
    | error e => simp
    | ok ifName =>
      simp only [ok_bind, returns_ok, true_and]
      cases ifName <;>
        exact pure_eq_ok_iff (by
          simp [EndPointParts.state, EndPointParts.vars, EndPointParts.tables, EndPointParts.graph,
            partsOf, text, hv, hnone])
  · subst hinternal
    simp only [String.reduceEq, false_implies, and_true]
    refine bind_pure_eq_ok_iff fun s hs => ?_
    simp [EndPointParts.state, EndPointParts.vars, EndPointParts.tables, EndPointParts.graph,
      partsOf, text, hs, hnone]
  · subst hout
    simp only [String.reduceEq, false_implies, and_true, true_and]
    exact pure_eq_ok_iff (by simp [partsOf])
  · subst hvlan
    simp only [String.reduceEq, false_implies, and_true]
    refine bind_pure_eq_ok_iff fun s hs => ?_
    simp [EndPointParts.state, EndPointParts.vars, EndPointParts.tables, EndPointParts.graph,
      partsOf, text, hs, hnone]
  · subst hgre
    simp only [true_implies]
    have hid : ((partsOf seen).state ahead st).vars.id = st.vars.id := by
      simp [EndPointParts.state, EndPointParts.vars, partsOf, text,
        hnone]
    have hname : ((partsOf seen).state ahead st).vars.eName = st.vars.eName := by
      simp [EndPointParts.state, EndPointParts.vars, partsOf, text,
        hnone]
    have hstate (e : EndPointGre) (he : parseGre "" "" v = .ok e) :
        { (partsOf seen).state ahead st with
          vars := { ((partsOf seen).state ahead st).vars with id := ahead, eName := st.vars.eName }
          tables := { ((partsOf seen).state ahead st).tables with
            greId := ((partsOf seen).state ahead st).tables.greId.insert ahead e.localIp }
          graph := ((partsOf seen).state ahead st).graph.addEndPointGre
            { e with id := ahead, name := st.vars.eName } } =
        (partsOf (Function.update seen "gre-tunnel" (some v))).state ahead st := by
      simp [EndPointParts.state, EndPointParts.vars, EndPointParts.tables, EndPointParts.graph,
        partsOf, text, he,
        hnone]
    simp only [hid, hname, bind_eq_ok, idAhead_eq_ok_iff, ← hahead]
    constructor
    · rintro ⟨_, ⟨hlater, rfl⟩, gre, hgre, hr⟩
      rw [parseGre_rename, bind_eq_ok] at hgre
      obtain ⟨e, he, hgre⟩ := hgre
      obtain rfl := pure_eq_ok.mp hgre
      exact ⟨⟨⟨e, he⟩, hlater⟩, (pure_eq_ok.mp hr).symm.trans (hstate e he)⟩
    · rintro ⟨⟨⟨e, he⟩, hlater⟩, rfl⟩
      refine ⟨ahead, ⟨hlater, rfl⟩, { e with id := ahead, name := st.vars.eName }, ?_, ?_⟩
      · rw [parseGre_rename, he]
        rfl
      · rw [← hstate e he]
        rfl
  · simp only [hgre, false_implies, and_true]
    refine bind_pure_eq_ok_iff fun s hs => ?_
    simp [partsOf, Ne.symm hid, Ne.symm hname, Ne.symm hif, Ne.symm hinternal,
      Ne.symm hvlan, Ne.symm hgre]

/-- The loop over the members of an endpoint. -/
theorem forEach_parseEndPointKey {endPoint : Object} {st : EndPointState} :
    forEach endPoint st (parseEndPointKey endPoint) = .ok st' ↔
      (∀ name v, endPoint[name]? = some v → validEndPoint st.usedEndpointID name v) ∧
      st' = (partsOf fun k => endPoint[k]?).state
        ((text (fun k => endPoint[k]?) "id").getD st.vars.id) st := by
  have hinit (ahead : String) : (partsOf fun _ => none).state ahead st = st := by
    simp [EndPointParts.state, partsOf, member, EndPointParts.vars, EndPointParts.tables,
      EndPointParts.graph, usedAfter]
  have hloop := forEach_eq_ok_iff _ _
    (fun _ _ _ hseen => parseEndPointKey_eq_ok_iff endPoint st rfl hseen) endPoint st'
  rw [hinit] at hloop
  refine hloop.trans (and_congr_left fun _ => ⟨fun h name v hv => (h name v hv).1, ?_⟩)
  intro h name v hv
  refine ⟨h name v hv, fun _ w hw => ?_⟩
  have hid := h "id" w hw
  simp only [validEndPoint, if_true] at hid
  obtain ⟨id, hid, -⟩ := hid
  exact ⟨id, hid⟩

/-- The state after an element of `end-points`. -/
def EndPointParts.apply (p : EndPointParts) (st : EndPointState) : EndPointState :=
  (p.state (p.id.getD st.vars.id) st).addEndPoint

/-- An endpoint is accepted exactly if all its members are. -/
theorem parseEndPoint_eq_ok_iff {st : EndPointState} :
    parseEndPoint st value = .ok st' ↔ ∃ o, value.getObject = .ok o ∧
      (∀ name v, o[name]? = some v → validEndPoint st.usedEndpointID name v) ∧
      st' = (partsOf fun k => o[k]?).apply st := by
  simp only [parseEndPoint, bind_eq_ok, forEach_parseEndPointKey, pure_eq_ok]
  refine exists_congr fun o => and_congr_right fun _ => ?_
  constructor
  · rintro ⟨_, ⟨hvalid, rfl⟩, rfl⟩
    exact ⟨hvalid, rfl⟩
  · rintro ⟨hvalid, rfl⟩
    exact ⟨_, ⟨hvalid, rfl⟩, rfl⟩

/-! ## Rules -/

/-- The members of a rule, the two that need the tables apart. -/
def validRule (name : String) (v : Json) : Prop :=
  if name = "id" then Returns v.getString
  else if name = "description" then Returns v.getString
  else if name = "priority" then Returns v.getInt
  else name = "match" ∨ name = "actions"

/-- The priority that a rule asks for. -/
def priorityOf (seen : String → Option Json) : Nat :=
  ((member Json.getInt seen "priority").map fun n => (n % 2 ^ 64).toNat).getD 0

/-- The rule is what the members of an object describe: the match is parsed with the action
at hand, to which it can add. -/
structure RuleOf (inet : InetPton) (tables : EndPointTables) (o : Json.Object)
    (base : Action) (matchObject : Json.Object) (rule : Rule) : Prop where
  actions : member (parseActions tables) (fun k => o[k]?) "actions" = some base
  object : member Json.getObject (fun k => o[k]?) "match" = some matchObject
  parsed : parseMatch inet tables matchObject (some base) = .ok (rule.match, some rule.action)
  id : text (fun k => o[k]?) "id" = some rule.ruleID
  priority : rule.priority = priorityOf fun k => o[k]?

/-- An element of `flow-rules` stands for a rule. -/
def RuleFrom (inet : InetPton) (tables : EndPointTables) (value : Json) (rule : Rule) : Prop :=
  ∃ o, value.getObject = .ok o ∧ (∀ name v, o[name]? = some v → validRule name v) ∧
    (∃ base matchObject, RuleOf inet tables o base matchObject rule) ∧
    (rule.action.genericActions.any (fun ga => ga.type == .vlanPop) →
      checkVlanPresence rule.match.toMatch)

section Rule

variable {inet : InetPton} {tables : EndPointTables}

/-- The match of a rule, parsed with the action that the members before it describe. -/
def matchOfRule (inet : InetPton) (tables : EndPointTables) (seen : String → Option Json) :
    Option (Highlevel.Match × Option Action) :=
  (member Json.getObject seen "match").bind fun object =>
    (parseMatch inet tables object (member (parseActions tables) seen "actions")).toOption

/-- What the loop over the members of a rule leaves. -/
def ruleStateOf (inet : InetPton) (tables : EndPointTables) (seen : String → Option Json) :
    RuleState where
  action := match matchOfRule inet tables seen with
    | some (_, action) => action
    | none => member (parseActions tables) seen "actions"
  «match» := (matchOfRule inet tables seen).map Prod.fst
  ruleID := text seen "id"
  priority := priorityOf seen

/-- The loop over the members of a rule: the actions come before the match. -/
theorem forEach_parseRuleKey {o : Object} {st : RuleState} :
    forEach o {} (parseRuleKey inet tables) = .ok st ↔
      (∀ name v, o[name]? = some v → validRule name v ∧
        (name = "actions" → Returns (parseActions tables v)) ∧
        (name = "match" → (matchOfRule inet tables fun k => o[k]?).isSome)) ∧
      st = ruleStateOf inet tables fun k => o[k]? := by
  refine Json.forEach_eq_ok_iff_of_below _ (ruleStateOf inet tables) o ?_ st
  intro seen name v hseen hv r
  have hnone {β : Type} (read : Json → Except Failure β) {k : String} (hk : name ≤ k) :
      member read seen k = none := by
    simp [member, hseen, hk.not_gt]
  simp only [parseRuleKey, validRule]
  split_ifs with hid hdescr hpriority hmatch hactions
  · subst hid
    simp only [String.reduceEq, false_implies, and_true]
    exact bind_pure_eq_ok_iff fun s hs => by
      simp [ruleStateOf, matchOfRule, priorityOf, hs]
  · subst hdescr
    simp only [String.reduceEq, false_implies, and_true]
    exact bind_pure_eq_ok_iff fun s hs => by
      simp [ruleStateOf, matchOfRule, priorityOf]
  · subst hpriority
    simp only [String.reduceEq, false_implies, and_true]
    exact bind_pure_eq_ok_iff fun s hs => by
      simp [ruleStateOf, matchOfRule, priorityOf, hs]
  · subst hmatch
    -- the actions come before the match
    have hactions : member (parseActions tables) seen "actions" =
        member (parseActions tables) (fun k => o[k]?) "actions" := by
      simp [member, hseen, show "actions" < "match" by decide]
    have hnew : matchOfRule inet tables seen = none := by
      simp [matchOfRule, hnone getObject (le_refl "match")]
    have haction : (ruleStateOf inet tables seen).action =
        member (parseActions tables) (fun k => o[k]?) "actions" := by
      simp [ruleStateOf, hnew, hactions]
    simp only [haction, String.reduceEq, false_implies, true_implies,
      true_or, true_and, matchOfRule]
    cases hobject : v.getObject with
    | error e => simp [member, hv, hobject]
    | ok object =>
      cases hparse : parseMatch inet tables object
          (member (parseActions tables) (fun k => o[k]?) "actions") with
      | error e => simp [member, hv, hobject] at hparse ⊢; simp [hparse]
      | ok result =>
        have hupdate : matchOfRule inet tables (Function.update seen "match" (some v)) =
            some result := by
          simp [matchOfRule, hobject, hactions, hparse]
        have hwhole : ((member getObject (fun k => o[k]?) "match").bind fun object =>
            (parseMatch inet tables object
              (member (parseActions tables) (fun k => o[k]?) "actions")).toOption) =
            some result := by
          rw [show member getObject (fun k => o[k]?) "match" = some object by
            simp [member, hv, hobject], bind_some, hparse]
          rfl
        simp only [ok_bind, hparse, hwhole, Option.isSome_some, true_and]
        refine pure_eq_ok_iff ?_
        simp [ruleStateOf, hupdate, priorityOf]
  · subst hactions
    simp only [String.reduceEq, false_implies, true_implies,
      or_true, true_and, and_true]
    exact bind_pure_eq_ok_iff fun s hs => by
      simp [ruleStateOf, matchOfRule, priorityOf, hs,
        hnone]
  · simp [hmatch, hactions]

/-- The match adds to the action that is there. -/
theorem isSome_of_parseMatch {object : Object} {action : Option Action} {m : Highlevel.Match}
    {a : Action} (h : parseMatch inet tables object action = .ok (m, some a)) : action.isSome := by
  obtain ⟨-, input, -, -, ha⟩ := parseMatch_eq_ok_iff.mp h
  cases action with
  | some _ => rfl
  | none =>
    unfold PortIn.onAction at ha
    cases htag : input.tag <;> simp [htag] at ha

/-- An element of `flow-rules` is accepted exactly if it is a rule with a new identifier. -/
theorem parseRule_eq_ok_iff {graph graph' : Graph} {value : Json} :
    parseRule inet tables graph value = .ok graph' ↔
      ∃ rule, RuleFrom inet tables value rule ∧ graph.ruleExists rule.ruleID = false ∧
        graph' = graph.addRule rule := by
  simp only [parseRule, bind_eq_ok, forEach_parseRuleKey]
  constructor
  · rintro ⟨o, ho, st, ⟨hvalid, rfl⟩, hrule⟩
    cases hmatch : matchOfRule inet tables fun k => o[k]? with
    | none => simp [ruleStateOf, hmatch] at hrule
    | some pair =>
      obtain ⟨m, action⟩ := pair
      cases action with
      | none => simp [ruleStateOf, hmatch] at hrule
      | some action =>
        cases hid : text (fun k => o[k]?) "id" with
        | none => simp [ruleStateOf, hmatch, hid] at hrule
        | some ruleID =>
          simp only [ruleStateOf, hmatch, hid, map_some] at hrule
          split_ifs at hrule with hexists hpop
          obtain ⟨object, hobject, hparse⟩ := Option.bind_eq_some_iff.mp hmatch
          rw [toOption_eq_some] at hparse
          obtain ⟨base, hbase⟩ := Option.isSome_iff_exists.mp (isSome_of_parseMatch hparse)
          rw [hbase] at hparse
          refine ⟨_, ⟨o, ho, fun name v hv => (hvalid name v hv).1,
            ⟨base, object, hbase, hobject, hparse, hid, rfl⟩, ?_⟩, by simpa using hexists,
            (pure_eq_ok.mp hrule).symm⟩
          intro hany
          by_contra hvlan
          exact hpop ⟨hany, by simpa using hvlan⟩
  · rintro ⟨rule, ⟨o, ho, hvalid, ⟨base, matchObject, hrule⟩, hpop⟩, hnew, rfl⟩
    have hmatch : matchOfRule inet tables (fun k => o[k]?) = some (rule.match, some rule.action) := by
      rw [matchOfRule, hrule.object, bind_some, hrule.actions, hrule.parsed]
      rfl
    refine ⟨o, ho, _, ⟨fun name v hv => ⟨hvalid name v hv, ?_, ?_⟩, rfl⟩, ?_⟩
    · rintro rfl
      obtain ⟨w, hw, hbase⟩ := Json.member_eq_some.mp hrule.actions
      obtain rfl : w = v := Option.mem_unique hw hv
      exact ⟨base, hbase⟩
    · simp [hmatch]
    · simp only [ruleStateOf, hmatch, hrule.id, map_some, hnew, Bool.false_eq_true, if_false]
      rw [if_neg (fun h => h.2 (hpop h.1)), pure_eq_ok, ← hrule.priority]

/-- The elements of `flow-rules` stand for rules with distinct identifiers. -/
theorem foldlM_parseRule {graph graph' : Graph} {items : List Json} :
    items.foldlM (parseRule inet tables) graph = .ok graph' ↔
      ∃ rules, List.Forall₂ (RuleFrom inet tables) items rules ∧
        (rules.map Rule.ruleID).Nodup ∧ (∀ r ∈ rules, graph.ruleExists r.ruleID = false) ∧
        graph' = rules.foldl Graph.addRule graph := by
  have hexists (g : Graph) (r : Rule) (i : String) : (g.addRule r).ruleExists i = true ↔
      g.ruleExists i = true ∨ some r.ruleID = some i := by
    simp only [Graph.ruleExists, Graph.addRule, KeyedList.pushNew, Rule.key, List.mem_map]
    split_ifs with h
    · obtain ⟨r', hr', hid⟩ := h
      simp only [List.any_eq_true, beq_iff_eq, some.injEq]
      constructor
      · exact .inl
      · rintro (h | rfl)
        · exact h
        · exact ⟨r', hr', hid⟩
    · simp
  have hstep (g : Graph) (v : Json) (g' : Graph) : parseRule inet tables g v = .ok g' ↔
      ∃ r, RuleFrom inet tables v r ∧
        (∀ i, some r.ruleID = some i → ¬ g.ruleExists i = true) ∧ g' = g.addRule r := by
    simp [parseRule_eq_ok_iff]
  rw [Json.foldlM_fresh_iff (RuleFrom inet tables) (fun r => some r.ruleID)
    (fun g i => g.ruleExists i = true) Graph.addRule hstep hexists items graph graph']
  have hids (rules : List Rule) : rules.filterMap (fun r => some r.ruleID) =
      rules.map Rule.ruleID := congrFun List.filterMap_eq_map' rules
  simp [hids]

end Rule

/-! ## The arrays of a document -/

theorem mem_usedAfter {used : StringSet} {id : Option String} {i : String} :
    i ∈ usedAfter used id ↔ i ∈ used ∨ id = some i := by
  cases id with
  | none => simp [usedAfter]
  | some id => simp [usedAfter, Std.ExtTreeSet.mem_insert, or_comm]

/-- A condition on members that demands a new identifier is one on each member alone and one on
the identifier. -/
theorem forall_members_fresh {o : Object} {used : StringSet} {valid alone : String → Json → Prop}
    (h : ∀ name v, valid name v ↔ alone name v ∧ (name = "id" → ∀ i, v = .str i → i ∉ used)) :
    (∀ name v, o[name]? = some v → valid name v) ↔
      (∀ name v, o[name]? = some v → alone name v) ∧
        ∀ i, text (fun k => o[k]?) "id" = some i → i ∉ used := by
  simp only [h, Json.text_eq_some]
  constructor
  · intro hall
    exact ⟨fun name v hv => (hall name v hv).1, fun i hi => (hall "id" _ hi).2 rfl i rfl⟩
  · rintro ⟨halone, hnew⟩ name v hv
    refine ⟨halone name v hv, ?_⟩
    rintro rfl i rfl
    exact hnew i hv

/-- An element of `VNFs` stands for a network function, with the identifier it declares. -/
def VnfFrom (value : Json) (vnf : Option String × VNFs) : Prop :=
  ∃ o, value.getObject = .ok o ∧ (∀ name v, o[name]? = some v → validVnf ∅ name v) ∧
    (text (fun k => o[k]?) "name").isSome ∧
    vnf = (text (fun k => o[k]?) "id", vnfOf fun k => o[k]?)

/-- The elements of `VNFs` stand for network functions that declare distinct identifiers. -/
theorem foldlM_parseVnf {st st' : StringSet × Graph} {items : List Json} :
    items.foldlM parseVnf st = .ok st' ↔
      ∃ vnfs, List.Forall₂ VnfFrom items vnfs ∧ (vnfs.filterMap Prod.fst).Nodup ∧
        (∀ id ∈ vnfs.filterMap Prod.fst, id ∉ st.1) ∧
        st' = vnfs.foldl (fun st vnf => (usedAfter st.1 vnf.1, st.2.addVNF vnf.2)) st := by
  refine Json.foldlM_fresh_iff VnfFrom Prod.fst (fun st i => i ∈ st.1)
    (fun st vnf => (usedAfter st.1 vnf.1, st.2.addVNF vnf.2)) ?_
    (fun _ _ _ => mem_usedAfter) items st st'
  intro st v st'
  have hvalid (o : Object) : (∀ name v, o[name]? = some v → validVnf st.1 name v) ↔
      (∀ name v, o[name]? = some v → validVnf ∅ name v) ∧
        ∀ i, text (fun k => o[k]?) "id" = some i → i ∉ st.1 := by
    refine forall_members_fresh fun name v => ?_
    by_cases hid : name = "id"
    · subst hid
      cases v <;> simp [validVnf]
    · simp [validVnf, hid]
  rw [parseVnf_eq_ok_iff]
  constructor
  · rintro ⟨o, ho, h, hname, rfl⟩
    obtain ⟨h, hnew⟩ := (hvalid o).mp h
    exact ⟨_, ⟨o, ho, h, hname, rfl⟩, hnew, rfl⟩
  · rintro ⟨_, ⟨o, ho, h, hname, rfl⟩, hnew, rfl⟩
    exact ⟨o, ho, (hvalid o).mpr ⟨h, hnew⟩, hname, rfl⟩

/-- An element of `end-points` stands for what its members say. -/
def EndPointFrom (value : Json) (p : EndPointParts) : Prop :=
  ∃ o, value.getObject = .ok o ∧ (∀ name v, o[name]? = some v → validEndPoint ∅ name v) ∧
    p = partsOf fun k => o[k]?

theorem EndPointParts.apply_usedEndpointID (p : EndPointParts) (st : EndPointState) :
    (p.apply st).usedEndpointID = usedAfter st.usedEndpointID p.id := by
  simp only [apply, EndPointState.addEndPoint]
  split_ifs <;> rfl

/-- The same for `end-points`, the elements of which also leave variables to the next. -/
theorem foldlM_parseEndPoint {st : EndPointState} {items : List Json} :
    items.foldlM parseEndPoint st = .ok st' ↔
      ∃ ps, List.Forall₂ EndPointFrom items ps ∧ (ps.filterMap EndPointParts.id).Nodup ∧
        (∀ id ∈ ps.filterMap EndPointParts.id, id ∉ st.usedEndpointID) ∧
        st' = ps.foldl (fun st p => p.apply st) st := by
  refine Json.foldlM_fresh_iff EndPointFrom EndPointParts.id (fun st i => i ∈ st.usedEndpointID) _
    ?_ (fun st p i => by rw [p.apply_usedEndpointID, mem_usedAfter]) items st st'
  intro st v st'
  have hvalid (o : Object) :
      (∀ name v, o[name]? = some v → validEndPoint st.usedEndpointID name v) ↔
      (∀ name v, o[name]? = some v → validEndPoint ∅ name v) ∧
        ∀ i, (partsOf fun k => o[k]?).id = some i → i ∉ st.usedEndpointID := by
    refine forall_members_fresh fun name v => ?_
    by_cases hid : name = "id"
    · subst hid
      cases v <;> simp [validEndPoint, getString]
    · simp [validEndPoint, hid]
  rw [parseEndPoint_eq_ok_iff]
  constructor
  · rintro ⟨o, ho, h, rfl⟩
    obtain ⟨h, hnew⟩ := (hvalid o).mp h
    exact ⟨_, ⟨o, ho, h, rfl⟩, hnew, rfl⟩
  · rintro ⟨_, ⟨o, ho, h, rfl⟩, hnew, rfl⟩
    exact ⟨o, ho, (hvalid o).mpr ⟨h, hnew⟩, rfl⟩

/-! ## The document -/

/-- The elements of an array member; a member that is not there has none. -/
def itemsOf (o : Json.Object) (name : String) : List Json :=
  (member Json.getArray (fun k => o[k]?) name).getD []

/-- The object `big-switch` has `flow-rules` as its one member. -/
def validBigSwitch (v : Json) : Prop :=
  ∃ bigSwitch items, v.getObject = .ok bigSwitch ∧ bigSwitch["flow-rules"]? = some (.arr items) ∧
    ∀ name w, bigSwitch[name]? = some w → name = "flow-rules"

/-- The elements of `flow-rules`. -/
def flowRulesOf (forwardingGraph : Json.Object) : List Json :=
  ((member Json.getObject (fun k => forwardingGraph[k]?) "big-switch").map
    fun bigSwitch => itemsOf bigSwitch "flow-rules").getD []

/-- The shape of the members of `forwarding-graph`. -/
def validForwardingGraph (name : String) (v : Json) : Prop :=
  if name = "id" then Returns v.getString
  else if name = "name" then Returns v.getString
  else if name = "description" then Returns v.getString
  else if name = "unify-monitoring" then True
  else if name = "VNFs" then Returns v.getArray
  else if name = "end-points" then Returns v.getArray
  else if name = "big-switch" then validBigSwitch v
  else False

/-- The members of a value, none if it is not an object. -/
def membersOf (value : Json) (name : String) : Option Json :=
  value.getObject.toOption.bind fun o => o[name]?

/-- The object `forwarding-graph` of a document. -/
def graphObject (doc : Json) : Json.Object :=
  (member Json.getObject (membersOf doc) "forwarding-graph").getD ∅

theorem membersOf_of_getObject {o : Object} (h : value.getObject = .ok o) :
    membersOf value = fun k => o[k]? := by
  funext k
  simp [membersOf, h]

/-- The document of a graph object. -/
def documentOf (fg : Json.Object) : Json := .obj [("forwarding-graph", .ofObject fg)]

section Document

variable {inet : InetPton} {tables : EndPointTables} {graph g : Graph}

theorem parseBigSwitch_eq_ok_iff {bigSwitch : Object} :
    parseBigSwitch inet tables graph bigSwitch = .ok g ↔
      (∀ name w, bigSwitch[name]? = some w → name = "flow-rules") ∧
        ∃ items, bigSwitch["flow-rules"]? = some (.arr items) ∧
          items.foldlM (parseRule inet tables) graph = .ok g := by
  refine (Json.forEach_single ..).trans (and_congr_right fun _ => ?_)
  simp [parseFlowRules]

variable {ID : String} {fg : Object}

theorem parseGraph_eq_ok_iff {value : Json} :
    parseGraph inet ID value = .ok g ↔ ∃ o, value.getObject = .ok o ∧
      (∀ name w, o[name]? = some w → name = "forwarding-graph") ∧
        ∃ forwardingGraph,
          member getObject (fun k => o[k]?) "forwarding-graph" = some forwardingGraph ∧
          parseForwardingGraph inet { ID := ID } forwardingGraph = .ok g := by
  have hsingle (o : Object) := Json.forEach_single (s := g) o "forwarding-graph"
    (fun st value => value.getObject >>= parseForwardingGraph inet st) { ID := ID }
  simp only [bind_eq_ok] at hsingle
  simp only [parseGraph, bind_eq_ok, hsingle, Json.member_eq_some]
  refine exists_congr fun o => and_congr_right fun _ => and_congr_right fun _ => ?_
  constructor
  · rintro ⟨v, hv, fg, hfg, hg⟩
    exact ⟨fg, ⟨v, hv, hfg⟩, hg⟩
  · rintro ⟨fg, ⟨v, hv, hfg⟩, hg⟩
    exact ⟨v, hv, fg, hfg, hg⟩

/-- The graph once the network functions are read. -/
def graphWithVnfs (graph : Graph) (seen : String → Option Json) : Graph :=
  (member (parseVnfs graph) seen "VNFs").getD graph

/-- The state once the endpoints are read. -/
def endPointsAfter (graph : Graph) (seen : String → Option Json) : EndPointState :=
  (member (parseEndPoints (graphWithVnfs graph seen)) seen "end-points").getD
    { graph := graphWithVnfs graph seen }

/-- What the loop over the members of `forwarding-graph` leaves. -/
def forwardingGraphOf (graph : Graph) (seen : String → Option Json) : ForwardingGraphState where
  graph := { (endPointsAfter graph seen).graph with
    name := (text seen "name").getD (endPointsAfter graph seen).graph.name }
  tables := (endPointsAfter graph seen).tables
  bigSwitch := member Json.getObject seen "big-switch"

/-- The loop over the members of a forwarding graph. -/
theorem forEach_parseForwardingGraphKey {o : Object} {st : ForwardingGraphState} :
    forEach o { graph := graph } parseForwardingGraphKey = .ok st ↔
      (∀ name v, o[name]? = some v →
        if name = "id" then Returns v.getString
        else if name = "name" then Returns v.getString
        else if name = "description" then Returns v.getString
        else if name = "unify-monitoring" then True
        else if name = "VNFs" then Returns (parseVnfs graph v)
        else if name = "end-points" then
          Returns (parseEndPoints (graphWithVnfs graph fun k => o[k]?) v)
        else if name = "big-switch" then Returns v.getObject
        else False) ∧
      st = forwardingGraphOf graph fun k => o[k]? := by
  refine Json.forEach_eq_ok_iff_of_below _ (forwardingGraphOf graph) o ?_ st
  intro seen name v hseen hv r
  have hnone {β : Type} (read : Json → Except Failure β) {k : String} (hk : name ≤ k) :
      member read seen k = none := by
    simp [member, hseen, hk.not_gt]
  simp only [parseForwardingGraphKey]
  split_ifs with hid hname hdescr hmonitoring hvnfs hends hswitch
  · subst hid
    exact bind_pure_eq_ok_iff fun s hs => by
      simp [forwardingGraphOf, endPointsAfter, graphWithVnfs]
  · subst hname
    exact bind_pure_eq_ok_iff fun s hs => by
      simp [forwardingGraphOf, endPointsAfter, graphWithVnfs, hs]
  · subst hdescr
    exact bind_pure_eq_ok_iff fun s hs => by
      simp [forwardingGraphOf, endPointsAfter, graphWithVnfs]
  · subst hmonitoring
    simp only [true_and]
    exact pure_eq_ok_iff (by simp [forwardingGraphOf, endPointsAfter, graphWithVnfs])
  · subst hvnfs
    have hbefore : (forwardingGraphOf graph seen).graph = graph := by
      simp [forwardingGraphOf, endPointsAfter, graphWithVnfs, text,
        hnone]
    rw [hbefore]
    exact bind_pure_eq_ok_iff fun s hs => by
      simp [forwardingGraphOf, endPointsAfter, graphWithVnfs, text, hs, hnone]
  · subst hends
    have hvnfs : graphWithVnfs graph seen = graphWithVnfs graph fun k => o[k]? := by
      simp [graphWithVnfs, member, hseen, show "VNFs" < "end-points" by decide]
    have hbefore : (forwardingGraphOf graph seen).graph = graphWithVnfs graph fun k => o[k]? := by
      simp [forwardingGraphOf, endPointsAfter, hvnfs, text,
        hnone]
    rw [hbefore]
    refine bind_pure_eq_ok_iff fun s hs => ?_
    have hupdate : graphWithVnfs graph (Function.update seen "end-points" (some v)) =
        graphWithVnfs graph fun k => o[k]? := by
      rw [← hvnfs]
      simp [graphWithVnfs]
    simp [forwardingGraphOf, endPointsAfter, hupdate, text, hs,
      hnone]
  · subst hswitch
    exact bind_pure_eq_ok_iff fun s hs => by
      simp [forwardingGraphOf, endPointsAfter, graphWithVnfs, hs]
  · simp

/-- The network functions of a graph, from what the elements of `VNFs` stand for. -/
def vnfsOf (vnfs : List (Option String × VNFs)) : List VNFs :=
  vnfs.foldl (fun l vnf => Graph.addVNFTo vnf.2 l) []

/-- The state after the elements of `end-points`, read into an empty graph. -/
def endPointsOf (ps : List EndPointParts) : EndPointState :=
  ps.foldl (fun st p => p.apply st) { graph := { ID := "" } }

/-- A graph with the endpoints of another one. -/
def withEndPoints (graph other : Graph) : Graph :=
  { graph with
    endPointsInterface := other.endPointsInterface, endPointsInternal := other.endPointsInternal,
    endPointsGre := other.endPointsGre, endPointsVlan := other.endPointsVlan }

/-- An endpoint is read without regard to the rest of the graph. -/
theorem EndPointParts.apply_withEndPoints (p : EndPointParts) (graph : Graph) (st : EndPointState) :
    p.apply { st with graph := withEndPoints graph st.graph } =
      { p.apply st with graph := withEndPoints graph (p.apply st).graph } := by
  cases hgre : p.gre <;>
    simp only [apply, EndPointState.addEndPoint, state, EndPointParts.graph, hgre] <;>
    split_ifs <;> rfl

theorem foldl_apply_withEndPoints (ps : List EndPointParts) (graph : Graph) (st : EndPointState) :
    ps.foldl (fun st p => p.apply st) { st with graph := withEndPoints graph st.graph } =
      { ps.foldl (fun st p => p.apply st) st with
        graph := withEndPoints graph (ps.foldl (fun st p => p.apply st) st).graph } := by
  induction ps generalizing st with
  | nil => rfl
  | cons p ps ih => rw [List.foldl_cons, p.apply_withEndPoints, ih, List.foldl_cons]

/-- The graph is what a document describes: the elements of its arrays stand for network
functions, endpoints and rules, each with its own identifier. -/
structure Describes (inet : InetPton) (ID : String) (fg : Json.Object)
    (vnfs : List (Option String × VNFs)) (ps : List EndPointParts) (rules : List Rule)
    (g : Graph) : Prop where
  members : ∀ name v, fg[name]? = some v → validForwardingGraph name v
  vnfsFrom : List.Forall₂ VnfFrom (itemsOf fg "VNFs") vnfs
  vnfIds : (vnfs.filterMap Prod.fst).Nodup
  endPointsFrom : List.Forall₂ EndPointFrom (itemsOf fg "end-points") ps
  endPointIds : (ps.filterMap EndPointParts.id).Nodup
  rulesFrom : List.Forall₂ (RuleFrom inet (endPointsOf ps).tables) (flowRulesOf fg) rules
  ruleIds : (rules.map Rule.ruleID).Nodup
  graph : g = withEndPoints
    { ID := ID, name := (text (fun k => fg[k]?) "name").getD "", rules := rules,
      vnfs := vnfsOf vnfs } (endPointsOf ps).graph

theorem parseVnfs_eq_ok_iff (ID : String) (value : Json) (g : Graph) :
    parseVnfs { ID := ID } value = .ok g ↔ ∃ items, value = .arr items ∧
      ∃ vnfs, List.Forall₂ VnfFrom items vnfs ∧ (vnfs.filterMap Prod.fst).Nodup ∧
        g = { ID := ID, vnfs := vnfsOf vnfs } := by
  have hfold (vnfs : List (Option String × VNFs)) (used : StringSet) (graph : Graph) :
      (vnfs.foldl (fun st vnf => (usedAfter st.1 vnf.1, st.2.addVNF vnf.2)) (used, graph)).2 =
        { graph with vnfs := vnfs.foldl (fun l vnf => Graph.addVNFTo vnf.2 l) graph.vnfs } := by
    induction vnfs generalizing used graph with
    | nil => rfl
    | cons vnf vnfs ih =>
      rw [List.foldl_cons, ih]
      rfl
  simp only [parseVnfs, bind_eq_ok, Json.getArray_eq_ok, foldlM_parseVnf, pure_eq_ok]
  refine exists_congr fun items => and_congr_right fun _ => ?_
  constructor
  · rintro ⟨_, ⟨vnfs, hvnfs, hnodup, -, rfl⟩, rfl⟩
    exact ⟨vnfs, hvnfs, hnodup, hfold vnfs ∅ _⟩
  · rintro ⟨vnfs, hvnfs, hnodup, rfl⟩
    exact ⟨_, ⟨vnfs, hvnfs, hnodup, by simp, rfl⟩, hfold vnfs ∅ _⟩

theorem parseEndPoints_eq_ok_iff (graph : Graph)
    (hgraph : withEndPoints graph { ID := "" } = graph) (value : Json) (st : EndPointState) :
    parseEndPoints graph value = .ok st ↔ ∃ items, value = .arr items ∧
      ∃ ps, List.Forall₂ EndPointFrom items ps ∧ (ps.filterMap EndPointParts.id).Nodup ∧
        st = { endPointsOf ps with graph := withEndPoints graph (endPointsOf ps).graph } := by
  have hfold (ps : List EndPointParts) := foldl_apply_withEndPoints ps graph { graph := { ID := "" } }
  simp only [hgraph] at hfold
  simp only [parseEndPoints, bind_eq_ok, Json.getArray_eq_ok, foldlM_parseEndPoint, endPointsOf, hfold]
  simp

/-- A member that is an array, or is not there. -/
theorem arrayMember_iff {β : Type} (o : Object) (name : String)
    (absent : β) {parse : Json → Except Failure β} {stands : List Json → β → Prop}
    (hparse : ∀ v r, parse v = .ok r ↔ ∃ items, v = .arr items ∧ stands items r)
    (habsent : ∀ r, stands [] r ↔ r = absent) (r : β) :
    ((∀ v, o[name]? = some v → Returns (parse v)) ∧
      r = (member parse (fun k => o[k]?) name).getD absent) ↔
    (∀ v, o[name]? = some v → Returns v.getArray) ∧ stands (itemsOf o name) r := by
  cases hv : o[name]? with
  | none => simp [member, itemsOf, hv, habsent]
  | some v =>
    cases hr : parse v with
    | error e =>
      simp only [some.injEq, forall_eq', hr, not_returns_error, false_and, false_iff]
      rintro ⟨⟨items, hitems⟩, hstands⟩
      have hok : parse v = .ok r := (hparse v r).mpr ⟨items, by simpa using hitems, by
        simpa [itemsOf, member, hv, hitems] using hstands⟩
      simp [hr] at hok
    | ok a =>
      obtain ⟨items, rfl, ha⟩ := (hparse v a).mp hr
      have hiff : stands items r ↔ r = a := by
        constructor
        · intro h
          have := (hparse (.arr items) r).mpr ⟨items, rfl, h⟩
          exact Except.ok.inj (this.symm.trans hr)
        · rintro rfl
          exact ha
      simp [hr, itemsOf, member, hv, Json.getArray, hiff]

theorem foldl_addRule {rules : List Rule} (hrules : (rules.map Rule.ruleID).Nodup)
    (hnone : graph.rules = []) :
    rules.foldl Graph.addRule graph = { graph with rules := rules } := by
  have hfold (graph : Graph) : rules.foldl Graph.addRule graph =
      { graph with rules := KeyedList.pushAll Rule.key graph.rules rules } := by
    induction rules generalizing graph with
    | nil => rfl
    | cons r rules ih =>
      rw [List.foldl_cons, ih (List.nodup_cons.mp hrules).2]
      rfl
  have hpush : KeyedList.pushAll Rule.key [] rules = [] ++ rules :=
    KeyedList.pushAll_eq_append hrules (by simp)
  rw [hfold, hnone, hpush, List.nil_append]

/-- The rules of a document, read into a graph that has none. -/
theorem parseRules_eq_ok_iff (hnone : graph.rules = [])
    (hobject : ∀ v, fg["big-switch"]? = some v → Returns v.getObject) :
    (match member getObject (fun k => fg[k]?) "big-switch" with
      | none => pure graph
      | some bigSwitch => parseBigSwitch inet tables graph bigSwitch) = .ok g ↔
    (∀ v, fg["big-switch"]? = some v → validBigSwitch v) ∧
      ∃ rules, List.Forall₂ (RuleFrom inet tables) (flowRulesOf fg) rules ∧
        (rules.map Rule.ruleID).Nodup ∧ g = { graph with rules := rules } := by
  cases hv : fg["big-switch"]? with
  | none =>
    simp only [member, hv, flowRulesOf, Option.bind_none, Option.map_none, Option.getD_none,
      List.forall₂_nil_left_iff, pure_eq_ok]
    constructor
    · rintro rfl
      exact ⟨by simp, [], rfl, List.nodup_nil, by rw [← hnone]⟩
    · rintro ⟨-, _, rfl, -, rfl⟩
      rw [← hnone]
  | some v =>
    obtain ⟨bigSwitch, hbig⟩ := hobject v hv
    have hmember : member getObject (fun k => fg[k]?) "big-switch" = some bigSwitch :=
      Json.member_eq_some.mpr ⟨v, hv, hbig⟩
    have hitems {items : List Json} (h : bigSwitch["flow-rules"]? = some (.arr items)) :
        itemsOf bigSwitch "flow-rules" = items := by
      simp [itemsOf, member, h, Json.getArray]
    have hnew (r : Rule) : graph.ruleExists r.ruleID = false := by simp [Graph.ruleExists, hnone]
    simp only [hmember, flowRulesOf, map_some, getD_some, parseBigSwitch_eq_ok_iff,
      some.injEq, forall_eq', validBigSwitch, hbig, Except.ok.injEq, foldlM_parseRule]
    constructor
    · rintro ⟨honly, items, hflow, rules, hrules, hnodup, -, rfl⟩
      exact ⟨⟨bigSwitch, items, rfl, hflow, honly⟩, rules, by rwa [hitems hflow], hnodup,
        foldl_addRule hnodup hnone⟩
    · rintro ⟨⟨_, items, rfl, hflow, honly⟩, rules, hrules, hnodup, rfl⟩
      rw [hitems hflow] at hrules
      exact ⟨honly, items, hflow, rules, hrules, hnodup, fun r _ => hnew r,
        (foldl_addRule hnodup hnone).symm⟩

/-- A forwarding graph is accepted exactly if functions, endpoints and rules describe a graph. -/
theorem parseForwardingGraph_eq_ok_iff :
    parseForwardingGraph inet { ID := ID } fg = .ok g ↔
      ∃ vnfs ps rules, Describes inet ID fg vnfs ps rules g := by
  have hvnfs := arrayMember_iff fg "VNFs" { ID := ID } (parseVnfs_eq_ok_iff ID) (by simp [vnfsOf])
  have hends (vnfs : List VNFs) := arrayMember_iff fg "end-points"
    { graph := { ID := ID, vnfs := vnfs } } (parseEndPoints_eq_ok_iff { ID := ID, vnfs := vnfs } rfl)
    (by simp [endPointsOf, withEndPoints])
  have hstate {vnfs : List VNFs} {ps : List EndPointParts}
      (hv : graphWithVnfs { ID := ID } (fun k => fg[k]?) = { ID := ID, vnfs := vnfs })
      (hp : (member (parseEndPoints { ID := ID, vnfs := vnfs }) (fun k => fg[k]?) "end-points").getD
        { graph := { ID := ID, vnfs := vnfs } } =
          { endPointsOf ps with
            graph := withEndPoints { ID := ID, vnfs := vnfs } (endPointsOf ps).graph }) :
      forwardingGraphOf { ID := ID } (fun k => fg[k]?) =
        { graph := withEndPoints
            { ID := ID, name := (text (fun k => fg[k]?) "name").getD "", vnfs := vnfs }
            (endPointsOf ps).graph
          tables := (endPointsOf ps).tables
          bigSwitch := member getObject (fun k => fg[k]?) "big-switch" } := by
    rw [forwardingGraphOf, endPointsAfter, hv, hp]
    rfl
  simp only [parseForwardingGraph, bind_eq_ok, forEach_parseForwardingGraphKey]
  constructor
  · rintro ⟨_, ⟨hmembers, rfl⟩, hrules⟩
    obtain ⟨hvarray, vnfs, hvfrom, hvids, hvgraph⟩ := (hvnfs _).mp
      ⟨fun v hv => by simpa using hmembers "VNFs" v hv, rfl⟩
    change graphWithVnfs _ _ = _ at hvgraph
    rw [hvgraph] at hmembers
    obtain ⟨hparray, ps, hpfrom, hpids, hpstate⟩ := (hends (vnfsOf vnfs) _).mp
      ⟨fun v hv => by simpa using hmembers "end-points" v hv, rfl⟩
    rw [hstate hvgraph hpstate] at hrules
    obtain ⟨hbig, rules, hrfrom, hrids, rfl⟩ := (parseRules_eq_ok_iff rfl
      fun v hv => by simpa using hmembers "big-switch" v hv).mp hrules
    refine ⟨vnfs, ps, rules, ?_, hvfrom, hvids, hpfrom, hpids, hrfrom, hrids, rfl⟩
    intro name v hv
    have hmember := hmembers name v hv
    unfold validForwardingGraph
    split_ifs at hmember ⊢ with hid hname hdescr hmonitoring hVNFs hend hswitch
    · exact hmember
    · exact hmember
    · exact hmember
    · exact hvarray v (hVNFs ▸ hv)
    · exact hparray v (hend ▸ hv)
    · exact hbig v (hswitch ▸ hv)
  · rintro ⟨vnfs, ps, rules, h⟩
    have hvarray (v : Json) (hv : fg["VNFs"]? = some v) : Returns v.getArray := by
      simpa [validForwardingGraph] using h.members "VNFs" v hv
    have hparray (v : Json) (hv : fg["end-points"]? = some v) : Returns v.getArray := by
      simpa [validForwardingGraph] using h.members "end-points" v hv
    have hbig (v : Json) (hv : fg["big-switch"]? = some v) : validBigSwitch v := by
      simpa [validForwardingGraph] using h.members "big-switch" v hv
    obtain ⟨hvparse, hvgraph⟩ := (hvnfs _).mpr ⟨hvarray, vnfs, h.vnfsFrom, h.vnfIds, rfl⟩
    obtain ⟨hpparse, hpstate⟩ := (hends (vnfsOf vnfs) _).mpr
      ⟨hparray, ps, h.endPointsFrom, h.endPointIds, rfl⟩
    have hobject (v : Json) (hv : fg["big-switch"]? = some v) : Returns v.getObject := by
      obtain ⟨bigSwitch, -, hobject, -, -⟩ := hbig v hv
      exact ⟨bigSwitch, hobject⟩
    refine ⟨_, ⟨?_, rfl⟩, ?_⟩
    · intro name v hv
      have hmember := h.members name v hv
      unfold validForwardingGraph at hmember
      split_ifs at hmember ⊢ with hid hname hdescr hmonitoring hVNFs hend hswitch
      · exact hmember
      · exact hmember
      · exact hmember
      · exact hvparse v (hVNFs ▸ hv)
      · rw [graphWithVnfs, ← hvgraph]
        exact hpparse v (hend ▸ hv)
      · exact hobject v (hswitch ▸ hv)
    · rw [hstate hvgraph.symm hpstate.symm]
      exact (parseRules_eq_ok_iff rfl hobject).mpr ⟨hbig, rules, h.rulesFrom, h.ruleIds, h.graph⟩

theorem describes_of_parseGraph {doc : Json} (h : parseGraph inet ID doc = .ok g) :
    ∃ vnfs ps rules, Describes inet ID (graphObject doc) vnfs ps rules g := by
  obtain ⟨o, ho, -, fg, hfg, hparse⟩ := parseGraph_eq_ok_iff.mp h
  obtain rfl : graphObject doc = fg := by
    rw [graphObject, membersOf_of_getObject ho, hfg, getD_some]
  exact parseForwardingGraph_eq_ok_iff.mp hparse

/-- A document around a forwarding graph is accepted exactly if the members describe a graph. -/
theorem parseGraph_documentOf :
    parseGraph inet ID (documentOf fg) = .ok g ↔
      ∃ vnfs ps rules, Describes inet ID fg vnfs ps rules g := by
  have hget : (documentOf fg).getObject =
      .ok ((∅ : Object).insert "forwarding-graph" (.ofObject fg)) := rfl
  have hmembers (name : String) :
      ((∅ : Object).insert "forwarding-graph" (.ofObject fg))[name]? =
        if "forwarding-graph" = name then some (.ofObject fg) else none := by
    rw [Std.ExtTreeMap.getElem?_insert]
    simp only [Std.LawfulEqCmp.compare_eq_iff_eq, Std.ExtTreeMap.not_mem_empty, not_false_eq_true,
      Std.ExtTreeMap.getElem?_eq_none]
  rw [parseGraph_eq_ok_iff, ← parseForwardingGraph_eq_ok_iff]
  simp only [hget, Except.ok.injEq, exists_eq_left', hmembers, member, if_true, bind_some,
    Json.getObject_ofObject, Except.toOption, some.injEq]
  constructor
  · exact fun h => h.2
  · intro h
    refine ⟨fun name w hw => ?_, h⟩
    split_ifs at hw with hname
    exact hname.symm

end Document

end UnOrchestrator.Parser
