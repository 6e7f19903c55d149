import UnOrchestrator.GraphManager.Calls
import UnOrchestrator.GraphManager.Requests

/-!
# Ports

What an update does to the ports of the LSI and to the functions that the compute controller
knows. The network functions of the difference get their ports one function at a time
(`PortsAdded`), and the functions that go lose all of them (`PortsRemoved`). Both say what
happens under every identifier, so that the ports of a rule that stays can be followed through
the update.

A function gets the ports it is asked to have only when its description has a type for each of
them. A request for a new graph checks this (`portsDescribed`), an update does not.
-/

namespace UnOrchestrator

open List (foldl_cons map_append map_cons map_nil mem_append mem_cons mem_cons_self mem_nil_iff mem_singleton)

open StringMap (getElem?_insert mem_iff mem_insert)

open GraphInfo (lift wp_onCompute wp_onLsi)

open Abort (bind_eq_ok pure_eq_ok)

open Call

open Highlevel

/-- The switch manager answers about what it was asked. -/
structure Environment.Answers (env : Environment) : Prop where
  addNFPorts : ∀ id ports nfId translation, env.addNFPorts id ports = some (nfId, translation) →
    nfId = id ∧ ∀ t ∈ translation, ∃ p ∈ ports, t.1 = nfPortName id (p : Nat)
  addEndpoint : ∀ id epName epId, env.addEndpoint id = some (epName, epId) → epName = id

theorem Environment.obliging_answers (clo : CreateLsiOut) : (obliging clo).Answers := by
  refine ⟨fun id ports nfId translation h => ?_, fun id epName epId h => ?_⟩
  · obtain ⟨rfl, rfl⟩ := Prod.mk.inj (Option.some.inj h)
    refine ⟨rfl, fun t ht => ?_⟩
    obtain ⟨p, hp, rfl⟩ := List.mem_map.mp ht
    exact ⟨p, hp, rfl⟩
  · cases h
    rfl

/-- The data of a network function; an unknown one has no ports. -/
def LSI.nfDataOf (lsi : LSI) (nfId : String) : NfData := (lsi.networkFunctions[nfId]?).getD {}

theorem LSI.nfPort_eq (lsi : LSI) (nfId portName : String) :
    lsi.nfPort nfId portName = (lsi.nfDataOf nfId).portsSwitchId[portName]? := by
  rw [nfPort, nfDataOf]
  cases lsi.networkFunctions[nfId]? with
  | none => exact Std.ExtTreeMap.getElem?_empty.symm
  | some data => rfl

variable {nfId : String}

variable {lsi lsi' : LSI} {c : ComputeController} {vnfs : List VNFs} {ports typed : List Nat}
  {translation : List (String × Nat)} {info : GraphInfo} {env : Environment}

theorem LSI.nfDataOf_insert {data : NfData} (id : String) :
    { lsi with networkFunctions := lsi.networkFunctions.insert nfId data : LSI }.nfDataOf id =
      if nfId = id then data else lsi.nfDataOf id := by
  simp only [nfDataOf, getElem?_insert]
  split <;> rfl

/-- The selected description has a type for every port of the network function. -/
def portsTyped (c : ComputeController) (nf : VNFs) : Bool :=
  match nf.getPortsId with
  | .ok ports => ports.all (typedPorts c nf.id).contains
  | .error _ => true

/-- The check of a request for a new graph: every function has an implementation with a type for
each of its ports. -/
theorem of_portsDescribed {nfs : List VNFs} (h : portsDescribed c nfs = .ok true) :
    ∀ nf ∈ nfs, ∃ ports descr, nf.getPortsId = .ok ports ∧
      c.getNFSelectedImplementation nf.id = some descr ∧ ports.all descr.portTypes.contains = true := by
  induction nfs with
  | nil => exact fun nf hnf => by cases hnf
  | cons nf nfs ih =>
    simp only [portsDescribed, bind_eq_ok, Abort.orElse_eq_ok] at h
    obtain ⟨ports, hports, descr, hdescr, h⟩ := h
    split at h
    · cases h
    · split at h
      · next htyped =>
        intro nf' hnf'
        rcases mem_cons.mp hnf' with rfl | hnf'
        · exact ⟨ports, descr, hports, hdescr, htyped⟩
        · exact ih h nf' hnf'
      · cases h

theorem portsTyped_of_portsDescribed {nfs : List VNFs} (h : portsDescribed c nfs = .ok true) :
    ∀ nf ∈ nfs, portsTyped c nf = true := by
  intro nf hnf
  obtain ⟨ports, descr, hports, hdescr, htyped⟩ := of_portsDescribed h nf hnf
  simp only [portsTyped, hports, typedPorts, hdescr, Option.map_some, Option.getD_some]
  exact htyped

/-! ## More ports -/

/-- One of the network functions asks for a port under an identifier. -/
def AsksPort (vnfs : List VNFs) (nfId : String) (p : Nat) : Prop :=
  ∃ nf ∈ vnfs, nf.id = nfId ∧ ∃ ports, nf.getPortsId = .ok ports ∧ p ∈ ports

theorem asksPort_append {vnfs' : List VNFs} {p : Nat} :
    AsksPort (vnfs ++ vnfs') nfId p ↔ AsksPort vnfs nfId p ∨ AsksPort vnfs' nfId p := by
  simp only [AsksPort, mem_append, or_and_right, exists_or]

variable {p : Nat}

theorem asksPort_singleton {nf : VNFs} (h : nf.getPortsId = .ok ports) :
    AsksPort [nf] nfId p ↔ nf.id = nfId ∧ p ∈ ports := by
  simp only [AsksPort, mem_singleton, exists_eq_left, h, Except.ok.injEq, exists_eq_left']

/-- The names that a network function has got on the switch. -/
theorem mem_foldl_insertIfNew {names : List (String × Nat)} {m : Std.ExtTreeMap Nat String compare} :
    p ∈ names.foldl (fun m n => m.insertIfNew n.2 n.1) m ↔ p ∈ m ∨ p ∈ names.map Prod.snd := by
  induction names generalizing m with
  | nil => simp
  | cons n names ih =>
    rw [foldl_cons, ih, Std.ExtTreeMap.mem_insertIfNew, Std.LawfulEqCmp.compare_eq_iff_eq,
      map_cons, mem_cons]
    grind

/-- Numbers of ports with other names are kept. -/
theorem getElem?_foldl_insert {name : String} {m : StringMap Nat}
    (h : ∀ p ∈ ports, name ≠ nfPortName nfId (p : Nat)) :
    (ports.foldl (fun m port => m.insert (nfPortName nfId port) 0) m)[name]? = m[name]? := by
  induction ports generalizing m with
  | nil => rfl
  | cons p ports ih =>
    rw [foldl_cons, ih fun q hq => h q (List.mem_cons_of_mem p hq), getElem?_insert,
      if_neg (h p mem_cons_self).symm]

/-- A port has a number if it had one, or was asked for. -/
theorem isSome_foldl_insert {name : String} {m : StringMap Nat}
    (h : (m[name]?).isSome ∨ ∃ p ∈ ports, name = nfPortName nfId (p : Nat)) :
    ((ports.foldl (fun m port => m.insert (nfPortName nfId port) 0) m)[name]?).isSome := by
  induction ports generalizing m with
  | nil => exact h.resolve_right (by simp)
  | cons p ports ih =>
    rw [foldl_cons]
    refine ih ?_
    rw [getElem?_insert]
    split
    · exact .inl rfl
    · next hne =>
      refine h.imp_right ?_
      rintro ⟨q, hq, rfl⟩
      rcases mem_cons.mp hq with rfl | hq
      · exact absurd rfl hne
      · exact ⟨q, hq, rfl⟩

theorem getElem?_insertMany_of_notMem {name : String} {m : StringMap Nat}
    (h : ∀ t ∈ translation, name ≠ t.1) :
    (m.insertMany translation)[name]? = m[name]? := by
  refine Std.ExtTreeMap.getElem?_insertMany_list_of_contains_eq_false ?_
  rw [Bool.eq_false_iff, ne_eq, List.contains_iff_mem, List.mem_map]
  rintro ⟨t, ht, rfl⟩
  exact h t ht rfl

/-- Network functions have got the ports they ask for; these are numbers, and have numbers on the
switch as the ports from before do. -/
structure FunctionsAdded (vnfs : List VNFs) (lsi lsi' : LSI) : Prop where
  numbered : ∀ nf ∈ vnfs, ∃ ports, nf.getPortsId = .ok ports
  known : ∀ id : String, id ∈ lsi'.networkFunctions ↔
    id ∈ lsi.networkFunctions ∨ id ∈ vnfs.map VNFs.id
  nfPortsId : ∀ id p, p ∈ (lsi'.nfDataOf id).nfPortsId ↔
    p ∈ (lsi.nfDataOf id).nfPortsId ∨ AsksPort vnfs id p
  onSwitch : ∀ id name, (lsi.nfPort id name).isSome ∨
    (∃ p, AsksPort vnfs id p ∧ name = nfPortName id p) → (lsi'.nfPort id name).isSome

namespace FunctionsAdded

variable {vnfs vnfs' : List VNFs} {lsi lsi₁ lsi₂ : LSI}

theorem trans (h : FunctionsAdded vnfs lsi lsi₁) (h₁ : FunctionsAdded vnfs' lsi₁ lsi₂) :
    FunctionsAdded (vnfs ++ vnfs') lsi lsi₂ := by
  refine ⟨fun nf hnf => ?_, fun id => ?_, fun id p => ?_, fun id name hname => ?_⟩
  · exact (mem_append.mp hnf).elim (h.numbered nf) (h₁.numbered nf)
  · rw [h₁.known, h.known, map_append, mem_append, or_assoc]
  · rw [h₁.nfPortsId, h.nfPortsId, asksPort_append, or_assoc]
  · rcases hname with hsome | ⟨p, hp, hname⟩
    · exact h₁.onSwitch id name (.inl (h.onSwitch id name (.inl hsome)))
    · rcases asksPort_append.mp hp with hp | hp
      · exact h₁.onSwitch id name (.inl (h.onSwitch id name (.inr ⟨p, hp, hname⟩)))
      · exact h₁.onSwitch id name (.inr ⟨p, hp, hname⟩)

/-- A step for no function, in terms of the numbers on the switch. -/
theorem of_nfPort (hknown : ∀ id : String, id ∈ lsi₁.networkFunctions ↔ id ∈ lsi.networkFunctions)
    (hports : ∀ id, (lsi₁.nfDataOf id).nfPortsId = (lsi.nfDataOf id).nfPortsId)
    (hnumbers : ∀ id name, (lsi.nfPort id name).isSome → (lsi₁.nfPort id name).isSome) :
    FunctionsAdded [] lsi lsi₁ := by
  refine ⟨List.forall_mem_nil _, fun id => ?_, fun id p => ?_, fun id name hname => ?_⟩
  · simp [hknown]
  · simp [hports, AsksPort]
  · exact hnumbers id name (hname.resolve_right (by simp [AsksPort]))

theorem of_eq (h : lsi₁.networkFunctions = lsi.networkFunctions) : FunctionsAdded [] lsi lsi₁ := by
  exact of_nfPort (fun _ => by rw [h]) (fun _ => by rw [LSI.nfDataOf, LSI.nfDataOf, h])
    (fun _ _ => by rw [LSI.nfPort, LSI.nfPort, h]; exact fun h => h)

end FunctionsAdded

/-! The three writes to a network function, each with what it does to names and numbers. -/

variable {nfId : String}

theorem addNF_endpointsPortsId :
    (lsi.addNF nfId ports typed).endpointsPortsId = lsi.endpointsPortsId := by
  unfold LSI.addNF
  split <;> rfl

theorem setNfSwitchPortsID_endpointsPortsId
    (h : lsi.setNfSwitchPortsID nfId translation = .ok lsi') :
    lsi'.endpointsPortsId = lsi.endpointsPortsId := by
  simp only [LSI.setNfSwitchPortsID, bind_eq_ok, pure_eq_ok] at h
  obtain ⟨_, -, _, -, rfl⟩ := h
  rfl

theorem setNames_endpointsPortsId {names : List (String × Nat)} :
    (lsi.setNetworkFunctionsPortsNameOnSwitch nfId names).endpointsPortsId =
      lsi.endpointsPortsId := by
  unfold LSI.setNetworkFunctionsPortsNameOnSwitch
  split <;> rfl

/-- A typed network function gets all the ports it asks for. -/
theorem addNF_added (lsi : LSI) {nf : VNFs} (hports : nf.getPortsId = .ok ports)
    (htyped : ports.all typed.contains = true) :
    FunctionsAdded [nf] lsi (lsi.addNF nf.id ports typed) ∧
    (∀ id, ((lsi.addNF nf.id ports typed).nfDataOf id).portsNameOnSwitch =
      (lsi.nfDataOf id).portsNameOnSwitch) ∧
    ∀ id name, (∀ p, AsksPort [nf] id p → name ≠ nfPortName id p) →
      (lsi.addNF nf.id ports typed).nfPort id name = lsi.nfPort id name := by
  simp only [LSI.addNF, htyped, if_true, LSI.nfPort_eq, LSI.nfDataOf_insert]
  refine ⟨⟨fun nf' hnf' => ?_, fun id => ?_, fun id p => ?_, fun id name hname => ?_⟩, fun id => ?_,
    fun id name hname => ?_⟩
  · exact ⟨ports, mem_singleton.mp hnf' ▸ hports⟩
  · rw [mem_insert, List.map_singleton, mem_singleton, or_comm]
  · rw [asksPort_singleton hports, LSI.nfDataOf_insert]
    split
    · next hid => simp [LSI.nfDataOf, hid]
    · next hid => simp [hid]
  · simp only [asksPort_singleton hports] at hname
    rw [LSI.nfPort_eq] at hname ⊢
    rw [LSI.nfDataOf_insert]
    split
    · next hid =>
      subst hid
      refine isSome_foldl_insert (hname.imp_right ?_)
      rintro ⟨p, hp, rfl⟩
      exact ⟨p, hp.2, rfl⟩
    · next hid => exact hname.resolve_right fun ⟨p, hp, _⟩ => hid hp.1
  · split
    · next hid => rw [← hid, LSI.nfDataOf]
    · rfl
  · split
    · next hid =>
      subst hid
      exact getElem?_foldl_insert fun p hp => hname p ((asksPort_singleton hports).mpr ⟨rfl, hp⟩)
    · rfl

theorem setNfSwitchPortsID_added (h : lsi.setNfSwitchPortsID nfId translation = .ok lsi') :
    FunctionsAdded [] lsi lsi' ∧
    (∀ id, (lsi'.nfDataOf id).portsNameOnSwitch = (lsi.nfDataOf id).portsNameOnSwitch) ∧
    ∀ id name, (id = nfId → ∀ t ∈ translation, name ≠ t.1) →
      lsi'.nfPort id name = lsi.nfPort id name := by
  simp only [LSI.setNfSwitchPortsID, bind_eq_ok, Abort.orElse_eq_ok, pure_eq_ok] at h
  obtain ⟨data, hdata, _, -, rfl⟩ := h
  have hown : lsi.nfDataOf nfId = data := by rw [LSI.nfDataOf, hdata, Option.getD_some]
  simp only [LSI.nfPort_eq, LSI.nfDataOf_insert]
  refine ⟨.of_nfPort (fun id => ?_) (fun id => ?_) (fun id name hsome => ?_), fun id => ?_,
    fun id name hname => ?_⟩
  · rw [mem_insert, or_iff_right_iff_imp]
    rintro rfl
    rw [mem_iff, hdata]
    exact Option.some_ne_none data
  · rw [LSI.nfDataOf_insert]
    split
    · next hid => rw [← hid, hown]
    · rfl
  · rw [LSI.nfPort_eq] at hsome ⊢
    rw [LSI.nfDataOf_insert]
    split
    · next hid =>
      rw [← hid, hown, Std.ExtTreeMap.isSome_getElem?_iff_mem] at hsome
      rw [Std.ExtTreeMap.isSome_getElem?_iff_mem]
      exact Std.ExtTreeMap.mem_insertMany_list.mpr (.inl hsome)
    · exact hsome
  · split
    · next hid => rw [← hid, hown]
    · rfl
  · split
    · next hid => rw [getElem?_insertMany_of_notMem (hname hid.symm), ← hid, hown]
    · rfl

theorem setNames_added (lsi : LSI) (nfId : String) (names : List (String × Nat)) :
    let named := lsi.setNetworkFunctionsPortsNameOnSwitch nfId names
    FunctionsAdded [] lsi named ∧
    (∀ id p, p ∈ (named.nfDataOf id).portsNameOnSwitch ↔ p ∈ (lsi.nfDataOf id).portsNameOnSwitch ∨
      id = nfId ∧ id ∈ lsi.networkFunctions ∧ p ∈ names.map Prod.snd) ∧
    ∀ id name, named.nfPort id name = lsi.nfPort id name := by
  intro named
  cases hdata : lsi.networkFunctions[nfId]? with
  | none =>
    have hsame : named = lsi := by simp only [named, LSI.setNetworkFunctionsPortsNameOnSwitch, hdata]
    rw [hsame]
    refine ⟨.of_eq rfl, fun id p => ?_, fun _ _ => rfl⟩
    rw [iff_self_or]
    rintro ⟨rfl, hmem, -⟩
    exact absurd hdata (mem_iff.mp hmem)
  | some data =>
    have hown : lsi.nfDataOf nfId = data := by rw [LSI.nfDataOf, hdata, Option.getD_some]
    have hmem : nfId ∈ lsi.networkFunctions := by
      rw [mem_iff, hdata]
      exact Option.some_ne_none data
    simp only [named, LSI.setNetworkFunctionsPortsNameOnSwitch, hdata, LSI.nfPort_eq,
      LSI.nfDataOf_insert]
    have hsame (id : String) (names : Std.ExtTreeMap Nat String compare) :
        let data' := if nfId = id then { data with portsNameOnSwitch := names } else lsi.nfDataOf id
        data'.nfPortsId = (lsi.nfDataOf id).nfPortsId ∧
          data'.portsSwitchId = (lsi.nfDataOf id).portsSwitchId := by
      dsimp only
      split
      · next hid => exact ⟨by rw [← hid, hown], by rw [← hid, hown]⟩
      · exact ⟨rfl, rfl⟩
    refine ⟨.of_nfPort (fun id => ?_) (fun id => ?_) (fun id name hsome => ?_), fun id p => ?_,
      fun id name => ?_⟩
    · rw [mem_insert, or_iff_right_iff_imp]
      rintro rfl
      exact hmem
    · rw [LSI.nfDataOf_insert, (hsame id _).1]
    · rw [LSI.nfPort_eq] at hsome ⊢
      rwa [LSI.nfDataOf_insert, (hsame id _).2]
    · split
      · next hid => simp [← hid, hown, hmem, mem_foldl_insertIfNew]
      · next hid => simp [Ne.symm hid]
    · rw [(hsame id _).2]

/-- Network functions and GRE endpoints have got their ports on the LSI. -/
structure PortsAdded (vnfs : List VNFs) (eps : List EndPointGre) (info info' : GraphInfo) : Prop
    extends FunctionsAdded vnfs info.lsi info'.lsi where
  compute : info'.computeController = info.computeController
  gre : ∀ e : String, e ∉ eps.map EndPointGre.id →
    info'.lsi.endpointsPortsId[e]? = info.lsi.endpointsPortsId[e]?
  names : ∀ id p, p ∈ (info'.lsi.nfDataOf id).portsNameOnSwitch ↔
    p ∈ (info.lsi.nfDataOf id).portsNameOnSwitch ∨
      AsksPort vnfs id p ∧ p ∉ (info.lsi.nfDataOf id).nfPortsId
  numbers : ∀ id name, (∀ p, AsksPort vnfs id p → name ≠ nfPortName id p) →
    info'.lsi.nfPort id name = info.lsi.nfPort id name

namespace PortsAdded

variable {vnfs vnfs' : List VNFs} {eps eps' : List EndPointGre} {info info₁ info₂ : GraphInfo}

/-- One addition after the other. -/
theorem trans (h : PortsAdded vnfs eps info info₁) (h₁ : PortsAdded vnfs' eps' info₁ info₂) :
    PortsAdded (vnfs ++ vnfs') (eps ++ eps') info info₂ := by
  refine ⟨h.toFunctionsAdded.trans h₁.toFunctionsAdded, h₁.compute.trans h.compute, fun e he => ?_,
    fun id p => ?_, fun id name hname => ?_⟩
  · rw [map_append, mem_append, not_or] at he
    exact (h₁.gre e he.2).trans (h.gre e he.1)
  · rw [h₁.names, h.names, h.nfPortsId, asksPort_append]
    -- a port that both ask for is named by the first one
    tauto
  · have hnumbers₁ := h₁.numbers id name fun p hp => hname p (asksPort_append.mpr (.inr hp))
    exact hnumbers₁.trans (h.numbers id name fun p hp => hname p (asksPort_append.mpr (.inl hp)))

/-- Steps that have no part in the ports of network functions. -/
theorem of_networkFunctions (hfunctions : info₁.lsi.networkFunctions = info.lsi.networkFunctions)
    (hgre : ∀ e : String, e ∉ eps.map EndPointGre.id →
      info₁.lsi.endpointsPortsId[e]? = info.lsi.endpointsPortsId[e]?)
    (hcompute : info₁.computeController = info.computeController) :
    PortsAdded [] eps info info₁ := by
  refine ⟨.of_eq hfunctions, hcompute, hgre, fun id p => ?_, fun id name _ => ?_⟩
  · simp [LSI.nfDataOf, hfunctions, AsksPort]
  · rw [LSI.nfPort, LSI.nfPort, hfunctions]

theorem congr_left (h : PortsAdded vnfs eps info₁ info₂)
    (hfunctions : info₁.lsi.networkFunctions = info.lsi.networkFunctions)
    (hgre : info₁.lsi.endpointsPortsId = info.lsi.endpointsPortsId)
    (hcompute : info₁.computeController = info.computeController) :
    PortsAdded vnfs eps info info₂ := by
  have hsame : PortsAdded [] [] info info₁ :=
    of_networkFunctions hfunctions (fun _ _ => by rw [hgre]) hcompute
  exact hsame.trans h

end PortsAdded

variable {ports : List Nat}

/-- The ports that an update asks for are those that the function did not have. A function
that had none gets all of them. -/
theorem mem_newPorts (before : List Nat) {number : Nat} (hnumber : ports.length = number) (p : Nat) :
    p ∈ (if (before ++ ports).length = number then before ++ ports
      else (before ++ ports).filter (fun p => !before.contains p)) ↔ p ∈ ports ∧ p ∉ before := by
  split
  · next hlength =>
    have hbefore : before = [] := by
      rw [List.length_append] at hlength
      exact List.eq_nil_of_length_eq_zero (by omega)
    simp [hbefore]
  · simp only [List.mem_filter, mem_append, Bool.not_eq_true', List.contains_eq_mem,
      decide_eq_false_iff_not]
    constructor
    · rintro ⟨hmem | hmem, hnot⟩
      · exact absurd hmem hnot
      · exact ⟨hmem, hnot⟩
    · rintro ⟨hmem, hnot⟩
      exact ⟨.inr hmem, hnot⟩

variable {nf : VNFs}

/-- The three writes for a typed network function, one after the other. -/
theorem writes_added {newPorts : List Nat} (nameOf : Nat → String)
    (hports : nf.getPortsId = .ok ports) (htyped : ports.all typed.contains = true)
    (hnew : ∀ p, p ∈ newPorts ↔ p ∈ ports ∧ p ∉ (info.lsi.nfDataOf nf.id).nfPortsId)
    (htranslation : ∀ t ∈ translation, ∃ p ∈ newPorts, t.1 = nfPortName nf.id (p : Nat))
    (h : (info.lsi.addNF nf.id ports typed).setNfSwitchPortsID nf.id translation = .ok lsi') :
    PortsAdded [nf] [] info { info with
      lsi := lsi'.setNetworkFunctionsPortsNameOnSwitch nf.id
        (newPorts.map fun p => (nameOf p, p)) } := by
  obtain ⟨hadded₁, hnames₁, hnumbers₁⟩ := addNF_added info.lsi hports htyped
  obtain ⟨hadded₂, hnames₂, hnumbers₂⟩ := setNfSwitchPortsID_added h
  obtain ⟨hadded₃, hnames₃, hnumbers₃⟩ := setNames_added lsi' nf.id
    (newPorts.map fun p => (nameOf p, p))
  have hknown : nf.id ∈ lsi'.networkFunctions :=
    ((hadded₁.trans hadded₂).known nf.id).mpr (.inr mem_cons_self)
  have hsecond : (newPorts.map fun p => (nameOf p, p)).map Prod.snd = newPorts :=
    List.map_map.trans (List.map_id newPorts)
  refine ⟨(hadded₁.trans hadded₂).trans hadded₃, rfl, fun e _ => ?_, fun id p => ?_,
    fun id name hname => ?_⟩
  · rw [setNames_endpointsPortsId, setNfSwitchPortsID_endpointsPortsId h, addNF_endpointsPortsId]
  · rw [hnames₃, hnames₂, hnames₁, asksPort_singleton hports, hsecond, hnew]
    constructor
    · rintro (hold | ⟨rfl, -, hp, hfresh⟩)
      · exact .inl hold
      · exact .inr ⟨⟨rfl, hp⟩, hfresh⟩
    · rintro (hold | ⟨⟨rfl, hp⟩, hfresh⟩)
      · exact .inl hold
      · exact .inr ⟨rfl, hknown, hp, hfresh⟩
  · rw [hnumbers₃, hnumbers₂ id name ?_, hnumbers₁ id name hname]
    rintro rfl t ht heq
    obtain ⟨p, hp, hname'⟩ := htranslation t ht
    exact hname p ((asksPort_singleton hports).mpr ⟨rfl, ((hnew p).mp hp).1⟩) (heq.trans hname')

/-- What the switch is asked for are the ports that the function did not have. -/
theorem newPortList_added (htyped : ∀ c, info.computeController = some c → portsTyped c nf = true) :
    wp (newPortList nf)
      (fun newPorts info₁ => ∃ ports typed, nf.getPortsId = .ok ports ∧
        ports.all typed.contains = true ∧
        info₁ = { info with lsi := info.lsi.addNF nf.id ports typed } ∧
        ∀ p, p ∈ newPorts ↔ p ∈ ports ∧ p ∉ (info.lsi.nfDataOf nf.id).nfPortsId)
      (fun _ => True) info := by
  simp only [newPortList, wp_bind, wp_get, wp_eval, Failure.ofAbort_eq_ok,
    Failure.orElse_eq_ok, wp_onCompute, wp_onLsi, implies_true, and_true,
    Except.ok.injEq, wp_pure]
  rintro ports hports c hc descr hdescr lsi₁ rfl after hafter
  have hall : ports.all descr.portTypes.contains = true := by
    simpa only [portsTyped, hports, typedPorts, hdescr, Option.map_some, Option.getD_some] using
      htyped c hc
  have hafter' : after = (info.lsi.nfDataOf nf.id).nfPortsId ++ ports := by
    simpa [LSI.portsOf, LSI.addNF, hall, getElem?_insert, LSI.nfDataOf] using hafter.symm
  have hbefore : (info.lsi.portsOf nf.id).getD [] = (info.lsi.nfDataOf nf.id).nfPortsId := by
    rw [LSI.portsOf, LSI.nfDataOf]
    cases info.lsi.networkFunctions[nf.id]? <;> rfl
  have hlength : ports.length = nf.ports.length := (Abort.forall₂_of_mapM hports).length_eq.symm
  refine ⟨ports, descr.portTypes, hports, hall, by rw [← hc], fun p => ?_⟩
  rw [hbefore, hafter']
  exact mem_newPorts (info.lsi.nfDataOf nf.id).nfPortsId hlength p

/-- The requests are for the ports that the functions did not have. -/
def Requested (vnfs : List VNFs) (lsi : LSI) (requests : List (String × List Nat)) : Prop :=
  ∀ id p, (∃ ports, (id, ports) ∈ requests ∧ p ∈ ports) ↔
    AsksPort vnfs id p ∧ p ∉ (lsi.nfDataOf id).nfPortsId

theorem Requested.cons {newPorts : List Nat} {requests : List (String × List Nat)}
    (hports : nf.getPortsId = .ok ports)
    (hnew : ∀ p, p ∈ newPorts ↔ p ∈ ports ∧ p ∉ (lsi.nfDataOf nf.id).nfPortsId)
    (hadded : FunctionsAdded [nf] lsi lsi') (h : Requested vnfs lsi' requests) :
    Requested (nf :: vnfs) lsi ((nf.id, newPorts) :: requests) := by
  intro id p
  have hsplit : AsksPort (nf :: vnfs) id p ↔ AsksPort [nf] id p ∨ AsksPort vnfs id p :=
    @asksPort_append id [nf] vnfs p
  have hrest := h id p
  rw [hadded.nfPortsId] at hrest
  have hfirst : (∃ ports, (id, ports) ∈ (nf.id, newPorts) :: requests ∧ p ∈ ports) ↔
      id = nf.id ∧ p ∈ newPorts ∨ ∃ ports, (id, ports) ∈ requests ∧ p ∈ ports := by
    simp only [mem_cons, Prod.mk.injEq, or_and_right, exists_or, and_assoc, exists_and_left,
      exists_eq_left]
  rw [hfirst, hrest, hsplit, asksPort_singleton hports, hnew]
  by_cases hid : nf.id = id
  · subst hid
    simp only [true_and]
    tauto
  · simp [hid, Ne.symm hid]

section

variable (hanswers : env.Answers)

include hanswers

theorem attachPorts_added {newPorts : List Nat}
    (hports : nf.getPortsId = .ok ports) (htyped : ports.all typed.contains = true)
    (hnew : ∀ p, p ∈ newPorts ↔ p ∈ ports ∧ p ∉ (info.lsi.nfDataOf nf.id).nfPortsId) :
    wp (attachPorts env nf newPorts) (fun _ info' => PortsAdded [nf] [] info info')
      (fun _ => True) { info with lsi := info.lsi.addNF nf.id ports typed } := by
  simp only [attachPorts, wp_bind, wp_get]
  split
  · simp only [wp_bind, wp_onLsi, wp_throw, implies_true]
  · next nfId switchPorts hanswer =>
    obtain ⟨rfl, htranslation⟩ := hanswers.addNFPorts _ _ _ _ hanswer
    simp only [wp_bind, wp_onLsi, Except.ok.injEq]
    rintro lsi₂ hlsi₂ lsi₃ rfl
    exact writes_added _ hports htyped hnew htranslation hlsi₂

theorem portRequests_added (vnfs : List VNFs)
    (htyped : ∀ c, info.computeController = some c → ∀ nf ∈ vnfs, portsTyped c nf = true) :
    wp (portRequests env vnfs)
      (fun requests info' => PortsAdded vnfs [] info info' ∧ Requested vnfs info.lsi requests)
      (fun _ => True) info := by
  induction vnfs generalizing info with
  | nil => exact ⟨.of_networkFunctions rfl (fun _ _ => rfl) rfl, by simp [Requested, AsksPort]⟩
  | cons nf vnfs ih =>
    simp only [portRequests, wp_bind]
    refine wp_weaken (newPortList_added fun c hc => htyped c hc nf mem_cons_self)
      (fun newPorts info₁ h₁ => ?_)
    obtain ⟨ports, typed, hports, hall, rfl, hnew⟩ := h₁
    refine wp_weaken (attachPorts_added hanswers hports hall hnew) (fun _ info₂ h₂ => ?_)
    have hrest := @ih info₂ fun c hc nf' hnf' =>
      htyped c (h₂.compute ▸ hc) nf' (List.mem_cons_of_mem nf hnf')
    refine wp_weaken hrest (fun requests info₃ h₃ => ?_)
    exact ⟨h₂.trans h₃.1, h₃.2.cons hports hnew h₂.toFunctionsAdded⟩

theorem addEndpointPieces_added (ep : EndPointGre) (info : GraphInfo) :
    wp (addEndpointPieces env ep)
      (fun _ info' => PortsAdded [] [ep] info info') (fun _ => True) info := by
  simp only [addEndpointPieces, wp_bind, wp_onLsi, Except.ok.injEq]
  rintro lsi rfl
  split
  · simp only [wp_bind, wp_onLsi, wp_throw, implies_true]
  · next epName epId hanswer =>
    obtain rfl := hanswers.addEndpoint _ _ _ hanswer
    simp only [wp_onLsi, LSI.setEndpointPortID, bind_eq_ok, pure_eq_ok]
    rintro lsi ⟨_, -, rfl⟩
    refine .of_networkFunctions rfl (fun e he => ?_) rfl
    rw [List.map_singleton, mem_singleton] at he
    simp only [getElem?_insert, if_neg (Ne.symm he)]
    rfl

theorem each_addEndpointPieces_added (eps : List EndPointGre)
    (info : GraphInfo) :
    wp (each (addEndpointPieces env) eps)
      (fun _ info' => PortsAdded [] eps info info') (fun _ => True) info := by
  induction eps generalizing info with
  | nil => exact .of_networkFunctions rfl (fun _ _ => rfl) rfl
  | cons ep eps ih =>
    rw [each, wp_bind]
    refine wp_weaken (addEndpointPieces_added hanswers ep info) (fun _ info₁ h₁ => ?_)
    exact wp_weaken (ih info₁) (fun _ info₂ h₂ => h₁.trans h₂)

end

variable {nfs : List VNFs}

/-- Starting network functions changes nothing, unless one of them cannot be started. -/
theorem startCalls_made (nfs : List VNFs) :
    wp (startCalls env nfs)
      (fun calls info' => info' = info ∧ nfs.mapM (startCall info.lsi) = .ok calls)
      (fun _ => True) info := by
  simp only [startCalls, wp_bind, wp_get, wp_eval_ofAbort, wp_assert, wp_onCompute]
  intro calls hcalls _ c hc _
  split
  · exact ⟨by rw [← hc], hcalls⟩
  · rw [wp_bind]
    exact wp_of_forall (fun _ _ => trivial) (fun _ => trivial)

variable {runNFs : Bool}

/-- What the calls for the pieces of an update were, and what they have done to the ports. -/
structure Made (runNFs : Bool) (diff : Highlevel.Graph) (info info' : GraphInfo)
    (calls : UpdateCalls) : Prop where
  added : PortsAdded diff.vnfs diff.endPointsGre info info'
  requested : Requested diff.vnfs info.lsi calls.requests
  compute : runNFs = true → diff.vnfs.mapM (startCall info'.lsi) = .ok calls.compute
  noInternal : diff.endPointsInternal = []

theorem addPortsCalls_made (hanswers : env.Answers) {diff : Highlevel.Graph}
    (htyped : ∀ c, info.computeController = some c → ∀ nf ∈ diff.vnfs, portsTyped c nf = true) :
    wp (addPortsCalls env runNFs diff) (fun calls info' => Made runNFs diff info info' calls)
      (fun _ => True) info := by
  simp only [addPortsCalls, wp_bind, wp_assert]
  refine wp_weaken (portRequests_added hanswers diff.vnfs htyped) (fun requests info₁ h₁ => ?_)
  refine wp_weaken (each_addEndpointPieces_added hanswers diff.endPointsGre info₁)
    (fun _ info₂ h₂ hinternal => ?_)
  have hadded : PortsAdded diff.vnfs diff.endPointsGre info info₂ := by
    simpa only [List.append_nil, List.nil_append] using h₁.1.trans h₂
  have hnone := List.isEmpty_iff.mp hinternal
  split
  · rw [wp_bind]
    refine wp_weaken (startCalls_made diff.vnfs) (fun calls info₃ h₃ => ?_)
    obtain ⟨rfl, hcalls⟩ := h₃
    exact ⟨hadded, h₁.2, fun _ => hcalls, hnone⟩
  · next hruns => exact ⟨hadded, h₁.2, fun h => absurd h hruns, hnone⟩

/-! ## A new LSI -/

/-- The network functions of a new LSI, when their descriptions have all ports. -/
theorem new_added {eps : List EndPointGre} {links : List VLink} {typed : String → List Nat}
    (h : LSI.new nfs eps links typed = .ok lsi)
    (htyped : ∀ nf ∈ nfs, ∀ ports, nf.getPortsId = .ok ports → ports.all (typed nf.id).contains = true) :
    FunctionsAdded nfs {} lsi ∧ ∀ id, (lsi.nfDataOf id).portsNameOnSwitch = ∅ := by
  have hloop (nfs : List VNFs) (start lsi : LSI) (h : nfs.foldlM (fun lsi nf => do
        let ports ← nf.getPortsId
        pure (LSI.addNF lsi nf.id ports (typed nf.id))) start = .ok lsi)
      (htyped : ∀ nf ∈ nfs, ∀ ports, nf.getPortsId = .ok ports →
        ports.all (typed nf.id).contains = true) :
      FunctionsAdded nfs start lsi ∧
        ∀ id, (lsi.nfDataOf id).portsNameOnSwitch = (start.nfDataOf id).portsNameOnSwitch := by
    induction nfs generalizing start with
    | nil =>
      cases h
      exact ⟨.of_eq rfl, fun _ => rfl⟩
    | cons nf nfs ih =>
      simp only [List.foldlM_cons, bind_eq_ok, pure_eq_ok] at h
      obtain ⟨_, ⟨ports, hports, rfl⟩, hrest⟩ := h
      obtain ⟨hfirst, hnames, -⟩ := addNF_added start hports
        (htyped nf mem_cons_self ports hports)
      obtain ⟨hadded, hnames'⟩ := ih _ hrest fun nf' hnf' => htyped nf' (List.mem_cons_of_mem nf hnf')
      exact ⟨hfirst.trans hadded, fun id => (hnames' id).trans (hnames id)⟩
  simp only [LSI.new, bind_eq_ok, pure_eq_ok] at h
  obtain ⟨filled, hfold, rfl⟩ := h
  obtain ⟨hadded, hnames⟩ := hloop nfs _ filled hfold htyped
  have hempty : FunctionsAdded nfs {} filled :=
    (show FunctionsAdded [] {} { virtualLinks := links } from .of_eq rfl).trans hadded
  exact ⟨⟨hempty.numbered, hempty.known, hempty.nfPortsId, hempty.onSwitch⟩, hnames⟩

/-- The answer of the switch manager to a new LSI names a port of a network function. -/
def CreateLsiOut.NamesPort (clo : CreateLsiOut) (nfId : String) (p : Nat) : Prop :=
  ∃ n ∈ clo.networkFunctionsPortsNameAndID, n.1 = nfId ∧ p ∈ n.2.map Prod.snd

/-- The answer of the switch manager gives names to ports of known functions. -/
theorem created_added {clo : CreateLsiOut} (h : lsi.created clo = .ok lsi') :
    FunctionsAdded [] lsi lsi' ∧ ∀ id p, p ∈ (lsi'.nfDataOf id).portsNameOnSwitch ↔
      p ∈ (lsi.nfDataOf id).portsNameOnSwitch ∨ id ∈ lsi.networkFunctions ∧ clo.NamesPort id p := by
  simp only [LSI.created, bind_eq_ok, pure_eq_ok] at h
  obtain ⟨lsi₁, hnfs, lsi₂, heps, v, -, rfl⟩ := h
  obtain ⟨hadded₁, hnames₁⟩ : FunctionsAdded [] lsi lsi₁ ∧
      ∀ id, (lsi₁.nfDataOf id).portsNameOnSwitch = (lsi.nfDataOf id).portsNameOnSwitch := by
    refine Abort.foldlM_invariant (P := fun l => FunctionsAdded [] lsi l ∧
      ∀ id, (l.nfDataOf id).portsNameOnSwitch = (lsi.nfDataOf id).portsNameOnSwitch)
      (fun l nfp l' hstep hl => ?_) _ _ _ hnfs ⟨.of_eq rfl, fun _ => rfl⟩
    obtain ⟨hadded, hnames, -⟩ := setNfSwitchPortsID_added hstep
    exact ⟨hl.1.trans hadded, fun id => (hnames id).trans (hl.2 id)⟩
  have hfunctions₂ : lsi₂.networkFunctions = lsi₁.networkFunctions := by
    refine Abort.foldlM_invariant (P := fun l => l.networkFunctions = lsi₁.networkFunctions)
      (fun l ep l' hstep hl => ?_) _ _ _ heps rfl
    simp only [LSI.setEndpointPortID, bind_eq_ok, pure_eq_ok] at hstep
    obtain ⟨_, -, rfl⟩ := hstep
    exact hl
  have hloop (names : List (String × List (String × Nat))) (l : LSI) :
      let named := names.foldl (fun l n => l.setNetworkFunctionsPortsNameOnSwitch n.1 n.2) l
      FunctionsAdded [] l named ∧ ∀ id p, p ∈ (named.nfDataOf id).portsNameOnSwitch ↔
        p ∈ (l.nfDataOf id).portsNameOnSwitch ∨ id ∈ l.networkFunctions ∧
          ∃ n ∈ names, n.1 = id ∧ p ∈ n.2.map Prod.snd := by
    induction names generalizing l with
    | nil => exact ⟨.of_eq rfl, fun id p => by simp⟩
    | cons n names ih =>
      obtain ⟨hadded, hnames, -⟩ := setNames_added l n.1 n.2
      obtain ⟨hadded', hnames'⟩ := ih (l.setNetworkFunctionsPortsNameOnSwitch n.1 n.2)
      refine ⟨hadded.trans hadded', fun id p => ?_⟩
      have hknown := hadded.known id
      simp only [map_nil, mem_nil_iff, or_false] at hknown
      rw [foldl_cons, hnames', hnames, hknown]
      simp only [mem_cons, exists_eq_or_imp]
      rw [eq_comm (a := id)]
      tauto
  obtain ⟨hadded₃, hnames₃⟩ := hloop clo.networkFunctionsPortsNameAndID lsi₂
  have hall : FunctionsAdded [] lsi _ :=
    (hadded₁.trans (FunctionsAdded.of_eq hfunctions₂)).trans hadded₃
  refine ⟨⟨hall.numbered, hall.known, hall.nfPortsId, hall.onSwitch⟩, fun id p => ?_⟩
  have hknown := hadded₁.known id
  simp only [map_nil, mem_nil_iff, or_false] at hknown
  refine (hnames₃ id p).trans ?_
  rw [LSI.nfDataOf, hfunctions₂, ← LSI.nfDataOf, hnames₁, hknown]
  rfl

/-! ## The compute controller -/

theorem mem_retrieveDescriptions (nfs : List VNFs) (c : ComputeController) :
    wp (retrieveDescriptions env nfs)
      (fun valid c' => valid = true → ∀ id : String, id ∈ c'.nfs ↔ id ∈ c.nfs ∨ id ∈ nfs.map VNFs.id)
      (fun _ => True) c := by
  induction nfs generalizing c with
  | nil => simp [retrieveDescriptions]
  | cons nf nfs ih =>
    simp only [retrieveDescriptions, wp_bind, wp_get]
    split
    · next hselected =>
      -- a function with a selected description is known
      have hknown : nf.id ∈ c.nfs := by
        rw [mem_iff]
        intro hnone
        simp [ComputeController.getNFSelectedImplementation, hnone] at hselected
      refine wp_weaken (ih c) (fun valid c' h hvalid id => ?_)
      rw [h hvalid, map_cons, mem_cons]
      constructor
      · exact fun hid => hid.imp_right .inr
      · rintro (hid | rfl | hid)
        · exact .inl hid
        · exact .inl hknown
        · exact .inr hid
    · split
      · simp
      · simp
      · simp only [wp_bind, wp_modify]
        refine wp_weaken (ih _) (fun valid c' h hvalid id => ?_)
        rw [h hvalid, ComputeController.addNF, mem_insert, map_cons, mem_cons]
        tauto

/-- What a check followed by a selection makes of the compute controller of a graph. -/
def selectedFor (env : Environment) (c : ComputeController) (nfs : List VNFs) :
    Option ComputeController :=
  match retrieveDescriptions env nfs c with
  | .ok (some true, c') => some (c'.selectImplementation env.isSupported).1
  | _ => none

theorem mem_selectedFor {c' : ComputeController} (h : selectedFor env c nfs = some c')
    (id : String) :
    id ∈ c'.nfs ↔ id ∈ c.nfs ∨ id ∈ nfs.map VNFs.id := by
  unfold selectedFor at h
  split at h
  · next c₁ hretrieve =>
    obtain rfl := Option.some.inj h
    rw [ComputeController.mem_selectImplementation]
    exact (of_wp (mem_retrieveDescriptions nfs c) hretrieve).1 true rfl rfl id
  · cases h

/-- All the ports that network functions ask for have a type, once the functions are described. -/
def AllTyped (env : Environment) (nfs : List VNFs) (info : GraphInfo) : Prop :=
  ∀ c ∈ info.computeController, ∀ c' ∈ selectedFor env c nfs, ∀ nf ∈ nfs, portsTyped c' nf = true

instance (env : Environment) (nfs : List VNFs) (info : GraphInfo) :
    Decidable (AllTyped env nfs info) :=
  inferInstanceAs (Decidable (∀ _ ∈ _, ∀ _ ∈ _, ∀ _ ∈ _, _))

/-- Adding the pieces of an update: the functions of the difference are described, and each of
them gets its ports. -/
theorem addPiecesCalls_made (hanswers : env.Answers) {physicalPorts : StringMap Nat} {graphID : String}
    {newGraph : Highlevel.Graph} {nextID : Nat}
    (htyped : AllTyped env (info.graph.calculateDiff newGraph graphID).vnfs info) :
    let diff := info.graph.calculateDiff newGraph graphID
    wp (addPiecesCalls env physicalPorts runNFs graphID newGraph)
      (fun r t => r.1 = diff ∧ ∃ c c', info.computeController = some c ∧
        selectedFor env c diff.vnfs = some c' ∧
        Made runNFs diff { info with computeController := some c' } t.2 r.2)
      (fun _ => True) (nextID, info) := by
  intro diff
  simp only [addPiecesCalls, lift, GraphInfo.onLinks, wp_bind, wp_get, wp_focus,
    checkGraphValidity]
  split
  · simp
  · rw [wp_onCompute]
    intro c hc
    refine wp_mono wp_self (fun valid c₁ hretrieve => ?_) (fun _ _ => trivial)
    cases valid with
    | false => simp
    | true =>
      simp only [Bool.not_true, Bool.false_eq_true, if_false, wp_bind, wp_focus,
        wp_modify, wp_onCompute, selectImplementation, wp_get, wp_pure]
      rintro _ ⟨⟩
      have hselected : selectedFor env c diff.vnfs =
          some (c₁.selectImplementation env.isSupported).1 := by
        simp only [selectedFor, diff, hretrieve]
      split
      · simp [wp_bind, wp_focus]
      · simp only [wp_bind, wp_focus]
        refine wp_of_forall (fun _ links => ?_) (fun _ => trivial)
        refine wp_weaken (addPortsCalls_made hanswers ?_) (fun calls info₁ h₁ => ?_)
        · rintro _ ⟨⟩
          exact htyped c hc _ hselected
        · exact ⟨rfl, c, _, hc, hselected, h₁.added.congr_left rfl rfl rfl, h₁.requested, h₁.compute,
            h₁.noInternal⟩

theorem addPieces_added (hanswers : env.Answers) {physicalPorts : StringMap Nat} {graphID : String}
    {newGraph : Highlevel.Graph} {nextID : Nat}
    (htyped : AllTyped env (info.graph.calculateDiff newGraph graphID).vnfs info) :
    let diff := info.graph.calculateDiff newGraph graphID
    wp (addPieces env physicalPorts runNFs graphID newGraph)
      (fun _ t => ∃ c c', info.computeController = some c ∧ selectedFor env c diff.vnfs = some c' ∧
        PortsAdded diff.vnfs diff.endPointsGre { info with computeController := some c' } t.2)
      (fun _ => True) (nextID, info) := by
  rw [addPieces_eq, wp_map]
  refine wp_weaken (addPiecesCalls_made hanswers htyped) (fun r t h => ?_)
  obtain ⟨-, c, c', hc, hselected, hmade⟩ := h
  exact ⟨c, c', hc, hselected, hmade.added⟩

/-! ## Fewer ports -/

/-- Network functions have lost their ports on the LSI and, where functions are run, were
stopped. -/
structure PortsRemoved (env : Environment) (runNFs : Bool) (vnfs : List VNFs)
    (info info' : GraphInfo) : Prop where
  gre : info'.lsi.endpointsPortsId = info.lsi.endpointsPortsId
  functions : ∀ id : String, info'.lsi.networkFunctions[id]? =
    if id ∈ vnfs.map VNFs.id then none else info.lsi.networkFunctions[id]?
  compute : (∀ id, env.stopNF id = true) → ∀ c, info.computeController = some c →
    ∃ c', info'.computeController = some c' ∧
      ∀ id : String, id ∈ c'.nfs ↔ id ∈ c.nfs ∧ (runNFs = true → id ∉ vnfs.map VNFs.id)

theorem PortsRemoved.nfDataOf {info' : GraphInfo} (h : PortsRemoved env runNFs vnfs info info')
    (id : String) :
    info'.lsi.nfDataOf id = if id ∈ vnfs.map VNFs.id then {} else info.lsi.nfDataOf id := by
  rw [LSI.nfDataOf, h.functions]
  split <;> rfl

theorem PortsRemoved.trans {vnfs' : List VNFs} {info₁ info₂ : GraphInfo}
    (h : PortsRemoved env runNFs vnfs info info₁) (h₁ : PortsRemoved env runNFs vnfs' info₁ info₂) :
    PortsRemoved env runNFs (vnfs ++ vnfs') info info₂ := by
  refine ⟨h₁.gre.trans h.gre, fun id => ?_, fun hstop c hc => ?_⟩
  · rw [h₁.functions, h.functions, map_append]
    simp only [mem_append]
    grind
  · obtain ⟨c₁, hc₁, hknown₁⟩ := h.compute hstop c hc
    obtain ⟨c₂, hc₂, hknown₂⟩ := h₁.compute hstop c₁ hc₁
    refine ⟨c₂, hc₂, fun id => ?_⟩
    rw [hknown₂, hknown₁, map_append, mem_append]
    tauto

/-- Steps that have no part in network functions. -/
theorem PortsRemoved.of_eq {info' : GraphInfo}
    (hgre : info'.lsi.endpointsPortsId = info.lsi.endpointsPortsId)
    (hfunctions : info'.lsi.networkFunctions = info.lsi.networkFunctions)
    (hcompute : info'.computeController = info.computeController) :
    PortsRemoved env runNFs [] info info' := by
  refine ⟨hgre, fun id => ?_, fun _ c hc => ⟨c, hcompute.trans hc, fun id => ?_⟩⟩
  · simp [hfunctions]
  · simp

theorem removeNFPieces_removed {vnf : VNFs} (info : GraphInfo) :
    wp (removeNFPieces env runNFs vnf)
      (fun _ info' => PortsRemoved env runNFs [vnf] info info') (fun _ => True) info := by
  have hfunctions (lsi : LSI) (id : String) : (lsi.removeNF vnf.id).networkFunctions[id]? =
      if id ∈ [vnf].map VNFs.id then none else lsi.networkFunctions[id]? := by
    simp only [LSI.removeNF, StringMap.getElem?_erase, List.map_singleton, mem_singleton,
      eq_comm]
  cases runNFs with
  | false =>
    simp only [removeNFPieces, Bool.false_eq_true, if_false]
    split
    · rw [wp_onLsi]
      rintro _ ⟨⟩
      exact ⟨rfl, hfunctions info.lsi, fun _ c hc => ⟨c, hc, fun id => by simp⟩⟩
    · trivial
  | true =>
    simp only [removeNFPieces, if_true, wp_bind, wp_onCompute, wp_update,
      bind_eq_ok, pure_eq_ok]
    rintro c hc _ ⟨⟨c', stopped⟩, hstopped, rfl⟩
    split
    · rw [wp_onLsi]
      rintro _ ⟨⟩
      refine ⟨rfl, hfunctions info.lsi, fun hstop d hd => ⟨c', rfl, fun id => ?_⟩⟩
      obtain rfl : c = d := Option.mem_unique hc hd
      rw [hstop] at hstopped
      rw [ComputeController.mem_stopNF hstopped]
      simp
    · trivial

/-- Removing the pieces of an update. -/
theorem removePieces_removed {rofl : Lowlevel.Rofl} {diff : Highlevel.Graph}
    {removeRuleInfo : List RuleRemovedInfo} :
    wp (removePieces rofl env runNFs diff removeRuleInfo)
      (fun _ info' => PortsRemoved env runNFs diff.vnfs info info') (fun _ => True) info := by
  have hnfs (vnfs : List VNFs) (info : GraphInfo) : wp (each (removeNFPieces env runNFs) vnfs)
      (fun _ info' => PortsRemoved env runNFs vnfs info info') (fun _ => True) info := by
    induction vnfs generalizing info with
    | nil => exact .of_eq rfl rfl rfl
    | cons vnf vnfs ih =>
      rw [each, wp_bind]
      refine wp_weaken (removeNFPieces_removed info) (fun _ info₁ h₁ => ?_)
      exact wp_weaken (ih info₁) (fun _ info₂ h₂ => h₁.trans h₂)
  simp only [removePieces, wp_bind, wp_modify, wp_get, wp_focus]
  refine wp_of_forall (fun _ links => ?_) (fun _ => trivial)
  -- the endpoints that go keep the numbers of their ports
  refine wp_weaken (wp_each (I := fun _ info' => PortsRemoved env runNFs [] info info')
    (fun ep _ info' h' => ?_) diff.endPointsGre _ (.of_eq rfl rfl rfl)) (fun _ info' h' => ?_)
  · unfold removeEndpointPieces
    split
    · simp only [wp_onLsi, LSI.removeEndpoint, bind_eq_ok, pure_eq_ok]
      rintro _ ⟨_, -, rfl⟩
      exact h'.trans (.of_eq rfl rfl rfl)
    · trivial
  · exact wp_weaken (hnfs diff.vnfs info') (fun _ info₂ h₂ => h'.trans h₂)

/-! ## An update -/

namespace GraphManager

/-- The pieces that an update adds to a graph. -/
def news (graphID : String) (newGraph graph : Highlevel.Graph) : Highlevel.Graph :=
  graph.calculateDiff newGraph graphID

/-- The pieces that an update takes out of a graph, which has got the new ones then. -/
def stale (graphID : String) (newGraph graph : Highlevel.Graph) : Highlevel.Graph :=
  newGraph.calculateDiff (graph.addGraphToGraph (news graphID newGraph graph)).1 graphID

namespace Update

variable {rofl : Lowlevel.Rofl} {env : Environment} {s : GraphManager} {graphID : String}
  {newGraph : Highlevel.Graph}

variable (u : Update rofl env s graphID newGraph)

theorem stale_eq :
    newGraph.calculateDiff u.grown.2.graph graphID = stale graphID newGraph u.info.graph := by
  rw [stale, u.added.graph, news]

/-- The first half of an update that was done. -/
theorem portsAdded (hanswers : env.Answers)
    (htyped : AllTyped env (news graphID newGraph u.info.graph).vnfs u.info) :
    ∃ c c', u.info.computeController = some c ∧
      selectedFor env c (news graphID newGraph u.info.graph).vnfs = some c' ∧
      PortsAdded (news graphID newGraph u.info.graph).vnfs
        (news graphID newGraph u.info.graph).endPointsGre
        { u.info with computeController := some c' } u.grown.2 :=
  (of_wp (addPieces_added hanswers htyped) u.adds).1 _ rfl

/-- The second half. -/
theorem portsRemoved :
    PortsRemoved env s.runNFs (stale graphID newGraph u.info.graph).vnfs u.grown.2 u.reduced := by
  rw [← u.stale_eq]
  have h := (of_wp removePieces_removed u.removes).1 () rfl
  exact ⟨h.gre, h.functions, h.compute⟩

end Update

end GraphManager

end UnOrchestrator
