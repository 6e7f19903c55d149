import UnOrchestrator.Lib.Call
import UnOrchestrator.Lib.StringMap

/-!
# JSON values

A document is a tree whose objects list their members as the text does. A program sees
an object as a map (`getObject`): a later member replaces an earlier one of the same
name, and a loop over the members meets the names in their order. Asking a value for
another type than it has throws.

A loop that builds a record from the members usually writes one field for each name. The
rule `forEach_eq_ok_iff` turns such a loop into a statement about the whole object: the
record is what the members say, and the loop ends normally when each member is
acceptable.
-/

open Std (ExtTreeMap)

inductive Json where
  | null
  | bool (b : Bool)
  | int (n : Int)
  | real
  | str (s : String)
  | arr (items : List Json)
  | obj (members : List (String × Json))
  deriving Repr

namespace Json

/-- An object as a program sees it. -/
abbrev Object : Type := StringMap Json

def getString : Json → Except Failure String
  | .str s => .ok s
  | _ => .error .thrown

def getBool : Json → Except Failure Bool
  | .bool b => .ok b
  | _ => .error .thrown

/-- The `int` that an integer is cut to. -/
def getInt : Json → Except Failure Int
  | .int n => .ok (n.bmod (2 ^ 32))
  | _ => .error .thrown

def getArray : Json → Except Failure (List Json)
  | .arr items => .ok items
  | _ => .error .thrown

def getObject : Json → Except Failure Object
  | .obj members => .ok (ExtTreeMap.ofList members compare)
  | _ => .error .thrown

/-- The document of an object that a program has put together. -/
def ofObject (o : Object) : Json := .obj o.toList

variable {j : Json}

@[simp] theorem getString_eq_ok {s : String} : j.getString = .ok s ↔ j = .str s := by
  cases j <;> simp [getString]

@[simp] theorem getArray_eq_ok {items : List Json} :
    j.getArray = .ok items ↔ j = .arr items := by
  cases j <;> simp [getArray]

theorem nodup_keys (o : Object) : (o.toList.map Prod.fst).Nodup := by
  rw [List.Nodup, List.pairwise_map]
  exact (ExtTreeMap.distinct_keys_toList (t := o)).imp fun hne heq =>
    hne (Std.LawfulEqCmp.compare_eq_iff_eq.mpr heq)

/-- What was put together is read back. -/
@[simp] theorem getObject_ofObject (o : Object) : (ofObject o).getObject = .ok o := by
  simp only [ofObject, getObject, Except.ok.injEq]
  refine ExtTreeMap.ext_getElem? fun k => ?_
  ext v
  rw [StringMap.getElem?_ofList (nodup_keys o), ExtTreeMap.mem_toList_iff_getElem?_eq_some]

/-- An array, with each of its elements read. -/
def mapArray {β : Type} (read : Json → Except Failure β) (j : Json) : Except Failure (List β) := do
  let items ← j.getArray
  items.mapM read

variable {β : Type}

theorem mapArray_eq_ok {read : Json → Except Failure β} {bs : List β} :
    j.mapArray read = .ok bs ↔
      ∃ items, j = .arr items ∧ List.Forall₂ (fun v b => read v = .ok b) items bs := by
  simp only [mapArray, Failure.bind_eq_ok, getArray_eq_ok, Failure.mapM_eq_ok_iff]

/-- What is read under a name, among members that may or may not be there. -/
def member {β : Type} (read : Json → Except Failure β) (seen : String → Option Json)
    (name : String) : Option β :=
  (seen name).bind fun v => (read v).toOption

variable {seen : String → Option Json} {name : String}

theorem member_eq_some {read : Json → Except Failure β} {b : β} :
    member read seen name = some b ↔ ∃ v, seen name = some v ∧ read v = .ok b := by
  simp only [member, Option.bind_eq_some_iff, Failure.toOption_eq_some]

variable {k : String}

@[simp] theorem member_update {read : Json → Except Failure β} {v : Json} :
    member read (Function.update seen name (some v)) k =
      if k = name then (read v).toOption else member read seen k := by
  unfold member
  by_cases hk : k = name
  · subst hk
    rw [Function.update_self, if_pos rfl]
    rfl
  · rw [Function.update_of_ne hk, if_neg hk]

/-- The text under a name. -/
abbrev text (seen : String → Option Json) (name : String) : Option String :=
  member getString seen name

theorem text_eq_some {s : String} :
    text seen name = some s ↔ seen name = some (.str s) := by
  simp [text, member_eq_some]

/-! ## Objects written member by member -/

/-- The last value that a list of members has for a name, members without a value left out. -/
def lastOf {β : Type} : List (String × Option β) → String → Option β
  | [], _ => none
  | (name, v) :: members, k => lastOf members k <|> if name = k then v else none

/-- The object that is written member by member; a member without a value is not written. -/
def ofMembers (members : List (String × Option Json)) : Object :=
  members.foldl (fun o member => (member.2.map fun v => o.insert member.1 v).getD o) ∅

theorem getElem?_ofMembers (members : List (String × Option Json)) (k : String) :
    (ofMembers members)[k]? = lastOf members k := by
  suffices ∀ o : Object, (members.foldl (fun o member =>
      (member.2.map fun v => o.insert member.1 v).getD o) o)[k]? = (lastOf members k <|> o[k]?) by
    rw [ofMembers, this]
    simp
  induction members with
  | nil => simp [lastOf]
  | cons member members ih =>
    obtain ⟨name, v⟩ := member
    intro o
    rw [List.foldl_cons, ih]
    cases v with
    | none => simp [lastOf]
    | some v =>
      by_cases hk : name = k <;>
        simp [lastOf, StringMap.getElem?_insert, hk]

theorem mem_of_lastOf {members : List (String × Option β)} {v : β} (h : lastOf members k = some v) :
    (k, some v) ∈ members := by
  induction members with
  | nil => cases h
  | cons member members ih =>
    obtain ⟨name, v'⟩ := member
    cases hrest : lastOf members k with
    | some w =>
      rw [lastOf, hrest] at h
      exact List.mem_cons_of_mem _ (ih (hrest.trans (by simpa using h)))
    | none =>
      rw [lastOf, hrest] at h
      split_ifs at h with hk
      · exact List.mem_cons.mpr (.inl (by simpa [hk] using h.symm))
      · cases h

/-- What holds of every member that is written holds of every member of the object. -/
theorem forall_ofMembers {members : List (String × Option Json)} {P : String → Json → Prop}
    (h : ∀ member ∈ members, ∀ v, member.2 = some v → P member.1 v) (name : String) (v : Json)
    (hv : (ofMembers members)[name]? = some v) : P name v := by
  rw [getElem?_ofMembers] at hv
  exact h _ (mem_of_lastOf hv) v rfl

theorem isSome_lastOf {members : List (String × Option β)} {member : String × Option β}
    (hmember : member ∈ members) (hsome : member.2.isSome) : (lastOf members member.1).isSome := by
  induction members with
  | nil => cases hmember
  | cons head members ih =>
    rw [lastOf]
    rcases List.mem_cons.mp hmember with rfl | hmember
    · cases lastOf members member.1 <;> simp [hsome]
    · obtain ⟨v, hv⟩ := Option.isSome_iff_exists.mp (ih hmember)
      simp [hv]

theorem lastOf_eq_none {members : List (String × Option β)}
    (h : ∀ member ∈ members, member.1 ≠ k ∨ member.2 = none) : lastOf members k = none := by
  refine Option.eq_none_iff_forall_ne_some.mpr fun v hv => ?_
  rcases h _ (mem_of_lastOf hv) with hname | hnone
  · exact hname rfl
  · cases hnone

theorem lastOf_map {γ : Type} (f : β → γ) (members : List (String × Option β)) (k : String) :
    lastOf (members.map fun member => (member.1, member.2.map f)) k = (lastOf members k).map f := by
  induction members with
  | nil => rfl
  | cons member members ih =>
    obtain ⟨name, v⟩ := member
    simp only [List.map_cons, lastOf, ih]
    cases lastOf members k <;> by_cases hk : name = k <;> simp [hk]

/-! ## Loops over the members of an object -/

variable {σ : Type}

/-- A loop over the members, in the order of their names. -/
def forEach (o : Object) (init : σ) (step : σ → String → Json → Except Failure σ) :
    Except Failure σ :=
  o.toList.foldlM (fun s member => step s member.1 member.2) init

/-- A loop on a state that every round carries along. -/
theorem forEach_map {step : σ → String → Json → Except Failure σ} {f : σ → σ}
    (h : ∀ s name v, step (f s) name v = (step s name v).map f) (o : Object) (s : σ) :
    forEach o (f s) step = (forEach o s step).map f := by
  unfold forEach
  induction o.toList generalizing s with
  | nil => rfl
  | cons member members ih =>
    rw [List.foldlM_cons, List.foldlM_cons, h]
    cases step s member.1 member.2 with
    | error failure => rfl
    | ok s' => exact ih s'

/-- The members that a list adds to those already seen. -/
def overlay (seen : String → Option Json) (members : List (String × Json)) :
    String → Option Json :=
  members.foldl (fun seen member => Function.update seen member.1 (some member.2)) seen

theorem overlay_of_notMem {members : List (String × Json)} (h : k ∉ members.map Prod.fst) :
    overlay seen members k = seen k := by
  induction members generalizing seen with
  | nil => rfl
  | cons member members ih =>
    simp only [List.map_cons, List.mem_cons, not_or] at h
    rw [overlay, List.foldl_cons]
    exact (ih h.2).trans (Function.update_of_ne h.1 _ _)

theorem overlay_of_mem {members : List (String × Json)} (hnodup : (members.map Prod.fst).Nodup) {v : Json}
    (h : (k, v) ∈ members) :
    overlay seen members k = some v := by
  induction members generalizing seen with
  | nil => cases h
  | cons member members ih =>
    rw [List.map_cons, List.nodup_cons] at hnodup
    rw [overlay, List.foldl_cons]
    rcases List.mem_cons.mp h with rfl | h
    · refine (overlay_of_notMem hnodup.1).trans ?_
      exact Function.update_self ..
    · exact ih hnodup.2 h

theorem overlay_append (seen : String → Option Json) (members members' : List (String × Json)) :
    overlay seen (members ++ members') = overlay (overlay seen members) members' :=
  List.foldl_append ..

theorem sorted_keys (o : Object) : (o.toList.map Prod.fst).Pairwise (· < ·) := by
  rw [List.pairwise_map]
  exact (ExtTreeMap.ordered_keys_toList (t := o)).imp compare_lt_iff_lt.mp

theorem overlay_toList (o : Object) : overlay (fun _ => none) o.toList = fun k => o[k]? := by
  funext k
  cases hk : o[k]? with
  | none =>
    refine overlay_of_notMem fun hmem => ?_
    obtain ⟨⟨k', v⟩, hpair, rfl⟩ := List.mem_map.mp hmem
    rw [ExtTreeMap.mem_toList_iff_getElem?_eq_some, hk] at hpair
    cases hpair
  | some v =>
    exact overlay_of_mem (nodup_keys o) (ExtTreeMap.mem_toList_iff_getElem?_eq_some.mpr hk)

section Build

variable {step : σ → String → Json → Except Failure σ} (valid : String → Json → Prop)
  (build : (String → Option Json) → σ)

/-- The rule for the rest of a loop, once the members before it have been seen. -/
theorem foldlM_eq_ok_iff {o : Object}
    (hstep : ∀ seen name v, (∀ k, seen k = if k < name then o[k]? else none) →
      o[name]? = some v → ∀ s, step (build seen) name v = .ok s ↔
        valid name v ∧ s = build (Function.update seen name (some v)))
    (before members : List (String × Json)) (ho : o.toList = before ++ members) (s : σ) :
    members.foldlM (fun s member => step s member.1 member.2)
        (build (overlay (fun _ => none) before)) = .ok s ↔
      (∀ member ∈ members, valid member.1 member.2) ∧
        s = build (overlay (fun _ => none) (before ++ members)) := by
  induction members generalizing before with
  | nil =>
    rw [List.foldlM_nil, Failure.pure_eq_ok, eq_comm, List.append_nil]
    simp
  | cons member members ih =>
    have hsorted := sorted_keys o
    rw [ho, List.map_append, List.map_cons, List.pairwise_append, List.pairwise_cons] at hsorted
    obtain ⟨-, ⟨hafter, -⟩, hbefore⟩ := hsorted
    have hseen (k : String) : overlay (fun _ => none) before k =
        if k < member.1 then o[k]? else none := by
      have hk := congrFun (overlay_toList o) k
      rw [ho, overlay_append] at hk
      split_ifs with hlt
      · rw [← hk]
        refine (overlay_of_notMem ?_).symm
        simp only [List.map_cons, List.mem_cons, not_or]
        exact ⟨hlt.ne, fun hmem => (hafter k hmem).not_gt hlt⟩
      · exact overlay_of_notMem fun hmem => hlt (hbefore k hmem member.1 List.mem_cons_self)
    have hrest := ih (before ++ [member]) (by rw [ho, List.append_assoc]; rfl)
    rw [overlay_append, List.append_assoc] at hrest
    have hmember : o[member.1]? = some member.2 := by
      rw [← ExtTreeMap.mem_toList_iff_getElem?_eq_some, ho]
      simp
    simp only [List.foldlM_cons, Failure.bind_eq_ok, hstep _ member.1 member.2 hseen hmember,
      List.forall_mem_cons]
    constructor
    · rintro ⟨_, ⟨hvalid, rfl⟩, hloop⟩
      obtain ⟨hvalids, hs⟩ := hrest.mp hloop
      exact ⟨⟨hvalid, hvalids⟩, hs⟩
    · rintro ⟨⟨hvalid, hvalids⟩, hs⟩
      exact ⟨_, ⟨hvalid, rfl⟩, hrest.mpr ⟨hvalids, hs⟩⟩

/-- A loop whose every round checks its member and writes what the member says, next to what
the members with smaller names said, ends normally exactly when all members pass their
checks, and with what all of them say. -/
theorem forEach_eq_ok_iff_of_below (o : Object)
    (hstep : ∀ seen name v, (∀ k, seen k = if k < name then o[k]? else none) →
      o[name]? = some v → ∀ s, step (build seen) name v = .ok s ↔
        valid name v ∧ s = build (Function.update seen name (some v))) (s : σ) :
    forEach o (build fun _ => none) step = .ok s ↔
      (∀ name v, o[name]? = some v → valid name v) ∧ s = build (fun k => o[k]?) := by
  have hloop := foldlM_eq_ok_iff valid build hstep [] o.toList rfl s
  rw [List.nil_append, overlay_toList] at hloop
  refine hloop.trans ?_
  simp only [Prod.forall, ExtTreeMap.mem_toList_iff_getElem?_eq_some]

/-- The rule for a round that does not look at the members before it. -/
theorem forEach_eq_ok_iff
    (hstep : ∀ seen name v, (∀ k, name ≤ k → seen k = none) → ∀ s,
      step (build seen) name v = .ok s ↔
        valid name v ∧ s = build (Function.update seen name (some v)))
    (o : Object) (s : σ) :
    forEach o (build fun _ => none) step = .ok s ↔
      (∀ name v, o[name]? = some v → valid name v) ∧ s = build (fun k => o[k]?) :=
  forEach_eq_ok_iff_of_below valid build o (fun seen name v hseen _ =>
    hstep seen name v fun k hk => by rw [hseen, if_neg hk.not_gt]) s

/-- A loop for one member, which must be there and alone. -/
theorem forEach_single (o : Object) (name : String) (read : σ → Json → Except Failure σ)
    (init : σ) {s : σ} :
    (forEach o (init, false) (fun st k value =>
      if k = name then do
        let s ← read st.1 value
        pure (s, true)
      else .error .thrown) >>= fun st => if st.2 then pure st.1 else .error .thrown) = .ok s ↔
      (∀ k v, o[k]? = some v → k = name) ∧ ∃ v, o[name]? = some v ∧ read init v = .ok s := by
  let build (seen : String → Option Json) : σ × Bool :=
    (member (read init) seen name).elim (init, false) fun s => (s, true)
  have hloop (st : σ × Bool) : forEach o (init, false) (fun st k value =>
      if k = name then do
        let s ← read st.1 value
        pure (s, true)
      else .error .thrown) = .ok st ↔
        (∀ k v, o[k]? = some v → k = name ∧ Failure.Returns (read init v)) ∧ st = build fun k => o[k]? := by
    refine forEach_eq_ok_iff (fun k v => k = name ∧ Failure.Returns (read init v)) build ?_ o st
    intro seen k v hseen r
    split_ifs with hk
    · subst hk
      have hnew : (build seen).1 = init := by simp [build, member, hseen k le_rfl]
      simp only [hnew, true_and]
      exact Failure.bind_pure_eq_ok_iff fun s hs => by simp [build, hs]
    · simp [hk]
  simp only [Failure.bind_eq_ok, hloop]
  constructor
  · rintro ⟨_, ⟨hvalid, rfl⟩, hs⟩
    refine ⟨fun k v hv => (hvalid k v hv).1, ?_⟩
    cases hmember : member (read init) (fun k => o[k]?) name with
    | none => simp [build, hmember] at hs
    | some s' =>
      obtain ⟨v, hv, hread⟩ := member_eq_some.mp hmember
      simp only [build, hmember] at hs
      exact ⟨v, hv, hs ▸ hread⟩
  · rintro ⟨hname, v, hv, hread⟩
    refine ⟨_, ⟨fun k w hw => ?_, rfl⟩, ?_⟩
    · obtain rfl := hname k w hw
      obtain rfl : v = w := Option.mem_unique hv hw
      exact ⟨rfl, s, hread⟩
    · have hmember : member (read init) (fun k => o[k]?) name = some s :=
        member_eq_some.mpr ⟨v, hv, hread⟩
      simp [build, hmember]

end Build

/-! ## Loops over arrays whose elements have identifiers -/

variable {α β : Type}

/-- An element on the right stands for one on the left. -/
theorem exists_mem_left {R : α → β → Prop} {as : List α} {bs : List β} (h : List.Forall₂ R as bs) {b : β}
    (hb : b ∈ bs) : ∃ a ∈ as, R a b := by
  induction h with
  | nil => cases hb
  | cons hab _ ih =>
    rcases List.mem_cons.mp hb with rfl | hb
    · exact ⟨_, List.mem_cons_self, hab⟩
    · obtain ⟨a, ha, hR⟩ := ih hb
      exact ⟨a, List.mem_cons_of_mem _ ha, hR⟩

/-- What the elements on both sides contribute is the same if related elements contribute the
same. -/
theorem filterMap_eq_of_forall₂ {γ : Type} {R : α → β → Prop} {f : α → Option γ} {f' : β → Option γ}
    (hf : ∀ a b, R a b → f a = f' b) {as : List α} {bs : List β} (h : List.Forall₂ R as bs) :
    as.filterMap f = bs.filterMap f' := by
  induction h with
  | nil => rfl
  | cons hab _ ih => rw [List.filterMap_cons, List.filterMap_cons, hf _ _ hab, ih]

theorem exists_mem_right {R : α → β → Prop} {as : List α} {bs : List β} (h : List.Forall₂ R as bs) {a : α}
    (ha : a ∈ as) : ∃ b ∈ bs, R a b :=
  exists_mem_left h.flip ha

/-- A loop that checks each element on its own, demands that an identifier it has is new, and
then changes the state, accepts an array exactly when all elements pass and their identifiers
are new and distinct. -/
theorem foldlM_fresh_iff {π : Type} {step : σ → α → Except Failure σ} (stands : α → π → Prop)
    (id : π → Option String) (used : σ → String → Prop) (apply : σ → π → σ)
    (hstep : ∀ s a s', step s a = .ok s' ↔ ∃ p, stands a p ∧ (∀ i, id p = some i → ¬ used s i) ∧ s' = apply s p)
    (hused : ∀ s p i, used (apply s p) i ↔ used s i ∨ id p = some i) (items : List α) (s s' : σ) :
    items.foldlM step s = .ok s' ↔
      ∃ ps, List.Forall₂ stands items ps ∧ (ps.filterMap id).Nodup ∧
        (∀ i ∈ ps.filterMap id, ¬ used s i) ∧ s' = ps.foldl apply s := by
  induction items generalizing s with
  | nil =>
    rw [List.foldlM_nil, Failure.pure_eq_ok, eq_comm]
    constructor
    · rintro rfl
      exact ⟨[], .nil, List.nodup_nil, by simp, rfl⟩
    · rintro ⟨ps, hps, -, -, rfl⟩
      cases hps
      rfl
  | cons a items ih =>
    simp only [List.foldlM_cons, Failure.bind_eq_ok, hstep, ih]
    constructor
    · rintro ⟨_, ⟨p, hp, hnew, rfl⟩, ps, hps, hnodup, hfresh, rfl⟩
      have hfresh' (i : String) (hi : i ∈ ps.filterMap id) : ¬ used s i ∧ id p ≠ some i := by
        have := hfresh i hi
        rwa [hused, not_or] at this
      refine ⟨p :: ps, .cons hp hps, ?_, ?_, rfl⟩
      · cases hid : id p with
        | none => rwa [List.filterMap_cons_none hid]
        | some i =>
          rw [List.filterMap_cons_some hid, List.nodup_cons]
          exact ⟨fun hi => (hfresh' i hi).2 hid, hnodup⟩
      · intro i hi
        obtain ⟨q, hq, hid⟩ := List.mem_filterMap.mp hi
        rcases List.mem_cons.mp hq with rfl | hq
        · exact hnew i hid
        · exact (hfresh' i (List.mem_filterMap.mpr ⟨q, hq, hid⟩)).1
    · rintro ⟨_, hps, hnodup, hfresh, rfl⟩
      obtain ⟨p, ps, hp, hrest, rfl⟩ := List.forall₂_cons_left_iff.mp hps
      refine ⟨_, ⟨p, hp, fun i hi => hfresh i (List.mem_filterMap.mpr ⟨p, List.mem_cons_self, hi⟩),
        rfl⟩, ps, hrest, ?_, ?_, rfl⟩
      · cases hid : id p with
        | none => rwa [List.filterMap_cons_none hid] at hnodup
        | some i =>
          rw [List.filterMap_cons_some hid, List.nodup_cons] at hnodup
          exact hnodup.2
      · intro i hi
        rw [hused, not_or]
        obtain ⟨q, hq, hid⟩ := List.mem_filterMap.mp hi
        refine ⟨hfresh i (List.mem_filterMap.mpr ⟨q, List.mem_cons_of_mem _ hq, hid⟩), fun hpi => ?_⟩
        rw [List.filterMap_cons_some hpi, List.nodup_cons] at hnodup
        exact hnodup.1 hi

end Json
