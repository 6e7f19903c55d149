import Mathlib.Data.List.SplitBy
import UnOrchestrator.ElasticRouter.Scale

/-!
# Names of new datapaths

The datapaths of the router are named `ovs` with a number. When it is scaled, the application looks up the
first number that is not used in the NF-FG (`getNextOvsId_eq`) and gives the new datapaths this number
and those that follow it. Only the first of them is known to be free.

The numbers are read off the identifiers in the NF-FG, while the datapaths that exist are kept under the
names of the network functions. So the names are new exactly if no number in use and no name in use follows
the gap so closely that it is handed out again, and the gap is not behind 99999999, where the search
starts over (`names_fresh_iff`).
-/

namespace UnOrchestrator.ElasticRouter

/-! ## The first gap -/

/-- The lowest positive number that is not in the list. -/
structure FirstGap (S : List Int) (gap : Int) : Prop where
  pos : 1 ≤ gap
  free : gap ∉ S
  below : ∀ n, 1 ≤ n → n < gap → n ∈ S

theorem FirstGap.unique {S : List Int} {a b : Int} (ha : FirstGap S a) (hb : FirstGap S b) : a = b := by
  rcases lt_trichotomy a b with hlt | heq | hgt
  · exact absurd (hb.below a ha.pos hlt) ha.free
  · exact heq
  · exact absurd (ha.below b hb.pos hgt) hb.free

/-- In a list of successive numbers there is every number between two of them. -/
theorem mem_of_successive {group : List Int} (hchain : group.IsChain (fun a b => b = a + 1)) {a b k : Int}
    (ha : a ∈ group) (hb : b ∈ group) (hak : a ≤ k) (hkb : k ≤ b) : k ∈ group := by
  have hget : ∀ i (hi : i < group.length), group[i] = group[0] + i := by
    intro i
    induction i with
    | zero => simp
    | succ i ih =>
      intro hi
      rw [(List.isChain_iff_getElem.mp hchain) i (by omega), ih (by omega)]
      push_cast
      ring
  obtain ⟨i, hi, rfl⟩ := List.mem_iff_getElem.mp ha
  obtain ⟨j, hj, rfl⟩ := List.mem_iff_getElem.mp hb
  rw [hget i hi] at hak
  rw [hget j hj] at hkb
  have hlt : (k - group[0]).toNat < group.length := by omega
  refine List.mem_iff_getElem.mpr ⟨(k - group[0]).toNat, hlt, ?_⟩
  rw [hget _ hlt]
  omega

/-- The first group of a sorted list has successive numbers, and a number is missing behind it. -/
theorem head_successive {s : List Int} (hsorted : s.Pairwise (· < ·)) (hne : s ≠ []) :
    ∃ group rest, (successive s).head? = some group ∧ s = group ++ rest ∧ group ≠ [] ∧
      group.IsChain (fun a b => b = a + 1) ∧ ∀ x ∈ group, ∀ y ∈ rest, x + 1 < y := by
  let r : Int × Nat → Int × Nat → Bool := fun a b => (a.2 : Int) - a.1 == (b.2 : Int) - b.1
  have hnumbered : s.zipIdx.IsChain (fun a b => b.2 = a.2 + 1) := by
    rw [List.isChain_iff_getElem]
    intro i hi
    simp only [List.getElem_zipIdx]
    omega
  obtain ⟨group, groups, hsplit⟩ : ∃ group groups, s.zipIdx.splitBy r = group :: groups := by
    refine List.exists_cons_of_ne_nil (List.splitBy_ne_nil.mpr ?_)
    simpa using hne
  obtain ⟨hflat, hnil, hchains, hbreaks⟩ := List.splitBy_eq_iff.mp hsplit
  rw [List.flatten_cons] at hflat
  have hs : s = group.map Prod.fst ++ groups.flatten.map Prod.fst := by
    rw [← List.map_append, ← hflat, List.zipIdx_map_fst]
  have hgroup : group ≠ [] := fun h => hnil (h ▸ List.mem_cons_self)
  rw [hflat] at hnumbered
  have hstep := (hchains group List.mem_cons_self)
  have hindices := hnumbered.left_of_append
  have hsuccessive : (group.map Prod.fst).IsChain (fun a b => b = a + 1) := by
    rw [List.isChain_map, List.isChain_iff_getElem]
    intro i hi
    have h₁ := (List.isChain_iff_getElem.mp hstep) i hi
    have h₂ := (List.isChain_iff_getElem.mp hindices) i hi
    simp only [r, beq_iff_eq] at h₁
    omega
  refine ⟨group.map Prod.fst, groups.flatten.map Prod.fst, ?_, hs, by simpa using hgroup, hsuccessive, ?_⟩
  · show ((s.zipIdx.splitBy r).map _).head? = _
    rw [hsplit]
    rfl
  · -- the last number of the group and the next one are not successive; the others are further apart
    intro x hx y hy
    rw [hs] at hsorted
    obtain ⟨-, hrest, hacross⟩ := List.pairwise_append.mp hsorted
    cases groups with
    | nil => simp at hy
    | cons next groups =>
      rw [List.isChain_cons_cons] at hbreaks
      obtain ⟨⟨hlast, hhead, hbreak⟩, -⟩ := hbreaks
      obtain ⟨first, others, rfl⟩ := List.exists_cons_of_ne_nil hhead
      have hgap : (group.getLast hlast).1 + 1 < first.1 := by
        have hlt := hacross (group.getLast hlast).1 (List.mem_map_of_mem (List.getLast_mem hlast)) first.1
          (by simp)
        have hindex : first.2 = (group.getLast hlast).2 + 1 := by
          have hjoin := (List.isChain_append.mp hnumbered).2.2
          exact hjoin _ (List.getLast_mem_getLast? hlast) _ (by simp)
        simp only [r, List.head_cons, beq_eq_false_iff_ne, ne_eq] at hbreak
        omega
      have hxlast : x ≤ (group.getLast hlast).1 := by
        obtain ⟨hleft, -, -⟩ := List.pairwise_append.mp hsorted
        have hmono := List.Pairwise.imp (S := (· ≤ ·)) (fun h => le_of_lt h) hleft
        have hle := hmono.rel_getLast_of_rel_getLast_getLast (a := x) hx (le_refl _)
        rw [List.getLast_map] at hle
        exact hle
      have hyfirst : first.1 ≤ y := by
        rw [List.flatten_cons, List.cons_append, List.map_cons, List.mem_cons] at hy
        rw [List.flatten_cons, List.cons_append, List.map_cons, List.pairwise_cons] at hrest
        rcases hy with rfl | hy
        · exact le_refl _
        · exact le_of_lt (hrest.1 y hy)
      omega

/-- The number that is looked up is the first gap. -/
theorem getNextOvsId_eq {nffg : List Vnf} {S : List Int} (hS : ovsNumbers nffg = some S)
    (hdistinct : S.Nodup) (hpos : ∀ n ∈ S, 0 < n) (hne : S ≠ []) (add : Int) :
    ∃ gap, FirstGap S gap ∧
      getNextOvsId nffg add = some ((if gap = 100000000 then 1 else gap) + add) := by
  have hperm := List.perm_insertionSort (· ≤ ·) S
  have hsorted : (S.insertionSort (· ≤ ·)).Pairwise (· < ·) := by
    have hle := List.pairwise_insertionSort (· ≤ ·) S
    have hdiff : (S.insertionSort (· ≤ ·)).Pairwise (· ≠ ·) := hperm.nodup_iff.mpr hdistinct
    exact (hle.and hdiff).imp fun h => lt_of_le_of_ne h.1 h.2
  have hsome : S.insertionSort (· ≤ ·) ≠ [] := fun h => hne (h ▸ hperm).nil_eq.symm
  obtain ⟨group, rest, hhead, hsplit, hgroup, hchain, hbehind⟩ := head_successive hsorted hsome
  have hmem : ∀ n, n ∈ S ↔ n ∈ group ∨ n ∈ rest := by
    intro n
    rw [← hperm.mem_iff, hsplit, List.mem_append]
  obtain ⟨lowest, hlowest⟩ := Option.isSome_iff_exists.mp (List.isSome_min?_of_ne_nil hgroup)
  obtain ⟨highest, hhighest⟩ := Option.isSome_iff_exists.mp (List.isSome_max?_of_ne_nil hgroup)
  obtain ⟨hlow, hleast⟩ := List.min?_eq_some_iff.mp hlowest
  obtain ⟨hhigh, hgreatest⟩ := List.max?_eq_some_iff.mp hhighest
  have hlow_pos : 0 < lowest := hpos lowest ((hmem lowest).mpr (.inl hlow))
  have hgap : FirstGap S ((if lowest > 1 then 0 else highest) + 1) := by
    split
    next hgt =>
      refine ⟨by omega, ?_, by omega⟩
      rw [hmem]
      rintro (h | h)
      · have := hleast _ h
        omega
      · have := hbehind lowest hlow _ h
        omega
    next hle =>
      refine ⟨by have := hleast highest hhigh; omega, ?_, ?_⟩
      · rw [hmem]
        rintro (h | h)
        · have := hgreatest _ h
          omega
        · have := hbehind highest hhigh _ h
          omega
      · intro n hn hlt
        rw [hmem]
        exact .inl (mem_of_successive hchain hlow hhigh (by omega) (by omega))
  refine ⟨_, hgap, ?_⟩
  simp only [getNextOvsId, hS, hhead, hlowest, hhighest, Option.bind_eq_bind, Option.bind_some]
  congr 1
  split_ifs <;> omega

/-! ## The numbers that are handed out -/

theorem ovsName_inj {m n : Int} : ovsName m = ovsName n ↔ m = n := by
  unfold ovsName
  rw [String.append_right_inj]
  exact ⟨fun h => CString.toString_int_injective h, fun h => by rw [h]⟩

/-- A new datapath has the name and the number that were chosen for it. -/
theorem newDatapath_named (dps : List DP) (ovsId : Int) (portList : List PortRef) :
    (newDatapath dps ovsId portList).name = ovsName ovsId ∧
      (newDatapath dps ovsId portList).id = ovsId := by
  unfold newDatapath
  refine List.foldlRecOn (motive := fun dp : DP => dp.name = ovsName ovsId ∧ dp.id = ovsId) _ _ ⟨rfl, rfl⟩ ?_
  intro dp hdp entry _
  exact hdp

/-- What the loop over the groups adds: a datapath for each group, behind the objects that exist, with
successive numbers. -/
structure Added (r : Router) (ovsId : Int) (scalingPorts : List (List PortRef)) (r' : Router)
    (news : List DP) : Prop where
  dps : r'.dps = r.dps ++ news
  nffg : r'.nffg = r.nffg
  length : news.length = scalingPorts.length
  datapath : ∀ i (h : i < scalingPorts.length), news[i]? =
    some (newDatapath (r.dps ++ news.take i) (ovsId + i) scalingPorts[i])
  kept : ∀ key, (∀ i < scalingPorts.length, key ≠ ovsName (ovsId + i)) →
    r'.dpInstances[key]? = r.dpInstances[key]?
  instances : ∀ i < scalingPorts.length,
    r'.dpInstances[ovsName (ovsId + i)]? = some (r.dps.length + i)

theorem addDatapaths_added (r : Router) (ovsId : Int) (scalingPorts : List (List PortRef)) :
    (∃ news, Added r ovsId scalingPorts (addDatapaths r ovsId scalingPorts).1 news) ∧
      (addDatapaths r ovsId scalingPorts).2.1 = List.range' r.dps.length scalingPorts.length := by
  induction scalingPorts generalizing r ovsId with
  | nil =>
    refine ⟨⟨[], ⟨(List.append_nil _).symm, rfl, rfl, fun i hi => absurd hi (Nat.not_lt_zero i),
      fun _ _ => rfl, fun i hi => absurd hi (Nat.not_lt_zero i)⟩⟩, rfl⟩
  | cons portList scalingPorts ih =>
    obtain ⟨⟨news, hadded⟩, hnew⟩ := ih
      { r with
        dps := r.dps ++ [newDatapath r.dps ovsId portList]
        dpInstances := r.dpInstances.insert (ovsName ovsId) r.dps.length } (ovsId + 1)
    have hindex : ∀ i : Nat, ovsId + ((i + 1 : Nat) : Int) = ovsId + 1 + i := by
      intro i
      omega
    refine ⟨⟨newDatapath r.dps ovsId portList :: news, ?_, ?_, ?_, ?_, ?_, ?_⟩, ?_⟩
    · simpa [addDatapaths] using hadded.dps
    · exact hadded.nffg
    · simp [hadded.length]
    · intro i hi
      cases i with
      | zero => simp
      | succ i =>
        rw [List.getElem?_cons_succ, hadded.datapath i (by simpa using hi), hindex]
        simp
    · intro key hkey
      have hlast := hadded.kept key fun i hi => hindex i ▸ hkey (i + 1) (by simpa using hi)
      have hfirst : ¬ ovsName ovsId = key := by
        have := hkey 0 (by simp)
        simpa using this.symm
      show (addDatapaths _ (ovsId + 1) scalingPorts).1.dpInstances[key]? = _
      rw [hlast, StringMap.getElem?_insert, if_neg hfirst]
    · intro i hi
      show (addDatapaths _ (ovsId + 1) scalingPorts).1.dpInstances[_]? = _
      cases i with
      | zero =>
        have hlast := hadded.kept (ovsName ovsId) fun i _ => by
          rw [Ne, ovsName_inj]
          omega
        simp only [Nat.cast_zero, Int.add_zero]
        rw [hlast, StringMap.getElem?_insert, if_pos rfl]
        rfl
      | succ i =>
        rw [hindex, hadded.instances i (by simpa using hi)]
        simp
        omega
    · show r.dps.length :: (addDatapaths _ (ovsId + 1) scalingPorts).2.1 = _
      rw [hnew, List.length_append]
      rfl

/-- The datapaths that a list of references stands for. -/
def datapaths (dps : List DP) (refs : List Nat) : List DP :=
  refs.filterMap (fun d => dps[d]?)

theorem datapaths_range' (dps news : List DP) :
    datapaths (dps ++ news) (List.range' dps.length news.length) = news := by
  have hget : (List.range' dps.length news.length).map (fun d => (dps ++ news)[d]?) = news.map some := by
    apply List.ext_getElem
    · simp
    intro i h₁ h₂
    have hi : i < news.length := by simpa using h₂
    simp [List.getElem_range', hi]
  show (List.range' dps.length news.length).filterMap (id ∘ fun d => (dps ++ news)[d]?) = news
  rw [← List.filterMap_map, hget, List.filterMap_map]
  simp

/-- The new datapaths have names of their own, with numbers that are not in use, and no datapath that
exists is replaced. -/
def NamesFresh (r : Router) (S : List Int) (scalingPorts : List (List PortRef)) : Prop :=
  ∃ ovsId, getNextOvsId r.nffg 0 = some ovsId ∧
    let built := addDatapaths r ovsId scalingPorts
    let new := datapaths built.1.dps built.2.1
    new.length = scalingPorts.length ∧ (new.map DP.name).Nodup ∧
      (∀ dp ∈ new, dp.name = ovsName dp.id ∧ dp.id ∉ S) ∧
      ∀ key ∈ r.dpInstances, built.1.dpInstances[key]? = r.dpInstances[key]?

/-- Neither the first numbers behind the first gap nor the names with these numbers are in use, and the
gap is not the one at which the search starts over. -/
def RoomBehindGap (r : Router) (S : List Int) (m : Nat) : Prop :=
  ∃ gap, FirstGap S gap ∧ gap ≠ 100000000 ∧ ∀ i < m, gap + (i : Int) ∉ S ∧ ovsName (gap + i) ∉ r.dpInstances

/-- The names and numbers of the datapaths that are added. -/
theorem Added.named {r r' : Router} {ovsId : Int} {scalingPorts : List (List PortRef)} {news : List DP}
    (h : Added r ovsId scalingPorts r' news) (i : Nat) (hi : i < news.length) :
    news[i].name = ovsName (ovsId + i) ∧ news[i].id = ovsId + i := by
  have hget := h.datapath i (h.length ▸ hi)
  rw [List.getElem?_eq_getElem hi, Option.some_inj] at hget
  rw [hget]
  exact newDatapath_named ..

/-- The names are fresh exactly if none of the numbers that are handed out is in use, nor its name. -/
theorem namesFresh_iff_forall {r : Router} {S : List Int} {ovsId : Int}
    (hrefs : ∀ entry ∈ r.dpInstances.toList, entry.2 < r.dps.length)
    (hid : getNextOvsId r.nffg 0 = some ovsId) (scalingPorts : List (List PortRef)) :
    NamesFresh r S scalingPorts ↔
      ∀ i < scalingPorts.length, ovsId + (i : Int) ∉ S ∧ ovsName (ovsId + i) ∉ r.dpInstances := by
  obtain ⟨⟨news, hadded⟩, hnew⟩ := addDatapaths_added r ovsId scalingPorts
  have hdatapaths : datapaths (addDatapaths r ovsId scalingPorts).1.dps
      (addDatapaths r ovsId scalingPorts).2.1 = news := by
    rw [hadded.dps, hnew, ← hadded.length, datapaths_range']
  constructor
  · rintro ⟨ovsId', hid', hfresh⟩ i hi
    obtain rfl : ovsId = ovsId' := Option.mem_unique hid hid'
    simp only [hdatapaths] at hfresh
    obtain ⟨-, -, hunused, hkept⟩ := hfresh
    have hlt : i < news.length := hadded.length ▸ hi
    have hfree := (hunused news[i] (List.getElem_mem hlt)).2
    rw [(hadded.named i hlt).2] at hfree
    refine ⟨hfree, fun hmem => ?_⟩
    -- the entry would be that of the new datapath, which is behind the objects that exist
    have hsame := (hadded.instances i hi).symm.trans (hkept _ hmem)
    have hlast := hrefs _ (Std.ExtTreeMap.mem_toList_iff_getElem?_eq_some.mpr hsame.symm)
    simp at hlast
  · intro hunused
    refine ⟨ovsId, hid, ?_⟩
    simp only [hdatapaths]
    refine ⟨hadded.length, ?_, ?_, ?_⟩
    · rw [List.Nodup, List.pairwise_map, List.pairwise_iff_getElem]
      intro i j hi hj hij
      rw [(hadded.named i hi).1, (hadded.named j hj).1, Ne, ovsName_inj]
      omega
    · intro dp hdp
      obtain ⟨i, hi, rfl⟩ := List.mem_iff_getElem.mp hdp
      rw [(hadded.named i hi).1, (hadded.named i hi).2]
      exact ⟨rfl, (hunused i (hadded.length ▸ hi)).1⟩
    · intro key hkey
      apply hadded.kept
      rintro i hi rfl
      exact (hunused i hi).2 hkey

/-- Where the datapaths that exist are objects of the application, the names of new datapaths are fresh
exactly if there is room for them behind the first gap. -/
theorem names_fresh_iff (r : Router) (S : List Int) (hS : ovsNumbers r.nffg = some S)
    (hdistinct : S.Nodup) (hpos : ∀ n ∈ S, 0 < n) (hne : S ≠ [])
    (hrefs : ∀ entry ∈ r.dpInstances.toList, entry.2 < r.dps.length)
    (scalingPorts : List (List PortRef)) (hsome : scalingPorts ≠ []) :
    NamesFresh r S scalingPorts ↔ RoomBehindGap r S scalingPorts.length := by
  obtain ⟨gap, hgap, hid⟩ := getNextOvsId_eq hS hdistinct hpos hne 0
  rw [Int.add_zero] at hid
  rw [namesFresh_iff_forall hrefs hid]
  have hlength : 0 < scalingPorts.length := List.length_pos_iff.mpr hsome
  constructor
  · intro hunused
    have hgap_ne : gap ≠ 100000000 := by
      intro heq
      rw [if_pos heq] at hunused
      exact (hunused 0 hlength).1 (hgap.below _ (by omega) (by omega))
    rw [if_neg hgap_ne] at hunused
    exact ⟨gap, hgap, hgap_ne, hunused⟩
  · rintro ⟨gap', hgap', hne', hroom⟩
    obtain rfl := hgap.unique hgap'
    rw [if_neg hne']
    exact hroom

/-- A router with one datapath for each of the numbers. -/
def routerOf (numbers : List Int) : Router where
  dps := numbers.map (fun n => { name := ovsName n, id := n })
  dpInstances := .ofList (numbers.zipIdx.map (fun (n, i) => (ovsName n, i))) compare
  nffg := ⟨"ctrl", "ctrl", "ctrl", [("1", "control-port")]⟩ :: numbers.map (fun n => ovsVnf (ovsName n) (ovsName n) 0)

/-- Two datapaths fit behind the gap when the next number in use is two further on. -/
theorem names_fresh_behind_gap : NamesFresh (routerOf [4, 1]) [4, 1] [[⟨0, 0⟩], [⟨0, 1⟩]] :=
  (names_fresh_iff (routerOf [4, 1]) [4, 1] (by decide +kernel) (by decide) (by decide) (by decide)
    (by decide +kernel) [[⟨0, 0⟩], [⟨0, 1⟩]] (by decide)).mpr
    ⟨2, ⟨by decide, by decide, by intro n h₁ h₂; rw [show n = 1 by omega]; decide⟩, by decide,
      by decide +kernel⟩

/-- With datapaths 1 and 3, the second of two new datapaths is named as the one with number 3 and takes its
place. -/
theorem third_datapath_replaced : ¬ NamesFresh (routerOf [1, 3]) [1, 3] [[⟨0, 0⟩], [⟨0, 1⟩]] ∧
    ovsNumbers (routerOf [1, 3]).nffg = some [1, 3] ∧
    (addDatapaths (routerOf [1, 3]) 2 [[⟨0, 0⟩], [⟨0, 1⟩]]).1.dpInstances["ovs3"]? = some 3 ∧
    (routerOf [1, 3]).dpInstances["ovs3"]? = some 1 := by
  refine ⟨?_, by decide +kernel, by decide +kernel, by decide +kernel⟩
  rintro ⟨ovsId, hid, -, -, hunused, -⟩
  have hid₂ : getNextOvsId (routerOf [1, 3]).nffg 0 = some 2 := by decide +kernel
  obtain rfl : ovsId = 2 := Option.mem_unique hid hid₂
  revert hunused
  decide +kernel

end UnOrchestrator.ElasticRouter
