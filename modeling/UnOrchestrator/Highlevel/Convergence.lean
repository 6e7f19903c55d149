import Mathlib.Data.Finset.Basic
import UnOrchestrator.Lib.Run
import UnOrchestrator.Highlevel.Update

/-!
# When an update reaches the requested graph

An update returns before anyone compares the stored graph with the requested one.
This module states the comparison, for rules (`RulesConverged`) and for network
functions (`vnfViews`), and proves for which pairs of graphs it comes out equal:

* the rules converge exactly when no rule changes behind its identifier
  (`updateTo_rulesConverged_iff`);
* the network functions converge exactly when none of those that stay loses a port
  (`updateTo_vnfViews_iff`). One that does is removed as a whole;
* the endpoints converge always (`updateTo_endPoints`), up to the attributes of a tunnel
  that its comparison leaves out.
-/

namespace UnOrchestrator.Highlevel.Graph

open List (foldl_cons map_cons mem_cons mem_map mem_map_of_mem)

open KeyedList

/-! ## Rules -/

/-- The stored graph has, for every rule of the requested one, exactly one rule with its
identifier, the requested rule itself, and no rule with another identifier. -/
def RulesConverged (stored requested : Graph) : Prop :=
  (∀ r ∈ requested.rules, stored.rules.filter (fun s => s.ruleID = r.ruleID) = [r]) ∧
  ∀ s ∈ stored.rules, s.ruleID ∈ requested.rules.map Rule.ruleID

instance (stored requested : Graph) : Decidable (RulesConverged stored requested) :=
  inferInstanceAs (Decidable (_ ∧ _))

/-- An update that returns stores the requested rules exactly when every deployed rule whose
identifier is requested again is requested unchanged. -/
theorem updateTo_rulesConverged_iff {g new g' : Graph}
    (hg : (g.rules.map Rule.ruleID).Nodup) (hn : (new.rules.map Rule.ruleID).Nodup)
    (h : g.updateTo new = .ok g') :
    RulesConverged g' new ↔
      ∀ r ∈ g.rules, ∀ s ∈ new.rules, r.ruleID = s.ruleID → r = s := by
  have hrec : reconcile Rule.key g.rules new.rules = some g'.rules := updateTo_rules hg hn h
  have hmem {x : Rule} : x ∈ g'.rules ↔ _ := mem_reconcile_iff hg hn hrec
  constructor
  · rintro ⟨honly, -⟩ r hr s hs hID
    have hstays : r ∈ g'.rules := hmem.mpr (.inl ⟨hr, List.mem_map.mpr ⟨s, hs, hID.symm⟩⟩)
    have hr' : r ∈ g'.rules.filter (fun q => q.ruleID = s.ruleID) :=
      List.mem_filter.mpr ⟨hstays, by simpa using hID⟩
    rw [honly s hs] at hr'
    exact List.mem_singleton.mp hr'
  · intro hsame
    refine ⟨fun r hr => ?_, fun s hs => ?_⟩
    · -- the requested rule is stored: either new, or deployed and by assumption unchanged
      have hstored : r ∈ g'.rules := by
        by_cases hk : r.key ∈ g.rules.map Rule.key
        · obtain ⟨q, hq, hqr⟩ := List.mem_map.mp hk
          exact hmem.mpr (.inl ⟨hsame q hq r hr hqr ▸ hq, List.mem_map_of_mem hr⟩)
        · exact hmem.mpr (.inr ⟨hr, hk⟩)
      exact filter_key_eq_singleton (reconcile_keys_nodup hg hn hrec) hstored
    · exact (reconcile_keys hg hn hrec).mp (List.mem_map_of_mem hs)

/-- A graph with the single rule `eth0` to the given port. -/
def redirect (port : String) : Graph where
  ID := "g"
  rules := [{ «match» := { type := .port "eth0" }, action := { type := .port port },
              ruleID := "1", priority := 1 }]

/-- Changing the output of a rule under its identifier: the update returns and the old rule
stays. -/
theorem updateTo_keeps_changed_rule :
    ((redirect "eth1").rules.map Rule.ruleID).Nodup ∧
    ((redirect "eth2").rules.map Rule.ruleID).Nodup ∧
    (redirect "eth1").updateTo (redirect "eth2") = .ok (redirect "eth1") ∧
    ¬ RulesConverged (redirect "eth1") (redirect "eth2") := by
  decide

/-- The same graph with the rule back as well. -/
def redirectBothWays (port : String) : Graph :=
  (redirect port).addRule
    { «match» := { type := .port port }, action := { type := .port "eth0" },
      ruleID := "2", priority := 1 }

/-- An update that repeats a rule and drops another. -/
theorem updateTo_rulesConverged_repeated :
    (redirectBothWays "eth1").updateTo (redirect "eth1") = .ok (redirect "eth1") ∧
      RulesConverged (redirect "eth1") (redirect "eth1") :=
  ⟨by decide, (updateTo_rulesConverged_iff (g := redirectBothWays "eth1")
    (by decide) (by decide) (by decide)).mpr (by decide)⟩

/-- `Graph::getRuleFromID`, where the rule need not be there. -/
def getRuleFromID (g : Graph) (ID : String) : Option Rule := g.rules.find? (·.ruleID = ID)

/-- Under each identifier a run of updates is a register: the first request wins until a request
leaves the identifier out. -/
theorem run_getRuleFromID {g g' : Graph} {news : List Graph}
    (hg : (g.rules.map Rule.ruleID).Nodup) (hn : ∀ new ∈ news, (new.rules.map Rule.ruleID).Nodup)
    (h : Run.exec updateTo g news = .ok g') (ID : String) :
    g'.getRuleFromID ID = news.foldl
      (fun stored new => (new.getRuleFromID ID).map (stored.getD ·)) (g.getRuleFromID ID) := by
  induction news generalizing g with
  | nil =>
    cases h
    rfl
  | cons new news ih =>
    obtain ⟨g₁, h₁, h⟩ := Abort.bind_eq_ok.mp h
    obtain ⟨hn₁, hn⟩ := List.forall_mem_cons.mp hn
    have hrec := updateTo_rules hg hn₁ h₁
    have hstep : g₁.getRuleFromID ID =
        (new.getRuleFromID ID).map ((g.getRuleFromID ID).getD ·) := find?_reconcile hg hn₁ hrec
    rw [ih (reconcile_keys_nodup hg hn₁ hrec) hn h, List.foldl_cons, hstep]

/-- A changed rule is kept out, until an update has left the rule out. -/
theorem run_getRuleFromID_left_out :
    let news := [redirect "eth2", { ID := "g" }, redirect "eth3"]
    Run.exec updateTo (redirect "eth1") news = .ok (redirect "eth3") ∧
      (redirect "eth3").getRuleFromID "1" = news.foldl
        (fun stored new => (new.getRuleFromID "1").map (stored.getD ·))
        ((redirect "eth1").getRuleFromID "1") :=
  have h := by decide
  ⟨h, run_getRuleFromID (by decide) (by decide) h "1"⟩

/-! ## Network functions

`HasPort vs k p` speaks about all VNFs of a list with the key `k` at once, so that merging
ports into a VNF is a union (`hasPort_addVNFTo`) and needs no assumption on the list. -/

/-- Some VNF of the list with the key `k` has a port with identifier `p`. -/
def HasPort (vs : List VNFs) (k : String × String) (p : String) : Prop :=
  ∃ v ∈ vs, v.key = k ∧ p ∈ v.ports.map VnfPort.id

variable {p : String}

private theorem mem_ports_pushNew {ports : List VnfPort} {port : VnfPort} :
    p ∈ (pushNew VnfPort.id ports port).map VnfPort.id ↔
      p ∈ ports.map VnfPort.id ∨ p = port.id := by
  by_cases h : port.id ∈ ports.map VnfPort.id
  · rw [pushNew_of_mem h]
    refine ⟨.inl, ?_⟩
    rintro (hp | rfl)
    · exact hp
    · exact h
  · rw [pushNew_of_notMem h]
    simp

variable {vs : List VNFs} {k : String × String}

theorem HasPort.mem_keys (h : HasPort vs k p) :
    k ∈ vs.map VNFs.key := by
  obtain ⟨v, hv, hkey, -⟩ := h
  exact mem_map.mpr ⟨v, hv, hkey⟩

/-- Adding ports one by one keeps the key and joins the identifiers. -/
theorem foldl_addPort (ports : List VnfPort) (v : VNFs) :
    (ports.foldl VNFs.addPort v).key = v.key ∧
    ∀ p, p ∈ (ports.foldl VNFs.addPort v).ports.map VnfPort.id ↔
      p ∈ v.ports.map VnfPort.id ∨ p ∈ ports.map VnfPort.id := by
  induction ports generalizing v with
  | nil => simp
  | cons port ports ih =>
    obtain ⟨hkey, hports⟩ := ih (v := v.addPort port)
    refine ⟨hkey, fun p => ?_⟩
    rw [foldl_cons, hports, VNFs.addPort, mem_ports_pushNew, map_cons, mem_cons,
      or_assoc]

theorem hasPort_cons {v : VNFs} :
    HasPort (v :: vs) k p ↔ (v.key = k ∧ p ∈ v.ports.map VnfPort.id) ∨ HasPort vs k p := by
  simp only [HasPort, mem_cons, exists_eq_or_imp]

variable {vnf : VNFs}

theorem hasPort_addVNFTo :
    HasPort (addVNFTo vnf vs) k p ↔
      HasPort vs k p ∨ (vnf.key = k ∧ p ∈ vnf.ports.map VnfPort.id) := by
  induction vs with
  | nil => simp [addVNFTo, HasPort]
  | cons v vs ih =>
    by_cases hk : v.key = vnf.key
    · obtain ⟨hkey, hports⟩ := foldl_addPort vnf.ports v
      rw [addVNFTo, if_pos hk, hasPort_cons, hasPort_cons, hkey, hports, hk]
      tauto
    · rw [addVNFTo, if_neg hk, hasPort_cons, hasPort_cons, ih, or_assoc]

/-- Adding a VNF appends its key unless it is there. -/
theorem keys_addVNFTo :
    (addVNFTo vnf vs).map VNFs.key =
      if vnf.key ∈ vs.map VNFs.key then vs.map VNFs.key else vs.map VNFs.key ++ [vnf.key] := by
  induction vs with
  | nil => simp [addVNFTo]
  | cons v vs ih =>
    by_cases hk : v.key = vnf.key
    · rw [addVNFTo, if_pos hk, map_cons, (foldl_addPort _ v).1, if_pos (by simp [hk])]
      rfl
    · rw [addVNFTo, if_neg hk, map_cons, ih]
      by_cases hmem : vnf.key ∈ vs.map VNFs.key
      · rw [if_pos hmem, if_pos (by simpa using Or.inr (by simpa using hmem))]
        rfl
      · rw [if_neg hmem, if_neg (by
          rw [map_cons, mem_cons]
          exact fun h => h.elim (fun h => hk h.symm) hmem)]
        rfl

theorem keys_nodup_addVNFTo (h : (vs.map VNFs.key).Nodup) :
    ((addVNFTo vnf vs).map VNFs.key).Nodup := by
  rw [keys_addVNFTo]
  split
  · exact h
  · next hnew =>
    refine List.Nodup.append h (List.nodup_singleton _) ?_
    intro k hk hmem
    exact hnew (List.mem_singleton.mp hmem ▸ hk)

theorem mem_keys_addVNFTo :
    k ∈ (addVNFTo vnf vs).map VNFs.key ↔ k ∈ vs.map VNFs.key ∨ k = vnf.key := by
  rw [keys_addVNFTo]
  split
  · next hmem =>
    refine ⟨.inl, ?_⟩
    rintro (hk | rfl)
    · exact hk
    · exact hmem
  · rw [List.mem_append, List.mem_singleton]

/-- Adding VNFs one after another: keys stay distinct, and keys and ports are joined. -/
theorem foldl_addVNFTo (ds vs : List VNFs) (hvs : (vs.map VNFs.key).Nodup) :
    ((ds.foldl (fun vs v => addVNFTo v vs) vs).map VNFs.key).Nodup ∧
    (∀ k, k ∈ (ds.foldl (fun vs v => addVNFTo v vs) vs).map VNFs.key ↔
      k ∈ vs.map VNFs.key ∨ k ∈ ds.map VNFs.key) ∧
    ∀ k p, HasPort (ds.foldl (fun vs v => addVNFTo v vs) vs) k p ↔
      HasPort vs k p ∨ HasPort ds k p := by
  induction ds generalizing vs with
  | nil => simpa [HasPort] using hvs
  | cons d ds ih =>
    obtain ⟨hnodup, hkeys, hports⟩ := ih (addVNFTo d vs) (keys_nodup_addVNFTo hvs)
    refine ⟨hnodup, fun k => ?_, fun k p => ?_⟩
    · rw [foldl_cons, hkeys, mem_keys_addVNFTo, map_cons, mem_cons, or_assoc]
    · rw [foldl_cons, hports, hasPort_addVNFTo, hasPort_cons, or_assoc]

/-- With distinct keys, the ports under the key of a VNF are the ports of that VNF. -/
theorem hasPort_iff_of_mem (hvs : (vs.map VNFs.key).Nodup) {v : VNFs} (hv : v ∈ vs) :
    HasPort vs v.key p ↔ p ∈ v.ports.map VnfPort.id := by
  constructor
  · rintro ⟨w, hw, hkey, hp⟩
    have hwv : w ∈ vs.filter (fun y => y.key = v.key) :=
      List.mem_filter.mpr ⟨hw, by simpa using hkey⟩
    rw [filter_key_eq_singleton hvs hv, List.mem_singleton] at hwv
    exact hwv ▸ hp
  · exact fun hp => ⟨v, hv, rfl, hp⟩

variable {there : List VNFs}

/-- A VNF enters a difference when its key is unknown or when it has an unknown port, and
with exactly its unknown ports. -/
theorem diffVNF_spec (ht : (there.map VNFs.key).Nodup) (it : VNFs) :
    ((∃ d, diffVNF there it = some d) ↔
      it.key ∉ there.map VNFs.key ∨
        ∃ p ∈ it.ports.map VnfPort.id, ¬ HasPort there it.key p) ∧
    ∀ d, diffVNF there it = some d → d.key = it.key ∧
      ∀ p, p ∈ d.ports.map VnfPort.id ↔
        p ∈ it.ports.map VnfPort.id ∧ ¬ HasPort there it.key p := by
  unfold diffVNF
  cases hfind : there.find? (fun there => there.key = it.key) with
  | none =>
    have hunknown : it.key ∉ there.map VNFs.key := by
      intro hmem
      obtain ⟨t, ht, hkey⟩ := mem_map.mp hmem
      exact absurd hkey (by simpa using List.find?_eq_none.mp hfind t ht)
    refine ⟨⟨fun _ => .inl hunknown, fun _ => ⟨it, rfl⟩⟩, ?_⟩
    rintro d ⟨⟩
    refine ⟨rfl, fun p => ⟨fun hp => ⟨hp, ?_⟩, And.left⟩⟩
    rintro ⟨w, hw, hkey, -⟩
    exact hunknown (mem_map.mpr ⟨w, hw, hkey⟩)
  | some t =>
    have htmem : t ∈ there := List.mem_of_find?_eq_some hfind
    have htkey : t.key = it.key := by simpa using List.find?_some hfind
    have hports (p : String) : p ∈ (missing VnfPort.id t.ports it.ports).map VnfPort.id ↔
        p ∈ it.ports.map VnfPort.id ∧ ¬ HasPort there it.key p := by
      rw [← htkey, hasPort_iff_of_mem ht htmem]
      simp only [mem_map, mem_missing]
      constructor
      · rintro ⟨port, ⟨hport, hnew⟩, rfl⟩
        exact ⟨⟨port, hport, rfl⟩, hnew⟩
      · rintro ⟨⟨port, hport, rfl⟩, hnew⟩
        exact ⟨port, ⟨hport, hnew⟩, rfl⟩
    have hknown : it.key ∈ there.map VNFs.key := mem_map.mpr ⟨t, htmem, htkey⟩
    by_cases hempty : (missing VnfPort.id t.ports it.ports).isEmpty
    · simp only [if_pos hempty, reduceCtorEq, exists_false, false_iff, not_or, not_not,
        false_imp_iff, implies_true, and_true]
      refine ⟨hknown, ?_⟩
      rintro ⟨p, hp, hnew⟩
      have := (hports p).mpr ⟨hp, hnew⟩
      rw [List.isEmpty_iff.mp hempty] at this
      cases this
    · simp only [if_neg hempty, exists_eq', true_iff, Option.some.injEq]
      refine ⟨.inr ?_, ?_⟩
      · obtain ⟨port, hport⟩ := List.exists_mem_of_ne_nil _ (by simpa using hempty)
        exact ⟨port.id, ((hports port.id).mp (mem_map_of_mem hport))⟩
      · rintro d rfl
        exact ⟨rfl, hports⟩

/-- The VNFs of a difference, by key and port. -/
theorem mem_keys_diff {other : List VNFs} (ht : (there.map VNFs.key).Nodup) :
    k ∈ (other.filterMap (diffVNF there)).map VNFs.key ↔
      ∃ it ∈ other, it.key = k ∧ (k ∉ there.map VNFs.key ∨
        ∃ p ∈ it.ports.map VnfPort.id, ¬ HasPort there k p) := by
  simp only [mem_map, List.mem_filterMap]
  constructor
  · rintro ⟨d, ⟨it, hit, hd⟩, rfl⟩
    obtain ⟨hsome, hd'⟩ := diffVNF_spec ht it
    rw [(hd' d hd).1]
    exact ⟨it, hit, rfl, by simpa only [mem_map] using hsome.mp ⟨d, hd⟩⟩
  · rintro ⟨it, hit, rfl, hdiff⟩
    obtain ⟨hsome, hd'⟩ := diffVNF_spec ht it
    obtain ⟨d, hd⟩ := hsome.mpr (by simpa only [mem_map] using hdiff)
    exact ⟨d, ⟨it, hit, hd⟩, (hd' d hd).1⟩

theorem hasPort_diff {other : List VNFs} (ht : (there.map VNFs.key).Nodup) :
    HasPort (other.filterMap (diffVNF there)) k p ↔ HasPort other k p ∧ ¬ HasPort there k p := by
  constructor
  · rintro ⟨d, hd, rfl, hp⟩
    obtain ⟨it, hit, hd⟩ := List.mem_filterMap.mp hd
    obtain ⟨hkey, hports⟩ := (diffVNF_spec ht it).2 d hd
    obtain ⟨hp, hnew⟩ := (hports p).mp hp
    exact ⟨⟨it, hit, hkey.symm, hp⟩, hkey ▸ hnew⟩
  · rintro ⟨⟨it, hit, rfl, hp⟩, hnew⟩
    obtain ⟨hsome, hd'⟩ := diffVNF_spec ht it
    obtain ⟨d, hd⟩ := hsome.mpr (.inr ⟨p, hp, hnew⟩)
    exact ⟨d, List.mem_filterMap.mpr ⟨it, hit, hd⟩, (hd' d hd).1, ((hd' d hd).2 p).mpr ⟨hp, hnew⟩⟩

variable {g : Graph}

/-- The VNFs of the stored graph after the additive half of an update: the keys and the
ports of both graphs. -/
theorem addGraphToGraph_vnfs (new : Graph) (ID : String) (hg : (g.vnfs.map VNFs.key).Nodup) :
    let grown := (g.addGraphToGraph (g.calculateDiff new ID)).1.vnfs
    (grown.map VNFs.key).Nodup ∧
    (∀ k, k ∈ grown.map VNFs.key ↔ k ∈ g.vnfs.map VNFs.key ∨ k ∈ new.vnfs.map VNFs.key) ∧
    ∀ k p, HasPort grown k p ↔ HasPort g.vnfs k p ∨ HasPort new.vnfs k p := by
  intro grown
  obtain ⟨-, hdkeys, hdports⟩ :=
    foldl_addVNFTo (new.vnfs.filterMap (diffVNF g.vnfs)) [] (by simp)
  have hgrown : grown = (g.calculateDiff new ID).vnfs.foldl (fun vs v => addVNFTo v vs) g.vnfs :=
    (addGraphToGraph_diff g new ID).2.2.1
  obtain ⟨hnodup, hkeys, hports⟩ := foldl_addVNFTo (g.calculateDiff new ID).vnfs g.vnfs hg
  rw [hgrown]
  refine ⟨hnodup, fun k => ?_, fun k p => ?_⟩
  · rw [hkeys, calculateDiff, hdkeys, mem_keys_diff hg]
    constructor
    · rintro (hk | hk | ⟨it, hit, rfl, -⟩)
      · exact .inl hk
      · cases hk
      · exact .inr (mem_map_of_mem hit)
    · rintro (hk | hk)
      · exact .inl hk
      · by_cases hold : k ∈ g.vnfs.map VNFs.key
        · exact .inl hold
        · obtain ⟨it, hit, rfl⟩ := mem_map.mp hk
          exact .inr (.inr ⟨it, hit, rfl, .inl hold⟩)
  · rw [hports, calculateDiff, hdports, hasPort_diff hg]
    have hnil : ¬ HasPort [] k p := by simp [HasPort]
    tauto

variable {new : Graph}

/-- The keys of the VNFs in the difference that an update removes: those of the grown graph
that are not requested, or are requested without one of their ports. -/
theorem mem_keys_removed {grown : Graph} (ID : String) (hgrown : (grown.vnfs.map VNFs.key).Nodup)
    (hn : (new.vnfs.map VNFs.key).Nodup) (hk : k ∈ grown.vnfs.map VNFs.key) :
    k ∉ (new.calculateDiff grown ID).vnfs.map VNFs.key ↔
      k ∈ new.vnfs.map VNFs.key ∧ ∀ p, HasPort grown.vnfs k p → HasPort new.vnfs k p := by
  obtain ⟨it, hit, rfl⟩ := mem_map.mp hk
  obtain ⟨-, hkeys, -⟩ := foldl_addVNFTo (grown.vnfs.filterMap (diffVNF new.vnfs)) [] (by simp)
  rw [calculateDiff, hkeys, mem_keys_diff hn]
  constructor
  · intro hkept
    refine ⟨?_, fun p hp => ?_⟩
    · by_contra hnew
      exact hkept (.inr ⟨it, hit, rfl, .inl hnew⟩)
    · by_contra hlost
      exact hkept (.inr ⟨it, hit, rfl, .inr ⟨p, (hasPort_iff_of_mem hgrown hit).mp hp, hlost⟩⟩)
  · rintro ⟨hnew, hports⟩ (hmem | ⟨w, hw, hkey, hunknown | ⟨p, hp, hlost⟩⟩)
    · cases hmem
    · exact hunknown hnew
    · exact hlost (hports p ⟨w, hw, hkey, hp⟩)

/-- On the network functions, the two halves of an update keep the requested keys under which
the deployed graph has no port that the request lacks, and those with the requested ports. -/
theorem vnfs_of_eraseKeys (ID : String) {rest : List VNFs} (hg : (g.vnfs.map VNFs.key).Nodup)
    (hn : (new.vnfs.map VNFs.key).Nodup) :
    let grown := (g.addGraphToGraph (g.calculateDiff new ID)).1
    eraseKeys VNFs.key ((new.calculateDiff grown ID).vnfs.map VNFs.key) grown.vnfs = some rest →
      (rest.map VNFs.key).Nodup ∧
      (∀ k, k ∈ rest.map VNFs.key ↔
        k ∈ new.vnfs.map VNFs.key ∧ ∀ p, HasPort g.vnfs k p → HasPort new.vnfs k p) ∧
      ∀ k ∈ rest.map VNFs.key, ∀ p, HasPort rest k p ↔ HasPort new.vnfs k p := by
  intro grown hvnfs
  obtain ⟨hnodup, hkeys, hports⟩ := addGraphToGraph_vnfs new ID hg
  have hmem {v : VNFs} := mem_of_eraseKeys hnodup hvnfs (x := v)
  have hstays {k : String × String} : k ∈ rest.map VNFs.key ↔
      k ∈ new.vnfs.map VNFs.key ∧ ∀ p, HasPort g.vnfs k p → HasPort new.vnfs k p := by
    constructor
    · intro hk
      obtain ⟨v, hv, rfl⟩ := mem_map.mp hk
      obtain ⟨hgrown, hkept⟩ := hmem.mp hv
      obtain ⟨hnew, hp⟩ := (mem_keys_removed _ hnodup hn (mem_map_of_mem hgrown)).mp hkept
      exact ⟨hnew, fun p hgp => hp p ((hports _ p).mpr (.inl hgp))⟩
    · rintro ⟨hnew, hp⟩
      have hk := (hkeys k).mpr (.inr hnew)
      have hkept := (mem_keys_removed ID hnodup hn hk).mpr
        ⟨hnew, fun p hgp => ((hports k p).mp hgp).elim (hp p) id⟩
      obtain ⟨v, hv, rfl⟩ := mem_map.mp hk
      exact mem_map_of_mem (hmem.mpr ⟨hv, hkept⟩)
  have hnodup' := eraseKeys_keys_nodup hnodup hvnfs
  refine ⟨hnodup', fun k => hstays, fun k hk p => ?_⟩
  obtain ⟨v, hv, rfl⟩ := mem_map.mp hk
  rw [hasPort_iff_of_mem hnodup' hv, ← hasPort_iff_of_mem hnodup (hmem.mp hv).1, hports]
  exact ⟨fun hp => hp.elim ((hstays.mp hk).2 p) id, .inr⟩

variable {g' : Graph}

theorem updateTo_vnfs (hg : (g.vnfs.map VNFs.key).Nodup) (hn : (new.vnfs.map VNFs.key).Nodup)
    (h : g.updateTo new = .ok g') :
    (g'.vnfs.map VNFs.key).Nodup ∧
    (∀ k, k ∈ g'.vnfs.map VNFs.key ↔
      k ∈ new.vnfs.map VNFs.key ∧ ∀ p, HasPort g.vnfs k p → HasPort new.vnfs k p) ∧
    ∀ k ∈ g'.vnfs.map VNFs.key, ∀ p, HasPort g'.vnfs k p ↔ HasPort new.vnfs k p := by
  simp only [updateTo, Abort.bind_eq_ok, Abort.pure_eq_ok, Prod.exists] at h
  obtain ⟨g₂, infos, hrem, rfl⟩ := h
  have hID : (g.addGraphToGraph (g.calculateDiff new g.ID)).1.ID = g.ID := addGraphToGraph_ID _ _
  rw [hID] at hrem
  exact vnfs_of_eraseKeys g.ID hg hn (removeGraphFromGraph_erased hrem).2.vnfs

/-- The network functions of a graph as a set of identifier, name and port identifiers. -/
def vnfViews (g : Graph) : Finset (String × String × Finset String) :=
  (g.vnfs.map (fun v => (v.id, v.name, (v.ports.map VnfPort.id).toFinset))).toFinset

theorem mem_vnfViews (hg : (g.vnfs.map VNFs.key).Nodup) {ports : Finset String} :
    (k.1, k.2, ports) ∈ g.vnfViews ↔
      k ∈ g.vnfs.map VNFs.key ∧ ∀ p, p ∈ ports ↔ HasPort g.vnfs k p := by
  simp only [vnfViews, List.mem_toFinset, mem_map, Prod.mk.injEq]
  constructor
  · rintro ⟨v, hv, h₁, h₂, rfl⟩
    obtain rfl : v.key = k := Prod.ext h₁ h₂
    exact ⟨⟨v, hv, rfl⟩, fun p => by rw [hasPort_iff_of_mem hg hv, List.mem_toFinset]⟩
  · rintro ⟨⟨v, hv, rfl⟩, hports⟩
    refine ⟨v, hv, rfl, rfl, ?_⟩
    ext p
    rw [List.mem_toFinset, hports, hasPort_iff_of_mem hg hv]

/-- An update that returns stores the requested network functions exactly when every VNF
that is deployed and requested again is requested with all the ports it has. -/
theorem updateTo_vnfViews_iff {g new g' : Graph} (hg : (g.vnfs.map VNFs.id).Nodup)
    (hn : (new.vnfs.map VNFs.id).Nodup) (h : g.updateTo new = .ok g') :
    g'.vnfViews = new.vnfViews ↔
      ∀ v ∈ g.vnfs, ∀ w ∈ new.vnfs, v.id = w.id → v.name = w.name →
        ∀ p ∈ v.ports, p.id ∈ w.ports.map VnfPort.id := by
  have keys_nodup {vs : List VNFs} (hvs : (vs.map VNFs.id).Nodup) : (vs.map VNFs.key).Nodup := by
    refine List.Nodup.of_map Prod.fst ?_
    simpa only [List.map_map, Function.comp_def, VNFs.key] using hvs
  have hgk := keys_nodup hg
  have hnk := keys_nodup hn
  obtain ⟨hnodup, hkeys, hports⟩ := updateTo_vnfs hgk hnk h
  constructor
  · intro hviews v hv w hw hid hname p hp
    have hkey : v.key = w.key := Prod.ext hid hname
    -- the requested VNF is stored, so its key survived the removal
    have hw' : (w.key.1, w.key.2, (w.ports.map VnfPort.id).toFinset) ∈ g'.vnfViews := by
      rw [hviews, mem_vnfViews hnk]
      refine ⟨List.mem_map_of_mem hw, fun q => ?_⟩
      rw [hasPort_iff_of_mem hnk hw, List.mem_toFinset]
    obtain ⟨-, hkept⟩ := (hkeys w.key).mp ((mem_vnfViews hnodup).mp hw').1
    rw [← hasPort_iff_of_mem hnk hw]
    exact hkept p.id ⟨v, hv, hkey, List.mem_map_of_mem hp⟩
  · intro hkeep
    have hall (k : String × String) (hk : k ∈ new.vnfs.map VNFs.key) :
        k ∈ g'.vnfs.map VNFs.key := by
      refine (hkeys k).mpr ⟨hk, ?_⟩
      rintro q ⟨v, hv, hvk, hq⟩
      obtain ⟨w, hw, rfl⟩ := List.mem_map.mp hk
      obtain ⟨port, hport, rfl⟩ := List.mem_map.mp hq
      exact ⟨w, hw, rfl, hkeep v hv w hw (congrArg Prod.fst hvk) (congrArg Prod.snd hvk) port hport⟩
    ext ⟨i, n, ports⟩
    rw [mem_vnfViews (k := (i, n)) hnodup, mem_vnfViews (k := (i, n)) hnk]
    constructor
    · rintro ⟨hk, hp⟩
      exact ⟨((hkeys _).mp hk).1, fun q => (hp q).trans (hports _ hk q)⟩
    · rintro ⟨hk, hp⟩
      exact ⟨hall _ hk, fun q => (hp q).trans (hports _ (hall _ hk) q).symm⟩

/-- A graph with one firewall that has the given ports and no rules. -/
def firewall (ports : List String) : Graph where
  ID := "g"
  vnfs := [{ id := "00000001", name := "firewall", ports := ports.map (fun p => { id := p }) }]

/-- Requesting a firewall with one port less: the update returns and the firewall is gone. -/
theorem updateTo_drops_shrunk_vnf :
    ((firewall ["inout:0", "inout:1"]).vnfs.map VNFs.id).Nodup ∧
    ((firewall ["inout:0"]).vnfs.map VNFs.id).Nodup ∧
    (firewall ["inout:0", "inout:1"]).updateTo (firewall ["inout:0"]) = .ok { ID := "g" } ∧
    ({ ID := "g" } : Graph).vnfViews ≠ (firewall ["inout:0"]).vnfViews := by
  decide

/-- Requesting one port more. -/
theorem updateTo_vnfViews_grown :
    (firewall ["inout:0"]).updateTo (firewall ["inout:0", "inout:1"]) =
        .ok (firewall ["inout:0", "inout:1"]) ∧
      (firewall ["inout:0", "inout:1"]).vnfViews = (firewall ["inout:0", "inout:1"]).vnfViews :=
  ⟨by decide, (updateTo_vnfViews_iff (g := firewall ["inout:0"])
    (by decide) (by decide) (by decide)).mpr (by decide)⟩

/-! ## Endpoints -/

/-- The endpoints of each kind are distinct, as `operator==` compares them. -/
structure EndPointsDistinct (g : Graph) : Prop where
  interface : g.endPointsInterface.Nodup
  gre : (g.endPointsGre.map EndPointGre.key).Nodup
  internal : g.endPointsInternal.Nodup
  vlan : g.endPointsVlan.Nodup

/-- A graph has the endpoints of another, as `operator==` compares them. -/
structure SameEndPoints (stored requested : Graph) : Prop where
  interface : ∀ e, e ∈ stored.endPointsInterface ↔ e ∈ requested.endPointsInterface
  gre : ∀ k, k ∈ stored.endPointsGre.map EndPointGre.key ↔ k ∈ requested.endPointsGre.map EndPointGre.key
  internal : ∀ e, e ∈ stored.endPointsInternal ↔ e ∈ requested.endPointsInternal
  vlan : ∀ e, e ∈ stored.endPointsVlan ↔ e ∈ requested.endPointsVlan

/-- The addition of an update is accepted, and an update that returns stores the requested
endpoints, each of them once. -/
theorem updateTo_endPoints {g new : Graph} (hg : EndPointsDistinct g) (hn : EndPointsDistinct new) :
    (g.addGraphToGraph (g.calculateDiff new g.ID)).2 = true ∧
    ∀ g', g.updateTo new = .ok g' → EndPointsDistinct g' ∧ SameEndPoints g' new := by
  refine ⟨(addGraphToGraph_diff g new g.ID).1, fun g' h => ?_⟩
  simp only [updateTo, Abort.bind_eq_ok, Abort.pure_eq_ok, Prod.exists] at h
  obtain ⟨g₂, infos, hrem, rfl⟩ := h
  have herased := (removeGraphFromGraph_erased hrem).2
  rw [addGraphToGraph_diff_eq] at herased
  have hwhole {α : Type} [DecidableEq α] {present target result : List α} (hp : present.Nodup)
      (ht : target.Nodup) (h : reconcile id present target = some result) :
      result.Nodup ∧ ∀ e, e ∈ result ↔ e ∈ target := by
    rw [← List.map_id present] at hp
    rw [← List.map_id target] at ht
    refine ⟨?_, fun e => ?_⟩
    · simpa using reconcile_keys_nodup hp ht h
    · simpa using reconcile_keys hp ht h (k := e)
  have hinterface := hwhole hg.interface hn.interface
    (reconcile_of_collected (by simpa using hg.interface) (by simpa using hn.interface) herased.interface)
  have hinternal := hwhole hg.internal hn.internal
    (reconcile_of_collected (by simpa using hg.internal) (by simpa using hn.internal) herased.internal)
  have hvlan := hwhole hg.vlan hn.vlan
    (reconcile_of_collected (by simpa using hg.vlan) (by simpa using hn.vlan) herased.vlan)
  have hgre := reconcile_of_collected hg.gre hn.gre herased.gre
  exact ⟨⟨hinterface.1, reconcile_keys_nodup hg.gre hn.gre hgre, hinternal.1, hvlan.1⟩,
    hinterface.2, fun k => reconcile_keys hg.gre hn.gre hgre, hinternal.2, hvlan.2⟩

/-- A graph with a physical port and a tunnel. -/
def portAndTunnel (interface ttl : String) : Graph where
  ID := "g"
  endPointsInterface := [⟨"1", "", interface⟩]
  endPointsGre := [{ id := "2", name := "", localIp := "10.0.0.1", remoteIp := "10.0.0.2",
                     greKey := "1", ttl := ttl }]

/-- Requesting another port and another `ttl`: the tunnel counts as the same and keeps its own. -/
theorem updateTo_endPoints_moved :
    (portAndTunnel "eth0" "64").updateTo (portAndTunnel "eth1" "32") =
      .ok (portAndTunnel "eth1" "64") ∧
    SameEndPoints (portAndTunnel "eth1" "64") (portAndTunnel "eth1" "32") := by
  have hdistinct (interface ttl : String) : EndPointsDistinct (portAndTunnel interface ttl) := by
    constructor <;> simp [portAndTunnel]
  have hupdate : (portAndTunnel "eth0" "64").updateTo (portAndTunnel "eth1" "32") =
      .ok (portAndTunnel "eth1" "64") := by
    decide
  exact ⟨hupdate, ((updateTo_endPoints (hdistinct _ _) (hdistinct _ _)).2 _ hupdate).2⟩

end UnOrchestrator.Highlevel.Graph
