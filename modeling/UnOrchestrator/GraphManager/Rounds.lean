import UnOrchestrator.GraphManager.Manager

/-!
# The rounds over the internal endpoints

A deployment connects its graph to the group of each of its internal endpoints, and a deletion
disconnects it. For a group the manager keeps an `Account`: a flag, the number of uses, the ports
of LSI-0 by graph and the links of its LSI. What a round does is said here, by the accounts before
and after it: `Joins` and `Left` are the rounds that end, `TakesLink` and `SameAccounts` those that
throw. The other modules reason about the groups from these alone.
-/

namespace UnOrchestrator

open StringMap (getElem?_erase getElem?_insert)

open Failure (orElse_eq_ok)

open Call

open Highlevel

/-- What the switch manager is asked for to connect a graph to a group: the LSI of the group with
its first link, or another link. -/
inductive LinkRequest where
  | lsi (group : String)
  | link (ID : Nat)
  deriving DecidableEq, Repr

/-- The port of LSI-0 that is the answer to a request. -/
def Environment.lsi0Port (env : Environment) : LinkRequest → Option Nat
  | .lsi group =>
    (env.createInternalLsi group).map fun clo => (clo.virtualLinks.head?.map Prod.snd).getD 0
  | .link ID => (env.addVirtualLink ID).map Prod.snd

namespace GraphManager

/-- What the groups of internal endpoints have no part in: LSI-0 with its rules, and the records
of the graphs. -/
def core (s : GraphManager) : LSI × Lowlevel.Graph × Controller × StringMap GraphInfo :=
  (s.lsi0, s.graphLSI0lowLevel, s.lsi0Controller, s.tenantLSIs)

/-- The links of the LSI of a group. -/
def linksOf (s : GraphManager) (group : String) : List VLink :=
  (((s.internalLSIs[group]?).bind InternalLSI.lsi).map fun lsi => lsi.virtualLinks).getD []

/-- What is kept for a group. -/
structure Account where
  created : Bool
  timesUsed : Nat
  connections : Option (StringMap Nat)
  links : List VLink

def account (s : GraphManager) (group : String) : Account :=
  ⟨s.isCreated group, s.timesUsed group, s.internalLSIsConnections[group]?, s.linksOf group⟩

section

variable {rofl : Lowlevel.Rofl} {env : Environment} {graphID group : String}
  {s s' : GraphManager}

theorem core_eq : s'.core = s.core ↔ s'.lsi0 = s.lsi0 ∧
    s'.graphLSI0lowLevel = s.graphLSI0lowLevel ∧ s'.lsi0Controller = s.lsi0Controller ∧
    s'.tenantLSIs = s.tenantLSIs := by
  simp only [core, Prod.mk.injEq]

/-- An account is known by its four parts. -/
theorem account_eq {created : Bool} {times : Nat} {connections : Option (StringMap Nat)}
    {links : List VLink} : s.account group = ⟨created, times, connections, links⟩ ↔
      s.isCreated group = created ∧ s.timesUsed group = times ∧
      s.internalLSIsConnections[group]? = connections ∧ s.linksOf group = links := by
  simp only [account, Account.mk.injEq]

theorem connectionsOf_congr (h : s'.account group = s.account group) :
    s'.connectionsOf group = s.connectionsOf group :=
  congrArg (fun a : Account => a.connections.getD ∅) h

/-! ## Joining a group -/

/-- A round connects the graph through a link: the link is the answer to one request, and its
port becomes that of the graph. -/
structure Joins (env : Environment) (graphID group : String) (s s' : GraphManager) (link : VLink)
    (port : Nat) : Prop where
  core : s'.core = s.core
  counter : s'.nextVLinkID = s.nextVLinkID + 1
  elsewhere : ∀ g, group ≠ g → s'.account g = s.account g
  account : s'.account group = ⟨true, if s.isCreated group then s.timesUsed group + 1 else 1,
    some ((s.connectionsOf group).insert graphID port),
    (if s.isCreated group then s.linksOf group else []) ++ [link]⟩
  number : link.ID = s.nextVLinkID
  port : (∀ l ∈ s.linksOf group, l.ID < s.nextVLinkID) → port = link.remoteID
  answer : ∃ q, (q = .lsi group ∨ q = .link s.nextVLinkID) ∧ env.lsi0Port q = some link.remoteID

/-- A round that throws has used up an identifier, and may have left a link with it. -/
structure TakesLink (s s' : GraphManager) : Prop where
  core : s'.core = s.core
  counter : s'.nextVLinkID = s.nextVLinkID + 1
  ports : s'.connectionsOf = s.connectionsOf
  links : ∀ g, ∀ l ∈ s'.linksOf g, l ∈ s.linksOf g ∨ l.ID = s.nextVLinkID

theorem Joins.connectionsOf {link : VLink} {port : Nat} (h : Joins env graphID group s s' link port)
    (g : String) : s'.connectionsOf g =
      if group = g then (s.connectionsOf g).insert graphID port else s.connectionsOf g := by
  split
  · next hg =>
    subst hg
    exact congrArg (fun a : Account => a.connections.getD ∅) h.account
  · next hg => exact connectionsOf_congr (h.elsewhere g hg)

theorem account_connect {internal : InternalLSI} {lsi : LSI} {vlink : VLink} {times : Nat}
    (g : String) : (connect rofl graphID group internal lsi vlink times s).account g =
      if group = g then ⟨true, times, some ((s.connectionsOf group).insert graphID vlink.remoteID),
        lsi.virtualLinks⟩
      else s.account g := by
  simp only [account, isCreated, timesUsed, linksOf, connect, getElem?_insert]
  split <;> rfl

/-- The one link of a new LSI gets the numbers of the answer. -/
theorem setAllVLinkIDs_single {nextID : Nat} {numbers : List (Nat × Nat)} {links : VLinks}
    {vlink : VLink}
    (hset : ({ virtualLinks := [{ ID := nextID }] } : VLinks).setAllVLinkIDs 0 numbers = .ok links)
    (hhead : links.virtualLinks.head? = some vlink) :
    links.virtualLinks = [vlink] ∧ vlink.ID = nextID ∧
      vlink.remoteID = (numbers.head?.map Prod.snd).getD 0 := by
  match numbers, hset with
  | [], hset =>
    cases hset
    cases hhead
    exact ⟨rfl, rfl, rfl⟩
  | [(localID, remoteID)], hset =>
    cases hset
    cases hhead
    exact ⟨rfl, rfl, rfl⟩
  | _ :: _ :: _, hset => cases hset

/-- A link behind links with other identifiers is found under its own. -/
theorem getVirtualLink_addVlink {v : VLinks} {link vlink : VLink}
    (hget : (v.addVlink link).getVirtualLink link.ID = .ok vlink)
    (hold : ∀ l ∈ v.virtualLinks, l.ID < link.ID) : vlink = link := by
  have hnone : v.virtualLinks.find? (fun l => l.ID = link.ID) = none :=
    List.find?_eq_none.mpr fun l hl => by simpa using Nat.ne_of_lt (hold l hl)
  rw [VLinks.getVirtualLink, Abort.orElse_eq_ok, VLinks.addVlink, List.find?_append, hnone] at hget
  simpa [eq_comm] using hget

theorem handleInternalEndpoint_joins {iep : EndPointInternal} :
    wp (handleInternalEndpoint rofl env graphID iep)
      (fun _ s' => ∃ link port, Joins env graphID iep.group s s' link port) s.TakesLink s := by
  simp only [handleInternalEndpoint, wp_bind, wp_get, wp_modify]
  split
  · next hcreated =>
    split
    · exact wp_abort.mpr trivial
    · next lsi hlsi =>
      have hlinks : s.linksOf iep.group = lsi.virtualLinks := by
        cases hinternal : s.internalLSIs[iep.group]? with
        | none => simp [hinternal] at hlsi
        | some internal =>
          rw [hinternal, Option.getD_some] at hlsi
          simp [linksOf, hinternal, hlsi]
      simp only [wp_bind, wp_modify]
      split
      · -- the new link stays among the links of the group
        refine ⟨rfl, rfl, rfl, fun g l hl => ?_⟩
        simp only [linksOf, getElem?_insert] at hl
        split at hl
        · next hg =>
          subst hg
          rw [hlinks]
          rcases List.mem_append.mp hl with hl | hl
          · exact .inl hl
          · exact .inr (by rw [List.mem_singleton.mp hl])
        · exact .inl hl
      · next idA idB hanswer =>
        simp only [wp_bind, wp_eval_ofAbort, wp_modify]
        intro links hset vlink hget
        rw [setVLinkIDs_last, Except.ok.injEq] at hset
        subst hset
        refine ⟨{ ID := s.nextVLinkID, localID := idA, remoteID := idB }, vlink.remoteID, rfl, rfl,
          fun g hg => ?_, ?_, rfl, fun hold => ?_, .link s.nextVLinkID, .inr rfl, ?_⟩
        · rw [account_connect, if_neg hg]
          simp [account, isCreated, timesUsed, linksOf, getElem?_insert, hg]
        · rw [account_connect, if_pos rfl]
          simp [hcreated, hlinks, VLinks.addVlink, connectionsOf]
        · rw [getVirtualLink_addVlink hget (hlinks ▸ hold)]
        · simp [Environment.lsi0Port, hanswer]
  · next hcreated =>
    have htakes : s.TakesLink { s with nextVLinkID := s.nextVLinkID + 1 } :=
      ⟨rfl, rfl, rfl, fun _ _ => .inl⟩
    split
    · exact htakes
    · next clo hanswer =>
      split
      · exact htakes
      · simp only [wp_bind, wp_eval, orElse_eq_ok, wp_modify]
        refine ⟨fun links hset => ⟨fun vlink hhead => ?_, fun _ => htakes⟩, fun _ => htakes⟩
        obtain ⟨hone, hID, hremote⟩ :=
          setAllVLinkIDs_single (Failure.ofAbort_eq_ok.mp hset) hhead
        refine ⟨vlink, vlink.remoteID, rfl, rfl, fun g hg => ?_, ?_, hID, fun _ => rfl,
          .lsi iep.group, .inl rfl, ?_⟩
        · rw [account_connect, if_neg hg]
          rfl
        · rw [account_connect, if_pos rfl]
          simp [hcreated, hone, connectionsOf]
        · simp [Environment.lsi0Port, hanswer, hremote]

/-! ## Leaving a group -/

/-- A round disconnects the graph: the last use of a group closes its account, another one gives up
the port of the graph and the first link with this port. -/
structure Left (graphID group : String) (s s' : GraphManager) : Prop where
  core : s'.core = s.core
  counter : s'.nextVLinkID = s.nextVLinkID
  elsewhere : ∀ g, group ≠ g → s'.account g = s.account g
  last : s.timesUsed group = 1 → s'.account group = ⟨false, 0, none, []⟩
  shared : s.timesUsed group ≠ 1 → ∃ port vl, (s.connectionsOf group)[graphID]? = some port ∧
    (s.linksOf group).find? (fun vl => vl.remoteID = port) = some vl ∧
    s'.account group = ⟨s.isCreated group, s.timesUsed group - 1,
      some ((s.connectionsOf group).erase graphID),
      (s.linksOf group).eraseP (fun l => l.ID = vl.ID)⟩

theorem Left.timesUsed (h : Left graphID group s s') :
    s'.timesUsed group = s.timesUsed group - 1 := by
  by_cases hlast : s.timesUsed group = 1
  · rw [(account_eq.mp (h.last hlast)).2.1, hlast]
  · obtain ⟨_, _, -, -, haccount⟩ := h.shared hlast
    exact (account_eq.mp haccount).2.1

theorem Left.connectionsOf (h : Left graphID group s s') :
    s'.connectionsOf group =
      if s.timesUsed group = 1 then ∅ else (s.connectionsOf group).erase graphID := by
  split
  · next hlast => exact congrArg (fun a : Account => a.connections.getD ∅) (h.last hlast)
  · next hlast =>
    obtain ⟨_, _, -, -, haccount⟩ := h.shared hlast
    exact congrArg (fun a : Account => a.connections.getD ∅) haccount

/-- A round that throws leaves the accounts alone. -/
structure SameAccounts (s s' : GraphManager) : Prop where
  core : s'.core = s.core
  counter : s'.nextVLinkID = s.nextVLinkID
  accounts : ∀ g, s'.account g = s.account g

theorem releaseInternalEndpoint_left {iep : EndPointInternal} :
    wp (releaseInternalEndpoint rofl env graphID iep)
      (fun _ s' => Left graphID iep.group s s') s.SameAccounts s := by
  have hsame : s.SameAccounts s := ⟨rfl, rfl, fun _ => rfl⟩
  simp only [releaseInternalEndpoint, wp_bind, wp_get, wp_eval, orElse_eq_ok, wp_assert,
    wp_modify, leaveGroup]
  refine ⟨fun internal hinternal => ⟨fun lsi hlsi _ => ?_, fun _ => hsame⟩, fun _ => hsame⟩
  have hlinks : s.linksOf iep.group = lsi.virtualLinks := by simp [linksOf, hinternal, hlsi]
  split
  · next hlast =>
    unfold destroyGroup
    split
    · rw [wp_update]
      intro s₁ hs₁
      split at hs₁
      · cases hs₁
        refine ⟨rfl, rfl, fun g hg => ?_, fun _ => ?_, fun hshared => absurd hlast hshared⟩
        · simp [account, isCreated, timesUsed, linksOf, getElem?_insert, getElem?_erase, hg]
        · rw [timesUsed] at hlast
          simp [account, isCreated, timesUsed, linksOf, hlast]
      · cases hs₁
    · exact hsame
  · next hshared =>
    -- the controller of a group is no part of its account
    have hkept (controller : Controller) : s.SameAccounts { s with
        internalLSIs := s.internalLSIs.insert iep.group { internal with controller := controller } } := by
      refine ⟨rfl, rfl, fun g => ?_⟩
      by_cases hg : iep.group = g
      · subst hg
        simp [account, isCreated, timesUsed, linksOf, hinternal, hlsi]
      · simp [account, isCreated, timesUsed, linksOf, getElem?_insert, hg]
    simp only [disconnect, wp_bind, wp_get, wp_modify, wp_eval, orElse_eq_ok]
    refine ⟨fun port hport => ⟨fun vl hvl => ?_, fun _ => hkept _⟩, fun _ => hkept _⟩
    split
    · simp only [wp_bind, wp_eval_ofAbort, wp_modify]
      intro links hremove
      obtain rfl := removeVlink_ok hremove
      refine ⟨rfl, rfl, fun g hg => ?_, fun hlast => absurd hlast hshared,
        fun _ => ⟨port, vl, hport, hlinks ▸ hvl, ?_⟩⟩
      · simp [account, isCreated, timesUsed, linksOf, getElem?_insert, hg]
      · simp [account, isCreated, timesUsed, connectionsOf, linksOf, hinternal, hlsi]
    · exact hkept _

/-! ## Groups that get nothing -/

/-- No group gets a port or a link. -/
structure Quiet (s s' : GraphManager) : Prop where
  counter : s.nextVLinkID ≤ s'.nextVLinkID
  links : ∀ group, ∀ l ∈ s'.linksOf group, l ∈ s.linksOf group
  ports : ∀ (g k : String) (p : Nat), (s'.connectionsOf g)[k]? = some p →
    (s.connectionsOf g)[k]? = some p

theorem Quiet.refl (s : GraphManager) : Quiet s s :=
  ⟨Nat.le_refl _, fun _ _ h => h, fun _ _ _ h => h⟩

theorem Quiet.trans {s₁ s₂ : GraphManager} (h : Quiet s s₁) (h₁ : Quiet s₁ s₂) : Quiet s s₂ :=
  ⟨Nat.le_trans h.counter h₁.counter, fun g l hl => h.links g l (h₁.links g l hl),
    fun g k p hp => h.ports g k p (h₁.ports g k p hp)⟩

/-- The groups have the parts of the state that matter here. -/
theorem Quiet.of_eq (hlinks : s'.internalLSIs = s.internalLSIs)
    (hports : s'.internalLSIsConnections = s.internalLSIsConnections)
    (hcounter : s.nextVLinkID ≤ s'.nextVLinkID) : Quiet s s' := by
  refine ⟨hcounter, fun g l hl => ?_, fun g k p hp => ?_⟩
  · rwa [linksOf, hlinks] at hl
  · rwa [connectionsOf, hports] at hp

theorem Left.quiet (h : Left graphID group s s') : Quiet s s' := by
  refine ⟨h.counter.ge, fun g l hl => ?_, fun g k p hp => ?_⟩
  · by_cases hg : group = g
    · subst hg
      by_cases hlast : s.timesUsed group = 1
      · rw [(account_eq.mp (h.last hlast)).2.2.2] at hl
        cases hl
      · obtain ⟨_, vl, -, -, haccount⟩ := h.shared hlast
        rw [(account_eq.mp haccount).2.2.2] at hl
        exact List.mem_of_mem_eraseP hl
    · rwa [(account_eq.mp (h.elsewhere g hg)).2.2.2] at hl
  · by_cases hg : group = g
    · subst hg
      rw [h.connectionsOf] at hp
      split at hp
      · simp at hp
      · rw [getElem?_erase] at hp
        split at hp
        · cases hp
        · exact hp
    · rwa [connectionsOf_congr (h.elsewhere g hg)] at hp

theorem SameAccounts.quiet (h : SameAccounts s s') : Quiet s s' := by
  refine ⟨h.counter.ge, fun g l hl => ?_, fun g k p hp => ?_⟩
  · rwa [(account_eq.mp (h.accounts g)).2.2.2] at hl
  · rwa [connectionsOf_congr (h.accounts g)] at hp

end

end GraphManager

end UnOrchestrator
