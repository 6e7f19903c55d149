import UnOrchestrator.GraphManager.Forwarding

/-!
# From a GRE endpoint to a physical port

Rules from a GRE endpoint to a physical port are lowered unlike all others: both switches
copy the match, and both do the tag operations. So a packet has to be accepted twice, the
second time with the tags that the first switch has left on it, and its tags are changed
twice. On LSI-0 the rules of all senders to one physical port look at the same port, the end of
its virtual link, so there the packet can also meet the rule of another sender.

`greToPort_forwardsOnce` gives conditions on the rules of a graph under which a packet leaves as
the rule that takes it says. Whether the rule itself does its work once is a question about stacks
of tags: the operations must leave as many tags as they have found, and the outermost tag must still
meet the VLAN constraints of the match (`TagNeutral`). A rule of another sender that may come first
on LSI-0 must not change what is left (`SharedQuietly`). The conditions are not necessary: a rule
from a network function to the same port, with a higher priority, would pass everything on.
-/

namespace UnOrchestrator

open Highlevel Forwarding GraphTranslator

namespace GenericAction

variable {η : Type} {effect : Nat × List UInt16} {tags : List Tag}

/-- An effect that puts on as many tags as it takes off happens only once. -/
theorem replaceTags_again (h : effect.2.length = effect.1) :
    replaceTags effect (replaceTags effect tags) = replaceTags effect tags := by
  have hdrop : (replaceTags effect tags).drop effect.1 = tags.drop effect.1 := by
    rw [replaceTags]
    exact List.drop_left' (by rw [List.length_map, h])
  rw [replaceTags, hdrop]
  rfl

/-- An effect that takes off and puts on nothing. -/
theorem replaceTags_none (h : effect.2.length = effect.1) (hzero : effect.1 = 0) :
    replaceTags effect tags = tags := by
  have hpushed : effect.2 = [] := List.eq_nil_of_length_eq_zero (h.trans hzero)
  rw [replaceTags, hpushed, hzero]
  rfl

/-- Tag operations change a packet to another one, in terms of their net effect. -/
theorem applyAll_eq_iff {actions : List GenericAction} {p p' : Packet η} :
    applyAll actions p = p' ↔ replaceTags (netEffect actions) p.tags = p'.tags ∧ p.rest = p'.rest := by
  rw [← tags_applyAll, Packet.ext_iff]
  rfl

end GenericAction

namespace Graph.Match

open GenericAction

variable {η : Type} {m : Match}

/-- Doing an effect a second time, on the packets that the match accepts again, changes nothing. -/
def TagNeutral (m : Match) (effect : Nat × List UInt16) : Prop :=
  match Lowlevel.vlanField m with
  | some .vlanUntagged => effect.2 = []
  | some (.vlanVid vid) => effect.2.length = effect.1 ∧
      (effect.1 = 0 ∨ effect.2.head? = some vid ∧ m.vlanPCP = none)
  | _ => effect.2.length = effect.1 ∧ (effect.1 = 0 ∨ m.vlanPCP = none)

instance (m : Match) (effect : Nat × List UInt16) : Decidable (m.TagNeutral effect) := by
  unfold TagNeutral
  split <;> infer_instance

/-- Packets that a match accepts are accepted again after a neutral effect, and not changed by it a
second time. -/
theorem TagNeutral.again {effect : Nat × List UInt16} (h : m.TagNeutral effect) {tags : List Tag}
    (htags : m.acceptsTags tags = true) :
    m.acceptsTags (replaceTags effect tags) = true ∧
      replaceTags effect (replaceTags effect tags) = replaceTags effect tags := by
  unfold TagNeutral at h
  split at h
  · next hf =>
    obtain rfl : tags = [] := by
      simp only [acceptsTags, hf, Bool.and_eq_true] at htags
      simpa using htags.1
    have hnone : replaceTags effect [] = [] := by rw [replaceTags, h, List.drop_nil]; rfl
    rw [hnone]
    exact ⟨htags, hnone⟩
  · next vid hf =>
    obtain ⟨hlength, hcase⟩ := h
    refine ⟨?_, replaceTags_again hlength⟩
    rcases hcase with hzero | ⟨hhead, hpcp⟩
    · rwa [replaceTags_none hlength hzero]
    · obtain ⟨vids, hvids⟩ := List.head?_eq_some_iff.mp hhead
      simp [acceptsTags, hf, hpcp, replaceTags, hvids]
  · next hne hne' =>
    obtain ⟨hlength, hcase⟩ := h
    refine ⟨?_, replaceTags_again hlength⟩
    rcases hcase with hzero | hpcp
    · rwa [replaceTags_none hlength hzero]
    · cases hvids : effect.2 with
      | nil => rwa [replaceTags_none hlength (by rw [← hlength, hvids]; rfl)]
      | cons v vids =>
        -- the constraint is met by every tag, or there is none
        rw [acceptsTags, hpcp, replaceTags, hvids]
        generalize Lowlevel.vlanField m = field at hne hne' ⊢
        rcases field with _ | field
        · rfl
        · cases field
          case vlanVid vid => exact (hne' vid rfl).elim
          case vlanUntagged => exact (hne rfl).elim
          all_goals rfl

/-- The same for packets and tag operations. -/
theorem TagNeutral.applyAll_again {fields : Fields η} {actions : List GenericAction}
    (h : m.TagNeutral (netEffect actions)) {p : Packet η} (haccepts : m.accepts fields p = true) :
    m.accepts fields (applyAll actions p) = true ∧
      applyAll actions (applyAll actions p) = applyAll actions p := by
  simp only [accepts, Bool.and_eq_true] at haccepts ⊢
  obtain ⟨haccepted, htwice⟩ := h.again haccepts.1
  rw [applyAll_eq_iff, tags_applyAll]
  exact ⟨⟨haccepted, haccepts.2⟩, htwice, rfl⟩

end Graph.Match

/-- The rules from GRE endpoints to the physical port of a rule that may come before it on LSI-0 have
the effect of the rule, or none. -/
def Highlevel.Rule.SharedQuietly (rules : List Rule) (r : Rule) : Prop :=
  ∀ r' ∈ rules, r'.greToPort = true → r'.output = r.output → r.priority ≤ r'.priority →
    GenericAction.netEffect r'.action.genericActions =
        GenericAction.netEffect r.action.genericActions ∨
      GenericAction.netEffect r'.action.genericActions = (0, [])

instance (rules : List Rule) (r : Rule) : Decidable (r.SharedQuietly rules) := by
  unfold Rule.SharedQuietly
  infer_instance

namespace Switches

variable {η : Type} {sw : Switches} {fields : Fields η} {rules : List Rule} {r : Rule} {i : Endpoint}

/-- A packet is forwarded by the rule that takes it, with the tag operations done once. -/
theorem Ready.delivers_once {tables : Side → List Lowlevel.Rule} {k k' k'' : Place} {p p' : Packet η}
    (h : sw.Ready rules)
    (htables : ∀ side low, low ∈ tables side ↔ ∃ r ∈ rules, sw.lower side r = .ok (some low))
    (hgre : r.greToPort = true) (hi : r.input = some i)
    (hneutral : r.match.TagNeutral (GenericAction.netEffect r.action.genericActions))
    (hshared : r.SharedQuietly rules) (hk : sw.placeOf i = some k)
    (hk' : sw.placeOf r.output = some k')
    (htakes : ∀ w, Wins Rule.priority (fun r => r.input = some i ∧ r.match.accepts fields p) rules w ↔
      w = r) :
    Delivers (sw.network fields tables) k p k'' p' ↔
      k'' = k' ∧ p' = GenericAction.applyAll r.action.genericActions p := by
  obtain ⟨n, hn, rfl⟩ := Option.map_eq_some_iff.mp hk
  obtain ⟨m, hm, rfl⟩ := Option.map_eq_some_iff.mp hk'
  obtain ⟨hr, ⟨-, haccepts⟩, -⟩ := (htakes r).mpr rfl
  have hcross := Rule.crossing_of_greToPort hgre hi
  obtain ⟨l, hl⟩ := h.linked r hr _ (Rule.requiredVlink_of_crossing hi hcross)
  obtain ⟨hagain, htwice⟩ := hneutral.applyAll_again haccepts
  -- whichever rule for the physical port comes first on LSI-0
  have hkeeps : ∀ r' ∈ rules, r'.greToPort = true → r'.output = r.output →
      r.priority ≤ r'.priority → GenericAction.applyAll r'.action.genericActions
        (GenericAction.applyAll r.action.genericActions p) =
          GenericAction.applyAll r.action.genericActions p := by
    intro r' hr' hgre' houtput hpriority
    rw [GenericAction.applyAll_eq_iff] at htwice ⊢
    rcases hshared r' hr' hgre' houtput hpriority with hsame | hnone
    · rwa [hsame]
    · rw [hnone]
      exact ⟨GenericAction.replaceTags_none rfl rfl, rfl⟩
  refine (Forwarding.delivers_iff (fun _ => ⟨r.output.side, m⟩)
    (fun k₁ p₁ => h.hop_input htables hn) (fun w p₁ _ => ?_) (fun w p₁ hw => ?_) k'' p').trans ?_
  · exact h.distinct.otherEnd_endpoint hm
  · obtain ⟨hwins, rfl⟩ := hw
    obtain rfl := (htakes w).mp hwins
    refine .inr ⟨⟨w.output.side, l.endAt w.output.side⟩, ?_, fun k' p' =>
      h.hop_link htables hr hi hcross hl hm (fun _ => hagain) hkeeps⟩
    rw [stage, if_neg (Ne.symm hcross), hl, Side.eq_other hcross]
    exact h.distinct.otherEnd_link (mem_of_linkOf hl) i.side
  · constructor
    · rintro ⟨w, ⟨hwins, rfl⟩, rfl⟩
      obtain rfl := (htakes w).mp hwins
      exact ⟨rfl, rfl⟩
    · rintro ⟨rfl, rfl⟩
      exact ⟨r, ⟨(htakes r).mpr rfl, rfl⟩, rfl⟩

/-- A graph is lowered to both switches, and their tables forward the packets that a rule takes as it
says, with the tag operations done once. -/
def ForwardsOnce (sw : Switches) (fields : Fields η) (graph : Highlevel.Graph) (r : Rule) : Prop :=
  ∃ lsi0Graph tenantGraph,
    lowerGraphToLSI0 graph sw.tenantLSI sw.lsi0 sw.internalLSIsConnections = .ok lsi0Graph ∧
    lowerGraphToTenantLSI graph sw.tenantLSI = .ok tenantGraph ∧
    ∀ i k k', r.input = some i → sw.placeOf i = some k → sw.placeOf r.output = some k' →
      ∀ p, (∀ w, Wins Rule.priority (fun r => r.input = some i ∧ r.match.accepts fields p)
          graph.rules w ↔ w = r) →
        ∀ k'' p', Delivers (sw.network fields (tables lsi0Graph.rules tenantGraph.rules)) k p k'' p' ↔
          k'' = k' ∧ p' = GenericAction.applyAll r.action.genericActions p

end Switches

/-- A rule that sends what comes out of the tunnel `t` to `eth1`. -/
def tunnelRule (m : Graph.Match) (actions : List GenericAction) : Rule where
  «match» := { m with type := .endPointGre "t", inputEndpoint := "endpoint:t",
                      greInput := by rintro _ ⟨⟩; decide }
  action := { type := .port "eth1", genericActions := actions }
  ruleID := "1"
  priority := 1

/-- The same for the tunnel `u`, before the other rule. -/
def otherTunnelRule (actions : List GenericAction) : Rule where
  «match» := { type := .endPointGre "u", inputEndpoint := "endpoint:u",
               greInput := by rintro _ ⟨⟩; decide }
  action := { type := .port "eth1", genericActions := actions }
  ruleID := "2"
  priority := 2

def tunnelsToPort (rules : List Rule) : Highlevel.Graph where
  ID := "g"
  rules := rules
  endPointsGre := [
    { id := "t", name := "", localIp := "10.0.0.1", remoteIp := "10.0.0.2", greKey := "1" },
    { id := "u", name := "", localIp := "10.0.0.1", remoteIp := "10.0.0.3", greKey := "2" }]

/-- The switch gives the tunnels and the link these numbers. -/
def tunnelEnvironment : Environment :=
  .obliging { dpid := 1, endpointsPorts := [("t", 20), ("u", 21)], virtualLinks := [(1, 101)] }

/-- What `tunnelRule` becomes on a switch, without constraints and with one tag to push. -/
def pushRule (flowID : String) (inPort output : Nat) : Lowlevel.Rule where
  «match» := { inPort := .port inPort }
  action := { output := .port output, genericActions := [⟨.vlanPush, 5⟩] }
  flowID := flowID
  priority := 1

/-- A table with this rule pushes a tag. -/
theorem hop_pushRule {sw : Switches} {fields : Fields Unit} {tables : Side → List Lowlevel.Rule}
    {side : Side} {ID : String} {n m : Nat} (htable : tables side = [pushRule ID n m])
    {p p' : Packet Unit} {k : Place} :
    (sw.network fields tables).hop ⟨side, n⟩ p k p' ↔
      k = ⟨side, m⟩ ∧ p' = GenericAction.applyAll [⟨.vlanPush, 5⟩] p := by
  have happlies : (pushRule ID n m).applies fields n p = true := by
    simp [Lowlevel.Rule.applies, pushRule]
  simp only [Switches.network, htable, Lowlevel.treats_iff, wins_singleton, happlies, and_true,
    exists_eq_left, Place.ext_iff]
  exact and_assoc.symm

end UnOrchestrator
