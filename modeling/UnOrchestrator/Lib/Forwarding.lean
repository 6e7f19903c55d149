import Mathlib.Data.Finset.Max

/-!
# Forwarding through tables and links

A device holds a table of prioritised entries, and treats a packet by an entry of the highest
priority among those that apply (`Wins`); where several have it, any of them may be taken. A
network is a set of places, where packets come in and go out, with what a device does with a
packet that comes in at a place, and with links: a packet that goes out at one end of a link
comes in at the other one. `Delivers` follows a packet until it goes out at a place that is no
end of a link.

`wins_iff` carries winners from a table to one that was made from it entry by entry, and
`delivers_iff` is the rule for networks that realise one big table in at most two hops: the
first device treats the packet as the table says, and a second one only passes on what comes
out of a link.
-/

namespace Forwarding

variable {α ρ κ ο π : Type}

/-- An entry of the highest priority among those that apply. -/
def Wins (priority : ρ → Nat) (applies : ρ → Prop) (table : List ρ) (r : ρ) : Prop :=
  r ∈ table ∧ applies r ∧ ∀ r' ∈ table, applies r' → priority r' ≤ priority r

/-- Where an entry applies, some entry wins. -/
theorem exists_wins (priority : ρ → Nat) {applies : ρ → Prop} {table : List ρ} {r : ρ}
    (hr : r ∈ table) (happlies : applies r) : ∃ w, Wins priority applies table w := by
  classical
  have hsome : (table.toFinset.filter applies).Nonempty :=
    ⟨r, Finset.mem_filter.mpr ⟨List.mem_toFinset.mpr hr, happlies⟩⟩
  obtain ⟨w, hw, hmax⟩ := Finset.exists_max_image _ priority hsome
  obtain ⟨hmem, hwins⟩ := Finset.mem_filter.mp hw
  refine ⟨w, List.mem_toFinset.mp hmem, hwins, fun r' hr' happ => hmax r' ?_⟩
  exact Finset.mem_filter.mpr ⟨List.mem_toFinset.mpr hr', happ⟩

/-- In a table made from another one entry by entry, the winners are made from winners. -/
theorem wins_iff {priority : α → Nat} {applies : α → Prop} {priority' : ρ → Nat}
    {applies' : ρ → Prop} {entries : List α} {table : List ρ} {makes : α → ρ → Prop}
    (hmem : ∀ r, r ∈ table ↔ ∃ a ∈ entries, makes a r)
    (hpriority : ∀ a ∈ entries, ∀ r, makes a r → priority' r = priority a)
    (happlies : ∀ a ∈ entries, ∀ r, makes a r → (applies' r ↔ applies a))
    (htotal : ∀ a ∈ entries, applies a → ∃ r, makes a r) (r : ρ) :
    Wins priority' applies' table r ↔ ∃ a, Wins priority applies entries a ∧ makes a r := by
  constructor
  · rintro ⟨hr, happ, hmax⟩
    obtain ⟨a, ha, hmakes⟩ := (hmem r).mp hr
    refine ⟨a, ⟨ha, (happlies a ha r hmakes).mp happ, fun b hb hbapp => ?_⟩, hmakes⟩
    obtain ⟨r', hmakes'⟩ := htotal b hb hbapp
    rw [← hpriority a ha r hmakes, ← hpriority b hb r' hmakes']
    exact hmax r' ((hmem r').mpr ⟨b, hb, hmakes'⟩) ((happlies b hb r' hmakes').mpr hbapp)
  · rintro ⟨a, ⟨ha, happ, hmax⟩, hmakes⟩
    refine ⟨(hmem r).mpr ⟨a, ha, hmakes⟩, (happlies a ha r hmakes).mpr happ, fun r' hr' happ' => ?_⟩
    obtain ⟨b, hb, hmakes'⟩ := (hmem r').mp hr'
    rw [hpriority a ha r hmakes, hpriority b hb r' hmakes']
    exact hmax b hb ((happlies b hb r' hmakes').mp happ')

/-- In a table with one entry, it wins where it applies. -/
theorem wins_singleton {priority : ρ → Nat} {applies : ρ → Prop} {r r' : ρ} :
    Wins priority applies [r] r' ↔ r' = r ∧ applies r := by
  constructor
  · rintro ⟨hmem, happ, -⟩
    obtain rfl := List.mem_singleton.mp hmem
    exact ⟨rfl, happ⟩
  · rintro ⟨rfl, happ⟩
    refine ⟨List.mem_singleton_self _, happ, fun r hr _ => ?_⟩
    rw [List.mem_singleton.mp hr]

/-- What devices do with packets, and the links between their places. -/
structure Network (κ π : Type) where
  hop : κ → π → κ → π → Prop
  link : κ → Option κ

/-- A packet that comes in at a place is delivered at another one. -/
inductive Delivers (net : Network κ π) : κ → π → κ → π → Prop where
  | out {k k' : κ} {p p' : π} (hop : net.hop k p k' p') (ends : net.link k' = none) :
    Delivers net k p k' p'
  | carried {k k₁ k₂ k' : κ} {p p₁ p' : π} (hop : net.hop k p k₁ p₁)
    (link : net.link k₁ = some k₂) (rest : Delivers net k₂ p₁ k' p') : Delivers net k p k' p'

/-- The first hop of a delivery, into a link or not. -/
theorem delivers_step {net : Network κ π} {k k' : κ} {p p' : π} :
    Delivers net k p k' p' ↔ ∃ k₁ p₁, net.hop k p k₁ p₁ ∧
      match net.link k₁ with
      | none => k' = k₁ ∧ p' = p₁
      | some k₂ => Delivers net k₂ p₁ k' p' := by
  constructor
  · intro h
    cases h with
    | out hhop hends => exact ⟨k', p', hhop, by simp [hends]⟩
    | carried hhop hlink hrest => exact ⟨_, _, hhop, by simpa [hlink] using hrest⟩
  · rintro ⟨k₁, p₁, hhop, hthen⟩
    cases hlink : net.link k₁ with
    | none =>
      rw [hlink] at hthen
      obtain ⟨rfl, rfl⟩ := hthen
      exact .out hhop hlink
    | some k₂ =>
      rw [hlink] at hthen
      exact .carried hhop hlink hthen

/-- Where a device passes on what comes in, packets are delivered behind it unchanged. -/
theorem delivers_of_passes {net : Network κ π} {k out : κ} {p : π}
    (hpasses : ∀ k' p', net.hop k p k' p' ↔ k' = out ∧ p' = p) (hends : net.link out = none)
    (k' : κ) (p' : π) : Delivers net k p k' p' ↔ k' = out ∧ p' = p := by
  constructor
  · intro h
    cases h with
    | out hhop _ => exact (hpasses k' p').mp hhop
    | carried hhop hlink _ =>
      obtain ⟨rfl, rfl⟩ := (hpasses _ _).mp hhop
      rw [hends] at hlink
      cases hlink
  · rintro ⟨rfl, rfl⟩
    exact .out ((hpasses _ _).mpr ⟨rfl, rfl⟩) hends

/-- A network realises a table: the first device treats a packet as the table does, and lets it
out either where it belongs or into a link behind which it is passed on to there. -/
theorem delivers_iff {net : Network κ π} {k : κ} {p : π} {sends : ο → π → Prop} {first : ο → κ}
    (exit : ο → κ)
    (hfirst : ∀ k₁ p₁, net.hop k p k₁ p₁ ↔ ∃ o, sends o p₁ ∧ k₁ = first o)
    (hexit : ∀ o p₁, sends o p₁ → net.link (exit o) = none)
    (hstage : ∀ o p₁, sends o p₁ → first o = exit o ∨
      ∃ k₂, net.link (first o) = some k₂ ∧ ∀ k' p', net.hop k₂ p₁ k' p' ↔ k' = exit o ∧ p' = p₁)
    (k' : κ) (p' : π) : Delivers net k p k' p' ↔ ∃ o, sends o p' ∧ k' = exit o := by
  constructor
  · intro h
    cases h with
    | out hhop hends =>
      obtain ⟨o, hsends, rfl⟩ := (hfirst _ _).mp hhop
      rcases hstage o p' hsends with hsame | ⟨k₂, hlink, -⟩
      · exact ⟨o, hsends, hsame⟩
      · rw [hends] at hlink
        cases hlink
    | carried hhop hlink hrest =>
      obtain ⟨o, hsends, rfl⟩ := (hfirst _ _).mp hhop
      rcases hstage o _ hsends with hsame | ⟨k₂, hlink', hpasses⟩
      · rw [hsame, hexit o _ hsends] at hlink
        cases hlink
      · obtain rfl : _ = k₂ := Option.mem_unique hlink hlink'
        obtain ⟨rfl, rfl⟩ := (delivers_of_passes hpasses (hexit o _ hsends) k' p').mp hrest
        exact ⟨o, hsends, rfl⟩
  · rintro ⟨o, hsends, rfl⟩
    have hhop := (hfirst (first o) p').mpr ⟨o, hsends, rfl⟩
    rcases hstage o p' hsends with hsame | ⟨k₂, hlink, hpasses⟩
    · exact hsame ▸ .out hhop (hsame ▸ hexit o p' hsends)
    · exact .carried hhop hlink
        ((delivers_of_passes hpasses (hexit o p' hsends) _ _).mpr ⟨rfl, rfl⟩)

end Forwarding
