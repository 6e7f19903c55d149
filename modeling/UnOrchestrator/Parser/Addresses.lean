import UnOrchestrator.Parser.Match

/-!
# The syntax of addresses

`validateMac` counts the digits and the separators of a string in one pass. Read group by group
(`countMac_eq`), it accepts every MAC address, and it accepts more: text behind twelve digits and a
separator, groups that are not of two digits as long as the separators stand behind 2 or 3, 4 or 5, …
digits, and other characters in front as long as only one digit is among them (`validateMac_iff_isMac`).
Without separators the unicast bit is taken from the last octet (`isUnicastMac_iff`). The test for a
netmask is exact (`validateIpv4Netmask_iff`).
-/

namespace UnOrchestrator.Parser

open CString

/-! ## MAC addresses -/

def isSeparator (c : Char) : Bool := c = ':' ∨ c = '-'

/-- The groups of characters between the separators. -/
def macGroups (mac : String) : List (List Char) := mac.toList.splitOnP isSeparator

/-- Twelve hexadecimal digits, in one group or in six groups of two. -/
def IsMac (mac : String) : Prop :=
  (∀ group ∈ macGroups mac, AllDigits 16 group) ∧
    ((macGroups mac).map List.length = [12] ∨ (macGroups mac).map List.length = [2, 2, 2, 2, 2, 2])

instance (mac : String) : Decidable (IsMac mac) := inferInstanceAs (Decidable (_ ∧ _))

def digitCount (group : List Char) : Nat := group.countP fun c => (digitValue 16 c).isSome

/-- The loop of `validateMac`, a group at a time. -/
def countGroups : List (List Char) → Int → Int → Int × Int
  | [], i, s => (i, s)
  | group :: rest, i, s =>
    let i := i + digitCount group
    let s := if AllDigits 16 group then s else -1
    if rest = [] ∨ i = 0 ∨ i / 2 - 1 ≠ s then (i, s) else countGroups rest i (s + 1)

theorem countMac_append {group : List Char} (hgroup : ∀ c ∈ group, isSeparator c = false) (rest : List Char)
    (i s : Int) : countMac (group ++ rest) i s =
      countMac rest (i + digitCount group) (if AllDigits 16 group then s else -1) := by
  induction group generalizing i s with
  | nil => simp [digitCount, show AllDigits 16 [] from nofun]
  | cons c group ih =>
    have hall : AllDigits 16 (c :: group) ↔ (digitValue 16 c).isSome ∧ AllDigits 16 group :=
      List.forall_mem_cons
    have hcount : digitCount (c :: group) = digitCount group + if (digitValue 16 c).isSome then 1 else 0 :=
      List.countP_cons
    have hc : ¬ (c = ':' ∨ c = '-') := by simpa [isSeparator] using hgroup c List.mem_cons_self
    have ih := ih fun e he => hgroup e (List.mem_cons_of_mem c he)
    by_cases hdigit : (digitValue 16 c).isSome
    · rw [List.cons_append, countMac, if_pos hdigit, ih]
      simp [hall, hcount, hdigit, add_assoc, add_comm (1 : Int)]
    · rw [List.cons_append, countMac, if_neg hdigit, if_neg hc, ih]
      simp [hall, hcount, hdigit]

/-- A string is one group, or a group, a separator and the rest. -/
theorem groups_cases (cs : List Char) :
    (∀ c ∈ cs, isSeparator c = false) ∨ ∃ group sep rest, cs = group ++ sep :: rest ∧
      isSeparator sep = true ∧ ∀ c ∈ group, isSeparator c = false := by
  cases hfind : cs.find? isSeparator with
  | none => exact .inl fun c hc => by simpa using List.find?_eq_none.mp hfind c hc
  | some sep =>
    obtain ⟨hsep, group, rest, rfl, hgroup⟩ := List.find?_eq_some_iff_append.mp hfind
    exact .inr ⟨group, sep, rest, rfl, hsep, fun c hc => by simpa using hgroup c hc⟩

theorem countMac_eq (cs : List Char) (i s : Int) :
    countMac cs i s = countGroups (cs.splitOnP isSeparator) i s := by
  induction hn : cs.length using Nat.strongRecOn generalizing cs i s with
  | ind n ih =>
    rcases groups_cases cs with hcs | ⟨group, sep, rest, rfl, hsep, hgroup⟩
    · have hwhole := countMac_append hcs [] i s
      rw [List.append_nil] at hwhole
      simp [hwhole, List.splitOnP_eq_singleton hcs, countGroups, countMac]
    · have hsep' : sep = ':' ∨ sep = '-' := by simpa [isSeparator] using hsep
      have hdigit : ¬ (digitValue 16 sep).isSome := by
        rcases hsep' with rfl | rfl <;> decide
      rw [countMac_append hgroup, List.splitOnP_append_cons_of_forall_mem hgroup sep hsep, countGroups, countMac,
        if_neg hdigit, if_pos hsep', ih rest.length (by simp [← hn]; omega) rest _ _ rfl]
      simp

/-- Behind `i` digits and `k` separators: all are digits, the separators stand behind 2 or 3, 4 or 5, …
of them, and there are five separators and twelve digits. -/
def Staggered (i k : Nat) : List (List Char) → Prop
  | [] => False
  | group :: rest => AllDigits 16 group ∧
    if rest = [] then k = 5 ∧ i + group.length = 12
    else (i + group.length) / 2 = k + 1 ∧ Staggered (i + group.length) (k + 1) rest

/-- What is taken for an address behind `i` digits. -/
def Taken (i : Nat) (groups : List (List Char)) : Prop :=
  (∃ group rest, groups = group :: rest ∧ AllDigits 16 group ∧ i + group.length = 12) ∨ Staggered i 0 groups

/-- An address behind groups with other characters, which count as one digit and no separator. -/
def BehindOthers (groups : List (List Char)) : Prop :=
  ∃ first others rest, groups = first :: (others ++ rest) ∧ digitCount first = 1 ∧
    (∀ group ∈ others, digitCount group = 0) ∧ (∀ group ∈ first :: others, ¬ AllDigits 16 group) ∧ Taken 1 rest

/-- The test at the end of `validateMac`. -/
def Counted (counts : Int × Int) : Prop := counts.1 = 12 ∧ (counts.2 = 5 ∨ counts.2 = 0)

theorem digitCount_eq {group : List Char} (h : AllDigits 16 group) : digitCount group = group.length :=
  List.countP_eq_length.mpr h

theorem counted_staggered (groups : List (List Char)) {i k : Nat} (hk : 1 ≤ k) (hi : i / 2 = k) :
    Counted (countGroups groups i k) ↔ Staggered i k groups := by
  induction groups generalizing i k with
  | nil => simp [Counted, countGroups, Staggered]; omega
  | cons group rest ih =>
    by_cases hall : AllDigits 16 group
    · simp only [countGroups, Staggered, hall, if_true, digitCount_eq hall, true_and]
      by_cases hrest : rest = []
      · simp [hrest, Counted]; omega
      · rw [if_neg hrest]
        by_cases hnext : (i + group.length) / 2 = k + 1
        · have hlater := ih (by omega) hnext
          rw [if_neg (by simp [hrest]; omega)]
          simpa [hnext] using hlater
        · rw [if_pos (by omega)]
          simp [Counted, hnext]; omega
    · simp only [countGroups, Staggered, hall, if_false, false_and, iff_false]
      rw [if_pos (by omega)]
      simp [Counted]

theorem Staggered.all {groups : List (List Char)} {i k : Nat} (h : Staggered i k groups) :
    (∀ group ∈ groups, AllDigits 16 group) ∧ groups.length + k = 6 := by
  induction groups generalizing i k with
  | nil => cases h
  | cons group rest ih =>
    obtain ⟨hall, hrest⟩ := h
    split_ifs at hrest with hnil
    · simp [hnil, hall, hrest.1]
    · obtain ⟨hmore, hlength⟩ := ih hrest.2
      exact ⟨List.forall_mem_cons.mpr ⟨hall, hmore⟩, by rw [List.length_cons]; omega⟩

/-- At the start, and behind one digit, a group is read as the beginning of an address, or it has other
characters and is skipped. -/
theorem counted_cons (group : List Char) (rest : List (List Char)) {i : Nat} (_ : i ≤ 1) :
    Counted (countGroups (group :: rest) i 0) ↔ Taken i (group :: rest) ∨
      ¬ AllDigits 16 group ∧ i + digitCount group = 1 ∧ Counted (countGroups rest 1 0) := by
  by_cases hall : AllDigits 16 group
  · have htaken : (∃ first more, group :: rest = first :: more ∧ AllDigits 16 first ∧ i + first.length = 12) ↔
        i + group.length = 12 := by simp [hall]
    simp only [countGroups, Taken, Staggered, htaken, hall, if_true, digitCount_eq hall, true_and, not_true,
      false_and, or_false]
    by_cases hrest : rest = []
    · simp [hrest, Counted]; omega
    · rw [if_neg hrest]
      by_cases hfirst : (i + group.length) / 2 = 1
      · have hlater := counted_staggered rest le_rfl hfirst
        rw [if_neg (by simp [hrest]; omega)]
        have hshort : i + group.length ≠ 12 := by omega
        simpa [hfirst, hshort] using hlater
      · rw [if_pos (by omega)]
        simp [Counted, hfirst]; omega
  · have htaken : ¬ Taken i (group :: rest) := by simp [Taken, Staggered, hall]
    simp only [countGroups, htaken, hall, if_false, false_or, not_false_eq_true, true_and]
    by_cases hone : i + digitCount group = 1
    · have hcast : (i : Int) + digitCount group = 1 := by exact_mod_cast hone
      by_cases hrest : rest = []
      · simp [hrest, hcast, countGroups, Counted]
      · rw [hcast, if_neg (by simp [hrest])]
        simp [hone]
    · rw [if_pos (by omega)]
      simp [Counted, hone]

theorem counted_one (groups : List (List Char)) : Counted (countGroups groups 1 0) ↔
    ∃ others rest, groups = others ++ rest ∧ (∀ group ∈ others, digitCount group = 0) ∧
      (∀ group ∈ others, ¬ AllDigits 16 group) ∧ Taken 1 rest := by
  induction groups with
  | nil => simp [countGroups, Counted, Taken, Staggered]
  | cons group groups ih =>
    have hcons := counted_cons group groups le_rfl
    rw [Nat.cast_one] at hcons
    rw [hcons, ih]
    constructor
    · rintro (htaken | ⟨hother, hcount, others, rest, rfl, hcounts, hothers, htaken⟩)
      · exact ⟨[], _, rfl, nofun, nofun, htaken⟩
      · exact ⟨group :: others, rest, rfl, List.forall_mem_cons.mpr ⟨by omega, hcounts⟩,
          List.forall_mem_cons.mpr ⟨hother, hothers⟩, htaken⟩
    · rintro ⟨_ | ⟨first, others⟩, rest, heq, hcounts, hothers, htaken⟩
      · exact .inl (heq ▸ htaken)
      · obtain ⟨rfl, rfl⟩ := List.cons.inj heq
        rw [List.forall_mem_cons] at hcounts hothers
        exact .inr ⟨hothers.1, by omega, others, rest, rfl, hcounts.2, hothers.2, htaken⟩

theorem validateMac_iff (mac : String) :
    validateMac mac = true ↔ Taken 0 (macGroups mac) ∨ BehindOthers (macGroups mac) := by
  have hcounted : validateMac mac = true ↔ Counted (countGroups (macGroups mac) 0 0) := by
    simp [validateMac, Counted, macGroups, countMac_eq]
  obtain ⟨first, groups, hgroups⟩ := List.exists_cons_of_ne_nil (List.splitOnP_ne_nil isSeparator mac.toList)
  have hcons := counted_cons first groups (Nat.zero_le 1)
  rw [Nat.cast_zero, counted_one] at hcons
  rw [hcounted, macGroups, hgroups, hcons]
  refine or_congr_right ?_
  constructor
  · rintro ⟨hother, hcount, others, rest, rfl, hcounts, hothers, htaken⟩
    exact ⟨first, others, rest, rfl, by omega, hcounts, List.forall_mem_cons.mpr ⟨hother, hothers⟩, htaken⟩
  · rintro ⟨first', others, rest, heq, hcount, hcounts, hothers, htaken⟩
    obtain ⟨rfl, rfl⟩ := List.cons.inj heq
    rw [List.forall_mem_cons] at hothers
    exact ⟨hothers.1, by omega, others, rest, rfl, hcounts, hothers.2, htaken⟩

theorem IsMac.taken {mac : String} (h : IsMac mac) : Taken 0 (macGroups mac) := by
  obtain ⟨hdigits, hone | hsix⟩ := h
  · obtain ⟨group, hgroups, hlength⟩ := List.map_eq_singleton_iff.mp hone
    exact .inl ⟨group, [], hgroups, hdigits group (by simp [hgroups]), by omega⟩
  · simp only [List.map_eq_cons_iff, List.map_eq_nil_iff] at hsix
    obtain ⟨a, _, hgroups, ha, b, _, rfl, hb, c, _, rfl, hc, d, _, rfl, hd, e, _, rfl, he, f, _, rfl, hf, rfl⟩ := hsix
    simp only [hgroups, List.forall_mem_cons] at hdigits
    refine .inr ?_
    simp [hgroups, Staggered, hdigits, ha, hb, hc, hd, he, hf]

/-- The test is right about a string except in three situations: an address stands behind groups with
other characters, twelve digits are not the end of the string, or six groups of digits are not all of
two. -/
theorem validateMac_iff_isMac (mac : String) :
    (validateMac mac = true ↔ IsMac mac) ↔
      ¬ BehindOthers (macGroups mac) ∧
      (∀ group rest, macGroups mac = group :: rest → AllDigits 16 group → group.length = 12 → rest = []) ∧
      (Staggered 0 0 (macGroups mac) → ∀ group ∈ macGroups mac, group.length = 2) := by
  rw [validateMac_iff]
  constructor
  · intro h
    refine ⟨fun hothers => ?_, fun group rest hgroups hdigits hlength => ?_, fun hstaggered group hgroup => ?_⟩
    · have hmac := h.mp (.inr hothers)
      obtain ⟨first, others, rest, hgroups, -, -, hfirst, -⟩ := hothers
      exact hfirst first List.mem_cons_self (hmac.1 first (by simp [hgroups]))
    · rcases (h.mp (.inl (.inl ⟨group, rest, hgroups, hdigits, by omega⟩))).2 with hone | hsix
      · exact (by simpa [hgroups] using hone : _ ∧ rest = []).2
      · simp [hgroups, hlength] at hsix
    · rcases (h.mp (.inl (.inr hstaggered))).2 with hone | hsix
      · have := congrArg List.length hone
        have := hstaggered.all.2
        simp at *
        omega
      · have := List.mem_map_of_mem (f := List.length) hgroup
        rw [hsix] at this
        simpa using this
  · rintro ⟨hothers, htwelve, hsix⟩
    refine ⟨fun h => ?_, fun h => .inl h.taken⟩
    rcases h.resolve_right hothers with ⟨group, rest, hgroups, hdigits, hlength⟩ | hstaggered
    · obtain rfl := htwelve group rest hgroups hdigits (by omega)
      exact ⟨by simpa [hgroups] using hdigits, .inl (by simpa [hgroups] using hlength)⟩
    · refine ⟨hstaggered.all.1, .inr ?_⟩
      rw [show [2, 2, 2, 2, 2, 2] = List.replicate 6 2 from rfl, List.eq_replicate_iff]
      exact ⟨by simpa using hstaggered.all.2, by simpa using hsix hstaggered⟩

theorem uneven_groups_accepted :
    validateMac "123:4:56:78:90:ab" = true ∧ ¬ IsMac "123:4:56:78:90:ab" := by
  decide

/-! ## The unicast bit -/

/-- Two digits for each octet. -/
def octetsOf : List Nat → List Nat
  | high :: low :: rest => (16 * high + low) :: octetsOf rest
  | _ => []

def macOctets (mac : String) : List Nat := octetsOf (mac.toList.filterMap (digitValue 16))

theorem octetsOf_eq_cons {digits octets : List Nat} {octet : Nat} : octetsOf digits = octet :: octets ↔
    ∃ high low rest, digits = high :: low :: rest ∧ 16 * high + low = octet ∧ octetsOf rest = octets := by
  match digits with
  | [] | [_] => simp [octetsOf]
  | high :: low :: rest => simp [octetsOf]

theorem leadingDigits_eq_filterMap {cs : List Char} (h : AllDigits 16 cs) :
    leadingDigits 16 cs = cs.filterMap (digitValue 16) := by
  induction cs with
  | nil => rfl
  | cons c cs ih =>
    obtain ⟨d, hd⟩ := Option.isSome_iff_exists.mp (h c List.mem_cons_self)
    rw [leadingDigits, List.filterMap_cons, hd, ih fun e he => h e (List.mem_cons_of_mem c he)]

/-- At most twelve digits denote a number of 48 bits. -/
theorem digitsValue_lt {cs : List Char} (h : AllDigits 16 cs) (hlength : cs.length ≤ 12) :
    digitsValue 16 (leadingDigits 16 cs) < 2 ^ 48 := by
  have hpow : digitsValue 16 (leadingDigits 16 cs) < 16 ^ cs.length := by
    induction cs using List.reverseRecOn with
    | nil => simp [leadingDigits]
    | append_singleton cs c ih =>
      have hcs : AllDigits 16 cs := fun e he => h e (List.mem_append_left _ he)
      obtain ⟨d, hd⟩ := Option.isSome_iff_exists.mp (h c (by simp))
      have hlt : d < 16 := by simpa [hd] using digitValue_eq hd 16
      have ih := ih hcs (by simp at hlength; omega)
      rw [leadingDigits_append hcs, leadingDigits, hd, leadingDigits, digitsValue_concat, List.length_append,
        List.length_singleton, pow_succ]
      omega
  exact hpow.trans_le (Nat.pow_le_pow_right (by decide : 0 < 16) hlength)

/-- The digits at the front are read. -/
theorem isUnicastMac_eq {mac : String} {c c' : Char} {cs rest : List Char}
    (hmac : mac.toList = c :: c' :: (cs ++ rest)) (hdigits : AllDigits 16 (c :: c' :: cs))
    (hlength : cs.length ≤ 10) (hrest : leadingDigits 16 rest = []) :
    isUnicastMac mac = true ↔ digitsValue 16 (leadingDigits 16 (c :: c' :: cs)) % 2 = 0 := by
  have hc := hdigits c List.mem_cons_self
  have hc' := hdigits c' (by simp)
  have hblank : isSpace c = false := not_isSpace_of_digit hc
  have hsign : c ≠ '-' ∧ c ≠ '+' := by
    constructor <;> rintro rfl <;> simp [digitValue] at hc
  have hmark : dropHexMark (c :: c' :: (cs ++ rest)) = c :: c' :: (cs ++ rest) := by
    unfold dropHexMark
    split
    · next heq =>
      simp only [List.cons.injEq] at heq
      simp [heq.2.1, digitValue] at hc'
    · next heq =>
      simp only [List.cons.injEq] at heq
      simp [heq.2.1, digitValue] at hc'
    · rfl
  have hread : leadingDigits 16 (c :: c' :: (cs ++ rest)) = leadingDigits 16 (c :: c' :: cs) := by
    simpa [hrest] using (leadingDigits_append hdigits : leadingDigits 16 (c :: c' :: cs ++ rest) = _)
  have hlt := digitsValue_lt hdigits (by simp; omega)
  obtain ⟨d, ds, hds⟩ := List.exists_cons_of_ne_nil (leadingDigits_ne_nil hdigits (by simp))
  simp only [hds, digitsValue] at hlt ⊢
  simp [isUnicastMac, scanUnsigned, hmac, hblank, hsign, hmark, hread, hds]
  rw [if_pos (by simp at hlt; omega)]

/-- The bit that is tested is that of the first octet if there are separators, and otherwise that of
the last one. -/
theorem isUnicastMac_iff (mac : String) (o₁ o₂ o₃ o₄ o₅ o₆ : Nat) (hmac : IsMac mac)
    (hoctets : macOctets mac = [o₁, o₂, o₃, o₄, o₅, o₆]) :
    (isUnicastMac mac = true ↔ o₁ % 2 = 0) ↔ (macGroups mac).length = 6 ∨ o₁ % 2 = o₆ % 2 := by
  obtain ⟨hdigits, hlengths⟩ := hmac
  simp only [macOctets, octetsOf_eq_cons] at hoctets
  obtain ⟨h₁, l₁, _, hlist, rfl, h₂, l₂, _, rfl, -, h₃, l₃, _, rfl, -, h₄, l₄, _, rfl, -, h₅, l₅, _, rfl, -,
    h₆, l₆, more, rfl, rfl, -⟩ := hoctets
  rcases groups_cases mac.toList with hnone | ⟨group, sep, rest, hmac, hsep, hgroup⟩
  · have hgroups : macGroups mac = [mac.toList] := List.splitOnP_eq_singleton hnone
    simp only [hgroups, List.map_cons, List.map_nil, List.cons.injEq, List.forall_mem_singleton] at *
    have hlength : mac.toList.length = 12 := by simpa using hlengths
    have hmore := List.length_filterMap_le (digitValue 16) mac.toList
    rw [hlist, hlength] at hmore
    obtain rfl : more = [] := by
      simp only [List.length_cons] at hmore
      exact List.length_eq_zero_iff.mp (by omega)
    obtain ⟨c, c', cs, hcs⟩ : ∃ c c' cs, mac.toList = c :: c' :: cs := by
      match mac.toList, hlength with
      | c :: c' :: cs, _ => exact ⟨c, c', cs, rfl⟩
    have hwhole : mac.toList = c :: c' :: (cs ++ []) := by rw [List.append_nil, hcs]
    have hshort : cs.length ≤ 10 := by
      rw [hcs] at hlength
      simp only [List.length_cons] at hlength
      omega
    have hlast := digitsValue_concat 16 [h₁, l₁, h₂, l₂, h₃, l₃, h₄, l₄, h₅, l₅, h₆] l₆
    simp only [List.cons_append, List.nil_append] at hlast
    rw [isUnicastMac_eq hwhole (hcs ▸ hdigits) hshort rfl, ← hcs, leadingDigits_eq_filterMap hdigits, hlist, hlast]
    simp only [List.length_singleton, OfNat.one_ne_ofNat, false_or]
    omega
  · have hgroups : macGroups mac = group :: rest.splitOnP isSeparator := by
      rw [macGroups, hmac, List.splitOnP_append_cons_of_forall_mem hgroup sep hsep]
    have hsix : (macGroups mac).map List.length = [2, 2, 2, 2, 2, 2] :=
      hlengths.resolve_left (by simp [hgroups])
    have hlength : (macGroups mac).length = 6 := by simpa using congrArg List.length hsix
    obtain ⟨c, c', rfl⟩ := List.length_eq_two.mp (by simpa [hgroups] using congrArg List.head? hsix : group.length = 2)
    have hpair := hdigits [c, c'] (by simp [hgroups])
    have hnext : leadingDigits 16 (sep :: rest) = [] := by
      rcases (by simpa [isSeparator] using hsep : sep = ':' ∨ sep = '-') with rfl | rfl <;> rfl
    rw [hmac, List.filterMap_append, ← leadingDigits_eq_filterMap hpair] at hlist
    obtain ⟨d, hd⟩ := Option.isSome_iff_exists.mp (hpair c (by simp))
    obtain ⟨d', hd'⟩ := Option.isSome_iff_exists.mp (hpair c' (by simp))
    simp only [leadingDigits, hd, hd', List.cons_append, List.cons.injEq] at hlist
    have hfirst : mac.toList = c :: c' :: ([] ++ sep :: rest) := hmac
    rw [isUnicastMac_eq hfirst hpair (by simp) hnext]
    simp [leadingDigits, hd, hd', hlist.1, hlist.2.1, hlength, digitsValue]
    omega

theorem isUnicastMac_iff_separated : IsMac "02:00:5e:00:53:01" ∧
    ((isUnicastMac "02:00:5e:00:53:01" = true ↔ 2 % 2 = 0) ↔
      (macGroups "02:00:5e:00:53:01").length = 6 ∨ 2 % 2 = 1 % 2) :=
  ⟨by decide, isUnicastMac_iff _ 2 0 94 0 83 1 (by decide) (by decide)⟩

/-- The address of a unicast interface, written without separators. -/
theorem unicast_taken_for_multicast : IsMac "02005e005301" ∧ validateMac "02005e005301" = true ∧
    (macOctets "02005e005301").head? = some 2 ∧ isUnicastMac "02005e005301" = false := by
  decide

/-! ## Netmasks -/

/-- `inet_pton` takes four numbers below 256 in decimal, without leading zeros. -/
def InetPton.Dotted (inet : InetPton) : Prop :=
  ∀ ipAddress address, inet.ipv4 ipAddress = some address → ∃ a b c d : Nat, a < 256 ∧ b < 256 ∧ c < 256 ∧
    d < 256 ∧ ipAddress = toString a ++ "." ++ toString b ++ "." ++ toString c ++ "." ++ toString d ∧
    address = a * 2 ^ 24 + b * 2 ^ 16 + c * 2 ^ 8 + d

theorem onesThenZeros_false_iff {bits mask : Nat} (h : mask < 2 ^ bits) :
    onesThenZeros bits mask false = true ↔ mask = 2 ^ bits - 1 := by
  induction bits generalizing mask with
  | zero => simp [onesThenZeros]; omega
  | succ bits ih =>
    rw [pow_succ] at h
    have ih := @ih (mask / 2) (by omega)
    have hpos := Nat.two_pow_pos bits
    rw [onesThenZeros]
    by_cases hbit : mask % 2 = 0
    · simp [hbit, pow_succ]; omega
    · simp [hbit, ih, pow_succ]; omega

/-- The loop accepts the numbers whose ones are in front. -/
theorem onesThenZeros_iff {bits mask : Nat} (h : mask < 2 ^ bits) :
    onesThenZeros bits mask true = true ↔ ∃ k ≤ bits, mask = 2 ^ bits - 2 ^ k := by
  induction bits generalizing mask with
  | zero => simp [onesThenZeros]; omega
  | succ bits ih =>
    rw [pow_succ] at h
    have hpos := Nat.two_pow_pos bits
    rw [onesThenZeros]
    by_cases hbit : mask % 2 = 0
    · have ih := @ih (mask / 2) (by omega)
      simp only [hbit, not_true, and_false, if_false, Bool.true_and, decide_true, ih]
      constructor
      · rintro ⟨k, hk, hmask⟩
        exact ⟨k + 1, by omega, by rw [pow_succ, pow_succ]; omega⟩
      · rintro ⟨_ | k, hk, hmask⟩
        · rw [pow_succ] at hmask
          omega
        · rw [pow_succ, pow_succ] at hmask
          exact ⟨k, by omega, by omega⟩
    · have hones : onesThenZeros bits (mask / 2) false = true ↔ mask / 2 = 2 ^ bits - 1 :=
        onesThenZeros_false_iff (by omega)
      simp only [hbit, false_and, if_false, decide_false, Bool.and_false, hones]
      constructor
      · intro hmask
        exact ⟨0, by omega, by rw [pow_succ]; omega⟩
      · rintro ⟨_ | k, hk, hmask⟩
        · rw [pow_succ] at hmask
          omega
        · have := Nat.pow_le_pow_right (by decide : 0 < 2) (by omega : k ≤ bits)
          rw [pow_succ, pow_succ] at hmask
          omega

theorem dot_notMem_toString (n : Nat) : ∀ c ∈ (toString n).toList, decide (c = '.') = false := by
  intro c hc
  have hdigit := (toDigits_spec (by omega : 1 < 10) (by omega) n).1 c (by simpa [toList_repr] using hc)
  rw [decide_eq_false_iff_not]
  rintro rfl
  simp [digitValue] at hdigit

/-- The test for a netmask is exact. -/
theorem validateIpv4Netmask_iff (inet : InetPton) (hinet : inet.Dotted) (netmask : String) (address : Nat)
    (h : inet.ipv4 netmask = some address) :
    validateIpv4Netmask inet netmask = true ↔ ∃ k ≤ 32, address = 2 ^ 32 - 2 ^ k := by
  have hvalid : validateIpv4 inet netmask = true := by simp [validateIpv4, h]
  obtain ⟨a, b, c, d, ha, hb, hc, hd, rfl, rfl⟩ := hinet netmask address h
  have hscan (n : Nat) (hn : n < 256) : Conversion.d32.scan (toString n) = some n :=
    scan_toString .d32 (by simp [Conversion.width]; omega) (by omega)
  have hmask : scanMask (toString a ++ "." ++ toString b ++ "." ++ toString c ++ "." ++ toString d) =
      a * 2 ^ 24 + b * 2 ^ 16 + c * 2 ^ 8 + d := by
    have hdot : ".".toList = ['.'] := rfl
    have hone (n : Nat) (rest : List Char) : ((toString n).toList ++ '.' :: rest).splitOnP (· = '.') =
        (toString n).toList :: rest.splitOnP (· = '.') :=
      List.splitOnP_append_cons_of_forall_mem (dot_notMem_toString n) '.' rfl rest
    simp only [scanMask, String.toList_append, hdot, List.append_assoc, List.cons_append, List.nil_append, hone,
      List.splitOnP_eq_singleton (dot_notMem_toString d), List.map_cons, List.map_nil, String.ofList_toList,
      hscan a ha, hscan b hb, hscan c hc, hscan d hd, Option.getD_some]
    simp
    omega
  rw [validateIpv4Netmask, hvalid, hmask, Bool.true_and, onesThenZeros_iff (by omega)]

/-- The netmask of a network with 16 bits. -/
theorem validateIpv4Netmask_iff_sixteen :
    let inet : InetPton := ⟨fun s => if s = "255.255.0.0" then some 4294901760 else none, fun _ => false⟩
    inet.Dotted ∧ (validateIpv4Netmask inet "255.255.0.0" = true ↔ ∃ k ≤ 32, 4294901760 = 2 ^ 32 - 2 ^ k) := by
  intro inet
  have hdotted : inet.Dotted := by
    intro ipAddress address h
    obtain ⟨rfl, haddress⟩ : ipAddress = "255.255.0.0" ∧ 4294901760 = address := by
      simpa [inet] using h
    exact ⟨255, 255, 0, 0, by decide, by decide, by decide, by decide, by decide, haddress.symm⟩
  exact ⟨hdotted, validateIpv4Netmask_iff inet hdotted _ _ rfl⟩

end UnOrchestrator.Parser
