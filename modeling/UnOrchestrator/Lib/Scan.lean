import UnOrchestrator.Lib.CString

/-!
# Reading numbers with `sscanf`

The signed integer conversions of `sscanf`: blanks and a sign are skipped, the longest
run of digits is read as a `long` that saturates, and the value is stored in a variable
of the conversion's width, which keeps its low bits. Characters after the number are
not looked at.

Against this stands what an integer numeral is (`numeral`): the whole string is an
optional sign with decimal digits, or with `0x` and hexadecimal digits. The conversions
read a numeral as its value except in two situations, which `Conversion.Reads` names:
a decimal conversion stops behind the `0` of `0x`, and `%i` takes a leading zero for
octal.
-/

namespace CString

/-! ## Digit strings -/

/-- The number that a list of digits denotes in a base. -/
def digitsValue (base : Nat) (digits : List Nat) : Nat :=
  digits.foldl (fun n d => n * base + d) 0

@[simp] theorem digitsValue_nil (base : Nat) : digitsValue base [] = 0 := rfl

@[simp] theorem digitsValue_concat (base : Nat) (digits : List Nat) (d : Nat) :
    digitsValue base (digits ++ [d]) = digitsValue base digits * base + d := by
  simp [digitsValue]

section

variable {base small : Nat} {cs : List Char} {s : String} {negative : Bool}

/-- A longer list of digits denotes at least what its front denotes, shifted, plus the first
digit behind it. -/
theorem le_digitsValue_append (hbase : 0 < base) (front : List Nat) (d : Nat) (rest : List Nat) :
    digitsValue base front * base + d ≤ digitsValue base (front ++ d :: rest) := by
  induction rest using List.reverseRecOn with
  | nil => rw [digitsValue_concat]
  | append_singleton rest e ih =>
    rw [← List.cons_append, ← List.append_assoc, digitsValue_concat]
    calc digitsValue base front * base + d
        ≤ digitsValue base (front ++ d :: rest) := ih
      _ ≤ digitsValue base (front ++ d :: rest) * base := Nat.le_mul_of_pos_right _ hbase
      _ ≤ _ := Nat.le_add_right _ e

theorem digitsValue_mono (h : small ≤ base) (digits : List Nat) :
    digitsValue small digits ≤ digitsValue base digits := by
  induction digits using List.reverseRecOn with
  | nil => exact le_rfl
  | append_singleton digits d ih =>
    rw [digitsValue_concat, digitsValue_concat]
    exact Nat.add_le_add_right (Nat.mul_le_mul ih h) d

/-- In a smaller base digits denote the same number only if the number is a single digit of
it. -/
theorem digitsValue_eq_iff (hlt : small < base) (digits : List Nat)
    (hdigits : ∀ d ∈ digits, d < small) (hsmall : 0 < small) :
    digitsValue small digits = digitsValue base digits ↔ digitsValue base digits < small := by
  rcases List.eq_nil_or_concat digits with rfl | ⟨front, d, rfl⟩
  · simpa using hsmall
  · have hd : d < small := hdigits d (by simp)
    have hle : digitsValue small front ≤ digitsValue base front := digitsValue_mono hlt.le front
    rw [List.concat_eq_append, digitsValue_concat, digitsValue_concat]
    generalize digitsValue small front = m at hle ⊢
    generalize digitsValue base front = n at hle ⊢
    rcases Nat.eq_zero_or_pos n with rfl | hn
    · obtain rfl : m = 0 := by omega
      simpa using hd
    · have hstrict : m * small < n * base := by
        calc m * small ≤ n * small := Nat.mul_le_mul_right small hle
          _ < n * base := Nat.mul_lt_mul_of_pos_left hlt hn
      have hlarge : base ≤ n * base := Nat.le_mul_of_pos_left base hn
      constructor
      · intro h
        omega
      · intro h
        omega

/-- The digits of one base that are read in a smaller one, up to the first that is none of
its, denote no larger number. -/
theorem digitsValue_takeWhile_le (hlt : small < base) (digits : List Nat) :
    digitsValue small (digits.takeWhile (· < small)) ≤ digitsValue base digits := by
  refine (digitsValue_mono hlt.le _).trans ?_
  conv_rhs => rw [← List.takeWhile_append_dropWhile (p := (· < small)) (l := digits)]
  cases digits.dropWhile (· < small) with
  | nil => rw [List.append_nil]
  | cons e rest =>
    refine le_trans ?_ (le_digitsValue_append (by omega : 0 < base) _ e rest)
    exact (Nat.le_mul_of_pos_right _ (by omega)).trans (Nat.le_add_right _ e)

/-- They denote the same number only if it is a single digit of the smaller base. -/
theorem digitsValue_takeWhile_eq_iff (hlt : small < base) (hsmall : 0 < small) (digits : List Nat) :
    digitsValue small (digits.takeWhile (· < small)) = digitsValue base digits ↔
      digitsValue base digits < small := by
  have hread : ∀ d ∈ digits.takeWhile (· < small), d < small := fun d hd => by
    simpa using List.mem_takeWhile_imp hd
  cases hrest : digits.dropWhile (· < small) with
  | nil =>
    have hall : digits.takeWhile (· < small) = digits := by
      conv_rhs => rw [← List.takeWhile_append_dropWhile (p := (· < small)) (l := digits), hrest]
      simp
    rw [hall]
    exact digitsValue_eq_iff hlt digits (hall ▸ hread) hsmall
  | cons e rest =>
    have he : ¬ e < small := by
      have hhead := List.head_dropWhile_not (· < small) (l := digits) (by rw [hrest]; simp)
      simpa [hrest] using hhead
    have hsplit : digits = digits.takeWhile (· < small) ++ e :: rest := by
      rw [← hrest, List.takeWhile_append_dropWhile]
    have hle := le_digitsValue_append (by omega : 0 < base) (digits.takeWhile (· < small)) e rest
    rw [← hsplit] at hle
    have hmono := digitsValue_mono hlt.le (digits.takeWhile (· < small))
    have hshift : digitsValue base (digits.takeWhile (· < small)) ≤
        digitsValue base (digits.takeWhile (· < small)) * base :=
      Nat.le_mul_of_pos_right _ (by omega)
    constructor
    · intro h
      omega
    · intro h
      omega

/-! ## Characters as digits -/

/-- A digit of one base is the same digit of another base that is large enough. -/
theorem digitValue_eq {c : Char} {d : Nat} (h : digitValue base c = some d) (base' : Nat) :
    digitValue base' c = if d < base' then some d else none := by
  have hnone (b : Nat) : (if b < b then some b else none) = none := if_neg (Nat.lt_irrefl b)
  unfold digitValue at h ⊢
  dsimp only at h ⊢
  split_ifs at h ⊢ <;> simp_all <;> omega

/-- Every character is a digit of the base. -/
def AllDigits (base : Nat) (cs : List Char) : Prop := ∀ c ∈ cs, (digitValue base c).isSome

instance (base : Nat) (cs : List Char) : Decidable (AllDigits base cs) :=
  List.decidableBAll (fun c => (digitValue base c).isSome = true) cs

/-- Reading digits in a smaller base stops at the first that is none of its. -/
theorem leadingDigits_of_allDigits (h : AllDigits base cs) :
    leadingDigits small cs = (leadingDigits base cs).takeWhile (· < small) := by
  induction cs with
  | nil => rfl
  | cons c cs ih =>
    obtain ⟨d, hd⟩ := Option.isSome_iff_exists.mp (h c List.mem_cons_self)
    have hrest := ih (fun e he => h e (List.mem_cons_of_mem c he))
    simp only [leadingDigits, hd, digitValue_eq hd small, List.takeWhile_cons,
      decide_eq_true_eq]
    by_cases hlt : d < small
    · simp only [if_pos hlt, hrest]
    · simp only [if_neg hlt]

theorem leadingDigits_ne_nil (h : AllDigits base cs) (hne : cs ≠ []) :
    leadingDigits base cs ≠ [] := by
  obtain ⟨c, cs, rfl⟩ := List.exists_cons_of_ne_nil hne
  obtain ⟨d, hd⟩ := Option.isSome_iff_exists.mp (h c List.mem_cons_self)
  simp [leadingDigits, hd]

/-! ## The conversions -/

/-- Whether a number is negative, and what follows its sign. -/
def splitSign : List Char → Bool × List Char
  | '-' :: cs => (true, cs)
  | '+' :: cs => (false, cs)
  | cs => (false, cs)

/-- The integer with a sign and an absolute value. -/
def signed (negative : Bool) (n : Nat) : Int := if negative then -n else n

/-- The base that `%i` finds in the digits. -/
def baseOf : List Char → Nat
  | '0' :: 'x' :: _ => 16
  | '0' :: 'X' :: _ => 16
  | '0' :: _ => 8
  | _ => 10

/-- The nearest value of type `long`. -/
def saturate (n : Int) : Int := max (-2 ^ 63) (min n (2 ^ 63 - 1))

/-- The number that a signed conversion reads; without a base it is the one of the digits.
`none` means that nothing was converted. -/
def scanSigned (base : Option Nat) (s : String) : Option Int :=
  let (negative, cs) := splitSign (s.toList.dropWhile isSpace)
  let base := base.getD (baseOf cs)
  match leadingDigits base (if base = 16 then dropHexMark cs else cs) with
  | [] => none
  | digits => some (saturate (signed negative (digitsValue base digits)))

end

/-- The signed conversions `SCNd16`, `SCNd32`, `SCNd64` and `SCNi32`. -/
inductive Conversion where
  | d16
  | d32
  | d64
  | i32
  deriving DecidableEq, Repr

/-- The width of the variable that a conversion writes. -/
def Conversion.width : Conversion → Nat
  | .d16 => 16
  | .d32 => 32
  | .d64 => 64
  | .i32 => 32

def Conversion.base : Conversion → Option Nat
  | .i32 => none
  | _ => some 10

variable {base small : Nat} {cs : List Char} {s : String} {negative : Bool}

/-- The value `sscanf` leaves in an unsigned variable of the conversion's width. -/
def Conversion.scan (c : Conversion) (s : String) : Option Nat :=
  (scanSigned c.base s).map fun v => (v % 2 ^ c.width).toNat

/-! ## Numerals -/

/-- The number that the whole of a list of characters denotes. -/
def wholeNumber (base : Nat) (cs : List Char) : Option Nat :=
  if cs ≠ [] ∧ AllDigits base cs then some (digitsValue base (leadingDigits base cs)) else none

/-- The characters behind a `0x`. -/
def afterHexMark : List Char → Option (List Char)
  | '0' :: 'x' :: cs => some cs
  | '0' :: 'X' :: cs => some cs
  | _ => none

/-- The value of an integer numeral: an optional sign with decimal digits, or with `0x` and
hexadecimal digits. -/
def numeral (s : String) : Option Int :=
  let (negative, cs) := splitSign s.toList
  (match afterHexMark cs with
    | some digits => wholeNumber 16 digits
    | none => wholeNumber 10 cs).map (signed negative)

/-- A numeral is written with `0x`. -/
def isHex (s : String) : Bool := (afterHexMark (splitSign s.toList).2).isSome

/-- The digits of a numeral start with a zero. -/
def leadingZero (s : String) : Bool := (splitSign s.toList).2.head? == some '0'

/-- The numerals that a conversion reads as their value: a decimal one does not see what
follows `0x`, and `%i` takes decimal digits behind a zero for octal ones. -/
def Conversion.Reads (c : Conversion) (s : String) (n : Int) : Prop :=
  match c with
  | .i32 => isHex s = true ∨ leadingZero s = false ∨ n < 8
  | _ => isHex s = false ∨ n = 0

theorem splitSign_cons (c : Char) (cs : List Char) :
    c = '-' ∨ c = '+' ∨ splitSign (c :: cs) = (false, c :: cs) := by
  unfold splitSign
  split
  · next heq => exact .inl (List.head_eq_of_cons_eq heq)
  · next heq => exact .inr (.inl (List.head_eq_of_cons_eq heq))
  · exact .inr (.inr rfl)

theorem eq_of_afterHexMark {digits : List Char} (h : afterHexMark cs = some digits) :
    cs = '0' :: 'x' :: digits ∨ cs = '0' :: 'X' :: digits := by
  unfold afterHexMark at h
  split at h
  · cases h
    exact .inl rfl
  · cases h
    exact .inr rfl
  · cases h

theorem baseOf_of_afterHexMark (h : afterHexMark cs = none) :
    baseOf cs = if cs.head? = some '0' then 8 else 10 := by
  unfold baseOf
  split
  · cases h
  · cases h
  · rfl
  · next hzero =>
    rw [if_neg]
    intro hhead
    obtain ⟨rest, rfl⟩ := List.head?_eq_some_iff.mp hhead
    exact hzero rest rfl

/-- A numeral does not start with a blank. -/
theorem dropWhile_isSpace_of_numeral {n : Int} (h : numeral s = some n) :
    s.toList.dropWhile isSpace = s.toList := by
  rw [List.dropWhile_eq_self_iff]
  intro hpos
  simp only [numeral, Option.map_eq_some_iff] at h
  obtain ⟨v, hv, -⟩ := h
  generalize s.toList = cs at hv hpos ⊢
  obtain ⟨c, cs, rfl⟩ := List.exists_cons_of_length_pos hpos
  rw [List.getElem_cons_zero, Bool.not_eq_true]
  rcases splitSign_cons c cs with rfl | rfl | hsplit
  · decide
  · decide
  · rw [hsplit] at hv
    cases hmark : afterHexMark (c :: cs) with
    | some digits =>
      rcases eq_of_afterHexMark hmark with heq | heq
      · cases heq; decide
      · cases heq; decide
    | none =>
      simp only [hmark, wholeNumber, Option.ite_none_right_eq_some] at hv
      exact not_isSpace_of_digit (hv.1.2 c List.mem_cons_self)

/-- A number no larger than one that fits is stored as it is. -/
theorem stored_eq (negative : Bool) (width : Nat) {v v' : Nat} (hle : v ≤ v')
    (hpos : 0 ≤ signed negative v') (hwidth : signed negative v' < 2 ^ width)
    (hlong : signed negative v' < 2 ^ 63) :
    (saturate (signed negative v) % 2 ^ width).toNat = v := by
  cases negative with
  | true =>
    simp only [signed, if_true] at *
    obtain rfl : v = 0 := by omega
    simp [saturate]
  | false =>
    simp only [signed, Bool.false_eq_true, if_false] at *
    have hsaturate : saturate v = v := by
      unfold saturate
      omega
    have hmod : ((v : Int) % 2 ^ width) = v :=
      Int.emod_eq_of_lt (by omega) (lt_of_le_of_lt (by exact_mod_cast hle) hwidth)
    rw [hsaturate, hmod, Int.toNat_natCast]

theorem toNat_signed {v : Nat} (h : 0 ≤ signed negative v) :
    (signed negative v).toNat = v := by
  cases negative with
  | true =>
    simp only [signed, if_true] at h ⊢
    omega
  | false => simp [signed]

/-- What is stored for a run of digits. -/
theorem scan_of_digits {c : Conversion}
    (hsplit : splitSign (s.toList.dropWhile isSpace) = (negative, cs)) (base : Nat)
    (hbase : c.base.getD (baseOf cs) = base) {digits : List Nat}
    (hdigits : leadingDigits base (if base = 16 then dropHexMark cs else cs) = digits)
    (hne : digits ≠ []) :
    c.scan s =
      some (saturate (signed negative (digitsValue base digits)) % 2 ^ c.width).toNat := by
  obtain ⟨d, ds, rfl⟩ := List.exists_cons_of_ne_nil hne
  simp only [Conversion.scan, scanSigned, hsplit, hbase, hdigits, Option.map_some]

/-- Behind a `0x`, a decimal conversion reads the zero and `%i` the number. -/
theorem scan_hex (c : Conversion) {digits : List Char}
    (hsplit : splitSign (s.toList.dropWhile isSpace) = (negative, cs))
    (hmark : afterHexMark cs = some digits) (hall : AllDigits 16 digits) (hne : digits ≠ []) :
    c.scan s = some (saturate (signed negative
      (if c = .i32 then digitsValue 16 (leadingDigits 16 digits) else 0)) % 2 ^ c.width).toNat := by
  have hdrop : dropHexMark cs = digits := by
    obtain ⟨d, ds, rfl⟩ := List.exists_cons_of_ne_nil hne
    have hd : (digitValue 16 d).isSome := hall d List.mem_cons_self
    rcases eq_of_afterHexMark hmark with rfl | rfl <;> simp [dropHexMark, hd]
  have hbase : baseOf cs = 16 := by
    rcases eq_of_afterHexMark hmark with rfl | rfl <;> rfl
  have hzero : leadingDigits 10 cs = [0] := by
    rcases eq_of_afterHexMark hmark with rfl | rfl <;> rfl
  cases c with
  | i32 =>
    rw [if_pos rfl]
    refine scan_of_digits hsplit 16 (by simpa [Conversion.base] using hbase) ?_
      (leadingDigits_ne_nil hall hne)
    rw [if_pos rfl, hdrop]
  | d16 | d32 | d64 =>
    have hread : leadingDigits 10 (if 10 = 16 then dropHexMark cs else cs) = [0] := by
      simpa using hzero
    rw [if_neg (by decide), scan_of_digits hsplit 10 rfl hread (by decide)]
    rfl

/-- Decimal digits are read as they are, except by `%i` behind a zero. -/
theorem scan_decimal (c : Conversion)
    (hsplit : splitSign (s.toList.dropWhile isSpace) = (negative, cs))
    (hmark : afterHexMark cs = none) (hall : AllDigits 10 cs) (hne : cs ≠ []) :
    c.scan s = some (saturate (signed negative
      (if c = .i32 ∧ cs.head? = some '0' then
        digitsValue 8 ((leadingDigits 10 cs).takeWhile (· < 8))
      else digitsValue 10 (leadingDigits 10 cs))) % 2 ^ c.width).toNat := by
  have hdigits := leadingDigits_ne_nil hall hne
  cases c with
  | i32 =>
    have hbase := baseOf_of_afterHexMark hmark
    by_cases hzero : cs.head? = some '0'
    · rw [if_pos hzero] at hbase
      rw [if_pos ⟨rfl, hzero⟩, ← leadingDigits_of_allDigits hall]
      refine scan_of_digits hsplit 8 (by simpa [Conversion.base] using hbase) rfl ?_
      obtain ⟨rest, rfl⟩ := List.head?_eq_some_iff.mp hzero
      exact List.cons_ne_nil _ _
    · rw [if_neg hzero] at hbase
      rw [if_neg (fun h => hzero h.2)]
      exact scan_of_digits hsplit 10 (by simpa [Conversion.base] using hbase) rfl hdigits
  | d16 | d32 | d64 =>
    rw [if_neg (fun h => nomatch h.1)]
    exact scan_of_digits hsplit 10 rfl rfl hdigits

/-- A numeral whose value fits is converted to no larger a number, and to its value exactly
when it is one that the conversion reads. -/
theorem exists_scan_of_numeral (c : Conversion) {n : Int} (h : numeral s = some n) (hpos : 0 ≤ n)
    (hwidth : n < 2 ^ c.width) (hlong : n < 2 ^ 63) :
    ∃ v ≤ n.toNat, c.scan s = some v ∧ (v = n.toNat ↔ c.Reads s n) := by
  have hblank := dropWhile_isSpace_of_numeral h
  obtain ⟨⟨negative, cs⟩, hsplit⟩ : ∃ p, splitSign s.toList = p := ⟨_, rfl⟩
  have hsplit' : splitSign (s.toList.dropWhile isSpace) = (negative, cs) := by rw [hblank, hsplit]
  simp only [numeral, hsplit, Option.map_eq_some_iff] at h
  obtain ⟨v', hv', rfl⟩ := h
  have hvalue : (signed negative v').toNat = v' := toNat_signed hpos
  -- hexadecimal or decimal digits
  cases hmark : afterHexMark cs with
  | some digits =>
    have hhex : isHex s = true := by simp [isHex, hsplit, hmark]
    simp only [hmark, wholeNumber, Option.ite_none_right_eq_some, Option.some.injEq] at hv'
    obtain ⟨⟨hne, hall⟩, rfl⟩ := hv'
    have hle : (if c = .i32 then digitsValue 16 (leadingDigits 16 digits) else 0) ≤
        digitsValue 16 (leadingDigits 16 digits) := by split <;> omega
    have hscan := scan_hex c hsplit' hmark hall hne
    rw [stored_eq negative c.width hle hpos hwidth hlong] at hscan
    refine ⟨_, hle.trans_eq hvalue.symm, hscan, ?_⟩
    rw [hvalue]
    cases c with
    | i32 => simp [Conversion.Reads, hhex]
    | d16 | d32 | d64 =>
      simp only [reduceCtorEq, if_false, Conversion.Reads, hhex, Bool.true_eq_false, false_or]
      omega
  | none =>
    have hhex : isHex s = false := by simp [isHex, hsplit, hmark]
    simp only [hmark, wholeNumber, Option.ite_none_right_eq_some, Option.some.injEq] at hv'
    obtain ⟨⟨hne, hall⟩, rfl⟩ := hv'
    have hoctal : digitsValue 8 ((leadingDigits 10 cs).takeWhile (· < 8)) =
        digitsValue 10 (leadingDigits 10 cs) ↔ digitsValue 10 (leadingDigits 10 cs) < 8 :=
      digitsValue_takeWhile_eq_iff (by omega) (by omega) _
    have hle : (if c = .i32 ∧ cs.head? = some '0' then
        digitsValue 8 ((leadingDigits 10 cs).takeWhile (· < 8))
        else digitsValue 10 (leadingDigits 10 cs)) ≤ digitsValue 10 (leadingDigits 10 cs) := by
      have := digitsValue_takeWhile_le (by omega : 8 < 10) (leadingDigits 10 cs)
      split <;> omega
    have hscan := scan_decimal c hsplit' hmark hall hne
    rw [stored_eq negative c.width hle hpos hwidth hlong] at hscan
    refine ⟨_, hle.trans_eq hvalue.symm, hscan, ?_⟩
    rw [hvalue]
    cases c with
    | i32 =>
      have hleading : leadingZero s = decide (cs.head? = some '0') := by
        simp [leadingZero, hsplit, Bool.beq_eq_decide_eq]
      simp only [true_and, Conversion.Reads, hhex, Bool.false_eq_true, false_or, hleading,
        decide_eq_false_iff_not]
      by_cases hzero : cs.head? = some '0'
      · rw [if_pos hzero, hoctal]
        simp only [hzero, not_true_eq_false, false_or]
        omega
      · simp [hzero]
    | d16 | d32 | d64 => simp [Conversion.Reads, hhex]

/-! ## Printed numbers -/

theorem digitValue_digitChar {d : Nat} (h : d < 16) (base : Nat) :
    digitValue base d.digitChar = if d < base then some d else none := by
  have hhex : ∀ d < 16, digitValue 16 d.digitChar = some d := by decide
  exact digitValue_eq (hhex d h) base

theorem leadingDigits_append {cs' : List Char} (h : AllDigits base cs) :
    leadingDigits base (cs ++ cs') = leadingDigits base cs ++ leadingDigits base cs' := by
  induction cs with
  | nil => rfl
  | cons c cs ih =>
    obtain ⟨d, hd⟩ := Option.isSome_iff_exists.mp (h c List.mem_cons_self)
    simp only [List.cons_append, leadingDigits, hd, ih fun e he => h e (List.mem_cons_of_mem c he)]

/-- What is printed in a base are digits of the base, and they denote the number. -/
theorem toDigits_spec (hone : 1 < base) (hbase : base ≤ 16) (n : Nat) :
    AllDigits base (Nat.toDigits base n) ∧
      digitsValue base (leadingDigits base (Nat.toDigits base n)) = n := by
  have hdigit (d : Nat) (hd : d < base) : digitValue base d.digitChar = some d := by
    rw [digitValue_digitChar (by omega), if_pos hd]
  induction n using Nat.strongRecOn with
  | ind n ih =>
    rw [Nat.toDigits_eq_if hone]
    by_cases hn : n < base
    · rw [if_pos hn]
      refine ⟨fun c hc => ?_, ?_⟩
      · rw [List.mem_singleton.mp hc, hdigit n hn, Option.isSome_some]
      · simp [leadingDigits, hdigit n hn, digitsValue]
    · rw [if_neg hn]
      obtain ⟨hall, hvalue⟩ := ih (n / base) (Nat.div_lt_self (by omega) hone)
      have hlast : n % base < base := Nat.mod_lt n (by omega)
      refine ⟨fun c hc => ?_, ?_⟩
      · rcases List.mem_append.mp hc with hc | hc
        · exact hall c hc
        · rw [List.mem_singleton.mp hc, hdigit _ hlast, Option.isSome_some]
      · rw [leadingDigits_append hall, leadingDigits, hdigit _ hlast]
        simp only [leadingDigits, digitsValue_concat, hvalue]
        exact Nat.div_add_mod' n base

theorem toDigits_ne_nil (hone : 1 < base) (n : Nat) : Nat.toDigits base n ≠ [] := by
  rw [Nat.toDigits_eq_if hone]
  split <;> simp

/-- Only zero is printed with a zero in front. -/
theorem eq_zero_of_head_toDigits (hone : 1 < base) (hbase : base ≤ 16) {n : Nat}
    (h : (Nat.toDigits base n).head? = some '0') : n = 0 := by
  induction n using Nat.strongRecOn with
  | ind n ih =>
    rw [Nat.toDigits_eq_if hone] at h
    by_cases hn : n < base
    · have hzero : ∀ d < 16, Nat.digitChar d = '0' → d = 0 := by decide
      rw [if_pos hn, List.head?_cons, Option.some.injEq] at h
      exact hzero n (by omega) h
    · rw [if_neg hn, List.head?_append_of_ne_nil _ (toDigits_ne_nil hone _)] at h
      have hquotient := ih (n / base) (Nat.div_lt_self (by omega) hone) h
      have := (Nat.div_eq_zero_iff.mp hquotient)
      omega

/-- What is printed has no sign and no `0x`. -/
theorem splitSign_of_allDigits (h : AllDigits base cs) :
    splitSign cs = (false, cs) := by
  cases cs with
  | nil => rfl
  | cons c cs =>
    have hc := h c List.mem_cons_self
    rcases splitSign_cons c cs with rfl | rfl | hsplit
    · simp [digitValue] at hc
    · simp [digitValue] at hc
    · exact hsplit

theorem afterHexMark_of_allDigits (h : AllDigits base cs) :
    afterHexMark cs = none := by
  cases hmark : afterHexMark cs with
  | none => rfl
  | some digits =>
    rcases eq_of_afterHexMark hmark with rfl | rfl
    · have := h 'x' (by simp)
      simp [digitValue] at this
    · have := h 'X' (by simp)
      simp [digitValue] at this

theorem numeral_toString (n : Nat) : numeral (toString n) = some (n : Int) := by
  obtain ⟨hall, hvalue⟩ := toDigits_spec (by omega : 1 < 10) (by omega) n
  have hlist : (toString n).toList = Nat.toDigits 10 n := toList_repr n
  simp only [numeral, hlist, splitSign_of_allDigits hall, afterHexMark_of_allDigits hall,
    wholeNumber, ne_eq, toDigits_ne_nil (by omega : 1 < 10), not_false_eq_true, hall, and_self,
    if_true, Option.map_some, hvalue]
  rfl

/-- A printed number that fits is read back. -/
theorem scan_toString (c : Conversion) {n : Nat} (hwidth : n < 2 ^ c.width) (hlong : n < 2 ^ 63) :
    c.scan (toString n) = some n := by
  have hall := (toDigits_spec (by omega : 1 < 10) (by omega) n).1
  have hlist : (toString n).toList = Nat.toDigits 10 n := toList_repr n
  have hreads : c.Reads (toString n) n := by
    have hhex : isHex (toString n) = false := by
      simp only [isHex, hlist, splitSign_of_allDigits hall, afterHexMark_of_allDigits hall,
        Option.isSome_none]
    cases c with
    | i32 =>
      refine .inr ?_
      cases hleading : leadingZero (toString n) with
      | false => exact .inl rfl
      | true =>
        simp only [leadingZero, hlist, splitSign_of_allDigits hall, beq_iff_eq] at hleading
        obtain rfl := eq_zero_of_head_toDigits (by omega) (by omega) hleading
        exact .inr (by decide)
    | d16 | d32 | d64 => exact .inl hhex
  obtain ⟨v, -, hscan, hv⟩ := exists_scan_of_numeral c (numeral_toString n) (by omega)
    (by exact_mod_cast hwidth) (by exact_mod_cast hlong)
  rw [hscan, hv.mpr hreads, Int.toNat_natCast]

/-- The text of a number in hexadecimal, without a `0x`. -/
def hexString (n : Nat) : String := String.ofList (Nat.toDigits 16 n)

theorem dropWhile_isSpace_of_allDigits (h : AllDigits base cs) :
    cs.dropWhile isSpace = cs := by
  rw [List.dropWhile_eq_self_iff]
  intro hpos
  rw [not_isSpace_of_digit (h _ (List.getElem_mem hpos))]
  exact Bool.false_ne_true

/-- A number printed in hexadecimal is read back by `%i` only if it is a decimal digit. -/
theorem scan_hexString_iff {n : Nat} (hn : n < 2 ^ 32) :
    Conversion.i32.scan (hexString n) = some n ↔ n < 10 := by
  obtain ⟨hall, hvalue⟩ := toDigits_spec (by omega : 1 < 16) (by omega) n
  rcases Nat.eq_zero_or_pos n with rfl | hpos
  · decide
  have hsplit : splitSign ((hexString n).toList.dropWhile isSpace) =
      (false, Nat.toDigits 16 n) := by
    rw [hexString, String.toList_ofList, dropWhile_isSpace_of_allDigits hall,
      splitSign_of_allDigits hall]
  have hbase : baseOf (Nat.toDigits 16 n) = 10 := by
    rw [baseOf_of_afterHexMark (afterHexMark_of_allDigits hall), if_neg]
    intro hzero
    have := eq_zero_of_head_toDigits (by omega) (by omega) hzero
    omega
  have hiff := digitsValue_takeWhile_eq_iff (by omega : 10 < 16) (by omega)
    (leadingDigits 16 (Nat.toDigits 16 n))
  have hle := digitsValue_takeWhile_le (by omega : 10 < 16)
    (leadingDigits 16 (Nat.toDigits 16 n))
  rw [hvalue] at hiff hle
  rw [← leadingDigits_of_allDigits hall] at hiff hle
  -- the first digit may be a letter, and then nothing is converted
  by_cases hdigits : leadingDigits 10 (Nat.toDigits 16 n) = []
  · have hnone : Conversion.i32.scan (hexString n) = none := by
      simp [Conversion.scan, scanSigned, hsplit, Conversion.base, hbase, hdigits]
    rw [hdigits, digitsValue_nil] at hiff
    rw [hnone, ← hiff]
    simp only [reduceCtorEq, false_iff]
    omega
  · have hstored := stored_eq false Conversion.i32.width hle (by simp [signed])
      (by simp only [signed, Bool.false_eq_true, if_false]; exact_mod_cast hn)
      (by simp only [signed, Bool.false_eq_true, if_false]; omega)
    rw [scan_of_digits hsplit 10 (by simpa [Conversion.base] using hbase) rfl hdigits,
      if_neg (by decide), hstored, Option.some.injEq, hiff]

end CString
