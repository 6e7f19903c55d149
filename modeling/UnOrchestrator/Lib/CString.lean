import Mathlib

/-!
# C strings

The fragments of the C string library that identifier handling relies on: the
tokens `strtok` yields for one delimiter, and the number `sscanf` stores for an
unsigned conversion. Identifiers are also built by joining two parts with a
separator; the second half of the module says when such a join can be undone.

Buffers and their lifetimes are not part of these definitions: a string is the
value it holds.
-/

namespace CString

/-- The tokens of the remaining characters, given the (reversed) token read so far. -/
def tokensFrom (delimiter : Char) : List Char → List Char → List (List Char)
  | [], current => if current.isEmpty then [] else [current.reverse]
  | c :: cs, current =>
    if c = delimiter then
      if current.isEmpty then tokensFrom delimiter cs []
      else current.reverse :: tokensFrom delimiter cs []
    else tokensFrom delimiter cs (c :: current)

/-- The tokens that repeated calls of `strtok` return: the maximal non-empty runs of
characters other than the delimiter. -/
def strtok (delimiter : Char) (s : String) : List String :=
  (tokensFrom delimiter s.toList []).map String.ofList

/-- A delimiter ends the token in front of it. -/
theorem tokensFrom_append (delimiter : Char) (as bs current : List Char) :
    tokensFrom delimiter (as ++ delimiter :: bs) current =
      tokensFrom delimiter as current ++ tokensFrom delimiter bs [] := by
  induction as generalizing current with
  | nil =>
    by_cases hempty : current.isEmpty <;> simp [tokensFrom, hempty]
  | cons a as ih =>
    by_cases ha : a = delimiter
    · by_cases hempty : current.isEmpty <;> simp [tokensFrom, ha, hempty, ih]
    · simp [tokensFrom, ha, ih]

variable {delimiter : Char} {s : String}

theorem tokensFrom_of_notMem {cs : List Char} (h : delimiter ∉ cs) (current : List Char) :
    tokensFrom delimiter cs current =
      if current = [] ∧ cs = [] then [] else [current.reverse ++ cs] := by
  induction cs generalizing current with
  | nil => by_cases hempty : current = [] <;> simp [tokensFrom, hempty]
  | cons c cs ih =>
    rw [List.mem_cons, not_or] at h
    rw [tokensFrom, if_neg (Ne.symm h.1), ih h.2]
    simp

/-- A token is not empty, and has no delimiter in it. -/
theorem mem_tokensFrom {cs current token : List Char} (hcurrent : delimiter ∉ current)
    (h : token ∈ tokensFrom delimiter cs current) :
    token ≠ [] ∧ delimiter ∉ token := by
  have hended {current : List Char} (hcurrent : delimiter ∉ current)
      (hnonempty : ¬ current.isEmpty) :
      current.reverse ≠ [] ∧ delimiter ∉ current.reverse := by
    simp only [List.isEmpty_iff] at hnonempty
    simp [hnonempty, hcurrent]
  induction cs generalizing current with
  | nil =>
    rw [tokensFrom] at h
    split at h
    · cases h
    · next hnonempty =>
      obtain rfl := List.mem_singleton.mp h
      exact hended hcurrent hnonempty
  | cons c cs ih =>
    rw [tokensFrom] at h
    split at h
    · split at h
      · exact ih List.not_mem_nil h
      · next hnonempty =>
        rcases List.mem_cons.mp h with rfl | h
        · exact hended hcurrent hnonempty
        · exact ih List.not_mem_nil h
    · next hc =>
      refine ih ?_ h
      rw [List.mem_cons, not_or]
      exact ⟨Ne.symm hc, hcurrent⟩

/-- The tokens of two strings with a delimiter between them. -/
theorem strtok_of_toList_eq {a b : String} (h : s.toList = a.toList ++ delimiter :: b.toList) :
    strtok delimiter s = strtok delimiter a ++ strtok delimiter b := by
  rw [strtok, h, tokensFrom_append, List.map_append]
  rfl

theorem mem_strtok {token : String} (h : token ∈ strtok delimiter s) :
    token ≠ "" ∧ delimiter ∉ token.toList := by
  obtain ⟨cs, hcs, rfl⟩ := List.mem_map.mp h
  obtain ⟨hnonempty, hdelimiter⟩ := mem_tokensFrom List.not_mem_nil hcs
  rw [String.toList_ofList]
  refine ⟨fun hempty => hnonempty ?_, hdelimiter⟩
  rw [← String.toList_ofList (l := cs), hempty]
  rfl

/-- The strings that are one token. -/
theorem strtok_eq_self_iff :
    strtok delimiter s = [s] ↔ s ≠ "" ∧ delimiter ∉ s.toList := by
  constructor
  · intro h
    exact mem_strtok (h ▸ List.mem_singleton_self s : s ∈ strtok delimiter s)
  · rintro ⟨hnonempty, hdelimiter⟩
    rw [strtok, tokensFrom_of_notMem hdelimiter]
    simp [hnonempty]

/-- The value of a digit in a base, if it is one. -/
def digitValue (base : Nat) (c : Char) : Option Nat :=
  let v :=
    if '0' ≤ c ∧ c ≤ '9' then c.toNat - '0'.toNat
    else if 'a' ≤ c ∧ c ≤ 'f' then c.toNat - 'a'.toNat + 10
    else if 'A' ≤ c ∧ c ≤ 'F' then c.toNat - 'A'.toNat + 10
    else base
  if v < base then some v else none

/-- The digits at the front of a string. -/
def leadingDigits (base : Nat) : List Char → List Nat
  | [] => []
  | c :: cs =>
    match digitValue base c with
    | some d => d :: leadingDigits base cs
    | none => []

/-- The `0x` that a hexadecimal conversion accepts before its first digit. -/
def dropHexMark : List Char → List Char
  | '0' :: 'x' :: c :: cs => if (digitValue 16 c).isSome then c :: cs else '0' :: 'x' :: c :: cs
  | '0' :: 'X' :: c :: cs => if (digitValue 16 c).isSome then c :: cs else '0' :: 'X' :: c :: cs
  | cs => cs

/-- `isspace` in the C locale. -/
def isSpace (c : Char) : Bool := [' ', '\t', '\n', '\x0b', '\x0c', '\r'].contains c

theorem not_isSpace_of_digit {base : Nat} {c : Char} (h : (digitValue base c).isSome) :
    isSpace c = false := by
  by_contra hspace
  simp only [isSpace, Bool.not_eq_false, List.contains_iff_mem, List.mem_cons, List.not_mem_nil,
    or_false] at hspace
  rcases hspace with rfl | rfl | rfl | rfl | rfl | rfl <;> simp [digitValue] at h

/-- The value `sscanf` stores for an unsigned conversion (`%u` in base 10, `%x` in base 16):
blanks and a sign may come first, the number is read as a 64-bit one that saturates, and
its low 32 bits are stored. `none` means that nothing was converted. -/
def scanUnsigned (base : Nat) (s : String) : Option Nat :=
  let cs := s.toList.dropWhile isSpace
  let negative := cs.head? = some '-'
  let cs := if cs.head? = some '-' ∨ cs.head? = some '+' then cs.tail else cs
  let cs := if base = 16 then dropHexMark cs else cs
  match leadingDigits base cs with
  | [] => none
  | d :: ds =>
    let v := (d :: ds).foldl (fun n d => n * base + d) 0
    let wide := if v < 2 ^ 64 then (if negative then (2 ^ 64 - v) % 2 ^ 64 else v) else 2 ^ 64 - 1
    some (wide % 2 ^ 32)

theorem scanUnsigned_lt {base : Nat} {n : Nat} (h : scanUnsigned base s = some n) :
    n < 2 ^ 32 := by
  simp only [scanUnsigned] at h
  split at h
  · cases h
  · rw [Option.some.injEq] at h
    rw [← h]
    exact Nat.mod_lt _ (by decide)

/-! ## Joining identifiers -/

/-- Two equal joins put one left part, with its separator, in front of the other. -/
theorem join_eq_prefix {sep : Char} {a b x y : List Char}
    (h : a ++ sep :: x = b ++ sep :: y) :
    (a ++ [sep]) <+: (b ++ [sep]) ∨ (b ++ [sep]) <+: (a ++ [sep]) := by
  have ha : (a ++ [sep]) <+: a ++ sep :: x := ⟨x, by simp⟩
  have hb : (b ++ [sep]) <+: a ++ sep :: x := ⟨y, by simp [h]⟩
  exact List.prefix_or_prefix_of_prefix ha hb

/-- A join can be undone when the separator does not occur in the right parts. -/
theorem join_injective {sep : Char} {a b x y : List Char} (hx : sep ∉ x) (hy : sep ∉ y)
    (h : a ++ sep :: x = b ++ sep :: y) : a = b ∧ x = y := by
  induction a generalizing b with
  | nil =>
    cases b with
    | nil => simpa using h
    | cons c b =>
      simp only [List.nil_append, List.cons_append, List.cons.injEq] at h
      exact absurd (h.2 ▸ List.mem_append_right b List.mem_cons_self) hx
  | cons c a ih =>
    cases b with
    | nil =>
      simp only [List.nil_append, List.cons_append, List.cons.injEq] at h
      exact absurd (h.2 ▸ List.mem_append_right a List.mem_cons_self) hy
    | cons d b =>
      simp only [List.cons_append, List.cons.injEq] at h
      obtain ⟨rfl, hrest⟩ := h
      obtain ⟨rfl, rfl⟩ := ih hrest
      exact ⟨rfl, rfl⟩

theorem toList_repr (n : Nat) : n.repr.toList = Nat.toDigits 10 n := by
  rw [Nat.repr_eq_ofList_toDigits, String.toList_ofList]

theorem toList_toString_negSucc (n : Nat) :
    (toString (Int.negSucc n)).toList = '-' :: Nat.toDigits 10 (n + 1) := by
  rw [show toString (Int.negSucc n) = "-" ++ (n + 1).repr from rfl, String.toList_append,
    toList_repr]
  rfl

theorem toList_toString_ofNat (n : Nat) :
    (toString (Int.ofNat n)).toList = Nat.toDigits 10 n :=
  toList_repr n

/-- No decimal rendering of an integer contains an underscore. -/
theorem underscore_notMem_toString (n : Int) : '_' ∉ (toString n).toList := by
  cases n with
  | ofNat n =>
    rw [toList_toString_ofNat]
    exact fun h => Nat.underscore_not_in_toDigits h
  | negSucc n =>
    rw [toList_toString_negSucc, List.mem_cons]
    rintro (h | h)
    · exact absurd h (by decide)
    · exact Nat.underscore_not_in_toDigits h

/-- Distinct integers have distinct decimal renderings. -/
theorem toString_int_injective : Function.Injective (toString : Int → String) := by
  have minus_notMem (n : Nat) : '-' ∉ Nat.toDigits 10 n := fun h =>
    absurd (Nat.isDigit_of_mem_toDigits (by decide) (by decide) h) (by decide)
  intro m n h
  have hl : (toString m).toList = (toString n).toList := congrArg String.toList h
  cases m with
  | ofNat m =>
    cases n with
    | ofNat n => exact congrArg Int.ofNat (Nat.repr_inj.mp h)
    | negSucc n =>
      rw [toList_toString_ofNat, toList_toString_negSucc] at hl
      exact absurd (hl ▸ List.mem_cons_self) (minus_notMem m)
  | negSucc m =>
    cases n with
    | ofNat n =>
      rw [toList_toString_ofNat, toList_toString_negSucc] at hl
      exact absurd (hl ▸ List.mem_cons_self) (minus_notMem n)
    | negSucc n =>
      rw [toList_toString_negSucc, toList_toString_negSucc, List.cons.injEq, ← toList_repr,
        ← toList_repr, String.toList_inj, Nat.repr_inj] at hl
      exact congrArg Int.negSucc (Nat.succ_injective hl.2)

/-- A name with a number appended behind an underscore determines both. -/
theorem joinNumber_inj {a b : String} {m n : Int} :
    a ++ "_" ++ toString m = b ++ "_" ++ toString n ↔ a = b ∧ m = n := by
  refine ⟨fun h => ?_, fun ⟨ha, hm⟩ => by rw [ha, hm]⟩
  have hl : a.toList ++ '_' :: (toString m).toList = b.toList ++ '_' :: (toString n).toList := by
    simpa [String.toList_append] using congrArg String.toList h
  obtain ⟨ha, hm⟩ :=
    join_injective (underscore_notMem_toString m) (underscore_notMem_toString n) hl
  exact ⟨String.toList_inj.mp ha, toString_int_injective (String.toList_inj.mp hm)⟩

end CString
