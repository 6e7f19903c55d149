import UnOrchestrator.Parser.Match

/-!
# Numeric fields of a match

Eighteen keys of a match are numbers. The parser reads each with `sscanf` and compares
the result with a limit of its own; the specification is that the text is an integer
numeral, that its value fits the OpenFlow field, and that this value is what is stored.

The code falls short of it in several ways. The conversions read a number at the front of
the text and ignore the rest, cut it to the width of a variable, and do not all know `0x`;
the limits of the smaller fields are those of their C types; and the test on `vlan_id`
joins its two halves with the wrong operator, so that it rejects nothing.
`numericField_validated_iff` says for which texts nothing goes wrong.
-/

namespace UnOrchestrator.Parser

open Highlevel CString

/-- What there is to know about a numeric key: how it is read, the largest value that the code lets
pass, the largest value of the OpenFlow field, and where the value is stored. -/
structure NumericField where
  conversion : Conversion
  limit : Nat
  bound : Nat
  stored : Graph.Match → Option Nat

/-- The numeric keys. A transport port that was not given is stored as zero, and a `vlan_id` is any
value of the variable that it is read into. -/
def MatchKey.numericField : MatchKey → Option NumericField
  | .etherType => some ⟨.i32, 65535, 2 ^ 16 - 1, fun m => m.ethType.map UInt16.toNat⟩
  | .vlanId => some ⟨.i32, 2 ^ 32 - 1, 4094, fun m => if m.isVlanID then some m.vlanID.toNat else none⟩
  | .vlanPcp => some ⟨.d16, 255, 7, fun m => m.vlanPCP.map UInt8.toNat⟩
  | .ipDscp => some ⟨.d16, 255, 63, fun m => m.ipDSCP.map UInt8.toNat⟩
  | .ipEcn => some ⟨.d16, 255, 3, fun m => m.ipECN.map UInt8.toNat⟩
  | .protocol => some ⟨.d16, 255, 2 ^ 8 - 1, fun m => m.ipProto.map UInt8.toNat⟩
  | .sourcePort | .sctpSrc => some ⟨.d32, 65535, 2 ^ 16 - 1, fun m => some m.transportSrcPort.toNat⟩
  | .destPort | .sctpDst => some ⟨.d32, 65535, 2 ^ 16 - 1, fun m => some m.transportDstPort.toNat⟩
  | .icmpv4Type => some ⟨.d16, 255, 2 ^ 8 - 1, fun m => m.icmpv4Type.map UInt8.toNat⟩
  | .icmpv4Code => some ⟨.d16, 255, 2 ^ 8 - 1, fun m => m.icmpv4Code.map UInt8.toNat⟩
  | .icmpv6Type => some ⟨.d16, 255, 2 ^ 8 - 1, fun m => m.icmpv6Type.map UInt8.toNat⟩
  | .icmpv6Code => some ⟨.d16, 255, 2 ^ 8 - 1, fun m => m.icmpv6Code.map UInt8.toNat⟩
  | .arpOpcode => some ⟨.d32, 65535, 2 ^ 16 - 1, fun m => m.arpOpcode.map UInt16.toNat⟩
  | .ipv6Flabel => some ⟨.d64, 4294967295, 2 ^ 20 - 1, fun m => m.ipv6Flabel.map UInt32.toNat⟩
  | .mplsLabel => some ⟨.d64, 1048575, 2 ^ 20 - 1, fun m => m.mplsLabel.map UInt32.toNat⟩
  | .mplsTc => some ⟨.d16, 255, 7, fun m => m.mplsTC.map UInt8.toNat⟩
  | _ => none

/-- The key that is read later into the same field. -/
def MatchKey.overriding : MatchKey → Option MatchKey
  | .sctpSrc => some .sourcePort
  | .destPort => some .sctpDst
  | _ => none

/-- The text is a numeral that fits the field, and its value is stored. -/
def NumericField.Stores (field : NumericField) (s : String) (m : Graph.Match) : Prop :=
  ∃ n : Int, numeral s = some n ∧ 0 ≤ n ∧ n ≤ field.bound ∧ field.stored m = some n.toNat

/-- The specification for a text that an object gives to a key: it is read without undefined
behaviour, and the object is accepted only if the text is stored as it should be. -/
def Validated (inet : InetPton) (tables : EndPointTables) (object : Json.Object)
    (action : Option Action) (key : MatchKey) (field : NumericField) (s : String) : Prop :=
  (∀ why, key.read inet s ≠ .error (.abort why)) ∧
    ∀ m a, parseMatch inet tables object action = .ok (m, a) → field.Stores s m.toMatch

/-- The checks of a key let the text pass: a number is scanned from it, which is within the limit. -/
def NumericField.Passes (field : NumericField) (s : String) : Prop :=
  ∃ v, field.conversion.scan s = some v ∧ v ≤ field.limit

/-- The object is accepted, the text of one key apart: every other member is one of the known keys with
a text that the key accepts, and there is an input. -/
structure OthersAccepted (inet : InetPton) (tables : EndPointTables) (object : Json.Object)
    (action : Option Action) (key : MatchKey) : Prop where
  members : ∀ name v, object[name]? = some v → name ≠ key.name →
    ∃ k text, k.name = name ∧ v = .str text ∧ Accepts inet tables action k text
  input : (inputOf tables fun k => object[k]?).isSome

/-- The texts that slip through the checks: those that are no numerals, such as a number with blanks in
front or other characters behind it; numerals out of the range of the field; and numerals that are
written in a way that the conversion does not read, or, under a key that another one overrides, whose
value is not the one that is read from the other. -/
def NumericField.Slips (field : NumericField) (object : Json.Object) (key : MatchKey) (s : String) : Prop :=
  field.Passes s ∧
    match numeral s with
    | none => True
    | some n => n < 0 ∨ field.bound < n ∨
      match key.overriding.bind (textOf fun k => object[k]?) with
      | none => ¬ field.conversion.Reads s n
      | some s' => field.conversion.scan s' ≠ some n.toNat

variable {inet : InetPton} {tables : EndPointTables} {action : Option Action} {key : MatchKey}
  {field : NumericField} {s : String} {text : MatchKey → Option String}

section

variable (h : key.numericField = some field)

include h

/-- The numbers that fit a field fit the variable they are read into, and those of a VLAN
identifier the variable they are stored in. -/
theorem MatchKey.bound_lt :
    field.bound < 2 ^ field.conversion.width ∧ field.bound < 2 ^ 63 ∧
      (key = .vlanId → field.bound < 2 ^ 16) := by
  cases key <;> cases h <;> decide

/-- The text that decides what is stored: the one of the key read last. -/
def decisive (text : MatchKey → Option String) (key : MatchKey) : Option String :=
  key.overriding.bind text <|> text key

/-- What is stored for a key whose text is accepted, is what was scanned, of which a VLAN
identifier keeps 16 bits. -/
theorem stored_headerOf
    (haccepts : ∀ k s, text k = some s → k ≠ .portIn → ∃ set, k.read inet s = .ok set)
    (htext : text key = some s) (hspecial : key = .vlanId → s ≠ "ANY" ∧ s ≠ "NO_VLAN")
    (tag : Option UInt16) :
    ∃ s' v, decisive text key = some s' ∧ field.conversion.scan s' = some v ∧
      field.stored (headerOf tag text) = some (if key = .vlanId then v % 2 ^ 16 else v) := by
  obtain ⟨set, hset⟩ := haccepts key s htext (by rintro rfl; cases h)
  have hnumber {c : Conversion} {limit : Nat} {write : Nat → Graph.Match → Graph.Match}
      {f : Graph.Match → Graph.Match} {t : String} (hread : numeric c limit write t = .ok f) :
      ∃ v, c.scan t = some v ∧ v ≤ limit := by
    obtain ⟨v, hv, hle, -⟩ := numeric_eq_ok.mp hread
    exact ⟨v, hv, hle⟩
  cases key with
  | vlanPcp | ipDscp | ipEcn | protocol | icmpv4Type | icmpv4Code | icmpv6Type | icmpv6Code
    | mplsTc =>
    cases h
    obtain ⟨v, hv, hle⟩ := hnumber hset
    have hmod : v % 256 = v := by omega
    refine ⟨s, v, ?_, hv, ?_⟩
    · simp [decisive, MatchKey.overriding, htext]
    · simp [headerOf, htext, hv, hmod]
  | etherType | arpOpcode | sourcePort | sctpDst =>
    cases h
    obtain ⟨v, hv, hle⟩ := hnumber hset
    have hmod : v % 65536 = v := by omega
    refine ⟨s, v, ?_, hv, ?_⟩
    · simp [decisive, MatchKey.overriding, htext]
    · simp [headerOf, htext, hv, hmod]
  | ipv6Flabel | mplsLabel =>
    cases h
    obtain ⟨v, hv, hle⟩ := hnumber hset
    have hmod : v % 4294967296 = v := by omega
    refine ⟨s, v, ?_, hv, ?_⟩
    · simp [decisive, MatchKey.overriding, htext]
    · simp [headerOf, htext, hv, hmod]
  | sctpSrc =>
    cases h
    cases hother : text .sourcePort with
    | none =>
      obtain ⟨v, hv, hle⟩ := hnumber hset
      have hmod : v % 65536 = v := by omega
      refine ⟨s, v, ?_, hv, ?_⟩
      · simp [decisive, MatchKey.overriding, htext, hother]
      · simp [headerOf, htext, hother, hv, hmod]
    | some s' =>
      obtain ⟨set', hset'⟩ := haccepts .sourcePort s' hother (by decide)
      obtain ⟨v, hv, hle⟩ := hnumber hset'
      have hmod : v % 65536 = v := by omega
      refine ⟨s', v, ?_, hv, ?_⟩
      · simp [decisive, MatchKey.overriding, hother]
      · simp [headerOf, hother, hv, hmod]
  | destPort =>
    cases h
    cases hother : text .sctpDst with
    | none =>
      obtain ⟨v, hv, hle⟩ := hnumber hset
      have hmod : v % 65536 = v := by omega
      refine ⟨s, v, ?_, hv, ?_⟩
      · simp [decisive, MatchKey.overriding, htext, hother]
      · simp [headerOf, htext, hother, hv, hmod]
    | some s' =>
      obtain ⟨set', hset'⟩ := haccepts .sctpDst s' hother (by decide)
      obtain ⟨v, hv, hle⟩ := hnumber hset'
      have hmod : v % 65536 = v := by omega
      refine ⟨s', v, ?_, hv, ?_⟩
      · simp [decisive, MatchKey.overriding, hother]
      · simp [headerOf, hother, hv, hmod]
  | vlanId =>
    cases h
    obtain ⟨hany, hno⟩ := hspecial rfl
    rw [MatchKey.read, readVlanID, if_neg hany, if_neg hno] at hset
    cases hv : Conversion.i32.scan s with
    | none => simp [hv] at hset
    | some v =>
      refine ⟨s, v, ?_, hv, ?_⟩
      · simp [decisive, MatchKey.overriding, htext]
      · simp [headerOf, htext, Option.filter_some, hany, hno, hv]
  | _ => cases h

/-- A text is stored as specified exactly when it reads faithfully. -/
theorem stores_headerOf_iff
    (haccepts : ∀ k s, text k = some s → k ≠ .portIn → ∃ set, k.read inet s = .ok set)
    (htext : text key = some s) (hspecial : key = .vlanId → s ≠ "ANY" ∧ s ≠ "NO_VLAN")
    (tag : Option UInt16) :
    field.Stores s (headerOf tag text) ↔
      ∃ n : Int, numeral s = some n ∧ 0 ≤ n ∧ n ≤ field.bound ∧
        match key.overriding.bind text with
        | none => field.conversion.Reads s n
        | some s' => field.conversion.scan s' = some n.toNat := by
  obtain ⟨s', v, hdecisive, hscan, hstored⟩ := stored_headerOf h haccepts htext hspecial tag
  obtain ⟨hwidth, hlong, hvlan⟩ := MatchKey.bound_lt h
  refine exists_congr fun n => and_congr_right fun hn => and_congr_right fun hpos =>
    and_congr_right fun hbound => ?_
  rw [hstored, Option.some.injEq]
  cases hother : key.overriding.bind text with
  | some s'' =>
    -- the other key decides, and neither of the two is `vlan_id`
    obtain rfl : s'' = s' := by simpa [decisive, hother] using hdecisive
    have hne : key ≠ .vlanId := by rintro rfl; cases hother
    simp only [if_neg hne, hscan, Option.some.injEq]
  | none =>
    obtain rfl : s = s' := by simpa [decisive, hother, htext] using hdecisive
    obtain ⟨v', hle, hscan', hreads⟩ := exists_scan_of_numeral field.conversion hn hpos
      (lt_of_le_of_lt hbound (by exact_mod_cast hwidth))
      (lt_of_le_of_lt hbound (by exact_mod_cast hlong))
    obtain rfl : v = v' := Option.mem_unique hscan hscan'
    rw [← hreads]
    by_cases hkey : key = .vlanId
    · have hsmall := hvlan hkey
      rw [if_pos hkey, Nat.mod_eq_of_lt (by omega)]
    · rw [if_neg hkey]

/-- Only a `vlan_id` that is no number is read with undefined behaviour. -/
theorem read_ne_abort_iff
    (hspecial : key = .vlanId → s ≠ "ANY" ∧ s ≠ "NO_VLAN") :
    (∀ why, key.read inet s ≠ .error (.abort why)) ↔
      (key = .vlanId → (Conversion.i32.scan s).isSome) := by
  have hnumeric (c : Conversion) (limit : Nat) (set : Nat → Graph.Match → Graph.Match)
      (why : Abort) : numeric c limit set s ≠ .error (.abort why) := by
    unfold numeric
    cases c.scan s with
    | none => simp
    | some v => by_cases hlimit : limit < v <;> simp [hlimit]
  by_cases hkey : key = .vlanId
  · subst hkey
    obtain ⟨hany, hno⟩ := hspecial rfl
    rw [MatchKey.read, readVlanID, if_neg hany, if_neg hno]
    cases hscan : Conversion.i32.scan s with
    | none => simp
    | some v => simp
  · simp only [hkey, false_implies, iff_true]
    intro why
    cases key <;> first | exact absurd rfl hkey | cases h <;> exact hnumeric _ _ _ why

/-- The texts that a numeric key accepts. -/
theorem read_returns_iff (hspecial : key = .vlanId → s ≠ "ANY" ∧ s ≠ "NO_VLAN") :
    (∃ set, key.read inet s = .ok set) ↔ field.Passes s := by
  have hnumeric (c : Conversion) (limit : Nat) (write : Nat → Graph.Match → Graph.Match) :
      (∃ set, numeric c limit write s = .ok set) ↔ ∃ v, c.scan s = some v ∧ v ≤ limit := by
    simp only [numeric_eq_ok]
    exact ⟨fun ⟨_, v, hv, hle, _⟩ => ⟨v, hv, hle⟩, fun ⟨v, hv, hle⟩ => ⟨_, v, hv, hle, rfl⟩⟩
  by_cases hkey : key = .vlanId
  · subst hkey
    cases h
    obtain ⟨hany, hno⟩ := hspecial rfl
    rw [MatchKey.read, readVlanID, if_neg hany, if_neg hno]
    constructor
    · rintro ⟨set, hset⟩
      cases hscan : Conversion.i32.scan s with
      | none => simp [hscan] at hset
      | some v =>
        obtain ⟨n, -, rfl⟩ := Option.map_eq_some_iff.mp hscan
        exact ⟨_, hscan, by simp only [Conversion.width]; omega⟩
    · rintro ⟨v, hscan, -⟩
      rw [hscan]
      exact ⟨_, rfl⟩
  · cases key <;> first | exact absurd rfl hkey | cases h <;> exact hnumeric _ _ _

/-- Whether an object is accepted, from the text of one key and the rest. -/
theorem parseMatch_returns_iff {object : Json.Object} (htext : object[key.name]? = some (.str s))
    (hspecial : key = .vlanId → s ≠ "ANY" ∧ s ≠ "NO_VLAN") :
    (∃ r, parseMatch inet tables object action = .ok r) ↔
      OthersAccepted inet tables object action key ∧ field.Passes s := by
  have hkey : key ≠ .portIn := by
    rintro rfl
    cases h
  have hread : Accepts inet tables action key s ↔ field.Passes s :=
    (accepts_of_ne hkey s).trans (read_returns_iff h hspecial)
  rw [← hread]
  constructor
  · rintro ⟨⟨m, a⟩, hparse⟩
    obtain ⟨hvalid, input, hinput, -⟩ := parseMatch_eq_ok_iff.mp hparse
    exact ⟨⟨fun name v hv _ => hvalid name v hv, by simp [hinput]⟩,
      accepts_of_valid hvalid (textOf_eq_some.mpr htext)⟩
  · rintro ⟨hothers, haccepts⟩
    obtain ⟨input, hinput⟩ := Option.isSome_iff_exists.mp hothers.input
    refine ⟨⟨_, _⟩, parseMatch_eq_ok_iff.mpr ⟨fun name v hv => ?_, input, hinput, rfl, rfl⟩⟩
    by_cases hname : name = key.name
    · subst hname
      rw [htext] at hv
      exact ⟨key, s, rfl, (Option.some.inj hv).symm, haccepts⟩
    · exact hothers.members name v hv hname

/-- A numeric text of an object is validated and stored as specified exactly when it is read
without undefined behaviour and, where the rest of the object is accepted, does not slip through. -/
theorem numericField_validated_iff {object : Json.Object}
    (htext : object[key.name]? = some (.str s))
    (hspecial : key = .vlanId → s ≠ "ANY" ∧ s ≠ "NO_VLAN") :
    Validated inet tables object action key field s ↔
      (key = .vlanId → (Conversion.i32.scan s).isSome) ∧
        (OthersAccepted inet tables object action key → ¬ field.Slips object key s) := by
  rw [Validated, read_ne_abort_iff h hspecial]
  refine and_congr_right fun _ => ?_
  have hstores {m : Highlevel.Match} {a : Option Action}
      (hparse : parseMatch inet tables object action = .ok (m, a)) :
      field.Stores s m.toMatch ↔ ¬ field.Slips object key s := by
    obtain ⟨hvalid, input, -, rfl, -⟩ := parseMatch_eq_ok_iff.mp hparse
    have haccepts (k : MatchKey) (t : String) (ht : textOf (fun k => object[k]?) k = some t)
        (hk : k ≠ .portIn) : ∃ set, k.read inet t = .ok set :=
      (accepts_of_ne hk t).mp (accepts_of_valid hvalid ht)
    have hpasses := ((parseMatch_returns_iff h htext hspecial).mp ⟨_, hparse⟩).2
    refine (stores_headerOf_iff h haccepts (textOf_eq_some.mpr htext) hspecial input.tag).trans ?_
    rw [NumericField.Slips, and_iff_right hpasses]
    cases numeral s with
    | none => simp
    | some n =>
      cases key.overriding.bind (textOf fun k => object[k]?) <;>
        simp only [Option.some.injEq, exists_eq_left', not_or, not_lt, not_not]
  constructor
  · intro hall hothers hslips
    obtain ⟨⟨m, a⟩, hparse⟩ := (parseMatch_returns_iff h htext hspecial).mpr ⟨hothers, hslips.1⟩
    exact (hstores hparse).mp (hall m a hparse) hslips
  · intro hnot m a hparse
    exact (hstores hparse).mpr (hnot ((parseMatch_returns_iff h htext hspecial).mp ⟨_, hparse⟩).1)

end

/-- An address library that knows no address. -/
def InetPton.none : InetPton := ⟨fun _ => .none, fun _ => false⟩

/-- A match on one more key than the input. -/
def matchObject (key : MatchKey) (s : String) : Json.Object :=
  Std.ExtTreeMap.ofList [("port_in", .str "vnf:00000001:inout:1"), (key.name, .str s)] compare

/-- The protocol of the documentation's own example is stored as zero. -/
theorem protocol_hex_stored_as_zero :
    (∃ r ∈ (parseMatch .none {} (matchObject .protocol "0x06") none).toOption,
      r.1.ipProto = some 0) ∧ numeral "0x06" = some 6 := by
  decide +kernel

/-- A decimal Ethernet type is validated and stored as specified. -/
theorem etherType_decimal_validated :
    Validated .none {} (matchObject .etherType "2048") none .etherType
      ⟨.i32, 65535, 2 ^ 16 - 1, fun m => m.ethType.map UInt16.toNat⟩ "2048" := by
  refine (numericField_validated_iff rfl (textOf_eq_some.mp (by decide +kernel)) (by decide)).mpr
    ⟨by decide +kernel, fun _ hslips => ?_⟩
  have hnumeral : numeral "2048" = some 2048 := by decide +kernel
  have hoverriding : MatchKey.overriding .etherType = none := rfl
  rw [NumericField.Slips, hnumeral, hoverriding] at hslips
  exact absurd hslips.2 (by simp [Conversion.Reads]; decide +kernel)

end UnOrchestrator.Parser
