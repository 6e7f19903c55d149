import UnOrchestrator.Parser.References

/-!
# The names of the ports of network functions

A port of a network function has an identifier, a label and a number with a colon between
them. Two functions take it apart. `extractNumberFromId` reads the number for the port of the
switch. A rule names the port as `vnf:`, the identifier of the network function, a colon and
the identifier of the port, and `vnfPort` reads the network function and the number from that
text again.

`portsNamed_iff` says for which network functions the two agree, and give different ports
different names. The identifier of the network function has to be one token, every port has to
have a number, and no two of them the same one, whatever their labels are. The number, which
counts from one, has to fit in 31 bits: a match keeps it in an `int`, and a name with a minus
sign is that of no port.
-/

namespace UnOrchestrator.Parser

open CString Highlevel

/-- How a rule names a port of a network function. -/
def vnfReference (id portID : String) : String := "vnf:" ++ id ++ ":" ++ portID

/-- The reference to the port stands for the name that the port has on the LSI, in a match and in
an action. -/
def PortNamed (id portID : String) : Prop :=
  ∃ n, VNFs.extractNumberFromId portID = .ok n ∧ ∀ tables,
    (∃ input nf port, portIn tables (vnfReference id portID) = .ok input ∧
      input.type = .nf nf port ∧ nfPortName nf port = nfPortName id n) ∧
    (∃ action nf port, outputToPort tables (vnfReference id portID) = .ok (some action) ∧
      action.type = .networkFunction nf port ∧ nfPortName nf (port : Nat) = nfPortName id n)

/-- The ports of a network function have different numbers, and their own names. -/
structure PortsNamed (v : VNFs) : Prop where
  distinct : ∀ p ∈ v.ports, ∀ q ∈ v.ports, p.id ≠ q.id → ∀ n,
    VNFs.extractNumberFromId p.id = .ok n → VNFs.extractNumberFromId q.id ≠ .ok n
  named : ∀ p ∈ v.ports, PortNamed v.id p.id

/-- The number that is read from the second token of the identifier of a port. -/
def readNumber (portID : String) : Option Nat :=
  ((strtok ':' portID)[1]?).map fun token => (scanUnsigned 10 token).getD 0

/-- The network functions whose ports can be told apart and referred to. -/
structure PlainPorts (v : VNFs) : Prop where
  token : v.ports ≠ [] → v.id ≠ "" ∧ ':' ∉ v.id.toList
  numbered : ∀ p ∈ v.ports, ∃ n, readNumber p.id = some n ∧ (n + 1) % 2 ^ 32 < 2 ^ 31
  distinct : ∀ p ∈ v.ports, ∀ q ∈ v.ports, p.id ≠ q.id → readNumber p.id ≠ readNumber q.id

variable {id portID reference : String}

/-! ## The tokens -/

theorem strtok_vnfReference :
    strtok ':' (vnfReference id portID) = "vnf" :: (strtok ':' id ++ strtok ':' portID) := by
  have hfirst : strtok ':' ("vnf:" ++ id) = strtok ':' "vnf" ++ strtok ':' id :=
    strtok_of_toList_eq (by simp)
  have hsecond : strtok ':' (vnfReference id portID) =
      strtok ':' ("vnf:" ++ id) ++ strtok ':' portID :=
    strtok_of_toList_eq (by simp [vnfReference])
  rw [hsecond, hfirst, show strtok ':' "vnf" = ["vnf"] by decide +kernel]
  rfl

theorem not_isEndPointReference : isEndPointReference (vnfReference id portID) = false := by
  rw [isEndPointReference, strtok_vnfReference]
  rfl

theorem extractNumberFromId_eq_ok {n : Nat} : VNFs.extractNumberFromId portID = .ok n ↔
    ∃ m, readNumber portID = some m ∧ (m + 1) % 2 ^ 32 = n := by
  rw [VNFs.extractNumberFromId, readNumber]
  match strtok ':' portID with
  | [] => simp
  | [_] => simp
  | _ :: token :: _ => simp

/-- What is read from a reference is its second token and the number in its fourth. -/
theorem vnfPort_eq_ok {nf : String} {n : Nat} : vnfPort reference = .ok (nf, n) ↔
    ∃ first label number rest, strtok ':' reference = first :: nf :: label :: number :: rest ∧
      ((scanUnsigned 10 number).getD 0 + 1) % 2 ^ 32 = n := by
  -- the token of the network function and what is appended to it are taken apart again
  have hjoined {vnf : String} (number : String) (hvnf : vnf ∈ strtok ':' reference) :
      strtok ':' (vnf ++ ":" ++ number) = vnf :: strtok ':' number := by
    rw [strtok_of_toList_eq (a := vnf) (b := number) (by simp),
      strtok_eq_self_iff.mpr (mem_strtok hvnf)]
    rfl
  have hlone {vnf : String} (hvnf : vnf ∈ strtok ':' reference) : strtok ':' (vnf ++ ":") = [vnf] := by
    have hempty := hjoined "" hvnf
    rwa [String.append_empty] at hempty
  rw [vnfPort]
  match h : strtok ':' reference with
  | [] => simp
  | [_] => simp
  | [_, vnf] => simp [nfId, nfIsPort, hlone (by simp [h] : vnf ∈ strtok ':' reference)]
  | [_, vnf, _] => simp [nfId, nfIsPort, hlone (by simp [h] : vnf ∈ strtok ':' reference)]
  | first :: vnf :: label :: number :: rest =>
    have hvnf : vnf ∈ strtok ':' reference := by simp [h]
    have hnumber : number ∈ strtok ':' reference := by simp [h]
    have hboth : strtok ':' (vnf ++ ":" ++ number) = [vnf, number] := by
      rw [hjoined number hvnf, strtok_eq_self_iff.mpr (mem_strtok hnumber)]
    simp [nfId, nfIsPort, nfPort, hboth, (mem_strtok hvnf).1]

/-! ## The references -/

/-- A reference to a port is read as the network function and the port if the identifier of the
network function is one token. -/
theorem vnfPort_vnfReference (hid : strtok ':' id = [id]) {m : Nat}
    (hnumber : readNumber portID = some m) :
    vnfPort (vnfReference id portID) = .ok (id, (m + 1) % 2 ^ 32) := by
  rw [vnfPort_eq_ok, strtok_vnfReference, hid]
  rw [readNumber, Option.map_eq_some_iff] at hnumber
  obtain ⟨token, htoken, rfl⟩ := hnumber
  match h : strtok ':' portID, htoken with
  | label :: _ :: rest, rfl => exact ⟨"vnf", label, token, rest, rfl, rfl⟩

/-- The network function of a reference is the one that is referred to only then. -/
theorem strtok_of_vnfPort {n : Nat} (h : vnfPort (vnfReference id portID) = .ok (id, n)) :
    strtok ':' id = [id] := by
  obtain ⟨first, label, number, rest, htokens, -⟩ := vnfPort_eq_ok.mp h
  refine strtok_eq_self_iff.mpr (mem_strtok (s := vnfReference id portID) ?_)
  simp [htokens]

/-- A match keeps the number of the port in an `int`. -/
theorem portIn_of_vnfPort (tables : EndPointTables) {nf : String} {n : Nat}
    (h : vnfPort (vnfReference id portID) = .ok (nf, n)) :
    ∃ input, portIn tables (vnfReference id portID) = .ok input ∧
      input.type = .nf nf ((n : Int).bmod (2 ^ 32)) := by
  simp only [portIn, not_isEndPointReference, h]
  exact ⟨_, rfl, rfl⟩

/-- A number of 32 bits is kept by an `int` if it has 31. -/
theorem bmod_eq_self_iff {n : Nat} (hn : n < 2 ^ 32) : (n : Int).bmod (2 ^ 32) = n ↔ n < 2 ^ 31 := by
  rw [Int.bmod_def]
  omega

theorem portNamed_iff : PortNamed id portID ↔ strtok ':' id = [id] ∧
    ∃ m, readNumber portID = some m ∧ (m + 1) % 2 ^ 32 < 2 ^ 31 := by
  have hsmall (m : Nat) : (m + 1) % 2 ^ 32 < 2 ^ 32 := Nat.mod_lt _ (by decide)
  constructor
  · rintro ⟨n, hn, hnamed⟩
    obtain ⟨⟨input, nf, port, hinput, htype, hname⟩, -⟩ := hnamed {}
    obtain ⟨m, hm, rfl⟩ := extractNumberFromId_eq_ok.mp hn
    rw [nfPortName, nfPortName, joinNumber_inj] at hname
    obtain ⟨rfl, rfl⟩ := hname
    simp only [portIn, not_isEndPointReference, Bool.false_eq_true, if_false] at hinput
    obtain ⟨⟨nf', port'⟩, hport, hinput⟩ := Failure.bind_eq_ok.mp hinput
    cases hinput
    obtain ⟨rfl, hbmod⟩ := MatchType.nf.inj htype
    have hid := strtok_of_vnfPort hport
    refine ⟨hid, m, hm, ?_⟩
    rw [vnfPort_vnfReference hid hm] at hport
    cases hport
    exact (bmod_eq_self_iff (hsmall m)).mp hbmod
  · rintro ⟨hid, m, hm, hlt⟩
    have hport : vnfPort (vnfReference id portID) = .ok (id, (m + 1) % 2 ^ 32) :=
      vnfPort_vnfReference hid hm
    refine ⟨(m + 1) % 2 ^ 32, extractNumberFromId_eq_ok.mpr ⟨m, hm, rfl⟩, fun tables => ⟨?_, ?_⟩⟩
    · obtain ⟨input, hinput, htype⟩ := portIn_of_vnfPort tables hport
      rw [(bmod_eq_self_iff (hsmall m)).mpr hlt] at htype
      exact ⟨input, id, _, hinput, htype, rfl⟩
    · refine ⟨{ type := .networkFunction id ((m + 1) % 2 ^ 32),
                endpointName := vnfReference id portID }, id, _, ?_, rfl, rfl⟩
      simp only [outputToPort, not_isEndPointReference, hport]
      rfl

/-! ## The ports of a network function -/

/-- The number of a port tells what was read. -/
theorem readNumber_lt {m : Nat} (h : readNumber portID = some m) : m < 2 ^ 32 := by
  rw [readNumber, Option.map_eq_some_iff] at h
  obtain ⟨token, -, rfl⟩ := h
  cases hscan : scanUnsigned 10 token with
  | none => simp
  | some n => exact scanUnsigned_lt hscan

theorem extractNumberFromId_inj {portID' : String} {m m' : Nat} (hm : readNumber portID = some m)
    (hm' : readNumber portID' = some m') (h : (m + 1) % 2 ^ 32 = (m' + 1) % 2 ^ 32) : m = m' := by
  have hlt := readNumber_lt hm
  have hlt' := readNumber_lt hm'
  omega

/-- The ports of a network function have different numbers and their own names exactly if its
identifier is one token and the ports have different numbers of at most 31 bits in theirs. -/
theorem portsNamed_iff (v : VNFs) : PortsNamed v ↔ PlainPorts v := by
  constructor
  · intro h
    have hplain p (hp : p ∈ v.ports) := portNamed_iff.mp (h.named p hp)
    refine ⟨fun hports => ?_, fun p hp => (hplain p hp).2, fun p hp q hq hne hread => ?_⟩
    · obtain ⟨p, hp⟩ := List.exists_mem_of_ne_nil _ hports
      exact strtok_eq_self_iff.mp (hplain p hp).1
    · obtain ⟨-, m, hm, -⟩ := hplain p hp
      exact h.distinct p hp q hq hne _ (extractNumberFromId_eq_ok.mpr ⟨m, hm, rfl⟩)
        (extractNumberFromId_eq_ok.mpr ⟨m, hread ▸ hm, rfl⟩)
  · intro h
    refine ⟨fun p hp q hq hne n hn hn' => ?_, fun p hp => ?_⟩
    · obtain ⟨m, hm, rfl⟩ := extractNumberFromId_eq_ok.mp hn
      obtain ⟨m', hm', hsame⟩ := extractNumberFromId_eq_ok.mp hn'
      obtain rfl := extractNumberFromId_inj hm' hm hsame
      exact h.distinct p hp q hq hne (hm.trans hm'.symm)
    · exact portNamed_iff.mpr ⟨strtok_eq_self_iff.mpr (h.token (List.ne_nil_of_mem hp)),
        h.numbered p hp⟩

/-- A document with a network function `fw:1`, which has the ports `in:0` and `out:0`, and a rule
from the first to the second. -/
def sameNumbers : Json :=
  oneRule
    [.obj [("id", .str "fw:1"), ("name", .str "firewall"),
           ("ports", .arr [.obj [("id", .str "in:0")], .obj [("id", .str "out:0")]])]]
    [] "vnf:fw:1:in:0" [outputTo "vnf:fw:1:out:0"]

/-- The two ports get the same number, and the rule is about a network function `fw`. -/
theorem sameNumbers_not_named :
    ∃ g, parseGraph .none "g" sameNumbers = .ok g ∧ ∃ v ∈ g.vnfs, v.id = "fw:1" ∧
      v.ports.map VnfPort.id = ["in:0", "out:0"] ∧ v.getPortsId = .ok [1, 1] ∧
      g.rules.map (fun r => (r.match.type, r.action.type)) =
        [(.nf "fw" 1, .networkFunction "fw" 1)] := by
  have hclosed : ∃ g ∈ (parseGraph .none "g" sameNumbers).toOption, ∃ v ∈ g.vnfs, v.id = "fw:1" ∧
      v.ports.map VnfPort.id = ["in:0", "out:0"] ∧ v.getPortsId = .ok [1, 1] ∧
      g.rules.map (fun r => (r.match.type, r.action.type)) =
        [(.nf "fw" 1, .networkFunction "fw" 1)] := by
    decide +kernel
  obtain ⟨g, hg, h⟩ := hclosed
  exact ⟨g, Failure.toOption_eq_some.mp hg, h⟩

end UnOrchestrator.Parser
