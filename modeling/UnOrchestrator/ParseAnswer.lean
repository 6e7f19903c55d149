import UnOrchestrator.Lib.Json
import UnOrchestrator.Lib.CString

/-!
# The answer of the name resolver

The name resolver describes a network function by its implementations, one for each execution
environment. `parseAnswer` makes a description of each of them: its ports are those that the
implementation lists, and otherwise as many as the function has. An implementation for an
environment that is not enabled is skipped. `return false` and an exception are both `thrown`,
which ends the parser, and so does an assertion that fails.

The flag `foundPorts` is declared outside of the loop over the implementations and is never reset.
An implementation without ports that comes after one with ports does not get the ports of the
function, or fails an assertion (`ports_lost_after_kvm`). `independent_iff` says when the
implementations do not disturb each other.
-/

namespace UnOrchestrator

open Json (arr forEach member_update)

open Failure (Returns bind_eq_ok bind_pure_eq_ok_iff pure_eq_ok)

open Json (text member)

/-! ## Types -/

/-- `nf_t`. -/
inductive NfType where
  | dpdk | docker | kvm | native
  deriving DecidableEq, Repr

/-- `PortType`, without the two values for no type. -/
inductive PortType where
  | usvhost | ivshmem | vhost | veth | dpdkr
  deriving DecidableEq, Repr

/-- The execution environments that the orchestrator is built with. -/
structure Enabled where
  dpdk : Bool := true
  docker : Bool := true
  kvm : Bool := true
  native : Bool := true

def portTypeFromString (s : String) : Option PortType :=
  if s = "ivshmem" then some .ivshmem
  else if s = "usvhost" then some .usvhost
  else if s = "vhost" then some .vhost
  else none

/-- `NFType::isValid`. -/
def NfType.isValid (enabled : Enabled) (type : String) : Bool :=
  enabled.dpdk && type == "dpdk" || enabled.docker && type == "docker" ||
    enabled.kvm && type == "kvm" || enabled.native && type == "native"

/-- The type that the constructor of `Description` stores. -/
def NfType.ofString (enabled : Enabled) (type : String) : Except Failure NfType :=
  if type = "dpdk" then .ok .dpdk
  else if enabled.docker ∧ type = "docker" then .ok .docker
  else if enabled.kvm ∧ type = "kvm" then .ok .kvm
  else if enabled.native ∧ type = "native" then .ok .native
  else .error (.abort .assertion)

/-- The types of ports, by number. -/
abbrev PortTypes : Type := Std.ExtTreeMap Nat PortType compare

/-- `Description` and its two subclasses: `cores` is for DPDK, `requirements` for native functions,
and `location` for both. -/
structure NfDescription where
  type : NfType
  uri : String
  portTypes : PortTypes
  cores : String := ""
  location : String := ""
  requirements : List String := []

/-- The words of a text, as a stream of strings reads them. -/
def wordsOf (s : String) : List String :=
  ((s.toList.splitOnP fun c => c = ' ' ∨ '\t' ≤ c ∧ c ≤ '\r').filter (· ≠ [])).map String.ofList

/-! ## The parser -/

structure PortVars where
  portId : Int := -1
  portType : Option PortType := none

def parsePortKey (st : PortVars) (name : String) (value : Json) : Except Failure PortVars :=
  if name = "id" then do
    let portId ← value.getInt
    pure { st with portId := portId }
  else if name = "type" then do
    let s ← value.getString
    match portTypeFromString s with
    | none => .error .thrown
    | some portType => pure { st with portType := some portType }
  else .error .thrown

/-- One port of an implementation. The number is stored as an unsigned one. -/
def parsePort (value : Json) : Except Failure (Nat × PortType) := do
  let port ← value.getObject
  let st ← Json.forEach port {} parsePortKey
  if st.portId = -1 then .error .thrown
  else
    match st.portType with
    | none => .error .thrown
    | some portType => pure ((st.portId % 2 ^ 32).toNat, portType)

/-- The element `ports` of an implementation. -/
def parsePorts (value : Json) : Except Failure PortTypes := do
  let portsArray ← value.getArray
  if portsArray.isEmpty then .error .thrown
  else do
    let ports ← portsArray.mapM parsePort
    pure (ports.foldl (fun m port => m.insertIfNew port.1 port.2) ∅)

/-- The variables of the loop over the elements of an implementation. -/
structure ImplVars where
  type : Option String := none
  uri : Option String := none
  cores : Option String := none
  location : Option String := none
  dependencies : Option String := none
  portTypes : PortTypes := ∅
  foundPorts : Bool := false
  next : Bool := false

/-- One element of an implementation. An invalid type ends the loop. -/
def parseImplKey (enabled : Enabled) (st : ImplVars) (name : String) (value : Json) :
    Except Failure ImplVars :=
  if st.next then pure st
  else if name = "type" then do
    let type ← value.getString
    pure { st with type := some type, next := !NfType.isValid enabled type }
  else if name = "uri" then do
    let uri ← value.getString
    pure { st with uri := some uri }
  else if name = "cores" then do
    let cores ← value.getString
    pure { st with cores := some cores }
  else if name = "location" then do
    let location ← value.getString
    pure { st with location := some location }
  else if name = "ports" then do
    let portTypes ← parsePorts value
    pure { st with portTypes := portTypes, foundPorts := true }
  else if name = "dependencies" then do
    let dependencies ← value.getString
    pure { st with dependencies := some dependencies }
  else .error .thrown

/-- The ports `1` to `numports`, next to those already there. -/
def defaultPorts (numports : Nat) (portType : PortType) (portTypes : PortTypes) : PortTypes :=
  (List.range numports).foldl (fun m i => m.insertIfNew (i + 1) portType) portTypes

/-- What is made of an implementation once its elements are read; nothing of one that is
skipped. -/
def describe (enabled : Enabled) (numports : Nat) (st : ImplVars) :
    Except Failure (Option NfDescription) :=
  if st.next then .ok none
  else
    match st.uri, st.type with
    | some uri, some type =>
      if type = "dpdk" then
        if enabled.dpdk then
          match st.cores, st.location with
          | some cores, some location =>
            if st.foundPorts then .error (.abort .assertion)
            else do
              let nfType ← NfType.ofString enabled type
              pure (some { type := nfType, uri := uri
                           portTypes := defaultPorts numports .dpdkr st.portTypes
                           cores := cores, location := location })
          | _, _ => .error .thrown
        else .ok none
      else if type = "native" then
        if enabled.native then
          if st.foundPorts then .error (.abort .assertion)
          else
            match st.location, st.dependencies with
            | some location, some dependencies => do
              let nfType ← NfType.ofString enabled type
              pure (some { type := nfType, uri := uri
                           portTypes := defaultPorts numports .veth st.portTypes
                           location := location, requirements := wordsOf dependencies })
            | _, _ => .error .thrown
        else .ok none
      else if st.cores.isSome || st.location.isSome || st.dependencies.isSome then .error .thrown
      else if st.foundPorts then do
        let nfType ← NfType.ofString enabled type
        pure (some { type := nfType, uri := uri, portTypes := st.portTypes })
      else if type = "docker" then do
        let nfType ← NfType.ofString enabled type
        pure (some { type := nfType, uri := uri, portTypes := defaultPorts numports .veth st.portTypes })
      -- a virtual machine has to list its ports
      else .error (.abort .assertion)
    | _, _ => .error .thrown

/-- The elements of an implementation. -/
def readImplementation (enabled : Enabled) (foundPorts : Bool) (value : Json) :
    Except Failure ImplVars := do
  let implementation ← value.getObject
  Json.forEach implementation { foundPorts := foundPorts } (parseImplKey enabled)

/-- One round of the loop over the implementations. It returns the flag for the next one. -/
def parseImplementation (enabled : Enabled) (numports : Nat) (foundPorts : Bool) (value : Json) :
    Except Failure (Option NfDescription × Bool) := do
  let st ← readImplementation enabled foundPorts value
  let descr ← describe enabled numports st
  pure (descr, st.foundPorts)

def parseImplementations (enabled : Enabled) (numports : Nat) :
    Bool → List Json → Except Failure (List NfDescription)
  | _, [] => pure []
  | foundPorts, value :: values => do
    let (descr, foundPorts) ← parseImplementation enabled numports foundPorts value
    let rest ← parseImplementations enabled numports foundPorts values
    pure (descr.toList ++ rest)

/-- The element `implementations` of the answer. -/
def parseImplArray (enabled : Enabled) (numports : Nat) (value : Json) :
    Except Failure (List NfDescription) := do
  let implArray ← value.getArray
  if implArray.isEmpty then .error .thrown
  else parseImplementations enabled numports false implArray

structure AnswerVars where
  foundName : Bool := false
  foundImplementations : Bool := false
  foundTextDescription : Bool := false
  possibleDescriptions : List NfDescription := []

def parseAnswerKey (enabled : Enabled) (nfName : String) (numports : Nat) (st : AnswerVars)
    (name : String) (value : Json) : Except Failure AnswerVars :=
  if name = "name" then do
    let received ← value.getString
    if received ≠ nfName then .error .thrown else pure { st with foundName := true }
  else if name = "nports" then pure st
  else if name = "summary" then pure { st with foundTextDescription := true }
  else if name = "implementations" then do
    let descriptions ← parseImplArray enabled numports value
    pure { st with foundImplementations := true, possibleDescriptions := descriptions }
  else .error .thrown

/-- The number of ports of the function, stored as an unsigned number. -/
def parseNports (answer : Json.Object) : Except Failure Nat :=
  match answer["nports"]? with
  | none => .error .thrown
  | some value => do
    let numports ← value.getInt
    pure (numports % 2 ^ 32).toNat

/-- `parseAnswer`, for a document that was read. -/
def parseAnswer (enabled : Enabled) (nfName : String) (answer : Json.Object) :
    Except Failure (List NfDescription) := do
  let numports ← parseNports answer
  let st ← Json.forEach answer {} (parseAnswerKey enabled nfName numports)
  if !st.foundName || !st.foundImplementations || !st.foundTextDescription then .error .thrown
  else if st.possibleDescriptions.isEmpty then .error (.abort .assertion)
  else pure st.possibleDescriptions

/-! ## The name resolver -/

namespace NameResolver

/-- `Implementation` and its subclasses. -/
inductive Implementation where
  | dpdk (uri cores location : String)
  | docker (uri : String)
  | kvm (uri : String) (ports : List (Int × String))
  | native (uri dependencies location : String)

def Implementation.toJSON : Implementation → Json
  | .dpdk uri cores location =>
    .obj [("uri", .str uri), ("type", .str "dpdk"), ("cores", .str cores), ("location", .str location)]
  | .docker uri => .obj [("uri", .str uri), ("type", .str "docker")]
  | .kvm uri ports =>
    .obj [("uri", .str uri), ("type", .str "kvm"), ("ports", .arr (ports.map fun port =>
      .obj [("id", .int port.1), ("type", .str port.2)]))]
  | .native uri dependencies location =>
    .obj [("uri", .str uri), ("type", .str "native"), ("dependencies", .str dependencies),
      ("location", .str location)]

structure NF where
  name : String
  nports : Int
  summary : String
  implementations : List Implementation

def NF.toJSON (nf : NF) : Json.Object :=
  Std.ExtTreeMap.ofList [("name", .str nf.name), ("nports", .int nf.nports),
    ("summary", .str nf.summary),
    ("implementations", .arr (nf.implementations.map Implementation.toJSON))] compare

/-- A function with one port that comes as a virtual machine and as a container. -/
def firewall (implementations : List Implementation) : NF where
  name := "firewall"
  nports := 1
  summary := ""
  implementations := implementations

end NameResolver

open NameResolver (firewall)

/-! ## What the elements of an implementation say -/

section Reading

variable {enabled : Enabled}

/-- The type is not one of an enabled environment. -/
def skips (enabled : Enabled) (seen : String → Option Json) : Bool :=
  (text seen "type").any fun type => !NfType.isValid enabled type

/-- The elements that an implementation can have; behind an invalid type they are not looked
at. -/
def validImplKey (enabled : Enabled) (o : Json.Object) (name : String) (v : Json) : Prop :=
  ("type" < name ∧ skips enabled (fun k => o[k]?) = true) ∨
    if name = "type" then Failure.Returns v.getString
    else if name = "uri" then Failure.Returns v.getString
    else if name = "cores" then Failure.Returns v.getString
    else if name = "location" then Failure.Returns v.getString
    else if name = "ports" then Failure.Returns (parsePorts v)
    else if name = "dependencies" then Failure.Returns v.getString
    else False

/-- What the elements say. -/
def readingOf (enabled : Enabled) (seen : String → Option Json) : ImplVars where
  type := text seen "type"
  uri := if skips enabled seen then none else text seen "uri"
  cores := text seen "cores"
  location := text seen "location"
  dependencies := text seen "dependencies"
  portTypes := (member parsePorts seen "ports").getD ∅
  foundPorts := (member parsePorts seen "ports").isSome
  next := skips enabled seen

theorem readImplementation_eq_ok_iff {value : Json} {st : ImplVars} :
    readImplementation enabled false value = .ok st ↔ ∃ o, value.getObject = .ok o ∧
      (∀ name v, o[name]? = some v → validImplKey enabled o name v) ∧
      st = readingOf enabled fun k => o[k]? := by
  rw [readImplementation, bind_eq_ok]
  refine exists_congr fun o => and_congr_right fun _ => ?_
  refine Json.forEach_eq_ok_iff_of_below (validImplKey enabled o) (readingOf enabled) o ?_ st
  intro seen name v hseen _ r
  -- what the type says is known once the loop is behind it
  have hskips (hlt : "type" < name) : skips enabled (fun k => o[k]?) = skips enabled seen := by
    simp only [skips, text, member, hseen "type", if_pos hlt]
  cases hskip : skips enabled seen with
  | true =>
    have hlt : "type" < name := by
      by_contra hlt
      have hnone : seen "type" = none := (hseen "type").trans (if_neg hlt)
      simp [skips, text, member, hnone] at hskip
    have hkept (key : String) (hkey : key ≤ "type") : key ≠ name := (hkey.trans_lt hlt).ne
    have hsame : readingOf enabled (Function.update seen name (some v)) = readingOf enabled seen := by
      have hskip' : skips enabled (Function.update seen name (some v)) = true := by
        simpa only [skips, text, member_update, if_neg (hkept "type" le_rfl)] using hskip
      simp only [readingOf, text, member_update, hskip, hskip', if_true,
        if_neg (hkept "type" le_rfl), if_neg (hkept "cores" (by decide)),
        if_neg (hkept "location" (by decide)), if_neg (hkept "dependencies" (by decide)),
        if_neg (hkept "ports" (by decide))]
    rw [hsame, parseImplKey, if_pos (show (readingOf enabled seen).next = true from hskip),
      pure_eq_ok, eq_comm, validImplKey, hskips hlt]
    simp only [hlt, hskip, and_self, true_or, true_and]
  | false =>
    have hskip' : (member Json.getString seen "type").any (fun type => !NfType.isValid enabled type) =
        false := hskip
    rw [validImplKey, or_iff_right (fun h => by rw [hskips h.1, hskip] at h; cases h.2), parseImplKey,
      if_neg (by simp [readingOf, hskip])]
    split_ifs with htype huri hcores hlocation hports hdependencies
    · subst htype
      have huri : seen "uri" = none := (hseen "uri").trans (if_neg (by decide))
      refine bind_pure_eq_ok_iff fun type htype => ?_
      simp [readingOf, skips, member, htype, huri]
    · subst huri
      exact bind_pure_eq_ok_iff fun s hs => by
        simp [readingOf, skips, text, hs, hskip']
    · subst hcores
      exact bind_pure_eq_ok_iff fun s hs => by
        simp [readingOf, skips, text, hs, hskip']
    · subst hlocation
      exact bind_pure_eq_ok_iff fun s hs => by
        simp [readingOf, skips, text, hs, hskip']
    · subst hports
      exact bind_pure_eq_ok_iff fun s hs => by
        simp [readingOf, skips, text, hs, hskip']
    · subst hdependencies
      exact bind_pure_eq_ok_iff fun s hs => by
        simp [readingOf, skips, text, hs, hskip']
    · simp

/-- The variables with the flag of earlier implementations. -/
def ImplVars.after (foundPorts : Bool) (st : ImplVars) : ImplVars :=
  { st with foundPorts := foundPorts || st.foundPorts }

/-- The flag is written only. -/
theorem readImplementation_eq (foundPorts : Bool) (value : Json) :
    readImplementation enabled foundPorts value =
      (readImplementation enabled false value).map (ImplVars.after foundPorts) := by
  unfold readImplementation
  cases value.getObject with
  | error failure => rfl
  | ok o =>
    have hinit : ({ foundPorts := foundPorts } : ImplVars) = ImplVars.after foundPorts {} := by
      simp [ImplVars.after]
    show forEach o _ _ = (forEach o _ _).map _
    rw [hinit]
    refine Json.forEach_map (fun st name v => ?_) o ({} : ImplVars)
    have hnext : (st.after foundPorts).next = st.next := rfl
    cases hst : st.next with
    | true => rw [parseImplKey, parseImplKey, hnext, hst, if_pos rfl, if_pos rfl]; rfl
    | false =>
      rw [parseImplKey, parseImplKey, hnext, hst, if_neg Bool.false_ne_true,
        if_neg Bool.false_ne_true]
      split_ifs
      · cases v.getString <;> rfl
      · cases v.getString <;> rfl
      · cases v.getString <;> rfl
      · cases v.getString <;> rfl
      · cases parsePorts v with
        | error failure => rfl
        | ok portTypes => simp [ImplVars.after, bind, Except.bind, pure, Except.pure, Except.map]
      · cases v.getString <;> rfl
      · rfl

end Reading

/-! ## The flag -/

section Flag

variable {enabled : Enabled} {numports : Nat}

/-- What is made of the implementation depends on whether ports were found before. -/
def readsPorts (enabled : Enabled) (numports : Nat) (st : ImplVars) : Bool :=
  !st.foundPorts && !st.next && st.uri.isSome &&
    match st.type with
    | none => false
    | some type =>
      if type = "dpdk" then enabled.dpdk && st.cores.isSome && st.location.isSome
      else if type = "native" then enabled.native
      else !(st.cores.isSome || st.location.isSome || st.dependencies.isSome) &&
        (type != "docker" || numports != 0)

theorem mem_defaultPorts {portType : PortType} {portTypes : PortTypes} {p : Nat} :
    p ∈ defaultPorts numports portType portTypes ↔ p ∈ portTypes ∨ 1 ≤ p ∧ p ≤ numports := by
  unfold defaultPorts
  induction numports with
  | zero =>
    simp only [List.range_zero, List.foldl_nil, iff_self_or]
    omega
  | succ n ih =>
    rw [List.range_succ, List.foldl_append, List.foldl_cons, List.foldl_nil,
      Std.ExtTreeMap.mem_insertIfNew, Std.LawfulEqCmp.compare_eq_iff_eq, ih]
    constructor
    · rintro (rfl | hmem | hp)
      · exact .inr ⟨by omega, le_rfl⟩
      · exact .inl hmem
      · exact .inr ⟨hp.1, by omega⟩
    · rintro (hmem | hp)
      · exact .inr (.inl hmem)
      · by_cases heq : n + 1 = p
        · exact .inl heq
        · exact .inr (.inr ⟨hp.1, by omega⟩)

theorem defaultPorts_eq_empty_iff {portType : PortType} :
    defaultPorts numports portType ∅ = ∅ ↔ numports = 0 := by
  constructor
  · intro h
    by_contra hne
    have hmem : 1 ∈ defaultPorts numports portType ∅ := mem_defaultPorts.mpr (.inr ⟨le_rfl, by omega⟩)
    rw [h] at hmem
    exact Std.ExtTreeMap.not_mem_empty hmem
  · rintro rfl
    rfl

theorem describe_after_eq_iff {st : ImplVars} (hempty : st.foundPorts = false → st.portTypes = ∅)
    (hvalid : st.next = false → ∀ type ∈ st.type, NfType.isValid enabled type = true) :
    describe enabled numports (st.after true) = describe enabled numports st ↔
      readsPorts enabled numports st = false := by
  obtain ⟨type, uri, cores, location, dependencies, portTypes, foundPorts, next⟩ := st
  cases foundPorts with
  | true => simp [ImplVars.after, readsPorts]
  | false =>
    obtain rfl : portTypes = ∅ := hempty rfl
    cases next with
    | true => simp [ImplVars.after, readsPorts, describe]
    | false =>
      cases uri with
      | none => simp [ImplVars.after, readsPorts, describe]
      | some uri =>
        cases type with
        | none => simp [ImplVars.after, readsPorts, describe]
        | some type =>
          have hvalid := hvalid rfl type rfl
          simp only [ImplVars.after, Bool.true_or, readsPorts, Bool.not_false, Bool.true_and,
            Option.isSome_some, describe, Bool.false_eq_true, if_false, if_true]
          by_cases hdpdk : type = "dpdk"
          · subst hdpdk
            cases henabled : enabled.dpdk <;> cases cores <;> cases location <;>
              simp [NfType.ofString, bind, Except.bind, pure, Except.pure]
          · by_cases hnative : type = "native"
            · subst hnative
              cases henabled : enabled.native <;> cases location <;> cases dependencies <;>
                simp [NfType.ofString, bind, Except.bind, pure, Except.pure, henabled]
            · simp only [hdpdk, hnative, if_false]
              by_cases hwrong : (cores.isSome || location.isSome || dependencies.isSome) = true
              · simp [hwrong]
              · simp only [hwrong, Bool.not_false, Bool.true_and, Bool.false_eq_true, if_false]
                by_cases hdocker : type = "docker"
                · subst hdocker
                  have henabled : enabled.docker = true := by simpa [NfType.isValid] using hvalid
                  simp [NfType.ofString, henabled, bind, Except.bind, pure, Except.pure,
                    @eq_comm _ (∅ : PortTypes), defaultPorts_eq_empty_iff]
                · have hkvm : enabled.kvm = true ∧ type = "kvm" := by
                    simpa [NfType.isValid, hdpdk, hnative, hdocker] using hvalid
                  simp [NfType.ofString, hkvm, bind, Except.bind, pure, Except.pure]

/-- What the implementation is described by, or how it ends the parser, once ports were found before
or not. -/
def outcome (enabled : Enabled) (numports : Nat) (foundPorts : Bool) (value : Json) :
    Except Failure (Option NfDescription) :=
  (parseImplementation enabled numports foundPorts value).map Prod.fst

/-- The flag with which the loop comes to the implementation behind some others. -/
def flagAfter (enabled : Enabled) (numports : Nat) (values : List Json) : Except Failure Bool :=
  values.foldlM (fun foundPorts value =>
    (parseImplementation enabled numports foundPorts value).map Prod.snd) false

/-- The implementation lists ports. -/
def SetsPorts (enabled : Enabled) (numports : Nat) (value : Json) : Prop :=
  ∃ descr, parseImplementation enabled numports false value = .ok (descr, true)

/-- The implementation lists no ports, and needs to know that. -/
def ReadsPorts (enabled : Enabled) (numports : Nat) (value : Json) : Prop :=
  ∃ st, readImplementation enabled false value = .ok st ∧ readsPorts enabled numports st = true

variable {foundPorts : Bool} {value : Json} {values : List Json}

theorem parseImplementation_eq_ok_iff {flag : Bool} {descr : Option NfDescription} :
    parseImplementation enabled numports foundPorts value = .ok (descr, flag) ↔
      ∃ st, readImplementation enabled false value = .ok st ∧
        describe enabled numports (st.after foundPorts) = .ok descr ∧
          (foundPorts || st.foundPorts) = flag := by
  rw [parseImplementation, readImplementation_eq]
  cases readImplementation enabled false value with
  | error failure => simp [Except.map, bind, Except.bind]
  | ok st =>
    simp only [Except.map, bind_eq_ok, pure_eq_ok, Except.ok.injEq,
      exists_eq_left', Prod.mk.injEq]
    constructor
    · rintro ⟨_, hdescribe, rfl, rfl⟩
      exact ⟨hdescribe, rfl⟩
    · rintro ⟨hdescribe, rfl⟩
      exact ⟨descr, hdescribe, rfl, rfl⟩

theorem outcome_eq (foundPorts : Bool) (value : Json) :
    outcome enabled numports foundPorts value =
      (readImplementation enabled false value >>= fun st =>
        describe enabled numports (st.after foundPorts)) := by
  rw [outcome, parseImplementation, readImplementation_eq]
  cases readImplementation enabled false value with
  | error failure => rfl
  | ok st =>
    show Except.map _ (describe enabled numports (st.after foundPorts) >>= _) =
      describe enabled numports (st.after foundPorts)
    cases describe enabled numports (st.after foundPorts) <;> rfl

theorem outcome_true_eq_iff :
    outcome enabled numports true value = outcome enabled numports false value ↔
      ¬ReadsPorts enabled numports value := by
  rw [outcome_eq, outcome_eq, ReadsPorts]
  cases hread : readImplementation enabled false value with
  | error failure => simp [bind, Except.bind]
  | ok st =>
    have hst : st.after false = st := by simp [ImplVars.after]
    obtain ⟨o, -, -, rfl⟩ := readImplementation_eq_ok_iff.mp hread
    show describe enabled numports (ImplVars.after true _) = describe enabled numports _ ↔ _
    rw [hst, describe_after_eq_iff]
    · simp
    · intro hports
      have hnone : member parsePorts (fun k => o[k]?) "ports" = none := by
        simpa [readingOf] using hports
      simp [readingOf, hnone]
    · intro hnext type htype
      have hskip : skips enabled (fun k => o[k]?) = false := hnext
      rw [skips, show text (fun k => o[k]?) "type" = some type from htype] at hskip
      simpa using hskip

/-- The description of an implementation that is the only one. -/
def descriptionAlone (enabled : Enabled) (numports : Nat) (value : Json) : Option NfDescription :=
  match outcome enabled numports false value with
  | .ok descr => descr
  | .error _ => none

/-- Implementations that list their ports do not stand next to some that need to know that they do
not. -/
def PortsApart (enabled : Enabled) (numports : Nat) (values : List Json) : Prop :=
  ∀ a ∈ values, SetsPorts enabled numports a → ∀ b ∈ values, ¬ReadsPorts enabled numports b

theorem PortsApart.perm {values' : List Json} (hperm : values'.Perm values)
    (h : PortsApart enabled numports values) : PortsApart enabled numports values' :=
  fun a ha hsets b hb => h a (hperm.mem_iff.mp ha) hsets b (hperm.mem_iff.mp hb)

/-- The flag makes no difference to an implementation, unless it is set and the implementation
reads it. -/
theorem outcome_of_unread (h : foundPorts = true → ¬ReadsPorts enabled numports value) :
    outcome enabled numports foundPorts value = outcome enabled numports false value := by
  cases foundPorts with
  | false => rfl
  | true => exact outcome_true_eq_iff.mpr (h rfl)

theorem parseImplementations_eq_ok_iff (happart : PortsApart enabled numports values)
    (hunread : foundPorts = true → ∀ value ∈ values, ¬ReadsPorts enabled numports value)
    {descrs : List NfDescription} :
    parseImplementations enabled numports foundPorts values = .ok descrs ↔
      (∀ value ∈ values, Returns (outcome enabled numports false value)) ∧
        descrs = values.filterMap (descriptionAlone enabled numports) := by
  induction values generalizing foundPorts descrs with
  | nil =>
    rw [parseImplementations, pure_eq_ok, eq_comm]
    simp
  | cons value values ih =>
    have hsame := outcome_of_unread fun hflag => hunread hflag value List.mem_cons_self
    rw [parseImplementations, List.forall_mem_cons, List.filterMap_cons, descriptionAlone, ← hsame,
      outcome]
    cases hround : parseImplementation enabled numports foundPorts value with
    | error failure => simp [Except.map, bind, Except.bind]
    | ok round =>
      obtain ⟨descr, flag⟩ := round
      have hrest (rest : List NfDescription) := @ih flag
        (fun a ha hsets b hb => happart a (List.mem_cons_of_mem _ ha) hsets b (List.mem_cons_of_mem _ hb))
        (by
          rintro rfl b hb
          -- the flag was set before, or by this implementation
          cases foundPorts with
          | true => exact hunread rfl b (List.mem_cons_of_mem _ hb)
          | false =>
            exact happart value List.mem_cons_self ⟨descr, hround⟩ b (List.mem_cons_of_mem _ hb)) rest
      simp only [bind_eq_ok, Except.ok.injEq, exists_eq_left', hrest, pure_eq_ok,
        Except.map, Failure.returns_ok, true_and]
      constructor
      · rintro ⟨_, ⟨hreturns, rfl⟩, rfl⟩
        exact ⟨hreturns, by cases descr <;> rfl⟩
      · rintro ⟨hreturns, rfl⟩
        exact ⟨_, ⟨hreturns, rfl⟩, by cases descr <;> rfl⟩

/-- The flag with which the loop comes to an implementation is set only if one before sets it. -/
theorem exists_setsPorts (h : flagAfter enabled numports values = .ok true) :
    ∃ value ∈ values, SetsPorts enabled numports value := by
  suffices hloop : ∀ foundPorts, values.foldlM (fun foundPorts value =>
      (parseImplementation enabled numports foundPorts value).map Prod.snd) foundPorts = .ok true →
      foundPorts = true ∨ ∃ value ∈ values, SetsPorts enabled numports value by
    exact (hloop false h).resolve_left Bool.false_ne_true
  clear h
  induction values with
  | nil =>
    intro foundPorts h
    exact .inl (pure_eq_ok.mp h)
  | cons value values ih =>
    intro foundPorts h
    rw [List.foldlM_cons] at h
    obtain ⟨flag, hround, hrest⟩ := bind_eq_ok.mp h
    rcases ih flag hrest with rfl | ⟨a, ha, hsets⟩
    · cases foundPorts with
      | true => exact .inl rfl
      | false =>
        cases hparse : parseImplementation enabled numports false value with
        | error failure => rw [hparse] at hround; cases hround
        | ok round =>
          obtain ⟨descr, flag⟩ := round
          rw [hparse] at hround
          cases hround
          exact .inr ⟨value, List.mem_cons_self, descr, hparse⟩
    · exact .inr ⟨a, List.mem_cons_of_mem _ ha, hsets⟩

end Flag

/-! ## The content of a description -/

section Content

variable {enabled : Enabled} {numports : Nat}

/-- A description says what the elements of its implementation say. -/
structure Describes (enabled : Enabled) (numports : Nat) (o : Json.Object) (descr : NfDescription) :
    Prop where
  type : ∃ type, o["type"]? = some (.str type) ∧ NfType.ofString enabled type = .ok descr.type
  uri : o["uri"]? = some (.str descr.uri)
  listed : ∀ ports, o["ports"]? = some ports → parsePorts ports = .ok descr.portTypes
  unlisted : o["ports"]? = none → ∀ p, p ∈ descr.portTypes ↔ 1 ≤ p ∧ p ≤ numports

theorem describe_eq_some {st : ImplVars} {descr : NfDescription}
    (h : describe enabled numports st = .ok (some descr)) :
    st.uri = some descr.uri ∧
      (∃ type, st.type = some type ∧ NfType.ofString enabled type = .ok descr.type) ∧
      ∃ portType, descr.portTypes =
        if st.foundPorts then st.portTypes else defaultPorts numports portType st.portTypes := by
  -- each description that is built, from its type on
  have hbuilt {uri type : String} {portTypes : PortTypes} {cores location : String}
      {requirements : List String} (hst : st.uri = some uri ∧ st.type = some type)
      (hports : ∃ portType, portTypes =
        if st.foundPorts then st.portTypes else defaultPorts numports portType st.portTypes)
      (h : (do
        let nfType ← NfType.ofString enabled type
        pure (some { type := nfType, uri := uri, portTypes := portTypes, cores := cores
                     location := location, requirements := requirements })) =
          Except.ok (some descr)) :
      st.uri = some descr.uri ∧
        (∃ type, st.type = some type ∧ NfType.ofString enabled type = .ok descr.type) ∧
        ∃ portType, descr.portTypes =
          if st.foundPorts then st.portTypes else defaultPorts numports portType st.portTypes := by
    obtain ⟨nfType, hof, hdescr⟩ := bind_eq_ok.mp h
    cases hdescr
    exact ⟨hst.1, ⟨type, hst.2, hof⟩, hports⟩
  unfold describe at h
  split at h
  · cases h
  split at h
  next uri type huri htype =>
    split at h
    · split at h
      · split at h
        · split at h
          · cases h
          next hports => exact hbuilt ⟨huri, htype⟩ ⟨.dpdkr, by rw [if_neg hports]⟩ h
        · cases h
      · cases h
    · split at h
      · split at h
        · split at h
          · cases h
          next hports =>
            split at h
            · exact hbuilt ⟨huri, htype⟩ ⟨.veth, by rw [if_neg hports]⟩ h
            · cases h
        · cases h
      · split at h
        · cases h
        · split at h
          next hports => exact hbuilt ⟨huri, htype⟩ ⟨.veth, by rw [if_pos hports]⟩ h
          next hports =>
            split at h
            · exact hbuilt ⟨huri, htype⟩ ⟨.veth, by rw [if_neg hports]⟩ h
            · cases h
  · cases h

theorem describes_of_outcome {value : Json} {descr : NfDescription}
    (h : outcome enabled numports false value = .ok (some descr)) :
    ∃ o, value.getObject = .ok o ∧ Describes enabled numports o descr := by
  rw [outcome_eq, bind_eq_ok] at h
  obtain ⟨st, hread, h⟩ := h
  obtain ⟨o, ho, hvalid, rfl⟩ := readImplementation_eq_ok_iff.mp hread
  obtain ⟨huri, ⟨type, htype, hof⟩, portType, hports⟩ := describe_eq_some h
  have huri : text (fun k => o[k]?) "uri" = some descr.uri := by
    by_cases hskip : skips enabled (fun k => o[k]?) = true
    · simp [ImplVars.after, readingOf, hskip] at huri
    · simpa [ImplVars.after, readingOf, hskip] using huri
  refine ⟨o, ho, ⟨type, Json.text_eq_some.mp htype, hof⟩, Json.text_eq_some.mp huri, ?_, ?_⟩
  · intro ports hlisted
    rcases hvalid "ports" ports hlisted with ⟨hlt, -⟩ | hreturns
    · exact absurd hlt (by decide)
    · obtain ⟨portTypes, hparse⟩ : Returns (parsePorts ports) := by simpa using hreturns
      have hmember : member parsePorts (fun k => o[k]?) "ports" = some portTypes :=
        Json.member_eq_some.mpr ⟨ports, hlisted, hparse⟩
      simp only [ImplVars.after, readingOf, hmember, Option.isSome_some, Option.getD_some,
        Bool.or_true, if_true] at hports
      rw [hparse, hports]
  · intro hnone p
    have hmember : member parsePorts (fun k => o[k]?) "ports" = none := by simp [member, hnone]
    simp only [ImplVars.after, readingOf, hmember, Option.isSome_none, Option.getD_none,
      Bool.or_false, Bool.false_eq_true, if_false] at hports
    rw [hports, mem_defaultPorts]
    simp

end Content

/-! ## The answer -/

section Answer

variable {enabled : Enabled} {nfName : String} {answer : Json.Object}

/-- The elements of an answer, apart from the content of the implementations. -/
structure AnswerFrame (nfName : String) (answer : Json.Object) : Prop where
  keys : ∀ name, name ∈ answer →
    name = "name" ∨ name = "nports" ∨ name = "summary" ∨ name = "implementations"
  name : answer["name"]? = some (.str nfName)
  summary : "summary" ∈ answer

/-- The elements that an answer can have. -/
def validAnswerKey (enabled : Enabled) (nfName : String) (numports : Nat) (name : String) (v : Json) :
    Prop :=
  if name = "name" then v = .str nfName
  else if name = "nports" then True
  else if name = "summary" then True
  else if name = "implementations" then Failure.Returns (parseImplArray enabled numports v)
  else False

theorem forEach_answer_eq_ok_iff {numports : Nat} {st : AnswerVars} :
    forEach answer {} (parseAnswerKey enabled nfName numports) = .ok st ↔
      (∀ name v, answer[name]? = some v → validAnswerKey enabled nfName numports name v) ∧
      st = { foundName := (answer["name"]?).isSome
             foundImplementations := (answer["implementations"]?).isSome
             foundTextDescription := (answer["summary"]?).isSome
             possibleDescriptions := (member (parseImplArray enabled numports) (fun k => answer[k]?)
               "implementations").getD [] } := by
  let build (seen : String → Option Json) : AnswerVars :=
    { foundName := (seen "name").isSome
      foundImplementations := (seen "implementations").isSome
      foundTextDescription := (seen "summary").isSome
      possibleDescriptions := (member (parseImplArray enabled numports) seen "implementations").getD [] }
  refine Json.forEach_eq_ok_iff (validAnswerKey enabled nfName numports) build ?_ answer st
  intro seen name v _ r
  rw [parseAnswerKey, validAnswerKey]
  split_ifs with hname hnports hsummary himplementations
  · subst hname
    simp only [bind_eq_ok, Json.getString_eq_ok]
    constructor
    · rintro ⟨received, rfl, h⟩
      split_ifs at h with hne
      cases h
      simp [build, not_not.mp hne]
    · rintro ⟨rfl, rfl⟩
      exact ⟨nfName, rfl, by simp [build]⟩
  · subst hnports
    rw [pure_eq_ok, eq_comm]
    simp [build]
  · subst hsummary
    rw [pure_eq_ok, eq_comm]
    simp [build]
  · subst himplementations
    exact bind_pure_eq_ok_iff fun descrs hdescrs => by
      simp [build, hdescrs]
  · simp

variable {descrs : List NfDescription}

theorem parseAnswer_eq_ok_iff :
    parseAnswer enabled nfName answer = .ok descrs ↔
      AnswerFrame nfName answer ∧ ∃ numports impls, parseNports answer = .ok numports ∧
        answer["implementations"]? = some (.arr impls) ∧ impls ≠ [] ∧
        parseImplementations enabled numports false impls = .ok descrs ∧ descrs ≠ [] := by
  simp only [parseAnswer, bind_eq_ok, forEach_answer_eq_ok_iff]
  constructor
  · rintro ⟨numports, hnports, _, ⟨hvalid, rfl⟩, h⟩
    split_ifs at h with hfound hempty
    obtain ⟨⟨hname, himplementations⟩, hsummary⟩ : ((answer["name"]?).isSome ∧
        (answer["implementations"]?).isSome) ∧ (answer["summary"]?).isSome := by
      simpa using hfound
    obtain ⟨vname, hname⟩ := Option.isSome_iff_exists.mp hname
    obtain ⟨value, hvalue⟩ := Option.isSome_iff_exists.mp himplementations
    obtain ⟨descrs', hdescrs⟩ : Returns (parseImplArray enabled numports value) := by
      simpa [validAnswerKey] using hvalid _ _ hvalue
    have hmember : member (parseImplArray enabled numports) (fun k => answer[k]?) "implementations" =
        some descrs' := Json.member_eq_some.mpr ⟨value, hvalue, hdescrs⟩
    simp only [hmember, Option.getD_some, pure_eq_ok, List.isEmpty_iff] at h hempty
    subst h
    obtain ⟨impls, himpls, hparse⟩ := bind_eq_ok.mp hdescrs
    split_ifs at hparse with hnil
    refine ⟨⟨fun name hmem => ?_, ?_, ?_⟩, numports, impls, hnports, ?_, ?_, hparse, hempty⟩
    · obtain ⟨v, hv⟩ := Option.isSome_iff_exists.mp
        (Std.ExtTreeMap.mem_iff_isSome_getElem?.mp hmem)
      have hkey := hvalid name v hv
      unfold validAnswerKey at hkey
      split_ifs at hkey <;> tauto
    · rw [hname, show vname = .str nfName by simpa [validAnswerKey] using hvalid _ _ hname]
    · exact Std.ExtTreeMap.mem_iff_isSome_getElem?.mpr hsummary
    · rw [hvalue, Json.getArray_eq_ok.mp himpls]
    · simpa using hnil
  · rintro ⟨hframe, numports, impls, hnports, himpls, hnil, hparse, hempty⟩
    have hdescrs : parseImplArray enabled numports (.arr impls) = .ok descrs := by
      simp [parseImplArray, Json.getArray, bind, Except.bind, hnil, hparse]
    have hmember : member (parseImplArray enabled numports) (fun k => answer[k]?) "implementations" =
        some descrs := Json.member_eq_some.mpr ⟨_, himpls, hdescrs⟩
    refine ⟨numports, hnports, _, ⟨fun name v hv => ?_, rfl⟩, ?_⟩
    · rcases hframe.keys name (Std.ExtTreeMap.mem_iff_isSome_getElem?.mpr (by simp [hv])) with
        rfl | rfl | rfl | rfl
      · simpa [validAnswerKey, hv] using hframe.name
      · simp [validAnswerKey]
      · simp [validAnswerKey]
      · obtain rfl : v = .arr impls := Option.mem_unique hv himpls
        simp [validAnswerKey, hdescrs]
    · have hsummary := Std.ExtTreeMap.mem_iff_isSome_getElem?.mp hframe.summary
      simp [hframe.name, himpls, hsummary, hmember, hempty]

variable {numports : Nat} {impls : List Json}

/-- Each implementation is described by itself. -/
structure Independent (enabled : Enabled) (nfName : String) (answer : Json.Object) (numports : Nat)
    (impls : List Json) : Prop where
  /-- In any order, the implementations before one have no influence on it. -/
  round : ∀ before value after, (before ++ value :: after).Perm impls →
    ∀ flag, flagAfter enabled numports before = .ok flag →
      outcome enabled numports flag value = outcome enabled numports false value
  content : ∀ value ∈ impls, ∀ descr, outcome enabled numports false value = .ok (some descr) →
    ∃ o, value.getObject = .ok o ∧ Describes enabled numports o descr
  /-- With the implementations in another order, the answer is accepted as before, with the
  descriptions in that order. -/
  permuted : ∀ impls', impls'.Perm impls → ∀ descrs,
    parseAnswer enabled nfName (answer.insert "implementations" (.arr impls')) = .ok descrs ↔
      Failure.Returns (parseAnswer enabled nfName answer) ∧
        descrs = impls'.filterMap (descriptionAlone enabled numports)

theorem answerFrame_insert {value : Json} (hmem : "implementations" ∈ answer) :
    AnswerFrame nfName (answer.insert "implementations" value) ↔ AnswerFrame nfName answer := by
  have hkeys (name : String) : name ∈ answer.insert "implementations" value ↔ name ∈ answer := by
    rw [Std.ExtTreeMap.mem_insert, Std.LawfulEqCmp.compare_eq_iff_eq]
    constructor
    · rintro (rfl | h)
      · exact hmem
      · exact h
    · exact .inr
  have hname : (answer.insert "implementations" value)["name"]? = answer["name"]? := by
    simp [StringMap.getElem?_insert]
  constructor
  · intro h
    exact ⟨fun name hn => h.keys name ((hkeys name).mpr hn), hname ▸ h.name, (hkeys _).mp h.summary⟩
  · intro h
    exact ⟨fun name hn => h.keys name ((hkeys name).mp hn), hname ▸ h.name, (hkeys _).mpr h.summary⟩

/-- Which answers are accepted, and with what, if the implementations keep apart. -/
theorem parseAnswer_eq_ok_iff_of_apart (hnports : parseNports answer = .ok numports)
    (himpls : answer["implementations"]? = some (.arr impls))
    (happart : PortsApart enabled numports impls) :
    parseAnswer enabled nfName answer = .ok descrs ↔
      AnswerFrame nfName answer ∧ impls ≠ [] ∧
        (∀ value ∈ impls, Returns (outcome enabled numports false value)) ∧
        descrs = impls.filterMap (descriptionAlone enabled numports) ∧ descrs ≠ [] := by
  rw [parseAnswer_eq_ok_iff]
  refine and_congr_right fun _ => ?_
  simp only [hnports, himpls, Except.ok.injEq, Option.some.injEq, arr.injEq, exists_and_left,
    exists_eq_left', and_assoc,
    parseImplementations_eq_ok_iff happart fun h => absurd h Bool.false_ne_true]

/-- With the implementations in another order, the answer is accepted as before. -/
theorem parseAnswer_permuted (hnports : parseNports answer = .ok numports)
    (himpls : answer["implementations"]? = some (.arr impls))
    (happart : PortsApart enabled numports impls) {impls' : List Json} (hperm : impls'.Perm impls) :
    parseAnswer enabled nfName (answer.insert "implementations" (.arr impls')) = .ok descrs ↔
      Returns (parseAnswer enabled nfName answer) ∧
        descrs = impls'.filterMap (descriptionAlone enabled numports) := by
  have hnports' : parseNports (answer.insert "implementations" (.arr impls')) = .ok numports := by
    simpa [parseNports, StringMap.getElem?_insert] using hnports
  have himpls' : (answer.insert "implementations" (arr impls'))["implementations"]? =
      some (.arr impls') := by
    simp
  have hmem : "implementations" ∈ answer := by
    simp [Std.ExtTreeMap.mem_iff_isSome_getElem?, himpls]
  have hempty : impls' = [] ↔ impls = [] := by
    rw [← List.length_eq_zero_iff, hperm.length_eq, List.length_eq_zero_iff]
  have hnone : impls'.filterMap (descriptionAlone enabled numports) = [] ↔
      impls.filterMap (descriptionAlone enabled numports) = [] := by
    rw [← List.length_eq_zero_iff, (hperm.filterMap _).length_eq, List.length_eq_zero_iff]
  simp only [Returns, parseAnswer_eq_ok_iff_of_apart hnports' himpls' (happart.perm hperm),
    parseAnswer_eq_ok_iff_of_apart hnports himpls happart, answerFrame_insert hmem,
    hperm.mem_iff, ne_eq, hempty]
  constructor
  · rintro ⟨hframe, hne, hreturns, rfl, hsome⟩
    exact ⟨⟨_, hframe, hne, hreturns, rfl, fun h => hsome (hnone.mpr h)⟩, rfl⟩
  · rintro ⟨⟨_, hframe, hne, hreturns, rfl, hsome⟩, rfl⟩
    exact ⟨hframe, hne, hreturns, rfl, fun h => hsome (hnone.mp h)⟩

theorem ne_of_sets_of_reads {a b : Json} (hsets : SetsPorts enabled numports a)
    (hreads : ReadsPorts enabled numports b) : b ≠ a := by
  rintro rfl
  obtain ⟨descr, hparse⟩ := hsets
  obtain ⟨st, hread, -, hflag⟩ := parseImplementation_eq_ok_iff.mp hparse
  obtain ⟨st', hread', hreads⟩ := hreads
  obtain rfl : st = st' := Except.ok.inj (hread.symm.trans hread')
  simp_all [readsPorts]

theorem exists_perm_of_mem_of_ne {α : Type} {a b : α} {l : List α} (ha : a ∈ l) (hb : b ∈ l)
    (hne : b ≠ a) : ∃ rest, (a :: b :: rest).Perm l := by
  obtain ⟨s, t, rfl⟩ := List.append_of_mem ha
  have hb : b ∈ s ++ t := (List.mem_cons.mp (List.perm_middle.mem_iff.mp hb)).resolve_left hne
  obtain ⟨s', t', hst⟩ := List.append_of_mem hb
  refine ⟨s' ++ t', List.Perm.trans ?_ List.perm_middle.symm⟩
  rw [hst]
  exact List.perm_middle.symm.cons a

theorem independent_iff (enabled : Enabled) (nfName : String) (answer : Json.Object) (numports : Nat)
    (impls : List Json) (hnports : parseNports answer = .ok numports)
    (himpls : answer["implementations"]? = some (.arr impls)) :
    Independent enabled nfName answer numports impls ↔ PortsApart enabled numports impls := by
  constructor
  · intro h a ha hsets b hb hreads
    obtain ⟨rest, hperm⟩ := exists_perm_of_mem_of_ne ha hb (ne_of_sets_of_reads hsets hreads)
    obtain ⟨descr, hparse⟩ := hsets
    have hflag : flagAfter enabled numports [a] = .ok true := by
      simp [flagAfter, hparse, Except.map]
    exact outcome_true_eq_iff.mp (h.round [a] b rest hperm true hflag) hreads
  · intro happart
    refine ⟨?_, fun value _ descr => describes_of_outcome,
      fun impls' hperm descrs => parseAnswer_permuted hnports himpls happart hperm⟩
    intro before value after hperm flag hflag
    refine outcome_of_unread fun hset => ?_
    subst hset
    obtain ⟨a, ha, hsets⟩ := exists_setsPorts hflag
    exact happart.perm hperm a (List.mem_append_left _ ha) hsets value (by simp)

theorem independent_iff_two_containers :
    Independent {} "firewall" (firewall [.docker "a", .docker "b"]).toJSON 1
        ([.docker "a", .docker "b"].map NameResolver.Implementation.toJSON) ↔
      PortsApart {} 1 ([.docker "a", .docker "b"].map NameResolver.Implementation.toJSON) :=
  independent_iff {} "firewall" _ 1 _ (by rfl) (by rfl)

/-- The ports of the descriptions that are made of an answer. -/
def portsOfAnswer (enabled : Enabled) (nf : NameResolver.NF) : Option (List (List Nat)) :=
  (parseAnswer enabled nf.name nf.toJSON).toOption.map fun descrs =>
    descrs.map fun descr => descr.portTypes.keys

/-- A container that comes after a virtual machine has no ports. Before the machine it has the
port of the function. -/
theorem ports_lost_after_kvm :
    portsOfAnswer {} (firewall [.kvm "vm" [(1, "vhost")], .docker "image"]) = some [[1], []] ∧
      portsOfAnswer {} (firewall [.docker "image", .kvm "vm" [(1, "vhost")]]) = some [[1], [1]] := by
  decide +kernel

end Answer

end UnOrchestrator
