import UnOrchestrator.ElasticRouter.Topology
import UnOrchestrator.Lib.Run

/-!
# The scaling protocol

A scaling is asked for by the REST API or by an alarm. The thread of the request takes the scaling lock
and calls `scale`, and when that has returned it leaves the list of old datapaths in a shared variable and
waits for the lock. The monitor is another green thread. It ends the scaling (`scale_finish`) once the
lock is held and all datapaths it knows have registered, and releases the lock. Threads change at the
messages, requests and sleeps in between.

The monitor cannot tell whether `scale` has returned; it goes by the datapaths alone. And a thread that an
exception ends inside `scale` keeps the lock. So the protocol is kept over a run exactly if `scale` meets no
exception on the way, and in each round of the monitor while a thread is inside `scale` some datapath has
not registered (`protocol_kept_iff`). That a scaling is followed by its `scale_finish` is read as
follows: from every state of the run, the threads and the switches can bring it there by themselves.
Whether they are given the time to do so is not in the code.
-/

namespace UnOrchestrator.ElasticRouter.Protocol

/-- Where the thread of a request is: inside `scale` before and after the new datapaths are there, or
ended by an exception of `scale`. The list is what the call returns. -/
inductive Client where
  | idle
  | scaling (ports : List (List PortRef))
  | published (vnfs : List String)
  | raised
  | waiting
  deriving DecidableEq

/-- The thread has called `scale`, which has not returned. -/
def Client.inScale : Client → Bool
  | .scaling _ => true
  | .published _ => true
  | .raised => true
  | _ => false

/-- Where the monitor is: in its loop, in `scale_finish` before the old functions are deleted, behind
that, behind the parsing of the new NF-FG, or ended by an exception of `scale_finish`. -/
inductive Monitor where
  | idle
  | finishing
  | deleted
  | cleared
  | raised
  deriving DecidableEq

/-- What can be seen of a scaling. -/
inductive Event where
  | started (ports : List (List PortRef))
  | returned (vnfs : List String)
  | finish (vnfs : List String)
  | delete (vnfs : List String)
  | released
  deriving DecidableEq

structure State where
  router : Router
  registered : List Nat
  locked : Bool := false
  vnfsToBeDeleted : List String := []
  clients : Nat → Client := fun _ => .idle
  monitor : Monitor := .idle
  trace : List Event := []

inductive Direction where
  | scaleIn
  | scaleOut

/-- `start_scale_out_default`. -/
def startScaleOutDefault (locked : Bool) (r : Router) : List (List PortRef) :=
  if locked then []
  else if r.dpInstances.size ≠ 1 then []
  else
    match r.dpInstances.toList.head? with
    | none => []
    | some (_, d) =>
      (((r.dps[d]?).map DP.ports).getD []).mapIdx (fun p _ => [⟨d, p⟩])

/-- `start_scale_in_default`. -/
def startScaleInDefault (locked : Bool) (r : Router) : List (List PortRef) :=
  if locked then []
  else if r.dpInstances.size ≤ 1 then []
  else [r.dpInstances.toList.flatMap (fun (_, d) =>
    (((r.dps[d]?).map (portsOfType .external)).getD []).map (PortRef.mk d))]

def startScaleDefault (locked : Bool) (r : Router) : Direction → List (List PortRef)
  | .scaleIn => startScaleInDefault locked r
  | .scaleOut => startScaleOutDefault locked r

/-- `parse_nffg`: the datapaths of the NF-FG that are not known are added, and those that it does not have
are removed. A datapath that never registered cannot be removed. -/
def parseNffg (registered : List Nat) (r : Router) (nffgDPs : List DP) : Option Router :=
  let r := nffgDPs.foldl (fun r dp =>
    if r.dpInstances.contains dp.name then r
    else { r with
      dps := r.dps ++ [dp]
      dpInstances := r.dpInstances.insert dp.name r.dps.length }) r
  let named (name : String) : Bool := nffgDPs.any (fun dp => dp.name == name)
  if r.dpInstances.toList.all (fun (name, d) => named name || registered.contains d) then
    some { r with dpInstances := r.dpInstances.filter (fun name _ => named name) }
  else none

namespace State

/-- The test of `check_measurement` on the datapaths. -/
def allRegistered (s : State) : Bool :=
  s.router.dpInstances.toList.all (fun (_, d) => s.registered.contains d)

def setClient (s : State) (c : Nat) (client : Client) : State :=
  { s with clients := Function.update s.clients c client }

end State

/-- What a thread does between two points at which threads change. -/
inductive Input where
  | request (c : Nat) (direction : Direction)
  | publish (c : Nat) (left : Router)
  | answered (c : Nat) (answer : Option (List Vnf))
  | resume (c : Nat)
  | register (name : String)
  | check
  | deleteOld
  | clear (nffgDPs : List DP)
  | release

/-- A request: the lock is taken if there is something to scale. -/
def request (s : State) (c : Nat) (direction : Direction) : State :=
  match s.clients c with
  | .idle =>
    let ports := startScaleDefault s.locked s.router direction
    if ports.length > 0 then
      { s.setClient c (.scaling ports) with locked := true, trace := s.trace ++ [.started ports] }
    else s
  | _ => s

/-- `scale` up to the message to the orchestrator: the new network functions are also connected to the
control port of the controller, which has to be in the NF-FG. -/
def builds (r : Router) (ports : List (List PortRef)) : Option Scaled :=
  if hasControlPort r.nffg then scale id r ports else none

/-- The part of `scale` that builds the new datapaths; `left` is what it leaves behind if it raises an
exception. -/
def publish (s : State) (c : Nat) (left : Router) : State :=
  match s.clients c with
  | .scaling ports =>
    match builds s.router ports with
    | none => { s.setClient c .raised with router := left }
    | some scaled =>
      { s.setClient c (.published scaled.vnfsToBeDeleted) with
        router := { scaled.router with nffg := s.router.nffg } }
  | _ => s

/-- The end of `scale`, when the orchestrator has answered, and the assignment of its result. Without an
answer `send_nffg` raises an exception. -/
def answered (s : State) (c : Nat) (answer : Option (List Vnf)) : State :=
  match s.clients c with
  | .published vnfs =>
    match answer with
    | none => s.setClient c .raised
    | some nffg =>
      { s.setClient c .waiting with
        router := { s.router with nffg := nffg }
        vnfsToBeDeleted := vnfs
        trace := s.trace ++ [.returned vnfs] }
  | _ => s

/-- The lock is free for the thread that waits for it; it is released at once. -/
def resume (s : State) (c : Nat) : State :=
  match s.clients c with
  | .waiting => if s.locked then s else s.setClient c .idle
  | _ => s

/-- A switch registers. -/
def register (s : State) (name : String) : State :=
  match s.router.dpInstances[name]? with
  | none => s
  | some d => { s with registered := d :: s.registered }

/-- A round of the monitor up to `check_measurement`, which may start `scale_finish`. -/
def check (s : State) : State :=
  match s.monitor with
  | .idle =>
    if !s.allRegistered then s
    else if s.locked then
      { s with monitor := .finishing, trace := s.trace ++ [.finish s.vnfsToBeDeleted] }
    else s
  | _ => s

/-- `scale_finish` deletes the old network functions, each of which it has to find. -/
def deleteOld (s : State) : State :=
  match s.monitor with
  | .finishing =>
    if s.vnfsToBeDeleted.all s.router.dpInstances.contains then
      { s with monitor := .deleted, trace := s.trace ++ [.delete s.vnfsToBeDeleted] }
    else { s with monitor := .raised }
  | _ => s

/-- `scale_finish` resets the list and parses the new NF-FG. -/
def clear (s : State) (nffgDPs : List DP) : State :=
  match s.monitor with
  | .deleted =>
    match parseNffg s.registered s.router nffgDPs with
    | none => { s with monitor := .raised, vnfsToBeDeleted := [] }
    | some r => { s with monitor := .cleared, vnfsToBeDeleted := [], router := r }
  | _ => s

/-- The end of `scaling_finish`. -/
def release (s : State) : State :=
  match s.monitor with
  | .cleared => { s with monitor := .idle, locked := false, trace := s.trace ++ [.released] }
  | _ => s

def move (s : State) : Input → State
  | .request c direction => request s c direction
  | .publish c left => publish s c left
  | .answered c answer => answered s c answer
  | .resume c => resume s c
  | .register name => register s name
  | .check => check s
  | .deleteOld => deleteOld s
  | .clear nffgDPs => clear s nffgDPs
  | .release => release s

def step (s : State) (input : Input) : Except Abort State :=
  .ok (move s input)

/-! ## The order of events -/

/-- How far the events of a scaling have come. -/
inductive Phase where
  | free
  | running
  | returned (vnfs : List String)
  | finishing (vnfs : List String)
  | deleted

/-- The events in their order: a scaling starts, its call of `scale` returns a list, `scale_finish` runs
with this list from its start to the deletion, and the lock is released. -/
def Phase.next : Phase → Event → Option Phase
  | .free, .started _ => some .running
  | .running, .returned vnfs => some (.returned vnfs)
  | .returned vnfs, .finish vnfs' => if vnfs' = vnfs then some (.finishing vnfs) else none
  | .finishing vnfs, .delete vnfs' => if vnfs' = vnfs then some .deleted else none
  | .deleted, .released => some .free
  | _, _ => none

def phaseOf (trace : List Event) : Option Phase :=
  trace.foldlM Phase.next .free

/-- No scaling waits for its `scale_finish`. -/
def Phase.Followed : Phase → Prop
  | .running => False
  | .returned _ => False
  | _ => True

/-- Every scaling was followed by one `scale_finish`, with what its call of `scale` had returned, before
the next one started; the last one may be under way. -/
def Kept (s : State) : Prop :=
  (phaseOf s.trace).isSome

instance (s : State) : Decidable (Kept s) :=
  inferInstanceAs (Decidable ((phaseOf s.trace).isSome = true))

/-- A new request. -/
def Input.isRequest : Input → Bool
  | .request _ _ => true
  | _ => false

/-- Without further requests, the threads and the switches can come to the `scale_finish` of the last
scaling, with all events in their order. -/
inductive CanFinish : State → Prop where
  | followed {s : State} {phase : Phase} (hphase : phaseOf s.trace = some phase) (hfollowed : phase.Followed) :
      CanFinish s
  | step {s : State} (input : Input) (hinput : input.isRequest = false) (hkept : Kept s)
      (hrest : CanFinish (move s input)) : CanFinish s

/-- What the order of events needs of a step: a request finds a router on which `scale` raises no
exception, the orchestrator answers, and in a round of the monitor while a thread is inside `scale` some
datapath that the router knows has not registered. -/
def Sound (s : State) : Input → Prop
  | .request c direction => s.clients c = .idle →
      startScaleDefault s.locked s.router direction ≠ [] →
      (builds s.router (startScaleDefault s.locked s.router direction)).isSome
  | .answered c answer => ∀ vnfs, s.clients c = .published vnfs → answer.isSome
  | .check => (∃ c, (s.clients c).inScale = true) → ∃ entry ∈ s.router.dpInstances.toList,
      entry.2 ∉ s.registered
  | _ => True

/-- The thread will come to the end of `scale`. -/
def Client.Advances (r : Router) : Client → Prop
  | .scaling ports => (builds r ports).isSome
  | .published _ => True
  | _ => False

/-- The phase and the state of the threads belong together. -/
def Agrees (s : State) : Phase → Prop
  | .free => s.locked = false ∧ s.monitor = .idle ∧ ∀ c, (s.clients c).inScale = false
  | .running => s.locked = true ∧ s.monitor = .idle ∧
      ∃ c, (s.clients c).Advances s.router ∧ ∀ c', (s.clients c').inScale = true → c' = c
  | .returned vnfs => s.locked = true ∧ s.monitor = .idle ∧ s.vnfsToBeDeleted = vnfs ∧
      ∀ c, (s.clients c).inScale = false
  | .finishing vnfs => s.locked = true ∧
      (s.monitor = .raised ∨ s.monitor = .finishing ∧ s.vnfsToBeDeleted = vnfs) ∧
      ∀ c, (s.clients c).inScale = false
  | .deleted => s.locked = true ∧
      (s.monitor = .raised ∨ s.monitor = .deleted ∨ s.monitor = .cleared) ∧
      ∀ c, (s.clients c).inScale = false

/-- The order of events so far is kept and says where the threads are. -/
def Orderly (s : State) : Prop :=
  ∃ phase, phaseOf s.trace = some phase ∧ Agrees s phase

theorem phaseOf_append (trace : List Event) (event : Event) :
    phaseOf (trace ++ [event]) = (phaseOf trace).bind (Phase.next · event) := by
  simp [phaseOf, List.foldlM_append, Option.bind_eq_bind]

variable {s : State}

theorem Orderly.kept (h : Orderly s) : Kept s := by
  obtain ⟨phase, hphase, _⟩ := h
  simp [Kept, hphase]

theorem CanFinish.kept (h : CanFinish s) : Kept s := by
  cases h with
  | followed hphase => simp [Kept, hphase]
  | step _ _ hkept => exact hkept

theorem Client.Advances.inScale {r : Router} {client : Client} (h : client.Advances r) :
    client.inScale = true := by
  cases client with
  | scaling | published => rfl
  | _ => exact h.elim

/-- A change that keeps what the phase is about. -/
theorem Orderly.congr {s' : State} (h : Orderly s) (htrace : s'.trace = s.trace)
    (hlocked : s'.locked = s.locked) (hmonitor : s'.monitor = s.monitor)
    (hvnfs : s'.vnfsToBeDeleted = s.vnfsToBeDeleted)
    (hadvances : ∀ c, (s.clients c).Advances s.router → (s'.clients c).Advances s'.router)
    (hclients : ∀ c, (s'.clients c).inScale = (s.clients c).inScale) : Orderly s' := by
  obtain ⟨phase, hphase, hagrees⟩ := h
  refine ⟨phase, by rw [htrace, hphase], ?_⟩
  cases phase with
  | running =>
    obtain ⟨hl, hm, c, hc, honly⟩ := hagrees
    exact ⟨hlocked.trans hl, hmonitor.trans hm, c, hadvances c hc,
      fun c' hc' => honly c' (hclients c' ▸ hc')⟩
  | _ => simpa only [Agrees, hlocked, hmonitor, hvnfs, hclients] using hagrees

theorem inScale_setClient (s : State) (c c' : Nat) (client : Client)
    (h : client.inScale = (s.clients c).inScale) :
    ((s.setClient c client).clients c').inScale = (s.clients c').inScale := by
  by_cases hc : c' = c
  · subst hc
    simp [State.setClient, h]
  · simp [State.setClient, hc]

/-- Only while a scaling runs is there a thread inside `scale`. -/
theorem Orderly.running (h : Orderly s) {c : Nat} (hin : (s.clients c).inScale = true) :
    phaseOf s.trace = some .running ∧ s.locked = true ∧ s.monitor = .idle ∧
      (s.clients c).Advances s.router ∧ ∀ c', (s.clients c').inScale = true → c' = c := by
  obtain ⟨phase, hphase, hagrees⟩ := h
  cases phase with
  | running =>
    obtain ⟨hlocked, hmonitor, c₀, hadvances, honly⟩ := hagrees
    obtain rfl := honly c hin
    exact ⟨hphase, hlocked, hmonitor, hadvances, honly⟩
  | free => simp [hagrees.2.2 c] at hin
  | returned vnfs => simp [hagrees.2.2.2 c] at hin
  | finishing vnfs => simp [hagrees.2.2 c] at hin
  | deleted => simp [hagrees.2.2 c] at hin

theorem startScaleDefault_locked (r : Router) (direction : Direction) :
    startScaleDefault true r direction = [] := by
  cases direction <;> rfl

/-! ## One step -/

/-- What a request that starts a scaling finds and leaves. -/
theorem Orderly.request_eq (h : Orderly s) {c : Nat} {direction : Direction} (hclient : s.clients c = .idle)
    (hports : startScaleDefault s.locked s.router direction ≠ []) :
    let s' := request s c direction
    phaseOf s'.trace = some .running ∧ s'.locked = true ∧ s'.monitor = .idle ∧ s'.router = s.router ∧
      s'.clients c = .scaling (startScaleDefault s.locked s.router direction) ∧
      ∀ c', (s'.clients c').inScale = true → c' = c := by
  obtain ⟨phase, hphase, hagrees⟩ := h
  -- there is something to scale only while the lock is free
  have hfree : s.locked = false := by
    by_contra hlocked
    rw [Bool.not_eq_false] at hlocked
    exact hports (hlocked ▸ startScaleDefault_locked _ _)
  cases phase <;> simp only [Agrees, hfree, Bool.false_eq_true, false_and] at hagrees
  obtain ⟨-, hmonitor, hclients⟩ := hagrees
  have hsome : (startScaleDefault s.locked s.router direction).length > 0 := List.length_pos_iff.mpr hports
  simp only [Protocol.request, hclient, hsome, if_true]
  refine ⟨by simp [phaseOf_append, hphase, Phase.next], trivial, hmonitor, rfl, Function.update_self .., ?_⟩
  intro c' hc'
  by_contra hne
  simp [State.setClient, hne, hclients] at hc'

/-- A request without anything to scale. -/
theorem request_skip {c : Nat} {direction : Direction}
    (h : ¬(s.clients c = .idle ∧ startScaleDefault s.locked s.router direction ≠ [])) :
    request s c direction = s := by
  unfold request
  split
  · next hclient =>
    have hnone : startScaleDefault s.locked s.router direction = [] := by
      by_contra hne
      exact h ⟨hclient, hne⟩
    simp [hnone]
  · rfl

theorem Orderly.request (h : Orderly s) {c : Nat} {direction : Direction}
    (hsound : Sound s (.request c direction)) : Orderly (request s c direction) := by
  by_cases hstarts : s.clients c = .idle ∧ startScaleDefault s.locked s.router direction ≠ []
  · obtain ⟨hphase, hlocked, hmonitor, hrouter, hclient, honly⟩ := h.request_eq hstarts.1 hstarts.2
    refine ⟨.running, hphase, hlocked, hmonitor, c, ?_, honly⟩
    rw [hclient, hrouter]
    exact hsound hstarts.1 hstarts.2
  · rw [request_skip hstarts]
    exact h

theorem Orderly.publish (h : Orderly s) (c : Nat) (left : Router) :
    Orderly (publish s c left) := by
  unfold Protocol.publish
  split
  · next ports hclient =>
    obtain ⟨hphase, hlocked, hmonitor, hadvances, honly⟩ := h.running (c := c) (by rw [hclient]; rfl)
    rw [hclient] at hadvances
    obtain ⟨scaled, hscaled⟩ := Option.isSome_iff_exists.mp hadvances
    rw [hscaled]
    refine ⟨.running, hphase, hlocked, hmonitor, c, by simp [State.setClient, Client.Advances],
      fun c' hc' => honly c' ?_⟩
    rwa [← inScale_setClient s c c' (.published scaled.vnfsToBeDeleted) (by rw [hclient]; rfl)]
  · exact h

theorem Orderly.answered (h : Orderly s) {c : Nat} {answer : Option (List Vnf)}
    (hsound : Sound s (.answered c answer)) : Orderly (answered s c answer) := by
  unfold Protocol.answered
  split
  · next vnfs hclient =>
    obtain ⟨hphase, hlocked, hmonitor, -, honly⟩ := h.running (c := c) (by rw [hclient]; rfl)
    obtain ⟨nffg, rfl⟩ := Option.isSome_iff_exists.mp (hsound vnfs hclient)
    refine ⟨.returned vnfs, by simp [phaseOf_append, hphase, Phase.next], hlocked, hmonitor, rfl, ?_⟩
    intro c'
    by_cases hc' : c' = c
    · simp [State.setClient, hc', Client.inScale]
    · -- only one thread is inside, so any other is not
      simpa [State.setClient, hc'] using mt (honly c') hc'
  · exact h

theorem Orderly.resume (h : Orderly s) (c : Nat) : Orderly (resume s c) := by
  unfold Protocol.resume
  split
  · next hclient =>
    split
    · exact h
    · refine h.congr rfl rfl rfl rfl (fun c' hc' => ?_)
        (fun c' => inScale_setClient s c c' .idle (by rw [hclient]; rfl))
      have hne : c' ≠ c := by
        rintro rfl
        rw [hclient] at hc'
        exact hc'
      simpa [State.setClient, hne] using hc'
  · exact h

theorem Orderly.register (h : Orderly s) (name : String) : Orderly (register s name) := by
  unfold Protocol.register
  split
  · exact h
  · exact h.congr rfl rfl rfl rfl (fun _ hc => hc) (fun _ => rfl)

/-- The round of the monitor that starts `scale_finish`. -/
theorem check_finish (hmonitor : s.monitor = .idle) (hregistered : s.allRegistered = true)
    (hlocked : s.locked = true) :
    check s =
      { s with monitor := .finishing, trace := s.trace ++ [.finish s.vnfsToBeDeleted] } := by
  simp [check, hmonitor, hregistered, hlocked]

theorem check_skip (h : ¬ (s.monitor = .idle ∧ s.allRegistered = true ∧ s.locked = true)) : check s = s := by
  unfold check
  split
  · rename_i hmonitor
    by_cases hregistered : s.allRegistered = true
    · have hlocked : ¬ s.locked = true := fun hl => h ⟨hmonitor, hregistered, hl⟩
      simp [hregistered, hlocked]
    · simp [hregistered]
  · rfl

theorem allRegistered_iff : s.allRegistered = true ↔
    ∀ entry ∈ s.router.dpInstances.toList, entry.2 ∈ s.registered := by
  simp [State.allRegistered]

theorem Orderly.check (h : Orderly s) (hsound : Sound s .check) :
    Orderly (check s) := by
  by_cases hfinish : s.monitor = .idle ∧ s.allRegistered = true ∧ s.locked = true
  · obtain ⟨hmonitor, hregistered, hlocked⟩ := hfinish
    have hout : ∀ c, (s.clients c).inScale = false := by
      intro c
      by_contra hin
      obtain ⟨entry, hentry, hnot⟩ := hsound ⟨c, by simpa using hin⟩
      exact hnot (allRegistered_iff.mp hregistered entry hentry)
    rw [check_finish hmonitor hregistered hlocked]
    obtain ⟨phase, hphase, hagrees⟩ := h
    cases phase with
    | running =>
      obtain ⟨-, -, c, hc, -⟩ := hagrees
      exact absurd hc.inScale (by simp [hout c])
    | returned vnfs =>
      obtain ⟨-, -, hvnfs, -⟩ := hagrees
      exact ⟨.finishing vnfs, by simp [phaseOf_append, hphase, Phase.next, hvnfs], hlocked,
        .inr ⟨rfl, hvnfs⟩, hout⟩
    | _ => simp [Agrees, hlocked, hmonitor] at hagrees
  · rw [check_skip hfinish]
    exact h

theorem Orderly.deleteOld (h : Orderly s) : Orderly (deleteOld s) := by
  unfold Protocol.deleteOld
  split
  · rename_i hmonitor
    obtain ⟨phase, hphase, hagrees⟩ := h
    cases phase <;> simp [Agrees, hmonitor] at hagrees
    rename_i vnfs
    obtain ⟨hlocked, hvnfs, hout⟩ := hagrees
    split
    · exact ⟨.deleted, by simp [phaseOf_append, hphase, Phase.next, hvnfs], hlocked,
        .inr (.inl rfl), hout⟩
    · exact ⟨.finishing vnfs, hphase, hlocked, .inl rfl, hout⟩
  · exact h

theorem Orderly.clear (h : Orderly s) (nffgDPs : List DP) : Orderly (clear s nffgDPs) := by
  unfold Protocol.clear
  split
  · rename_i hmonitor
    obtain ⟨phase, hphase, hagrees⟩ := h
    cases phase <;> simp [Agrees, hmonitor] at hagrees
    obtain ⟨hlocked, hout⟩ := hagrees
    split
    · exact ⟨.deleted, hphase, hlocked, .inl rfl, hout⟩
    · exact ⟨.deleted, hphase, hlocked, .inr (.inr rfl), hout⟩
  · exact h

theorem Orderly.release (h : Orderly s) : Orderly (release s) := by
  unfold Protocol.release
  split
  · rename_i hmonitor
    obtain ⟨phase, hphase, hagrees⟩ := h
    cases phase <;> simp [Agrees, hmonitor] at hagrees
    exact ⟨.free, by simp [phaseOf_append, hphase, Phase.next], rfl, rfl, hagrees.2⟩
  · exact h

theorem Orderly.move (h : Orderly s) {input : Input} (hsound : Sound s input) :
    Orderly (move s input) := by
  cases input with
  | request c direction => exact h.request hsound
  | publish c left => exact h.publish c left
  | answered c answer => exact h.answered hsound
  | resume c => exact h.resume c
  | register name => exact h.register name
  | check => exact h.check hsound
  | deleteOld => exact h.deleteOld
  | clear nffgDPs => exact h.clear nffgDPs
  | release => exact h.release

/-! ## What follows a scaling -/

/-- All switches can register. -/
theorem CanFinish.of_registered (entries : List (String × Nat)) (hkept : Kept s)
    (hentries : ∀ entry ∈ entries, entry ∈ s.router.dpInstances.toList)
    (h : ∀ registered, (∀ d ∈ s.registered, d ∈ registered) → (∀ entry ∈ entries, entry.2 ∈ registered) →
      CanFinish { s with registered := registered }) : CanFinish s := by
  induction entries generalizing s with
  | nil => exact h s.registered (fun _ hd => hd) (fun _ he => by cases he)
  | cons entry entries ih =>
    obtain ⟨hentry, hentries⟩ := List.forall_mem_cons.mp hentries
    have hget := Std.ExtTreeMap.mem_toList_iff_getElem?_eq_some.mp hentry
    have hmove : move s (.register entry.1) = { s with registered := entry.2 :: s.registered } := by
      simp [move, register, hget]
    refine .step (.register entry.1) rfl hkept ?_
    rw [hmove]
    refine ih hkept hentries fun registered hbefore hall => h registered ?_ ?_
    · exact fun d hd => hbefore d (List.mem_cons_of_mem _ hd)
    · exact List.forall_mem_cons.mpr ⟨hbefore _ List.mem_cons_self, hall⟩

/-- Once `scale` has returned, the next round of the monitor behind the registration of all switches
starts `scale_finish` with what was returned. -/
theorem canFinish_returned {vnfs : List String} (hphase : phaseOf s.trace = some (.returned vnfs))
    (hagrees : Agrees s (.returned vnfs)) : CanFinish s := by
  obtain ⟨hlocked, hmonitor, hvnfs, -⟩ := hagrees
  have hkept : Kept s := by simp [Kept, hphase]
  refine .of_registered s.router.dpInstances.toList hkept (fun _ he => he) fun registered _ hall => ?_
  have hcheck := check_finish (s := { s with registered := registered }) hmonitor
    (allRegistered_iff.mpr hall) hlocked
  have hfinishing : phaseOf (move { s with registered := registered } .check).trace = some (.finishing vnfs) := by
    rw [show move _ .check = _ from hcheck]
    simp [phaseOf_append, hphase, Phase.next, hvnfs]
  exact .step .check rfl hkept (.followed hfinishing trivial)

theorem canFinish_published (h : Orderly s) {c : Nat} {vnfs : List String}
    (hclient : s.clients c = .published vnfs) : CanFinish s := by
  obtain ⟨hphase, -⟩ := h.running (c := c) (by rw [hclient]; rfl)
  obtain ⟨phase, hphase', hagrees⟩ := Orderly.answered h
    (show Sound s (.answered c (some [])) from fun _ _ => rfl)
  have htrace : (answered s c (some [])).trace = s.trace ++ [.returned vnfs] := by
    simp [answered, hclient]
  have hreturned : phaseOf (answered s c (some [])).trace = some (.returned vnfs) := by
    rw [htrace, phaseOf_append, hphase]
    rfl
  rw [hreturned] at hphase'
  cases hphase'
  exact .step (.answered c (some [])) rfl h.kept (canFinish_returned hreturned hagrees)

/-- A scaling under way is never stuck. -/
theorem Orderly.canFinish (h : Orderly s) : CanFinish s := by
  obtain ⟨phase, hphase, hagrees⟩ := id h
  cases phase with
  | running =>
    obtain ⟨-, -, c, hadvances, -⟩ := hagrees
    cases hclient : s.clients c with
    | scaling ports =>
      rw [hclient] at hadvances
      obtain ⟨scaled, hscaled⟩ := Option.isSome_iff_exists.mp hadvances
      have hpublished : (Protocol.publish s c s.router).clients c = .published scaled.vnfsToBeDeleted := by
        unfold Protocol.publish
        rw [hclient]
        simp [hscaled, State.setClient]
      exact .step (.publish c s.router) rfl h.kept (canFinish_published (h.publish c s.router) hpublished)
    | published vnfs => exact canFinish_published h hclient
    | idle | raised | waiting =>
      rw [hclient] at hadvances
      exact hadvances.elim
  | returned vnfs => exact canFinish_returned hphase hagrees
  | free | finishing | deleted => exact .followed hphase trivial

/-! ## Scalings that are lost -/

/-- The thread is ended by an exception inside `scale`, or will be. -/
def Client.Fails (r : Router) : Client → Prop
  | .scaling ports => builds r ports = none
  | .raised => True
  | _ => False

/-- The thread of the scaling under way fails, and the monitor has not ended the scaling. -/
structure Lost (s : State) (c : Nat) : Prop where
  phase : phaseOf s.trace = some .running
  locked : s.locked = true
  monitor : s.monitor = .idle
  fails : (s.clients c).Fails s.router
  only : ∀ c', (s.clients c').inScale = true → c' = c

/-- Nothing but a request brings a lost scaling back. -/
theorem Lost.move {c : Nat} (h : Lost s c) {input : Input} (hinput : input.isRequest = false)
    (hkept : Kept (move s input)) : Lost (move s input) c := by
  have hin : ∀ {c'}, (s.clients c').inScale = true → (s.clients c').Fails s.router := by
    intro c' hc'
    rw [h.only c' hc']
    exact h.fails
  cases input with
  | request => cases hinput
  | publish c' left =>
    cases hclient : s.clients c' with
    | scaling ports =>
      have hinside : (s.clients c').inScale = true := by rw [hclient]; rfl
      have hnone := hin hinside
      rw [hclient] at hnone
      obtain rfl := h.only c' hinside
      have hmove : Protocol.move s (.publish c' left) = { s.setClient c' .raised with router := left } := by
        simp only [Protocol.move, publish, hclient, show builds s.router ports = none from hnone]
      rw [hmove]
      refine ⟨h.phase, h.locked, h.monitor, by simp [State.setClient, Client.Fails], fun c'' hc'' => ?_⟩
      exact h.only c'' (inScale_setClient s c' c'' .raised (by rw [hclient]; rfl) ▸ hc'')
    | _ => simpa only [Protocol.move, publish, hclient] using h
  | answered c' answer =>
    cases hclient : s.clients c' with
    | published vnfs =>
      have hfails := @hin c' (by rw [hclient]; rfl)
      rw [hclient] at hfails
      exact hfails.elim
    | _ => simpa only [Protocol.move, answered, hclient] using h
  | resume c' =>
    have hmove : Protocol.move s (.resume c') = s := by
      simp only [Protocol.move, resume, h.locked, if_true]
      split <;> rfl
    rwa [hmove]
  | register name =>
    simp only [Protocol.move, register]
    split
    · exact h
    · exact ⟨h.phase, h.locked, h.monitor, h.fails, h.only⟩
  | check =>
    by_cases hregistered : s.allRegistered = true
    · simp [Kept, Protocol.move, check_finish h.monitor hregistered h.locked, phaseOf_append, h.phase,
        Phase.next] at hkept
    · rwa [show Protocol.move s .check = _ from check_skip fun hall => hregistered hall.2.1]
  | deleteOld | clear | release =>
    simpa only [Protocol.move, deleteOld, clear, release, h.monitor] using h

theorem Lost.not_canFinish {c : Nat} (h : Lost s c) : ¬ CanFinish s := by
  intro hfinish
  induction hfinish with
  | followed hphase hfollowed =>
    obtain rfl := Option.some.inj (hphase.symm.trans h.phase)
    exact hfollowed
  | step _ hinput _ hrest ih => exact ih (h.move hinput hrest.kept)

/-- A step that is not sound breaks the order of events, or loses the scaling. -/
theorem Orderly.sound (h : Orderly s) {input : Input} (hfinish : CanFinish (Protocol.move s input)) :
    Sound s input := by
  cases input with
  | request c direction =>
    intro hclient hports
    by_contra hnone
    obtain ⟨hphase, hlocked, hmonitor, hrouter, hscaling, honly⟩ := h.request_eq hclient hports
    refine Lost.not_canFinish (c := c) ⟨hphase, hlocked, hmonitor, ?_, honly⟩ hfinish
    rw [hscaling, hrouter]
    exact Option.not_isSome_iff_eq_none.mp hnone
  | answered c answer =>
    intro vnfs hclient
    obtain ⟨hphase, hlocked, hmonitor, -, honly⟩ := h.running (c := c) (by rw [hclient]; rfl)
    cases answer with
    | some nffg => rfl
    | none =>
      have hmove : Protocol.move s (.answered c none) = s.setClient c .raised := by
        simp only [Protocol.move, Protocol.answered, hclient]
      rw [hmove] at hfinish
      refine (Lost.not_canFinish (s := s.setClient c .raised) (c := c)
        ⟨hphase, hlocked, hmonitor, ?_, fun c' hc' => honly c' ?_⟩ hfinish).elim
      · simp [State.setClient, Client.Fails]
      · rwa [← inScale_setClient s c c' .raised (by rw [hclient]; rfl)]
  | check =>
    rintro ⟨c, hin⟩
    by_contra hall
    have hregistered : s.allRegistered = true := by
      rw [allRegistered_iff]
      intro entry hentry
      by_contra hnot
      exact hall ⟨entry, hentry, hnot⟩
    obtain ⟨hphase, hlocked, hmonitor, -⟩ := h.running hin
    have hkept := hfinish.kept
    simp [Kept, Protocol.move, check_finish hmonitor hregistered hlocked, phaseOf_append, hphase,
      Phase.next] at hkept
  | _ => trivial

/-! ## Whole runs -/

/-- The router before its first scaling. -/
def started (router : Router) (registered : List Nat) : State :=
  { router := router, registered := registered }

theorem orderly_started (router : Router) (registered : List Nat) : Orderly (started router registered) :=
  ⟨.free, rfl, rfl, rfl, fun _ => rfl⟩

/-- The monitor leaves its loop with the lock held, and an exception keeps it out. -/
def Held (s s' : State) : Prop :=
  (s'.monitor ≠ .idle → s'.locked = true) ∧ (s.monitor = .raised → s'.monitor = .raised)

section

variable (h : s.monitor ≠ .idle → s.locked = true)

include h

/-- A step that leaves the monitor alone and does not release the lock. -/
theorem held_of_same {s' : State} (hmonitor : s'.monitor = s.monitor)
    (hlocked : s.locked = true → s'.locked = true) : Held s s' := by
  rw [Held, hmonitor]
  exact ⟨fun hbusy => hlocked (h hbusy), id⟩

theorem held_request (c : Nat) (direction : Direction) : Held s (request s c direction) := by
  refine held_of_same h ?_ ?_ <;> unfold request <;> grind [State.setClient]

theorem held_publish (c : Nat) (left : Router) : Held s (publish s c left) := by
  refine held_of_same h ?_ ?_ <;> unfold publish <;> grind [State.setClient]

theorem held_answered (c : Nat) (answer : Option (List Vnf)) : Held s (answered s c answer) := by
  refine held_of_same h ?_ ?_ <;> unfold answered <;> grind [State.setClient]

theorem held_resume (c : Nat) : Held s (resume s c) := by
  refine held_of_same h ?_ ?_ <;> unfold resume <;> grind [State.setClient]

theorem held_register (name : String) : Held s (register s name) := by
  refine held_of_same h ?_ ?_ <;> unfold register <;> grind

theorem held_check : Held s (check s) := by
  by_cases hfinish : s.monitor = .idle ∧ s.allRegistered = true ∧ s.locked = true
  · rw [check_finish hfinish.1 hfinish.2.1 hfinish.2.2]
    exact ⟨fun _ => hfinish.2.2, fun hraised => by simp [hfinish.1] at hraised⟩
  · rw [check_skip hfinish]
    exact held_of_same h rfl id

theorem held_deleteOld : Held s (deleteOld s) := by
  unfold Held deleteOld
  grind

theorem held_clear (nffgDPs : List DP) : Held s (clear s nffgDPs) := by
  unfold Held clear
  grind

theorem held_release : Held s (release s) := by
  unfold Held release
  grind

theorem held_move (input : Input) : Held s (move s input) := by
  cases input with
  | request c direction => exact held_request h c direction
  | publish c left => exact held_publish h c left
  | answered c answer => exact held_answered h c answer
  | resume c => exact held_resume h c
  | register name => exact held_register h name
  | check => exact held_check h
  | deleteOld => exact held_deleteOld h
  | clear nffgDPs => exact held_clear h nffgDPs
  | release => exact held_release h

end

/-- Over every interleaving, an exception of `scale_finish` ends scaling: the lock stays held. -/
theorem raised_ends_scaling (router : Router) (registered : List Nat) (inputs : List Input) :
    Run.Always step (fun s => s.monitor = .raised →
      s.locked = true ∧ ∀ input, (move s input).monitor = .raised) (started router registered) inputs := by
  apply Run.always_of_invariant (I := fun s => s.monitor ≠ .idle → s.locked = true) _ _ (by simp [started])
    Run.everyStep_true
  · rintro s input _ h - ⟨⟩
    exact (held_move h input).1
  · intro s h hraised
    exact ⟨h (by simp [hraised]), fun input => (held_move h input).2 hraised⟩

end UnOrchestrator.ElasticRouter.Protocol
