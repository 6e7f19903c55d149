import Mathlib.Data.List.Basic
import Mathlib.Tactic.Common
import UnOrchestrator.Lib.Abort

/-!
# The body of a request

libmicrohttpd calls `RestServer::answer_to_connection` once when a request arrives, once for each chunk of
its body, and once more with no data. The chunks are gathered in a buffer of `REQ_SIZE` bytes, with
`strcpy` and without a look at the room that is left.

A body is gathered as it was sent if and only if it is shorter than the buffer and no chunk has a NUL byte
before its last one (`body_faithful_iff`); a longer one is not rejected but written over the end.
-/

namespace UnOrchestrator.Rest

inductive Method where
  | get
  | put
  | post
  | delete
  | other
  deriving DecidableEq, Repr

/-- `REQ_SIZE`. -/
def reqSize : Nat := 2 * 1024 * 1024

/-- `connection_info_struct`; the message is a buffer of `reqSize` bytes. -/
structure ConnectionInfo where
  message : Nat → UInt8
  length : Nat

/-- What a call of `answer_to_connection` ends with: it waits for the next call, or goes on with the
operation, or answers that the method is not implemented. -/
inductive Answer where
  | yes
  | doOperation (method : Method)
  | notImplemented
  deriving DecidableEq, Repr

/-- What `strcpy` copies before the terminator. -/
def text (uploadData : List UInt8) : List UInt8 := uploadData.takeWhile (· ≠ 0)

/-- A chunk, which a NUL byte follows, is copied behind the others with `strcpy`. -/
def ConnectionInfo.append (con : ConnectionInfo) (uploadData : List UInt8) : Except Abort ConnectionInfo :=
  if con.length + (text uploadData).length < reqSize then
    .ok { message := fun i => if con.length ≤ i ∧ i ≤ con.length + (text uploadData).length
            then (text uploadData).getD (i - con.length) 0 else con.message i
          length := con.length + uploadData.length }
  else .error .undefinedBehaviour

/-- The last call ends the message. -/
def ConnectionInfo.terminate (con : ConnectionInfo) : Except Abort ConnectionInfo :=
  if con.length < reqSize then .ok { con with message := Function.update con.message con.length 0 }
  else .error .undefinedBehaviour

/-- A call of `answer_to_connection` behind the first one. -/
def answerToConnection (method : Method) (con : ConnectionInfo) (uploadData : List UInt8) :
    Except Abort (ConnectionInfo × Answer) :=
  match method with
  | .get => .ok (con, .doOperation .get)
  | .other =>
    if uploadData.length ≠ 0 then do pure (← con.append uploadData, .yes)
    else do pure (← con.terminate, .notImplemented)
  | method =>
    if uploadData.length ≠ 0 then do pure (← con.append uploadData, .yes)
    else do pure (← con.terminate, .doOperation method)

/-- The calls for the chunks of a body and the last one, up to the first that answers. -/
def serve (method : Method) : ConnectionInfo → List (List UInt8) → Except Abort (ConnectionInfo × Answer)
  | con, [] => answerToConnection method con []
  | con, chunk :: chunks => do
    let (con, answer) ← answerToConnection method con chunk
    if answer = .yes then serve method con chunks else pure (con, answer)

/-- The buffer that `malloc` returned holds whatever was there. No call writes outside of it, and an
operation starts with the bytes that were sent. -/
def BodyFaithful (method : Method) (memory : Nat → UInt8) (chunks : List (List UInt8)) : Prop :=
  ∃ con answer, serve method ⟨memory, 0⟩ chunks = .ok (con, answer) ∧ ∀ m, answer = .doOperation m →
    con.length = chunks.flatten.length ∧ ∀ i, i < con.length → chunks.flatten[i]? = some (con.message i)

theorem length_text_le (chunk : List UInt8) : (text chunk).length ≤ chunk.length :=
  (List.takeWhile_prefix _).length_le

/-- The calls for a PUT or POST copy the chunks one by one. -/
theorem serve_eq {method : Method} (hmethod : method = .put ∨ method = .post)
    (chunks : List (List UInt8)) (hchunks : ∀ chunk ∈ chunks, chunk ≠ []) (con : ConnectionInfo) :
    serve method con chunks = (do
      let con ← chunks.foldlM ConnectionInfo.append con
      let con ← con.terminate
      pure (con, .doOperation method)) := by
  induction chunks generalizing con with
  | nil => rcases hmethod with rfl | rfl <;> rfl
  | cons chunk chunks ih =>
    have hcall : answerToConnection method con chunk = (do pure (← con.append chunk, .yes)) := by
      rcases hmethod with rfl | rfl <;> simp [answerToConnection, hchunks chunk List.mem_cons_self]
    rw [serve, hcall, List.foldlM_cons]
    cases con.append chunk with
    | error e => rfl
    | ok con' => exact ih (fun c hc => hchunks c (List.mem_cons_of_mem _ hc)) con'

/-- Behind the chunks the length has grown by theirs, and nothing was written before the place where they
start nor behind the place where they end. -/
theorem copied {con con' : ConnectionInfo} (chunks : List (List UInt8))
    (h : chunks.foldlM ConnectionInfo.append con = .ok con') :
    con'.length = con.length + chunks.flatten.length ∧
      ∀ i, i < con.length ∨ con'.length < i → con'.message i = con.message i := by
  induction chunks generalizing con with
  | nil =>
    cases h
    exact ⟨rfl, fun _ _ => rfl⟩
  | cons chunk chunks ih =>
    rw [List.foldlM_cons, Abort.bind_eq_ok] at h
    obtain ⟨con₁, hcopy, hrest⟩ := h
    obtain ⟨hlength, hframe⟩ := ih hrest
    have htext := length_text_le chunk
    rw [ConnectionInfo.append] at hcopy
    split at hcopy
    next =>
      cases hcopy
      simp only [List.flatten_cons, List.length_append] at hlength hframe ⊢
      refine ⟨by omega, fun i hi => ?_⟩
      rw [hframe i (by omega), if_neg (by omega)]
    next => cases hcopy

/-- Chunks that leave room for the terminator are copied. -/
theorem foldlM_append_ok (chunks : List (List UInt8)) (con : ConnectionInfo)
    (h : con.length + chunks.flatten.length < reqSize) :
    ∃ con', chunks.foldlM ConnectionInfo.append con = .ok con' := by
  induction chunks generalizing con with
  | nil => exact ⟨con, rfl⟩
  | cons chunk chunks ih =>
    have htext := length_text_le chunk
    rw [List.flatten_cons, List.length_append] at h
    rw [List.foldlM_cons, ConnectionInfo.append, if_pos (by omega)]
    exact ih _ (by simp only; omega)

/-- Without a NUL byte before its last one a chunk is copied as a whole. -/
theorem text_getD {chunk : List UInt8} (h : 0 ∉ chunk.dropLast) {i : Nat} (hi : i < chunk.length) :
    i ≤ (text chunk).length ∧ chunk[i]? = some ((text chunk).getD i 0) := by
  rcases List.eq_nil_or_concat chunk with rfl | ⟨front, last, rfl⟩
  · simp at hi
  · rw [List.concat_eq_append, List.dropLast_concat] at h
    have htext : text (front ++ [last]) = front ++ text [last] :=
      List.takeWhile_append_of_pos fun c hc => by
        simp only [ne_eq, decide_not, Bool.not_eq_true', decide_eq_false_iff_not]
        exact fun hzero => h (hzero ▸ hc)
    rw [List.concat_eq_append] at hi ⊢
    rw [htext]
    simp only [List.length_append, List.length_cons, List.length_nil] at hi ⊢
    refine ⟨by omega, ?_⟩
    rcases Nat.lt_or_ge i front.length with hlt | hge
    · simp [List.getD, List.getElem?_append_left hlt, List.getElem?_eq_getElem hlt]
    · obtain rfl : i = front.length := by omega
      by_cases hlast : last = 0 <;> simp [text, hlast]

/-- Chunks without such bytes are in the buffer when all are copied. -/
theorem copied_whole {con con' : ConnectionInfo} (chunks : List (List UInt8))
    (hnul : ∀ chunk ∈ chunks, 0 ∉ chunk.dropLast)
    (h : chunks.foldlM ConnectionInfo.append con = .ok con') :
    ∀ i, i < chunks.flatten.length → chunks.flatten[i]? = some (con'.message (con.length + i)) := by
  induction chunks generalizing con with
  | nil => simp
  | cons chunk chunks ih =>
    rw [List.foldlM_cons, Abort.bind_eq_ok] at h
    obtain ⟨con₁, hcopy, hrest⟩ := h
    have hlater := ih (fun c hc => hnul c (List.mem_cons_of_mem _ hc)) hrest
    obtain ⟨-, hframe⟩ := copied chunks hrest
    rw [ConnectionInfo.append] at hcopy
    split at hcopy
    next =>
      cases hcopy
      intro i hi
      rw [List.flatten_cons] at hi ⊢
      rcases Nat.lt_or_ge i chunk.length with hlt | hge
      · obtain ⟨hle, hbyte⟩ := text_getD (hnul chunk List.mem_cons_self) hlt
        rw [List.getElem?_append_left hlt, hbyte, hframe _ (.inl (by simp only; omega))]
        simp only [Nat.add_sub_cancel_left]
        rw [if_pos (by omega)]
      · rw [List.length_append] at hi
        rw [List.getElem?_append_right hge, hlater _ (by omega)]
        simp only [Nat.add_assoc, Nat.add_sub_cancel' hge]
    next => cases hcopy

/-- A NUL byte before the last one leaves a byte behind it that is not copied. -/
theorem text_short {chunk : List UInt8} (h : 0 ∈ chunk.dropLast) : (text chunk).length + 1 < chunk.length := by
  obtain ⟨before, after, hsplit⟩ := List.append_of_mem h
  have hne : chunk ≠ [] := by
    rintro rfl
    simp at h
  have hchunk := List.dropLast_append_getLast hne
  rw [hsplit] at hchunk
  have htext : (text chunk).length ≤ before.length := by
    rw [← hchunk, text, List.append_assoc, List.takeWhile_append]
    split
    · simp
    · exact (List.takeWhile_prefix _).length_le
  have hlength := congrArg List.length hchunk
  simp only [List.length_append, List.length_cons, List.length_nil] at hlength
  omega

/-- If all bytes arrive whatever the buffer held, no chunk has a NUL byte before its last one. -/
theorem nul_not_mem {chunks : List (List UInt8)} (h : ∀ memory, ∃ con : ConnectionInfo,
      chunks.foldlM ConnectionInfo.append ⟨memory, 0⟩ = .ok con ∧
        ∀ i, i < chunks.flatten.length → chunks.flatten[i]? = some (con.message i))
    {chunk : List UInt8} (hmem : chunk ∈ chunks) : 0 ∉ chunk.dropLast := by
  intro hnul
  obtain ⟨before, after, rfl⟩ := List.append_of_mem hmem
  have hshort := text_short hnul
  let k := (text chunk).length + 1
  -- a buffer that holds another byte than the first one that is not copied
  obtain ⟨con, hcopy, hbytes⟩ := h fun _ => chunk[k] + 1
  rw [List.foldlM_append, Abort.bind_eq_ok] at hcopy
  obtain ⟨con₁, hbefore, hcopy⟩ := hcopy
  rw [List.foldlM_cons, Abort.bind_eq_ok] at hcopy
  obtain ⟨con₂, hchunk, hafter⟩ := hcopy
  obtain ⟨hlength₁, hframe₁⟩ := copied before hbefore
  obtain ⟨-, hframe⟩ := copied after hafter
  have hbyte := hbytes (before.flatten.length + k) (by
    simp only [List.flatten_append, List.flatten_cons, List.length_append]; omega)
  rw [List.flatten_append, List.flatten_cons, List.getElem?_append_right (by omega),
    Nat.add_sub_cancel_left, List.getElem?_append_left hshort, List.getElem?_eq_getElem hshort] at hbyte
  rw [ConnectionInfo.append] at hchunk
  split at hchunk
  next =>
    cases hchunk
    simp only [Nat.zero_add] at hlength₁
    rw [hframe _ (.inl (by simp only; omega))] at hbyte
    simp only at hbyte
    rw [if_neg (by omega), hframe₁ _ (.inr (by omega))] at hbyte
    exact absurd (Option.some.inj hbyte) (by simp [k])
  next => cases hchunk

/-- The calls return exactly if the body is shorter than the buffer. -/
theorem bodyFaithful_iff {method : Method} (hmethod : method = .put ∨ method = .post)
    {chunks : List (List UInt8)} (hchunks : ∀ chunk ∈ chunks, chunk ≠ []) (memory : Nat → UInt8) :
    BodyFaithful method memory chunks ↔ chunks.flatten.length < reqSize ∧ ∃ con : ConnectionInfo,
      chunks.foldlM ConnectionInfo.append ⟨memory, 0⟩ = .ok con ∧
        ∀ i, i < chunks.flatten.length → chunks.flatten[i]? = some (con.message i) := by
  rw [BodyFaithful, serve_eq hmethod chunks hchunks]
  constructor
  · rintro ⟨con, answer, hserve, hbytes⟩
    rw [Abort.bind_eq_ok] at hserve
    obtain ⟨con₀, hcopy, hserve⟩ := hserve
    rw [Abort.bind_eq_ok] at hserve
    obtain ⟨con₁, hend, hanswer⟩ := hserve
    cases hanswer
    obtain ⟨hlength, -⟩ := copied chunks hcopy
    simp only [Nat.zero_add] at hlength
    rw [ConnectionInfo.terminate] at hend
    split at hend
    next hroom =>
      cases hend
      refine ⟨by omega, con₀, hcopy, fun i hi => ?_⟩
      rw [(hbytes method rfl).2 i (by simp only; omega)]
      exact congrArg some (Function.update_of_ne (by omega) ..)
    next => cases hend
  · rintro ⟨hroom, con, hcopy, hbytes⟩
    obtain ⟨hlength, -⟩ := copied chunks hcopy
    simp only [Nat.zero_add] at hlength
    refine ⟨{ con with message := Function.update con.message con.length 0 }, .doOperation method, ?_, ?_⟩
    · rw [hcopy]
      show (con.terminate >>= _) = _
      rw [ConnectionInfo.terminate, if_pos (by omega)]
      rfl
    · refine fun _ _ => ⟨hlength, fun i hi => ?_⟩
      simp only at hi ⊢
      rw [hbytes i (by omega), Function.update_of_ne (by omega)]

/-- Whatever the fresh buffer holds, the body of a PUT or POST request arrives as it was sent, without a
write outside the buffer, if and only if it is shorter than the buffer and every NUL byte ends its
chunk. -/
theorem body_faithful_iff (method : Method) (hmethod : method = .put ∨ method = .post)
    (chunks : List (List UInt8)) (hchunks : ∀ chunk ∈ chunks, chunk ≠ []) :
    (∀ memory, BodyFaithful method memory chunks) ↔
      chunks.flatten.length < reqSize ∧ ∀ chunk ∈ chunks, 0 ∉ chunk.dropLast := by
  simp only [bodyFaithful_iff hmethod hchunks]
  constructor
  · intro h
    exact ⟨(h fun _ => 0).1, fun chunk hmem => nul_not_mem (fun memory => (h memory).2) hmem⟩
  · rintro ⟨hroom, hnul⟩ memory
    obtain ⟨con, hcopy⟩ := foldlM_append_ok chunks ⟨memory, 0⟩ (by simpa using hroom)
    refine ⟨hroom, con, hcopy, fun i hi => ?_⟩
    rw [copied_whole chunks hnul hcopy i hi, Nat.zero_add]

/-- A body of seven bytes in two chunks. -/
theorem body_faithful_two_chunks :
    BodyFaithful .put (fun _ => 0) [[0x7b, 0x22, 0x61], [0x22, 0x3a, 0x31, 0x7d]] :=
  (body_faithful_iff .put (.inl rfl) _ (by decide)).mpr ⟨by decide, by decide⟩ _

/-- A chunk with a NUL byte inside loses what follows it, and a body as long as the buffer is written over
its end. -/
theorem body_not_faithful :
    ¬ BodyFaithful .put (fun _ => 0) [[0x61, 0, 0x62]] ∧
      ¬ BodyFaithful .put (fun _ => 0) [List.replicate reqSize 0x61] := by
  constructor
  · rw [bodyFaithful_iff (.inl rfl) (by decide)]
    rintro ⟨-, con, hcopy, hbytes⟩
    cases hcopy
    exact absurd (hbytes 2 (by decide)) (by decide)
  · have hne : ∀ chunk ∈ [List.replicate reqSize (0x61 : UInt8)], chunk ≠ [] := by
      intro chunk hchunk
      obtain rfl := List.mem_singleton.mp hchunk
      exact List.ne_nil_of_length_pos (by rw [List.length_replicate]; decide)
    rw [bodyFaithful_iff (.inl rfl) hne]
    rintro ⟨hroom, -⟩
    rw [List.flatten_singleton, List.length_replicate] at hroom
    exact absurd hroom (Nat.lt_irrefl _)

end UnOrchestrator.Rest
