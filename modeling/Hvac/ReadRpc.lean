/-
  Hvac/ReadRpc.lean
  =================
  **The two stages of a read request at the server** (`hvac_rpc_handler` and
  `hvac_rpc_handler_bulk_cb` of `hvac_comm.cpp`).

  The handler reads and starts a bulk transfer, whose completion callback sends the
  response; each stage has early returns.  What the calls of a stage give is an
  outcome, and the stage is the list of calls it makes under it.  `Server.rpcHandler`
  is both stages with every call of Mercury succeeding (`rpcHandler_calls`).

  A client waits in `hvac_read_block` without a timeout, so a stage that ends with
  nothing started and nothing sent leaves it there.  Every request is answered once
  exactly along the runs in which no early return but that of a failed `pread` is
  taken (`answered_iff`); a transfer that reports an error is enough to strand a
  client (`stranded_by_transfer`).
-/
import Hvac.Server
import Hvac.Library.Machine

namespace Hvac

open Cxx Posix

/-! ### The calls of a stage -/

/-- The calls that take or give up a resource, answer, or end the process. -/
inductive RpcCall where
  | mallocState
  | getInput
  | calloc
  | bulkCreate
  | transfer (size : Nat) (started : Bool)
  | respond (ret : Int) (sent : Bool)
  | bulkFree
  | destroy
  | freeBuffer
  | freeState
  | abort
deriving DecidableEq, Repr

/-- What the calls of `hvac_rpc_handler` give: whether they succeed, and the result of
    `read` or `pread`. -/
structure RpcOutcome where
  getInput : Bool
  calloc : Bool
  info : Bool
  bulkCreate : Bool
  readbytes : Int
  respond : Bool
  transfer : Bool
deriving DecidableEq, Repr

/-- Conversion to `hg_size_t`. -/
def hgSize (x : Int) : Nat := (x % 2 ^ 64).toNat

/-- No allocation has the size that a negative number converts to, and Mercury refuses
    to transfer more than was registered. -/
structure RpcOutcome.Possible (inputVal : Int) (o : RpcOutcome) : Prop where
  calloc : o.calloc = true → 0 ≤ inputVal
  readbytes : -1 ≤ o.readbytes ∧ o.readbytes ≤ max inputVal 0
  transfer : o.transfer = true → hgSize o.readbytes ≤ inputVal.toNat

instance (inputVal : Int) (o : RpcOutcome) : Decidable (o.Possible inputVal) :=
  decidable_of_iff
    ((o.calloc = true → 0 ≤ inputVal) ∧ (-1 ≤ o.readbytes ∧ o.readbytes ≤ max inputVal 0) ∧
      (o.transfer = true → hgSize o.readbytes ≤ inputVal.toNat))
    ⟨fun h => ⟨h.1, h.2.1, h.2.2⟩, fun h => ⟨h.calloc, h.readbytes, h.transfer⟩⟩

def hvacRpcHandler (offset : Int) (o : RpcOutcome) : List RpcCall :=
  .mallocState ::
  if o.getInput then
    .getInput ::
    if o.calloc then
      .calloc ::
      if o.info then
        if o.bulkCreate then
          .bulkCreate ::
          if offset ≠ -1 ∧ o.readbytes < 0 then
            [.bulkFree, .freeBuffer, .respond (-1) o.respond, .freeState]
          else
            .transfer (hgSize o.readbytes) o.transfer :: if o.transfer then [] else [.abort]
        else [.abort]
      else []
    else [.abort]
  else [.freeState]

/-- The completion callback of a transfer of `size` bytes, which reports success or an
    error; the same is freed whether the response could be sent or not. -/
def hvacRpcHandlerBulkCb (size : Nat) (info respond : Bool) : List RpcCall :=
  if info then
    [.respond (int32 size) respond, .bulkFree, .destroy, .freeBuffer, .freeState]
  else [.bulkFree, .destroy, .freeBuffer, .freeState]

/-- The response a call sends. -/
def RpcCall.sent? : RpcCall → Option Int
  | .respond ret true => some ret
  | _ => none

/-- The size of the transfer a call starts. -/
def RpcCall.started? : RpcCall → Option Nat
  | .transfer size true => some size
  | _ => none

/-- The responses that a stage sends. -/
def sent (calls : List RpcCall) : List Int := calls.filterMap RpcCall.sent?

/-- The transfer that a stage leaves pending. -/
def started (calls : List RpcCall) : Option Nat := calls.findSome? RpcCall.started?

/-! ### Both stages together -/

/-- The outcome in which every call of Mercury succeeds. -/
def RpcOutcome.clean (inputVal readbytes : Int) : RpcOutcome where
  getInput := true
  calloc := decide (0 ≤ inputVal)
  info := true
  bulkCreate := true
  readbytes := readbytes
  respond := true
  transfer := decide (0 ≤ readbytes)

/-- The calls of both stages then. -/
def cleanCalls (inputVal offset readbytes : Int) : List RpcCall :=
  let calls := hvacRpcHandler offset (.clean inputVal readbytes)
  calls ++ match started calls with
    | some size => hvacRpcHandlerBulkCb size true true
    | none => []

theorem int32_hgSize (x : Int) : int32 (hgSize x) = int32 x := by
  have hnonneg : 0 ≤ x % 2 ^ 64 := Int.emod_nonneg x (by decide)
  rw [hgSize, Int.toNat_of_nonneg hnonneg, int32, int32, Int.bmod_def, Int.bmod_def,
    Int.emod_emod_of_dvd x (by decide)]

section Clean

variable {inputVal offset readbytes : Int}

theorem cleanCalls_of_neg (hinput : inputVal < 0) :
    cleanCalls inputVal offset readbytes = [.mallocState, .getInput, .abort] := by
  have hcalls : hvacRpcHandler offset (.clean inputVal readbytes) =
      [.mallocState, .getInput, .abort] := by
    simp [hvacRpcHandler, RpcOutcome.clean, not_le.mpr hinput]
  rw [cleanCalls, hcalls]
  rfl

/-- A failed `read` starts no transfer and ends the server; a failed `pread` is
    answered. -/
theorem cleanCalls_of_failed (hinput : 0 ≤ inputVal) (hread : readbytes < 0) :
    cleanCalls inputVal offset readbytes = .mallocState :: .getInput :: .calloc :: .bulkCreate ::
      if offset = -1 then [.transfer (hgSize readbytes) false, .abort]
      else [.bulkFree, .freeBuffer, .respond (-1) true, .freeState] := by
  have hcalls : hvacRpcHandler offset (.clean inputVal readbytes) =
      .mallocState :: .getInput :: .calloc :: .bulkCreate ::
        if offset = -1 then [.transfer (hgSize readbytes) false, .abort]
        else [.bulkFree, .freeBuffer, .respond (-1) true, .freeState] := by
    by_cases hseq : offset = -1
    · simp [hvacRpcHandler, RpcOutcome.clean, hinput, not_le.mpr hread, hseq]
    · simp [hvacRpcHandler, RpcOutcome.clean, hinput, hread, hseq]
  rw [cleanCalls, hcalls]
  by_cases hseq : offset = -1
  · rw [if_pos hseq]
    rfl
  · rw [if_neg hseq]
    rfl

theorem cleanCalls_of_read (hinput : 0 ≤ inputVal) (hread : 0 ≤ readbytes) :
    cleanCalls inputVal offset readbytes =
      [.mallocState, .getInput, .calloc, .bulkCreate, .transfer (hgSize readbytes) true,
        .respond (int32 readbytes) true, .bulkFree, .destroy, .freeBuffer, .freeState] := by
  have hcalls : hvacRpcHandler offset (.clean inputVal readbytes) =
      [.mallocState, .getInput, .calloc, .bulkCreate, .transfer (hgSize readbytes) true] := by
    simp [hvacRpcHandler, RpcOutcome.clean, hinput, not_lt.mpr hread, hread]
  rw [cleanCalls, hcalls, ← int32_hgSize readbytes]
  rfl

end Clean

/-- `Server.rpcHandler` answers what the two stages send, and ends the server where
    they abort. -/
theorem rpcHandler_calls (rl : ReadLen) (bbpath : String) (files : Files) (s : Server)
    (inputVal accessfd offset ret : Int) :
    let out := s.rpcHandler rl bbpath files inputVal accessfd offset ret
    let calls := cleanCalls inputVal offset
      (s.rpcRead rl bbpath files inputVal.toNat accessfd offset ret).ret
    out.2.map Reply.ret = (sent calls).head? ∧
      out.1.alive = (s.alive && decide (.abort ∉ calls)) := by
  dsimp only [Server.rpcHandler]
  by_cases hinput : inputVal < 0
  · rw [Server.rpcSize_of_neg hinput, cleanCalls_of_neg hinput]
    exact ⟨rfl, by simp⟩
  · have hnonneg := not_lt.mp hinput
    rw [Server.rpcSize_of_nonneg hnonneg]
    dsimp only
    by_cases hread : (s.rpcRead rl bbpath files inputVal.toNat accessfd offset ret).ret < 0
    · rw [if_pos hread, cleanCalls_of_failed hnonneg hread]
      by_cases hseq : offset = -1
      · rw [if_pos hseq, if_pos hseq]
        exact ⟨rfl, by simp⟩
      · rw [if_neg hseq, if_neg hseq]
        exact ⟨rfl, by simp⟩
    · rw [if_neg hread, cleanCalls_of_read hnonneg (not_lt.mp hread)]
      exact ⟨rfl, by simp⟩

/-! ### Clients and the server -/

/-- What the server has pending about a request. -/
inductive RpcStage where
  | incoming (inputVal offset : Int)
  | transferring (size : Nat)
deriving DecidableEq

/-- `responses` are the responses sent for a request, `waiting` the request that a
    client thread is in `hvac_read_block` for. -/
structure ReadRpcs (K : Type) where
  alive : Bool
  pending : Nat → Option RpcStage
  responses : Nat → List Int
  waiting : K → Option Nat
  issued : Nat

inductive ReadRpcLabel (K : Type) where
  | issue (k : K) (inputVal offset : Int)
  | handle (request : Nat) (outcome : RpcOutcome)
  | complete (request : Nat) (info respond : Bool)
  | deliver (k : K)
deriving DecidableEq

section Machine

variable {K : Type} [DecidableEq K]

def ReadRpcs.start : ReadRpcs K where
  alive := true
  pending := fun _ => none
  responses := fun _ => []
  waiting := fun _ => none
  issued := 0

/-- The calls of a stage; after a failed assertion nothing is pending any more. -/
def ReadRpcs.perform (s : ReadRpcs K) (request : Nat) (calls : List RpcCall) : ReadRpcs K :=
  if .abort ∈ calls then { s with alive := false, pending := fun _ => none }
  else
    { s with
      pending := Function.update s.pending request ((started calls).map .transferring)
      responses := Function.update s.responses request (s.responses request ++ sent calls) }

/-- The callback of a client runs when a response was sent.  The observation of a step
    is the result of the wait that ends in it. -/
def readRpcMachine : Machine (ReadRpcs K) (ReadRpcLabel K) (Option (K × Int)) where
  step s l :=
    match l with
    | .issue k inputVal offset =>
        if s.waiting k = none then
          some ({ s with
            pending := Function.update s.pending s.issued
              (if s.alive then some (.incoming inputVal offset) else none)
            waiting := Function.update s.waiting k (some s.issued)
            issued := s.issued + 1 }, none)
        else none
    | .handle request outcome =>
        match s.pending request with
        | some (.incoming inputVal offset) =>
            if outcome.Possible inputVal then
              some (s.perform request (hvacRpcHandler offset outcome), none)
            else none
        | _ => none
    | .complete request info respond =>
        match s.pending request with
        | some (.transferring size) =>
            some (s.perform request (hvacRpcHandlerBulkCb size info respond), none)
        | _ => none
    | .deliver k =>
        match s.waiting k with
        | none => none
        | some request =>
            match s.responses request with
            | [] => none
            | ret :: _ =>
                some ({ s with waiting := Function.update s.waiting k none }, some (k, ret))

/-! ### The requirement and when it is met -/

/-- The client waits for a request that the server has finished with unanswered. -/
def Stranded (s : ReadRpcs K) (k : K) : Prop :=
  ∃ request, s.waiting k = some request ∧ s.pending request = none ∧ s.responses request = []

/-- A request is pending and unanswered, or answered exactly once, and no client is
    stranded. -/
structure AnsweredOnce (s : ReadRpcs K) : Prop where
  responses : ∀ request < s.issued,
    (s.responses request).length = if (s.pending request).isSome then 0 else 1
  waiting : ∀ k, ¬ Stranded s k

/-- The calls of the handler succeed, apart from a `pread`. -/
structure RpcOutcome.Answers (offset : Int) (o : RpcOutcome) : Prop where
  getInput : o.getInput = true
  calloc : o.calloc = true
  info : o.info = true
  bulkCreate : o.bulkCreate = true
  respond : offset ≠ -1 ∧ o.readbytes < 0 → o.respond = true
  transfer : ¬ (offset ≠ -1 ∧ o.readbytes < 0) → o.transfer = true

/-- No early return of a stage is taken, apart from that of a failed `pread`. -/
def NoEarlyReturn (s : ReadRpcs K) : ReadRpcLabel K → Prop
  | .issue _ _ _ => True
  | .handle request outcome => ∀ inputVal offset,
      s.pending request = some (.incoming inputVal offset) → outcome.Answers offset
  | .complete _ info respond => info = true ∧ respond = true
  | .deliver _ => True

/-! ### One stage -/

/-- A stage that sends one response, or none and starts a transfer. -/
structure AnswersOnce (calls : List RpcCall) : Prop where
  alive : .abort ∉ calls
  sent : (sent calls).length = if (started calls).isSome then 0 else 1

omit [DecidableEq K] in
theorem answersOnce_bulkCb_iff {size : Nat} {info respond : Bool} :
    AnswersOnce (hvacRpcHandlerBulkCb size info respond) ↔ info = true ∧ respond = true := by
  constructor
  · intro h
    cases info with
    | false => cases h.sent
    | true =>
      cases respond with
      | false => cases h.sent
      | true => exact ⟨rfl, rfl⟩
  · rintro ⟨rfl, rfl⟩
    exact ⟨by simp [hvacRpcHandlerBulkCb], rfl⟩

/-- After the calls that can end the handler early. -/
theorem answersOnce_rest_iff {offset : Int} {o : RpcOutcome} (hgetInput : o.getInput = true)
    (hcalloc : o.calloc = true) (hinfo : o.info = true) (hcreate : o.bulkCreate = true) :
    AnswersOnce (hvacRpcHandler offset o) ↔
      if offset ≠ -1 ∧ o.readbytes < 0 then o.respond = true else o.transfer = true := by
  by_cases hfailed : offset ≠ -1 ∧ o.readbytes < 0
  · have hcalls : hvacRpcHandler offset o = [.mallocState, .getInput, .calloc, .bulkCreate,
        .bulkFree, .freeBuffer, .respond (-1) o.respond, .freeState] := by
      simp only [hvacRpcHandler, hgetInput, hcalloc, hinfo, hcreate, hfailed, if_true, and_self,
        ne_eq, not_false_eq_true]
    rw [hcalls, if_pos hfailed]
    cases o.respond with
    | false => exact iff_of_false (fun h => by cases h.sent) Bool.false_ne_true
    | true => exact iff_of_true ⟨by simp, rfl⟩ rfl
  · have hcalls : hvacRpcHandler offset o = .mallocState :: .getInput :: .calloc :: .bulkCreate ::
        .transfer (hgSize o.readbytes) o.transfer :: if o.transfer then [] else [.abort] := by
      simp only [hvacRpcHandler, hgetInput, hcalloc, hinfo, hcreate, hfailed, if_true, if_false]
    rw [hcalls, if_neg hfailed]
    cases o.transfer with
    | false => exact iff_of_false (fun h => h.alive (by simp)) Bool.false_ne_true
    | true => exact iff_of_true ⟨by simp, rfl⟩ rfl

theorem answersOnce_handler_iff {offset : Int} {o : RpcOutcome} :
    AnswersOnce (hvacRpcHandler offset o) ↔ o.Answers offset := by
  constructor
  · intro h
    have hgetInput : o.getInput = true := by
      by_contra hfalse
      simp only [hvacRpcHandler, hfalse] at h
      cases h.sent
    have hcalloc : o.calloc = true := by
      by_contra hfalse
      simp only [hvacRpcHandler, hgetInput, hfalse, if_true] at h
      exact h.alive (by simp)
    have hinfo : o.info = true := by
      by_contra hfalse
      simp only [hvacRpcHandler, hgetInput, hcalloc, hfalse, if_true] at h
      cases h.sent
    have hcreate : o.bulkCreate = true := by
      by_contra hfalse
      simp only [hvacRpcHandler, hgetInput, hcalloc, hinfo, hfalse, if_true] at h
      exact h.alive (by simp)
    rw [answersOnce_rest_iff hgetInput hcalloc hinfo hcreate] at h
    refine ⟨hgetInput, hcalloc, hinfo, hcreate, fun hfailed => ?_, fun hread => ?_⟩
    · rw [if_pos hfailed] at h
      exact h
    · rw [if_neg hread] at h
      exact h
  · intro h
    rw [answersOnce_rest_iff h.getInput h.calloc h.info h.bulkCreate]
    split
    · next hfailed => exact h.respond hfailed
    · next hread => exact h.transfer hread

/-! ### Runs -/

structure RpcInv (s : ReadRpcs K) : Prop where
  alive : s.alive = true
  once : AnsweredOnce s
  fresh : ∀ request, s.issued ≤ request → s.pending request = none ∧ s.responses request = []
  issued : ∀ k request, s.waiting k = some request → request < s.issued

omit [DecidableEq K] in
theorem rpcInv_start : RpcInv (ReadRpcs.start : ReadRpcs K) where
  alive := rfl
  once := ⟨fun request h => absurd h (Nat.not_lt_zero _), fun k ⟨request, h, _⟩ => by cases h⟩
  fresh _ _ := ⟨rfl, rfl⟩
  issued k request h := by cases h

omit [DecidableEq K] in
/-- A request that is no longer pending has its response, so nobody is stranded. -/
theorem answeredOnce_of_responses {s : ReadRpcs K}
    (hresponses : ∀ request < s.issued,
      (s.responses request).length = if (s.pending request).isSome then 0 else 1)
    (hissued : ∀ k request, s.waiting k = some request → request < s.issued) :
    AnsweredOnce s := by
  refine ⟨hresponses, ?_⟩
  rintro k ⟨request, hwaiting, hpending, hnone⟩
  have hlength := hresponses request (hissued k request hwaiting)
  rw [hpending, hnone] at hlength
  cases hlength

variable {s s' : ReadRpcs K} {request : Nat}

omit [DecidableEq K] in
/-- A request that is pending was issued and has no response. -/
theorem RpcInv.unanswered (h : RpcInv s) (hpending : s.pending request ≠ none) :
    request < s.issued ∧ s.responses request = [] := by
  have hlt : request < s.issued := by
    by_contra hge
    exact hpending (h.fresh request (not_lt.mp hge)).1
  have hlength := h.once.responses request hlt
  rw [if_pos (Option.isSome_iff_ne_none.mpr hpending)] at hlength
  exact ⟨hlt, List.length_eq_zero_iff.mp hlength⟩

omit [DecidableEq K] in
/-- Where a stage aborts, the request itself stays unanswered. -/
theorem RpcInv.perform_abort (h : RpcInv s) (hpending : s.pending request ≠ none)
    {calls : List RpcCall} (habort : .abort ∈ calls) :
    ¬ AnsweredOnce (s.perform request calls) := by
  obtain ⟨hlt, hempty⟩ := h.unanswered hpending
  have hperform : s.perform request calls = { s with alive := false, pending := fun _ => none } :=
    if_pos habort
  rw [hperform]
  intro honce
  have hlength := honce.responses request hlt
  rw [hempty] at hlength
  cases hlength

omit [DecidableEq K] in
/-- A stage that does not abort concerns its own request only. -/
theorem ReadRpcs.perform_of_not_abort (s : ReadRpcs K) (request : Nat) {calls : List RpcCall}
    (habort : .abort ∉ calls) :
    (s.perform request calls).alive = s.alive ∧ (s.perform request calls).issued = s.issued ∧
      (s.perform request calls).waiting = s.waiting ∧
      ∀ r, r ≠ request → (s.perform request calls).pending r = s.pending r ∧
        (s.perform request calls).responses r = s.responses r := by
  have hperform : s.perform request calls = { s with
      pending := Function.update s.pending request ((started calls).map .transferring)
      responses := Function.update s.responses request (s.responses request ++ sent calls) } :=
    if_neg habort
  rw [hperform]
  exact ⟨rfl, rfl, rfl, fun r hr => ⟨Function.update_of_ne hr .., Function.update_of_ne hr ..⟩⟩

omit [DecidableEq K] in
/-- For this request the requirement is that the stage answers it once. -/
theorem RpcInv.perform_own (h : RpcInv s) (hpending : s.pending request ≠ none)
    {calls : List RpcCall} (habort : .abort ∉ calls) :
    ((s.perform request calls).responses request).length =
      (if ((s.perform request calls).pending request).isSome then 0 else 1) ↔
        AnswersOnce calls := by
  have hperform : s.perform request calls = { s with
      pending := Function.update s.pending request ((started calls).map .transferring)
      responses := Function.update s.responses request (s.responses request ++ sent calls) } :=
    if_neg habort
  rw [hperform]
  simp only [Function.update_self, (h.unanswered hpending).2, List.nil_append, Option.isSome_map]
  exact ⟨fun hsent => ⟨habort, hsent⟩, fun honce => honce.sent⟩

omit [DecidableEq K] in
/-- A stage keeps the requirement exactly when it answers once. -/
theorem RpcInv.perform (h : RpcInv s) (hpending : s.pending request ≠ none)
    (calls : List RpcCall) :
    (AnsweredOnce (s.perform request calls) ↔ AnswersOnce calls) ∧
      (AnswersOnce calls → RpcInv (s.perform request calls)) := by
  by_cases habort : .abort ∈ calls
  · have hneg : ¬ AnswersOnce calls := fun honce => honce.alive habort
    exact ⟨iff_of_false (h.perform_abort hpending habort) hneg, fun honce => absurd honce hneg⟩
  · have hown := h.perform_own hpending habort
    obtain ⟨halive, hissued, hwaiting, hother⟩ := s.perform_of_not_abort request habort
    have hlive : ∀ k r, (s.perform request calls).waiting k = some r →
        r < (s.perform request calls).issued := by
      rw [hwaiting, hissued]
      exact h.issued
    have hkeep : AnswersOnce calls → RpcInv (s.perform request calls) := by
      intro honce
      refine ⟨halive.trans h.alive, answeredOnce_of_responses ?_ hlive, ?_, hlive⟩
      · intro r hr
        rw [hissued] at hr
        by_cases hsame : r = request
        · rw [hsame]
          exact hown.mpr honce
        · rw [(hother r hsame).1, (hother r hsame).2]
          exact h.once.responses r hr
      · intro r hr
        rw [hissued] at hr
        have hlt := (h.unanswered hpending).1
        have hsame : r ≠ request := by omega
        rw [(hother r hsame).1, (hother r hsame).2]
        exact h.fresh r hr
    refine ⟨⟨fun honce => hown.mp (honce.responses request ?_), fun honce => (hkeep honce).once⟩,
      hkeep⟩
    rw [hissued]
    exact (h.unanswered hpending).1

theorem RpcInv.issue (h : RpcInv s) {k : K} (stage : RpcStage) :
    RpcInv { s with
      pending := Function.update s.pending s.issued (some stage)
      waiting := Function.update s.waiting k (some s.issued)
      issued := s.issued + 1 } := by
  have hissued : ∀ j r, Function.update s.waiting k (some s.issued) j = some r →
      r < s.issued + 1 := by
    intro j r hr
    rw [Function.update_apply] at hr
    split at hr
    · cases hr
      exact Nat.lt_succ_self _
    · exact Nat.lt_succ_of_lt (h.issued j r hr)
  refine ⟨h.alive, answeredOnce_of_responses ?_ hissued, ?_, hissued⟩
  · intro r hr
    by_cases hsame : r = s.issued
    · simp only [hsame, Function.update_self, (h.fresh s.issued le_rfl).2]
      rfl
    · simp only [Function.update_of_ne hsame]
      exact h.once.responses r (lt_of_le_of_ne (Nat.lt_succ_iff.mp hr) hsame)
  · intro r hr
    dsimp only at hr ⊢
    have hsame : r ≠ s.issued := by omega
    rw [Function.update_of_ne hsame]
    exact h.fresh r (by omega)

theorem RpcInv.deliver (h : RpcInv s) (k : K) :
    RpcInv { s with waiting := Function.update s.waiting k none } := by
  have hissued : ∀ j r, Function.update s.waiting k none j = some r → r < s.issued := by
    intro j r hr
    rw [Function.update_apply] at hr
    split at hr
    · cases hr
    · exact h.issued j r hr
  exact ⟨h.alive, answeredOnce_of_responses h.once.responses hissued, h.fresh, hissued⟩

theorem RpcInv.step (h : RpcInv s) {l : ReadRpcLabel K} {out : Option (K × Int)}
    (hstep : readRpcMachine.step s l = some (s', out)) :
    (AnsweredOnce s' ↔ NoEarlyReturn s l) ∧ (NoEarlyReturn s l → RpcInv s') := by
  have hkeep : RpcInv s' → NoEarlyReturn s l →
      (AnsweredOnce s' ↔ NoEarlyReturn s l) ∧ (NoEarlyReturn s l → RpcInv s') :=
    fun h' hl => ⟨iff_of_true h'.once hl, fun _ => h'⟩
  cases l with
  | issue k inputVal offset =>
    simp only [readRpcMachine, Option.ite_none_right_eq_some, Option.some.injEq,
      Prod.mk.injEq] at hstep
    obtain ⟨-, rfl, -⟩ := hstep
    rw [if_pos h.alive] at hkeep ⊢
    exact hkeep (h.issue _) trivial
  | handle request outcome =>
    simp only [readRpcMachine] at hstep
    split at hstep
    · next inputVal offset hpending =>
      simp only [Option.ite_none_right_eq_some, Option.some.injEq, Prod.mk.injEq] at hstep
      obtain ⟨-, rfl, -⟩ := hstep
      have hl : NoEarlyReturn s (.handle request outcome) ↔ outcome.Answers offset := by
        refine ⟨fun hearly => hearly inputVal offset hpending, fun hanswers => ?_⟩
        intro inputVal' offset' hpending'
        rw [hpending] at hpending'
        cases hpending'
        exact hanswers
      rw [hl, ← answersOnce_handler_iff]
      exact h.perform (by rw [hpending]; exact Option.some_ne_none _) _
    · cases hstep
  | complete request info respond =>
    simp only [readRpcMachine] at hstep
    split at hstep
    · next hpending =>
      cases hstep
      rw [NoEarlyReturn, ← answersOnce_bulkCb_iff]
      exact h.perform (by rw [hpending]; exact Option.some_ne_none _) _
    · cases hstep
  | deliver k =>
    simp only [readRpcMachine] at hstep
    split at hstep
    · cases hstep
    · split at hstep
      · cases hstep
      · cases hstep
        exact hkeep (h.deliver k) trivial

/-- **Along a run every request is answered exactly once and no client is stranded if
    and only if no early return but that of a failed `pread` is taken.** -/
theorem answered_iff (labels : List (ReadRpcLabel K)) :
    readRpcMachine.Along (fun _ _ s' _ => AnsweredOnce s') ReadRpcs.start labels ↔
      readRpcMachine.Along (fun s l _ _ => NoEarlyReturn s l) ReadRpcs.start labels :=
  Machine.along_iff (I := RpcInv) (fun _ _ _ _ h hstep => h.step hstep) rpcInv_start

end Machine

/-- A transfer that reports an error; and a `read` that fails. -/
theorem stranded_by_transfer :
    (∃ s outs, (readRpcMachine : Machine (ReadRpcs Unit) _ _).run ReadRpcs.start
        [.issue () 1 (-1), .handle 0 (.clean 1 1), .complete 0 false true] = some (s, outs) ∧
      Stranded s ()) ∧
    ∃ s outs, (readRpcMachine : Machine (ReadRpcs Unit) _ _).run ReadRpcs.start
        [.issue () 1 (-1), .handle 0 (.clean 1 (-1))] = some (s, outs) ∧ Stranded s () := by
  constructor
  · exact ⟨_, _, rfl, 0, rfl, rfl, rfl⟩
  · exact ⟨_, _, rfl, 0, rfl, rfl, rfl⟩

end Hvac
