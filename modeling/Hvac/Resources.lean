/-
  Hvac/Resources.lean
  ===================
  **Is what a request takes at the server given back?**

  The handlers of `open`, `read`, `pread` and `seek` (`hvac_comm.cpp`), each as the
  calls it makes under an outcome, over the ledger of `Library/Ledger.lean`: the
  handle that Mercury gives a handler, the input it decodes, and the buffer, bulk
  handle and request state of a read.  A read that starts its transfer leaves all
  five to the completion callback.

  `HG_Free_input` is called nowhere, and `HG_Destroy` by the callback only.  So a
  request that is over still holds its handle, its input, or both (`RequestEnd`),
  and the books balance only as long as some transfer stays pending
  (`balanced_iff`).  Nothing is given back twice (`given_le_taken_run`), and where
  `HG_Get_info` does not fail the server's own memory is given back
  (`memory_given_back`).
-/
import Hvac.ReadRpc
import Hvac.ServerInv
import Hvac.Library.Ledger

namespace Hvac

open Cxx Posix Ledger

/-! ### Resources and the calls that move them -/

inductive Resource where
  | handle
  | input
  | buffer
  | bulkHandle
  | state
deriving DecidableEq, Repr

/-- Mercury calls the handler of a request with a handle; the calls of `RpcCall`; and
    the call that gives a decoded input back. -/
inductive ServerCall where
  | handler
  | rpc (call : RpcCall)
  | freeInput
deriving DecidableEq, Repr

def ServerCall.move : ServerCall → Option (Move Resource)
  | .handler => some (.take .handle)
  | .rpc .getInput => some (.take .input)
  | .rpc .calloc => some (.take .buffer)
  | .rpc .bulkCreate => some (.take .bulkHandle)
  | .rpc .mallocState => some (.take .state)
  | .rpc .destroy => some (.give .handle)
  | .freeInput => some (.give .input)
  | .rpc .freeBuffer => some (.give .buffer)
  | .rpc .bulkFree => some (.give .bulkHandle)
  | .rpc .freeState => some (.give .state)
  | .rpc (.transfer _ _) => none
  | .rpc (.respond _ _) => none
  | .rpc .abort => none

/-! ### Handlers -/

/-- A handler that decodes its input, which it asserts, and answers with `ret`. -/
def answerHandler (getInput : Bool) (ret : Int) (respond : Bool) : List RpcCall :=
  if getInput then [.getInput, .respond ret respond] else [.abort]

/-- `retStatus` is the result of `open`. -/
def hvacOpenRpcHandler (getInput : Bool) (retStatus : Int) (respond : Bool) : List RpcCall :=
  answerHandler getInput retStatus respond

/-- `ret` is the result of `lseek64`; the response has room for 32 bits. -/
def hvacSeekRpcHandler (getInput : Bool) (ret : Int) (respond : Bool) : List RpcCall :=
  answerHandler getInput (int32 ret) respond

section Answers

variable {bbpath : String} {files : Files} {s s' : Server}

/-- What `Server.openRpcHandler` answers is what the handler sends. -/
theorem openRpcHandler_calls {path : String} {ret : Int} {reply : Option Reply}
    (h : s.openRpcHandler bbpath files path ret = some (s', reply)) :
    reply.map Reply.ret = (sent (hvacOpenRpcHandler true ret true)).head? := by
  obtain ⟨rfl, -⟩ := Server.openRpcHandler_eq_some h
  rfl

theorem seekRpcHandler_calls (s : Server) (fd offset whence : Int) :
    (s.seekRpcHandler bbpath files fd offset whence).2.map Reply.ret =
      (sent (hvacSeekRpcHandler true
        (sysSeek (s.content bbpath files) s.fds fd offset whence).1 true)).head? := rfl

end Answers

/-! ### Runs -/

/-- `handled` requests were given a handler, the `n`-th one made `calls n`, and has
    `pending n` under way. -/
structure RequestBooks where
  alive : Bool
  handled : Nat
  pending : Nat → Option Nat
  calls : Nat → List ServerCall

inductive RequestLabel where
  | openIn (getInput : Bool) (retStatus : Int) (respond : Bool)
  | rpcIn (inputVal offset : Int) (outcome : RpcOutcome)
  | seekIn (getInput : Bool) (ret : Int) (respond : Bool)
  | complete (request : Nat) (info respond : Bool)
deriving DecidableEq

namespace RequestBooks

def start : RequestBooks where
  alive := true
  handled := 0
  pending := fun _ => none
  calls := fun _ => []

variable (s : RequestBooks)

/-- The calls of a stage of the request; a failed assertion ends the server. -/
def perform (request : Nat) (calls : List RpcCall) : RequestBooks :=
  { s with
    alive := decide (.abort ∉ calls)
    pending := Function.update s.pending request (started calls)
    calls := Function.update s.calls request (s.calls request ++ calls.map .rpc) }

/-- Mercury calls the handler of a new request. -/
def arrive : RequestBooks :=
  { s with
    handled := s.handled + 1
    calls := Function.update s.calls s.handled [.handler] }

/-- A new request, whose handler makes `calls`. -/
def handle (calls : List RpcCall) : RequestBooks := s.arrive.perform s.handled calls

end RequestBooks

/-- Handlers and callbacks run one at a time, in the progress thread. -/
def requestMachine : Machine RequestBooks RequestLabel Unit where
  step s l :=
    if s.alive = true then
      match l with
      | .openIn getInput retStatus respond =>
          some (s.handle (hvacOpenRpcHandler getInput retStatus respond), ())
      | .rpcIn inputVal offset outcome =>
          if outcome.Possible inputVal then some (s.handle (hvacRpcHandler offset outcome), ())
          else none
      | .seekIn getInput ret respond =>
          some (s.handle (hvacSeekRpcHandler getInput ret respond), ())
      | .complete request info respond =>
          match s.pending request with
          | some size =>
              some (s.perform request (hvacRpcHandlerBulkCb size info respond), ())
          | none => none
    else none

/-! ### The requirement and when it is met -/

/-- The server runs, and no bulk transfer is pending. -/
def RequestBooks.Quiet (s : RequestBooks) : Prop := s.alive = true ∧ ∀ n, s.pending n = none

/-- Each request gave back once what it took. -/
def RequestBooks.Balanced (s : RequestBooks) : Prop :=
  ∀ n < s.handled, Settled ServerCall.move (s.calls n)

/-- The handler of a read returns with no transfer started: the input cannot be
    decoded, there is no `hg_info`, or a `pread` fails. -/
def RpcOutcome.ReturnsEarly (offset : Int) (o : RpcOutcome) : Prop :=
  o.getInput = false ∨ o.calloc = true ∧
    (o.info = false ∨ o.bulkCreate = true ∧ offset ≠ -1 ∧ o.readbytes < 0)

/-- A bulk transfer is pending after the step, or a failed assertion ended the server. -/
def KeepsTransfer (s : RequestBooks) : RequestLabel → Prop
  | .openIn getInput _ _ => getInput = false ∨ ∃ n, s.pending n ≠ none
  | .rpcIn _ offset outcome => ¬ outcome.ReturnsEarly offset ∨ ∃ n, s.pending n ≠ none
  | .seekIn getInput _ _ => getInput = false ∨ ∃ n, s.pending n ≠ none
  | .complete request _ _ => ∃ n, n ≠ request ∧ s.pending n ≠ none

/-! ### What a stage leaves -/

/-- How a request is over. -/
inductive RequestEnd where
  | noInput
  | noInfo
  | answered
  | transferred
deriving DecidableEq, Repr

/-- What a request that is over still holds. -/
def RequestEnd.left : RequestEnd → Resource → Bool
  | .noInput, r => r = .handle
  | .noInfo, r => r ≠ .bulkHandle
  | .answered, r => r = .handle ∨ r = .input
  | .transferred, r => r = .input

/-- Every end leaves something. -/
theorem RequestEnd.exists_left (e : RequestEnd) : ∃ r, e.left r = true := by
  cases e with
  | noInput => exact ⟨.handle, rfl⟩
  | noInfo => exact ⟨.handle, rfl⟩
  | answered => exact ⟨.handle, rfl⟩
  | transferred => exact ⟨.input, rfl⟩

/-- The runs of `hvac_rpc_handler`, one for each way through it. -/
inductive RpcHandlerRun (offset : Int) (o : RpcOutcome) : List RpcCall → Prop where
  | noInput (hearly : o.ReturnsEarly offset) : RpcHandlerRun offset o [.mallocState, .freeState]
  | noBuffer (hlate : ¬ o.ReturnsEarly offset) :
      RpcHandlerRun offset o [.mallocState, .getInput, .abort]
  | noInfo (hearly : o.ReturnsEarly offset) (hinfo : o.info = false) :
      RpcHandlerRun offset o [.mallocState, .getInput, .calloc]
  | noBulk (hlate : ¬ o.ReturnsEarly offset) :
      RpcHandlerRun offset o [.mallocState, .getInput, .calloc, .abort]
  | failed (hearly : o.ReturnsEarly offset) :
      RpcHandlerRun offset o [.mallocState, .getInput, .calloc, .bulkCreate,
        .bulkFree, .freeBuffer, .respond (-1) o.respond, .freeState]
  | refused (hlate : ¬ o.ReturnsEarly offset) :
      RpcHandlerRun offset o [.mallocState, .getInput, .calloc, .bulkCreate,
        .transfer (hgSize o.readbytes) false, .abort]
  | transfers (hlate : ¬ o.ReturnsEarly offset) :
      RpcHandlerRun offset o [.mallocState, .getInput, .calloc, .bulkCreate,
        .transfer (hgSize o.readbytes) true]

theorem hvacRpcHandler_run (offset : Int) (o : RpcOutcome) :
    RpcHandlerRun offset o (hvacRpcHandler offset o) := by
  unfold hvacRpcHandler
  rcases hinput : o.getInput with _ | _
  · exact .noInput (Or.inl hinput)
  · rcases hcalloc : o.calloc with _ | _
    · exact .noBuffer (by simp [RpcOutcome.ReturnsEarly, hinput, hcalloc])
    · rcases hinfo : o.info with _ | _
      · exact .noInfo (Or.inr ⟨hcalloc, Or.inl hinfo⟩) hinfo
      · rcases hcreate : o.bulkCreate with _ | _
        · exact .noBulk (by simp [RpcOutcome.ReturnsEarly, hinput, hinfo, hcreate])
        · by_cases hfailed : offset ≠ -1 ∧ o.readbytes < 0
          · simp only [hfailed, if_true, and_self, ne_eq, not_false_eq_true]
            exact .failed (Or.inr ⟨hcalloc, Or.inr ⟨hcreate, hfailed⟩⟩)
          · have hlate : ¬ o.ReturnsEarly offset := by
              simpa [RpcOutcome.ReturnsEarly, hinput, hcalloc, hinfo, hcreate] using hfailed
            simp only [hfailed, if_true, if_false]
            rcases htransfer : o.transfer with _ | _
            · exact .refused hlate
            · exact .transfers hlate

/-- What a request holds after `calls`: everything while its transfer is pending, and
    what some end leaves once it is over.  `infoFails` says whether that may be a
    failure of `HG_Get_info`. -/
structure Account (infoFails : Prop) (alive : Bool) (transfer : Option Nat)
    (calls : List ServerCall) (left : Resource → Bool) : Prop where
  leaves : ∀ r, follow ServerCall.move r false calls = some (left r)
  full : transfer ≠ none → ∀ r, left r = true
  ended : alive = true → transfer = none →
    ∃ e : RequestEnd, left = e.left ∧ (e = .noInfo → infoFails)

/-- The account of a request whose handler made `calls`. -/
def HandlerLeaves (infoFails : Prop) (calls : List RpcCall) (left : Resource → Bool) : Prop :=
  Account infoFails (decide (.abort ∉ calls)) (started calls) (.handler :: calls.map .rpc) left

section Handlers

variable {infoFails : Prop} {calls : List RpcCall} {left : Resource → Bool}

theorem HandlerLeaves.of_end {e : RequestEnd} (hinfo : e = .noInfo → infoFails)
    (hnone : started calls = none)
    (hleaves : ∀ r, follow ServerCall.move r false (.handler :: calls.map .rpc) =
      some (e.left r)) : HandlerLeaves infoFails calls e.left where
  leaves := hleaves
  full hstarted := absurd hnone hstarted
  ended _ _ := ⟨e, rfl, hinfo⟩

theorem HandlerLeaves.of_abort (habort : .abort ∈ calls) (hnone : started calls = none)
    (hleaves : ∀ r, follow ServerCall.move r false (.handler :: calls.map .rpc) =
      some (left r)) : HandlerLeaves infoFails calls left where
  leaves := hleaves
  full hstarted := absurd hnone hstarted
  ended halive := absurd habort (of_decide_eq_true halive)

/-- An assertion that fails in a handler of `open` or `seek` leaves the handle. -/
theorem exists_answerHandler_leaves (infoFails : Prop) (getInput : Bool) (ret : Int)
    (respond : Bool) : ∃ left, HandlerLeaves infoFails (answerHandler getInput ret respond) left := by
  cases getInput with
  | false =>
    refine ⟨RequestEnd.noInput.left, .of_abort (List.mem_singleton_self _) rfl ?_⟩
    intro r
    cases r <;> rfl
  | true =>
    refine ⟨RequestEnd.answered.left, .of_end (by simp) (by cases respond <;> rfl) ?_⟩
    intro r
    cases r <;> rfl

theorem exists_hvacRpcHandler_leaves {o : RpcOutcome} (hinfo : o.info = false → infoFails)
    (offset : Int) : ∃ left, HandlerLeaves infoFails (hvacRpcHandler offset o) left := by
  have hrun := hvacRpcHandler_run offset o
  generalize hvacRpcHandler offset o = calls at hrun
  cases hrun with
  | noInput _ =>
    refine ⟨RequestEnd.noInput.left, .of_end (by simp) rfl ?_⟩
    intro r
    cases r <;> rfl
  | noBuffer _ =>
    refine ⟨fun r => r = .handle ∨ r = .input ∨ r = .state, .of_abort (by simp) rfl ?_⟩
    intro r
    cases r <;> rfl
  | noInfo _ hfails =>
    refine ⟨RequestEnd.noInfo.left, .of_end (fun _ => hinfo hfails) rfl ?_⟩
    intro r
    cases r <;> rfl
  | noBulk _ =>
    refine ⟨RequestEnd.noInfo.left, .of_abort (by simp) rfl ?_⟩
    intro r
    cases r <;> rfl
  | failed _ =>
    refine ⟨RequestEnd.answered.left, .of_end (by simp) (by cases o.respond <;> rfl) ?_⟩
    intro r
    cases r <;> rfl
  | refused _ =>
    refine ⟨fun _ => true, .of_abort (by simp) rfl ?_⟩
    intro r
    cases r <;> rfl
  | transfers _ =>
    refine ⟨fun _ => true, ?_, fun _ _ => rfl, fun _ hnone => by cases hnone⟩
    intro r
    cases r <;> rfl

/-- The callback gives everything back but the input. -/
theorem hvacRpcHandlerBulkCb_leaves (size : Nat) (info respond : Bool) (r : Resource) :
    follow ServerCall.move r true ((hvacRpcHandlerBulkCb size info respond).map .rpc) =
      some (RequestEnd.transferred.left r) := by
  cases info with
  | false => cases r <;> rfl
  | true => cases r <;> rfl

theorem hvacRpcHandlerBulkCb_alive (size : Nat) (info respond : Bool) :
    .abort ∉ hvacRpcHandlerBulkCb size info respond ∧
      started (hvacRpcHandlerBulkCb size info respond) = none := by
  cases info with
  | false => exact ⟨by simp [hvacRpcHandlerBulkCb], rfl⟩
  | true => exact ⟨by simp [hvacRpcHandlerBulkCb], by cases respond <;> rfl⟩

/-- A read is over when its handler returns exactly where it returns early. -/
theorem hvacRpcHandler_over_iff {offset : Int} {o : RpcOutcome} :
    (.abort ∉ hvacRpcHandler offset o ∧ started (hvacRpcHandler offset o) = none) ↔
      o.ReturnsEarly offset := by
  have hrun := hvacRpcHandler_run offset o
  generalize hvacRpcHandler offset o = calls at hrun
  cases hrun with
  | noInput hearly => exact iff_of_true ⟨by simp, rfl⟩ hearly
  | noInfo hearly _ => exact iff_of_true ⟨by simp, rfl⟩ hearly
  | failed hearly => exact iff_of_true ⟨by simp, by cases o.respond <;> rfl⟩ hearly
  | noBuffer hlate => exact iff_of_false (fun h => h.1 (by simp)) hlate
  | noBulk hlate => exact iff_of_false (fun h => h.1 (by simp)) hlate
  | refused hlate => exact iff_of_false (fun h => h.1 (by simp)) hlate
  | transfers hlate => exact iff_of_false (fun h => by cases h.2) hlate

theorem answerHandler_over_iff {getInput : Bool} {ret : Int} {respond : Bool} :
    (.abort ∉ answerHandler getInput ret respond ∧
      started (answerHandler getInput ret respond) = none) ↔ getInput = true := by
  cases getInput with
  | false => exact iff_of_false (fun h => h.1 (List.mem_singleton_self _)) Bool.false_ne_true
  | true => exact iff_of_true ⟨by simp [answerHandler], by cases respond <;> rfl⟩ rfl

end Handlers

/-! ### Invariant -/

/-- Every request has an account, and the transfers are of requests. -/
structure LedgerInv (infoFails : Prop) (s : RequestBooks) : Prop where
  fresh : ∀ n, s.handled ≤ n → s.pending n = none
  account : ∀ n < s.handled, ∃ left, Account infoFails s.alive (s.pending n) (s.calls n) left

section Runs

variable {infoFails : Prop} {s s' : RequestBooks} {n m size : Nat} {calls : List RpcCall}

theorem ledgerInv_start (infoFails : Prop) : LedgerInv infoFails .start where
  fresh _ _ := rfl
  account n hn := absurd hn (Nat.not_lt_zero n)

/-- A failed assertion elsewhere does not touch an account. -/
theorem Account.setAlive {transfer : Option Nat} {calls : List ServerCall}
    {left : Resource → Bool} (h : Account infoFails true transfer calls left) (alive : Bool) :
    Account infoFails alive transfer calls left :=
  ⟨h.leaves, h.full, fun _ => h.ended rfl⟩

theorem RequestBooks.perform_own (s : RequestBooks) (n : Nat) (calls : List RpcCall) :
    (s.perform n calls).pending n = started calls ∧
      (s.perform n calls).calls n = s.calls n ++ calls.map .rpc :=
  ⟨Function.update_self .., Function.update_self ..⟩

theorem RequestBooks.perform_other (s : RequestBooks) (calls : List RpcCall) (h : m ≠ n) :
    (s.perform n calls).pending m = s.pending m ∧ (s.perform n calls).calls m = s.calls m :=
  ⟨Function.update_of_ne h .., Function.update_of_ne h ..⟩

theorem RequestBooks.handle_own (s : RequestBooks) (calls : List RpcCall) :
    (s.handle calls).pending s.handled = started calls ∧
      (s.handle calls).calls s.handled = .handler :: calls.map .rpc := by
  obtain ⟨hpending, hcalls⟩ := s.arrive.perform_own s.handled calls
  have harrive : s.arrive.calls s.handled = [.handler] := Function.update_self ..
  rw [harrive] at hcalls
  exact ⟨hpending, hcalls⟩

theorem RequestBooks.handle_other (s : RequestBooks) (calls : List RpcCall) (h : m ≠ s.handled) :
    (s.handle calls).pending m = s.pending m ∧ (s.handle calls).calls m = s.calls m := by
  obtain ⟨hpending, hcalls⟩ := s.arrive.perform_other calls h
  exact ⟨hpending, hcalls.trans (Function.update_of_ne h ..)⟩

theorem LedgerInv.handle (h : LedgerInv infoFails s) (halive : s.alive = true)
    (hleaves : ∃ left, HandlerLeaves infoFails calls left) :
    LedgerInv infoFails (s.handle calls) := by
  obtain ⟨hpending, hcalls⟩ := s.handle_own calls
  constructor
  · intro m hm
    have hlt : s.handled < m := hm
    rw [(s.handle_other calls hlt.ne').1]
    exact h.fresh m hlt.le
  · intro m hm
    rcases Nat.lt_succ_iff_lt_or_eq.mp hm with hlt | rfl
    · obtain ⟨left, hleft⟩ := h.account m hlt
      obtain ⟨hpending', hcalls'⟩ := s.handle_other calls hlt.ne
      rw [halive] at hleft
      rw [hpending', hcalls']
      exact ⟨left, hleft.setAlive _⟩
    · rw [hpending, hcalls]
      exact hleaves

/-- A request whose transfer is pending holds everything, so the callback has what
    it gives back. -/
theorem LedgerInv.complete (h : LedgerInv infoFails s) (halive : s.alive = true)
    (hpending : s.pending n = some size) (info respond : Bool) :
    LedgerInv infoFails (s.perform n (hvacRpcHandlerBulkCb size info respond)) := by
  obtain ⟨-, hnone⟩ := hvacRpcHandlerBulkCb_alive size info respond
  obtain ⟨hpending', hcalls'⟩ := s.perform_own n (hvacRpcHandlerBulkCb size info respond)
  constructor
  · intro m hm
    by_cases hsame : m = n
    · rw [hsame, hpending', hnone]
    · rw [(s.perform_other _ hsame).1]
      exact h.fresh m hm
  · intro m hm
    obtain ⟨left, hleft⟩ := h.account m hm
    rw [halive] at hleft
    by_cases hsame : m = n
    · subst hsame
      rw [hpending', hcalls', hnone]
      refine ⟨RequestEnd.transferred.left, fun r => ?_, fun hne => absurd rfl hne, ?_⟩
      · have hfull := hleft.leaves r
        rw [hleft.full (by rw [hpending]; exact Option.some_ne_none size) r] at hfull
        rw [follow_append hfull]
        exact hvacRpcHandlerBulkCb_leaves size info respond r
      · exact fun _ _ => ⟨.transferred, rfl, by simp⟩
    · obtain ⟨hpending'', hcalls''⟩ :=
        s.perform_other (hvacRpcHandlerBulkCb size info respond) hsame
      rw [hpending'', hcalls'']
      exact ⟨left, hleft.setAlive _⟩

/-- The steps of the server: one for each handler, and the completion of a transfer. -/
inductive RequestStep (s : RequestBooks) : RequestLabel → RequestBooks → Prop where
  | openIn (getInput : Bool) (retStatus : Int) (respond : Bool) :
      RequestStep s (.openIn getInput retStatus respond)
        (s.handle (hvacOpenRpcHandler getInput retStatus respond))
  | rpcIn (inputVal offset : Int) (outcome : RpcOutcome) :
      RequestStep s (.rpcIn inputVal offset outcome) (s.handle (hvacRpcHandler offset outcome))
  | seekIn (getInput : Bool) (ret : Int) (respond : Bool) :
      RequestStep s (.seekIn getInput ret respond)
        (s.handle (hvacSeekRpcHandler getInput ret respond))
  | complete {request size : Nat} (hpending : s.pending request = some size)
      (info respond : Bool) :
      RequestStep s (.complete request info respond)
        (s.perform request (hvacRpcHandlerBulkCb size info respond))

theorem requestMachine_step {l : RequestLabel} {o : Unit}
    (hstep : requestMachine.step s l = some (s', o)) : s.alive = true ∧ RequestStep s l s' := by
  simp only [requestMachine, Option.ite_none_right_eq_some] at hstep
  obtain ⟨halive, hstep⟩ := hstep
  refine ⟨halive, ?_⟩
  cases l with
  | openIn getInput retStatus respond =>
    obtain ⟨rfl, -⟩ := Prod.mk.inj (Option.some.inj hstep)
    exact .openIn getInput retStatus respond
  | rpcIn inputVal offset outcome =>
    simp only [Option.ite_none_right_eq_some, Option.some.injEq, Prod.mk.injEq] at hstep
    obtain ⟨-, rfl, -⟩ := hstep
    exact .rpcIn inputVal offset outcome
  | seekIn getInput ret respond =>
    obtain ⟨rfl, -⟩ := Prod.mk.inj (Option.some.inj hstep)
    exact .seekIn getInput ret respond
  | complete request info respond =>
    simp only at hstep
    split at hstep
    · next size hpending =>
      obtain ⟨rfl, -⟩ := Prod.mk.inj (Option.some.inj hstep)
      exact .complete hpending info respond
    · cases hstep

/-- `HG_Get_info` does not fail in the step. -/
def InfoFound : RequestLabel → Prop
  | .openIn _ _ _ => True
  | .rpcIn _ _ outcome => outcome.info = true
  | .seekIn _ _ _ => True
  | .complete _ _ _ => True

theorem LedgerInv.step (h : LedgerInv infoFails s) {l : RequestLabel} {o : Unit}
    (hinfo : ¬ InfoFound l → infoFails) (hstep : requestMachine.step s l = some (s', o)) :
    LedgerInv infoFails s' := by
  obtain ⟨halive, hrequest⟩ := requestMachine_step hstep
  cases hrequest with
  | openIn getInput retStatus respond =>
    apply h.handle halive
    exact exists_answerHandler_leaves infoFails getInput retStatus respond
  | rpcIn inputVal offset outcome =>
    apply h.handle halive
    apply exists_hvacRpcHandler_leaves
    intro hfails
    apply hinfo
    rw [InfoFound, hfails]
    exact Bool.false_ne_true
  | seekIn getInput ret respond =>
    apply h.handle halive
    exact exists_answerHandler_leaves infoFails getInput (int32 ret) respond
  | complete hpending info respond => exact h.complete halive hpending info respond

/-! ### Quiet states -/

/-- Once a request was handled, no quiet state is balanced. -/
theorem LedgerInv.not_balanced (h : LedgerInv infoFails s) (hhandled : 0 < s.handled)
    (hquiet : s.Quiet) : ¬ s.Balanced := by
  intro hbalanced
  obtain ⟨left, hleft⟩ := h.account 0 hhandled
  obtain ⟨e, rfl, -⟩ := hleft.ended hquiet.1 (hquiet.2 0)
  obtain ⟨r, hr⟩ := e.exists_left
  have hnone := (settled_iff_of_follow hleft.leaves).mp (hbalanced 0 hhandled) r
  rw [hr] at hnone
  cases hnone

theorem LedgerInv.quiet_handle_iff (h : LedgerInv infoFails s) :
    (s.handle calls).Quiet ↔
      (.abort ∉ calls ∧ started calls = none) ∧ ∀ n, s.pending n = none := by
  have hquiet : (s.handle calls).Quiet ↔
      .abort ∉ calls ∧ ∀ n, (s.handle calls).pending n = none :=
    and_congr_left fun _ => decide_eq_true_iff
  rw [hquiet, and_assoc]
  refine and_congr_right fun _ => ?_
  constructor
  · intro hnone
    refine ⟨(s.handle_own calls).1.symm.trans (hnone s.handled), fun n => ?_⟩
    by_cases hsame : n = s.handled
    · exact h.fresh n hsame.ge
    · exact (s.handle_other calls hsame).1.symm.trans (hnone n)
  · rintro ⟨hown, hnone⟩ n
    by_cases hsame : n = s.handled
    · rw [hsame, (s.handle_own calls).1, hown]
    · rw [(s.handle_other calls hsame).1, hnone n]

theorem quiet_complete_iff (s : RequestBooks) (n : Nat) (info respond : Bool) :
    (s.perform n (hvacRpcHandlerBulkCb size info respond)).Quiet ↔
      ∀ m, m ≠ n → s.pending m = none := by
  obtain ⟨halive, hnone⟩ := hvacRpcHandlerBulkCb_alive size info respond
  constructor
  · intro hquiet m hm
    rw [← (s.perform_other _ hm).1]
    exact hquiet.2 m
  · intro hothers
    refine ⟨decide_eq_true halive, fun m => ?_⟩
    by_cases hsame : m = n
    · rw [hsame, (s.perform_own n _).1, hnone]
    · rw [(s.perform_other _ hsame).1, hothers m hsame]

/-- A step leads to a quiet state exactly when it keeps no transfer pending. -/
theorem LedgerInv.quiet_iff (h : LedgerInv infoFails s) {l : RequestLabel} {o : Unit}
    (hstep : requestMachine.step s l = some (s', o)) : s'.Quiet ↔ ¬ KeepsTransfer s l := by
  obtain ⟨-, hrequest⟩ := requestMachine_step hstep
  cases hrequest with
  | openIn getInput retStatus respond =>
    rw [h.quiet_handle_iff, hvacOpenRpcHandler, answerHandler_over_iff]
    simp [KeepsTransfer]
  | rpcIn inputVal offset outcome =>
    rw [h.quiet_handle_iff, hvacRpcHandler_over_iff]
    simp [KeepsTransfer]
  | seekIn getInput ret respond =>
    rw [h.quiet_handle_iff, hvacSeekRpcHandler, answerHandler_over_iff]
    simp [KeepsTransfer]
  | complete hpending info respond =>
    rw [quiet_complete_iff]
    simp [KeepsTransfer]

theorem LedgerInv.handled_pos (h : LedgerInv infoFails s) {l : RequestLabel} {o : Unit}
    (hstep : requestMachine.step s l = some (s', o)) : 0 < s'.handled := by
  obtain ⟨-, hrequest⟩ := requestMachine_step hstep
  cases hrequest with
  | openIn | rpcIn | seekIn => exact Nat.succ_pos _
  | @complete request size hpending info respond =>
    have hlt : request < s.handled := by
      by_contra hge
      rw [h.fresh request (not_lt.mp hge)] at hpending
      cases hpending
    exact Nat.zero_lt_of_lt hlt

/-- **In every quiet state of a run all that was taken was given back if and only if
    the run comes to no quiet state once it handles a request.** -/
theorem balanced_iff (labels : List RequestLabel) :
    requestMachine.Along (fun _ _ s' _ => s'.Quiet → s'.Balanced) .start labels ↔
      requestMachine.Along (fun s l _ _ => KeepsTransfer s l) .start labels := by
  refine Machine.along_iff (I := LedgerInv True) ?_ (ledgerInv_start True)
  intro s l s' o h hstep
  have hnext := h.step (fun _ => trivial) hstep
  have hquiet := h.quiet_iff hstep
  refine ⟨?_, fun _ => hnext⟩
  constructor
  · intro hbalanced
    by_contra hkeeps
    have hq := hquiet.mpr hkeeps
    exact hnext.not_balanced (h.handled_pos hstep) hq (hbalanced hq)
  · intro hkeeps hq
    exact absurd hkeeps (hquiet.mp hq)

end Runs

/-- An open, and a read with every call succeeding: the first leaves its handle and its
    input, the second its input. -/
theorem request_leaves_input :
    (∃ s outs, requestMachine.run .start [.openIn true 5 true] = some (s, outs) ∧ s.Quiet ∧
      taken ServerCall.move .handle (s.calls 0) = 1 ∧
      given ServerCall.move .handle (s.calls 0) = 0 ∧
      taken ServerCall.move .input (s.calls 0) = 1 ∧
      given ServerCall.move .input (s.calls 0) = 0 ∧ ¬ s.Balanced) ∧
    ∃ s outs, requestMachine.run .start [.rpcIn 1 (-1) (.clean 1 1), .complete 0 true true] =
        some (s, outs) ∧ s.Quiet ∧
      taken ServerCall.move .input (s.calls 0) = 1 ∧
      given ServerCall.move .input (s.calls 0) = 0 ∧ ¬ s.Balanced := by
  constructor
  · refine ⟨_, _, rfl, ⟨rfl, fun n => ?_⟩, rfl, rfl, rfl, rfl, fun h => ?_⟩
    · cases n <;> rfl
    · cases h 0 (Nat.zero_lt_one) .input
  · refine ⟨_, _, rfl, ⟨rfl, fun n => ?_⟩, rfl, rfl, fun h => ?_⟩
    · cases n <;> rfl
    · cases h 0 (Nat.zero_lt_one) .input

/-! ### What is given back -/

section GivenBack

variable {s : RequestBooks} {outs : List Unit}

/-- Nothing is given back that is not held: at no point of a request were there more
    releases of a resource than there was of it. -/
theorem given_le_taken_run {labels : List RequestLabel}
    (hrun : requestMachine.run .start labels = some (s, outs)) {n : Nat} (hn : n < s.handled)
    {before rest : List ServerCall} (hcalls : s.calls n = before ++ rest) (r : Resource) :
    given ServerCall.move r before ≤ taken ServerCall.move r before := by
  have h := Machine.run_of_step (I := LedgerInv True)
    (fun _ _ _ _ h hstep => h.step (fun _ => trivial) hstep) (ledgerInv_start True) hrun
  obtain ⟨left, hleft⟩ := h.account n hn
  have hfollow := hleft.leaves r
  rw [hcalls] at hfollow
  obtain ⟨mid, hmid, -⟩ := exists_follow_of_prefix hfollow
  exact given_le_taken hmid

/-- A `pread` whose transfer is pending beside an open, and then complete. -/
def preadBesideOpen : List RequestLabel :=
  [.rpcIn 4 2 (.clean 4 3), .openIn true 5 true, .complete 0 true true]

theorem given_le_taken_run_pread :
    ∃ s outs, requestMachine.run .start preadBesideOpen = some (s, outs) ∧
      given ServerCall.move .buffer (s.calls 0) ≤ taken ServerCall.move .buffer (s.calls 0) := by
  obtain ⟨⟨s, outs⟩, hrun⟩ : ∃ r, requestMachine.run .start preadBesideOpen = some r := ⟨_, rfl⟩
  have hhandled : (requestMachine.run .start preadBesideOpen).any (fun r =>
      decide (0 < r.1.handled)) = true := rfl
  rw [hrun] at hhandled
  have hzero : 0 < s.handled := of_decide_eq_true hhandled
  exact ⟨s, outs, hrun, given_le_taken_run hrun hzero (List.append_nil _).symm .buffer⟩

/-- **Where `HG_Get_info` does not fail, every quiet state has all buffers, bulk
    handles and request states freed once.** -/
theorem memory_given_back {labels : List RequestLabel}
    (hinfo : requestMachine.Along (fun _ l _ _ => InfoFound l) .start labels) :
    requestMachine.Along (fun _ _ s' _ => s'.Quiet → ∀ n < s'.handled, ∀ r,
      r ≠ .handle → r ≠ .input →
        given ServerCall.move r (s'.calls n) = taken ServerCall.move r (s'.calls n))
      .start labels := by
  refine Machine.along_of_invariant (I := LedgerInv False) ?_ (ledgerInv_start False) hinfo
  intro s l s' o h hl hstep
  have hnext := h.step (fun hfails => hfails hl) hstep
  refine ⟨fun hquiet n hn r hhandle hinput => ?_, hnext⟩
  obtain ⟨left, hleft⟩ := hnext.account n hn
  obtain ⟨e, rfl, he⟩ := hleft.ended hquiet.1 (hquiet.2 n)
  rw [given_eq_taken_iff (hleft.leaves r)]
  cases e with
  | noInfo => exact (he rfl).elim
  | noInput => exact decide_eq_false hhandle
  | answered => exact decide_eq_false (not_or.mpr ⟨hhandle, hinput⟩)
  | transferred => exact decide_eq_false hinput

theorem memory_given_back_pread :
    requestMachine.Along (fun _ _ s' _ => s'.Quiet → ∀ n < s'.handled, ∀ r,
      r ≠ .handle → r ≠ .input →
        given ServerCall.move r (s'.calls n) = taken ServerCall.move r (s'.calls n))
      .start preadBesideOpen := by
  refine memory_given_back (Machine.along_of_forall_mem ?_)
  simp [preadBesideOpen, InfoFound, RpcOutcome.clean]

end GivenBack

end Hvac
