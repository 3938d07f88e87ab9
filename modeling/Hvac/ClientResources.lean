/-
  Hvac/ClientResources.lean
  =========================
  **Is what a request takes at the client given back?**

  A request of the client runs in two threads: the caller looks the server's address
  up, makes a handle, forwards the request and frees the address; the callback, which
  may run before the caller is through, decodes the reply and frees the rest
  (`hvac_comm_client.cpp`).  A close has no reply and is over when its caller is.
  Each stage is the calls it makes, over the ledger of `Library/Ledger.lean`.

  Nothing is given back that is not held, unless an address that was not found is
  freed or a reply that could not be decoded is (`sound_iff`); and in a process with
  no request under way exactly three things are left: the copy of the path of each
  open, the state of each close, and the stream of each scan of the address file
  (`leftover_iff`).
-/
import Hvac.Library.Ledger
import Hvac.Library.Machine

namespace Hvac

open Ledger

/-! ### Resources and calls -/

inductive ClientResource where
  | state
  | stream
  | addr
  | handle
  | path
  | bulkHandle
  | output
deriving DecidableEq, Repr

inductive ClientCall where
  | mallocState
  | openConfig
  | lookupAddr
  | createHandle
  | mallocPath
  | bulkCreate
  | forward
  | freeAddr
  | getOutput
  | freeOutput
  | bulkFree
  | destroy
  | freeState
  | abort
deriving DecidableEq, Repr

def ClientCall.move : ClientCall → Option (Move ClientResource)
  | .mallocState => some (.take .state)
  | .openConfig => some (.take .stream)
  | .lookupAddr => some (.take .addr)
  | .createHandle => some (.take .handle)
  | .mallocPath => some (.take .path)
  | .bulkCreate => some (.take .bulkHandle)
  | .getOutput => some (.take .output)
  | .freeAddr => some (.give .addr)
  | .freeOutput => some (.give .output)
  | .bulkFree => some (.give .bulkHandle)
  | .destroy => some (.give .handle)
  | .freeState => some (.give .state)
  | .forward => none
  | .abort => none

/-! ### The caller -/

inductive RpcKind where
  | openRpc
  | readRpc
  | seekRpc
  | closeRpc
deriving DecidableEq, Repr

/-- Whether `hvac_client_comm_lookup_addr` reads the address file, and whether there is
    an address that `HG_Addr_lookup2` resolves. -/
structure Lookup where
  scanned : Bool
  found : Bool
deriving DecidableEq, Repr

/-- The stream of the address file is not closed. -/
def hvacClientCommLookupAddr (l : Lookup) : List ClientCall :=
  (if l.scanned then [.openConfig] else []) ++ if l.found then [.lookupAddr] else []

/-- Whether the calls of the caller succeed; `prepare` is that of `HG_Get_info` and
    `HG_Bulk_create`. -/
structure IssueOutcome where
  lookup : Lookup
  create : Bool
  prepare : Bool
  forward : Bool
deriving DecidableEq, Repr

/-- The common part of the request builders, each call of which is asserted:
    `prepare` is called between the handle and the request. -/
def genRpc (prepare : List ClientCall) (prepared : Bool) (o : IssueOutcome) : List ClientCall :=
  hvacClientCommLookupAddr o.lookup ++
    if o.create then
      .createHandle ::
      if prepared then prepare ++ if o.forward then [.forward] else [.abort]
      else [.abort]
    else [.abort]

def hvacClientCommGenOpenRpc (o : IssueOutcome) : List ClientCall := genRpc [.mallocPath] true o

def hvacClientCommGenReadRpc (o : IssueOutcome) : List ClientCall :=
  genRpc [.bulkCreate] o.prepare o

def hvacClientCommGenSeekRpc (o : IssueOutcome) : List ClientCall := genRpc [] true o

def hvacClientCommGenCloseRpc (o : IssueOutcome) : List ClientCall := genRpc [] true o

/-- The caller up to the request: `hvac_track_file`, `hvac_remote_read` and
    `hvac_remote_pread`, `hvac_remote_lseek`, `hvac_remote_close`. -/
def issueCalls (o : IssueOutcome) : RpcKind → List ClientCall
  | .openRpc => .mallocState :: hvacClientCommGenOpenRpc o
  | .readRpc => .mallocState :: hvacClientCommGenReadRpc o
  | .seekRpc => hvacClientCommGenSeekRpc o
  | .closeRpc => .mallocState :: hvacClientCommGenCloseRpc o

/-- The caller after it. -/
def finishCalls : RpcKind → List ClientCall
  | .openRpc => [.freeAddr]
  | .readRpc => [.freeAddr]
  | .seekRpc => [.freeAddr]
  | .closeRpc => [.destroy, .freeAddr]

/-! ### The callbacks -/

/-- A reply that cannot be decoded is freed all the same. -/
def hvacOpenCb (getOutput : Bool) : List ClientCall :=
  (if getOutput then [.getOutput] else []) ++ [.freeOutput, .destroy, .freeState]

def hvacSeekCb (getOutput : Bool) : List ClientCall :=
  (if getOutput then [.getOutput] else []) ++ [.freeOutput, .destroy]

def hvacReadCb (getOutput : Bool) : List ClientCall :=
  (if getOutput then [.getOutput, .freeOutput] else []) ++ [.bulkFree, .destroy, .freeState]

/-- `open` and `read` assert that the request succeeded. -/
def callbackCalls (success getOutput : Bool) : RpcKind → List ClientCall
  | .openRpc => if success then hvacOpenCb getOutput else [.abort]
  | .readRpc => if success then hvacReadCb getOutput else [.abort]
  | .seekRpc => hvacSeekCb getOutput
  | .closeRpc => []

/-! ### Runs -/

/-- A request: whether its caller still has to finish and its callback to come, and
    the calls made for it. -/
structure ClientRpc where
  kind : RpcKind
  lookup : Lookup
  finishing : Bool
  waiting : Bool
  calls : List ClientCall
deriving DecidableEq

structure ClientBooks where
  alive : Bool
  rpcs : List ClientRpc
deriving DecidableEq

inductive BooksLabel where
  | issue (kind : RpcKind) (outcome : IssueOutcome)
  | finish (n : Nat)
  | callback (n : Nat) (success getOutput : Bool)
deriving DecidableEq

def ClientBooks.start : ClientBooks := ⟨true, []⟩

/-- A request that was issued; a close waits for no callback. -/
def ClientRpc.issued (kind : RpcKind) (o : IssueOutcome) : ClientRpc where
  kind := kind
  lookup := o.lookup
  finishing := true
  waiting := kind ≠ .closeRpc
  calls := issueCalls o kind

def ClientRpc.finish (r : ClientRpc) : ClientRpc :=
  { r with finishing := false, calls := r.calls ++ finishCalls r.kind }

def ClientRpc.callback (r : ClientRpc) (success getOutput : Bool) : ClientRpc :=
  { r with waiting := false, calls := r.calls ++ callbackCalls success getOutput r.kind }

/-- Callers and callbacks of any requests, interleaved; a failed assertion ends the
    process. -/
def booksMachine : Machine ClientBooks BooksLabel Unit where
  step s l :=
    if s.alive = true then
      match l with
      | .issue kind outcome =>
          some (⟨decide (.abort ∉ issueCalls outcome kind), s.rpcs ++ [.issued kind outcome]⟩, ())
      | .finish n =>
          match s.rpcs[n]? with
          | none => none
          | some r => if r.finishing then some (⟨true, s.rpcs.set n r.finish⟩, ()) else none
      | .callback n success getOutput =>
          match s.rpcs[n]? with
          | none => none
          | some r =>
              if r.waiting then
                some (⟨decide (.abort ∉ callbackCalls success getOutput r.kind),
                  s.rpcs.set n (r.callback success getOutput)⟩, ())
              else none
    else none

/-! ### Statements -/

/-- At no point of a request were there more releases of a resource than there was of
    it. -/
def ClientRpc.Sound (r : ClientRpc) : Prop :=
  ∀ res before rest, r.calls = before ++ rest →
    given ClientCall.move res before ≤ taken ClientCall.move res before

/-- The reply was decoded where it is freed. -/
def ReplyHeld (success getOutput : Bool) : RpcKind → Prop
  | .openRpc => success = true → getOutput = true
  | .readRpc => True
  | .seekRpc => getOutput = true
  | .closeRpc => True

/-- The step frees no address that was not found and no reply that was not decoded. -/
def FreesHeld (s : ClientBooks) : BooksLabel → Prop
  | .issue _ _ => True
  | .finish n => ∀ r ∈ s.rpcs[n]?, r.lookup.found = true
  | .callback n success getOutput => ∀ r ∈ s.rpcs[n]?, ReplyHeld success getOutput r.kind

instance (success getOutput : Bool) (kind : RpcKind) :
    Decidable (ReplyHeld success getOutput kind) :=
  match kind with
  | .openRpc => inferInstanceAs (Decidable (_ → _))
  | .readRpc => isTrue trivial
  | .seekRpc => inferInstanceAs (Decidable (_ = _))
  | .closeRpc => isTrue trivial

instance (s : ClientBooks) (l : BooksLabel) : Decidable (FreesHeld s l) :=
  match l with
  | .issue _ _ => isTrue trivial
  | .finish n => inferInstanceAs (Decidable (∀ r ∈ s.rpcs[n]?, _))
  | .callback n _ _ => inferInstanceAs (Decidable (∀ r ∈ s.rpcs[n]?, _))

/-- The process runs, and no request is under way. -/
def ClientBooks.Quiet (s : ClientBooks) : Prop :=
  s.alive = true ∧ ∀ r ∈ s.rpcs, r.finishing = false ∧ r.waiting = false

/-- What is never given back. -/
def ClientRpc.Leaks (r : ClientRpc) : ClientResource → Prop
  | .path => r.kind = .openRpc
  | .state => r.kind = .closeRpc
  | .stream => r.lookup.scanned = true
  | .addr => False
  | .handle => False
  | .bulkHandle => False
  | .output => False

instance (r : ClientRpc) (res : ClientResource) : Decidable (r.Leaks res) :=
  match res with
  | .path => inferInstanceAs (Decidable (_ = _))
  | .state => inferInstanceAs (Decidable (_ = _))
  | .stream => inferInstanceAs (Decidable (_ = _))
  | .addr => isFalse id
  | .handle => isFalse id
  | .bulkHandle => isFalse id
  | .output => isFalse id

/-! ### What a request holds -/

def ClientRpc.held (r : ClientRpc) : ClientResource → Bool
  | .state =>
      match r.kind with
      | .openRpc => r.waiting
      | .readRpc => r.waiting
      | .seekRpc => false
      | .closeRpc => true
  | .stream => r.lookup.scanned
  | .addr => r.finishing && r.lookup.found
  | .handle => if r.kind = .closeRpc then r.finishing else r.waiting
  | .path => decide (r.kind = .openRpc)
  | .bulkHandle => decide (r.kind = .readRpc) && r.waiting
  | .output => false

/-- The calls of a request are accepted, and while the process runs they leave what the
    request holds. -/
def ClientRpc.Booked (alive : Bool) (r : ClientRpc) : Prop :=
  ∃ left : ClientResource → Bool,
    (∀ res, follow ClientCall.move res false r.calls = some (left res)) ∧
      (alive = true → ∀ res, left res = r.held res)

theorem ClientRpc.Booked.sound {alive : Bool} {r : ClientRpc} (h : r.Booked alive) : r.Sound := by
  obtain ⟨left, hfollow, -⟩ := h
  intro res before rest hcalls
  have hres := hfollow res
  rw [hcalls] at hres
  obtain ⟨mid, hmid, -⟩ := exists_follow_of_prefix hres
  exact given_le_taken hmid

theorem ClientRpc.Booked.mono {alive : Bool} {r : ClientRpc} (h : r.Booked true) :
    r.Booked alive := by
  obtain ⟨left, hfollow, hheld⟩ := h
  exact ⟨left, hfollow, fun _ => hheld rfl⟩

/-- What the caller takes before the request is what the request holds, unless an
    assertion fails. -/
theorem follow_issueCalls (kind : RpcKind) (o : IssueOutcome) (res : ClientResource) :
    ∃ left, follow ClientCall.move res false (issueCalls o kind) = some left ∧
      (.abort ∉ issueCalls o kind → left = (ClientRpc.issued kind o).held res) := by
  cases kind with
  | openRpc =>
    rcases o with ⟨⟨_ | _, _ | _⟩, _ | _, prepare, _ | _⟩ <;> cases res <;>
      exact ⟨_, rfl, by simp [issueCalls, hvacClientCommGenOpenRpc, genRpc, ClientRpc.issued,
        ClientRpc.held]⟩
  | readRpc =>
    rcases o with ⟨⟨_ | _, _ | _⟩, _ | _, _ | _, _ | _⟩ <;> cases res <;>
      exact ⟨_, rfl, by simp [issueCalls, hvacClientCommGenReadRpc, genRpc, ClientRpc.issued,
        ClientRpc.held]⟩
  | seekRpc =>
    rcases o with ⟨⟨_ | _, _ | _⟩, _ | _, prepare, _ | _⟩ <;> cases res <;>
      exact ⟨_, rfl, by simp [issueCalls, hvacClientCommGenSeekRpc, genRpc, ClientRpc.issued,
        ClientRpc.held]⟩
  | closeRpc =>
    rcases o with ⟨⟨_ | _, _ | _⟩, _ | _, prepare, _ | _⟩ <;> cases res <;>
      exact ⟨_, rfl, by simp [issueCalls, hvacClientCommGenCloseRpc, genRpc, ClientRpc.issued,
        ClientRpc.held]⟩

theorem booked_issued (kind : RpcKind) (o : IssueOutcome) :
    (ClientRpc.issued kind o).Booked (decide (.abort ∉ issueCalls o kind)) := by
  choose left hfollow hleft using follow_issueCalls kind o
  exact ⟨left, hfollow, fun halive res => hleft res (of_decide_eq_true halive)⟩

namespace ClientRpc

variable {r : ClientRpc}

/-- What a further stage does to what the request holds decides what it holds after. -/
theorem Booked.append {alive : Bool} {r' : ClientRpc} {more : List ClientCall} (h : r.Booked true)
    (hcalls : r'.calls = r.calls ++ more)
    (hmore : ∀ res, ∃ left, follow ClientCall.move res (r.held res) more = some left ∧
      (alive = true → left = r'.held res)) : r'.Booked alive := by
  obtain ⟨before, hbefore, hheld⟩ := h
  choose left hleft hleft' using hmore
  refine ⟨left, fun res => ?_, fun halive res => hleft' res halive⟩
  rw [hcalls, follow_append (hbefore res), hheld rfl res]
  exact hleft res

theorem booked_finish (h : r.Booked true) (hfinishing : r.finishing = true)
    (hfound : r.lookup.found = true) : r.finish.Booked true := by
  refine h.append rfl fun res => ⟨r.finish.held res, ?_, fun _ => rfl⟩
  obtain ⟨kind, ⟨scanned, found⟩, finishing, waiting, calls⟩ := r
  cases hfinishing
  cases hfound
  cases kind <;> cases res <;> rfl

theorem booked_callback {success getOutput : Bool} (h : r.Booked true) (hwaiting : r.waiting = true)
    (hreply : ReplyHeld success getOutput r.kind) :
    (r.callback success getOutput).Booked
      (decide (.abort ∉ callbackCalls success getOutput r.kind)) := by
  refine h.append rfl fun res => ?_
  obtain ⟨kind, lookup, finishing, waiting, calls⟩ := r
  cases hwaiting
  cases kind with
  | openRpc =>
    cases success with
    | false => exact ⟨_, rfl, fun halive => Bool.noConfusion halive⟩
    | true =>
      cases hreply rfl
      cases res <;> exact ⟨_, rfl, fun _ => rfl⟩
  | readRpc =>
    cases success with
    | false => exact ⟨_, rfl, fun halive => Bool.noConfusion halive⟩
    | true => cases getOutput <;> cases res <;> exact ⟨_, rfl, fun _ => rfl⟩
  | seekRpc =>
    cases hreply
    cases res <;> exact ⟨_, rfl, fun _ => rfl⟩
  | closeRpc => cases res <;> exact ⟨_, rfl, fun _ => rfl⟩

/-- Where a stage comes to free what the request does not hold, more is freed than was
    taken. -/
theorem Booked.not_sound (h : r.Booked true) (res : ClientResource) {r' : ClientRpc}
    {mid rest : List ClientCall} {c : ClientCall} (hcalls : r'.calls = r.calls ++ (mid ++ c :: rest))
    (hmid : follow ClientCall.move res (r.held res) mid = some false)
    (hgive : c.move = some (.give res)) : ¬ r'.Sound := by
  obtain ⟨before, hbefore, hheld⟩ := h
  have hfollow : follow ClientCall.move res false (r.calls ++ mid) = some false := by
    rw [follow_append (hbefore res), hheld rfl res]
    exact hmid
  intro hsound
  have hle := hsound res (r.calls ++ mid ++ [c]) rest (by simp [hcalls])
  exact absurd (taken_lt_given hfollow hgive) (Nat.not_lt.mpr hle)

theorem exists_finishCalls (kind : RpcKind) : ∃ mid, finishCalls kind = mid ++ [.freeAddr] ∧
    follow ClientCall.move .addr false mid = some false := by
  cases kind with
  | closeRpc => exact ⟨[.destroy], rfl, rfl⟩
  | openRpc => exact ⟨[], rfl, rfl⟩
  | readRpc => exact ⟨[], rfl, rfl⟩
  | seekRpc => exact ⟨[], rfl, rfl⟩

theorem not_sound_finish (h : r.Booked true) (hfound : r.lookup.found = false) :
    ¬ r.finish.Sound := by
  have hheld : r.held .addr = false := by simp [held, hfound]
  obtain ⟨mid, hcalls, hmid⟩ := exists_finishCalls r.kind
  have hcalls' : r.finish.calls = r.calls ++ (mid ++ .freeAddr :: []) := by rw [finish, hcalls]
  refine h.not_sound .addr hcalls' ?_ rfl
  rw [hheld]
  exact hmid

theorem not_sound_callback {success getOutput : Bool} (h : r.Booked true)
    (hreply : ¬ ReplyHeld success getOutput r.kind) : ¬ (r.callback success getOutput).Sound := by
  have hcalls : ∃ rest, callbackCalls success getOutput r.kind = .freeOutput :: rest := by
    cases hkind : r.kind with
    | openRpc =>
      rw [hkind] at hreply
      obtain ⟨rfl, hnot⟩ := Classical.not_imp.mp hreply
      rw [Bool.eq_false_iff.mpr hnot]
      exact ⟨[.destroy, .freeState], rfl⟩
    | seekRpc =>
      rw [hkind] at hreply
      rw [Bool.eq_false_iff.mpr hreply]
      exact ⟨[.destroy], rfl⟩
    | readRpc =>
      rw [hkind] at hreply
      exact absurd trivial hreply
    | closeRpc =>
      rw [hkind] at hreply
      exact absurd trivial hreply
  obtain ⟨rest, hrest⟩ := hcalls
  have hcalls : (r.callback success getOutput).calls = r.calls ++ ([] ++ .freeOutput :: rest) := by
    rw [callback, hrest, List.nil_append]
  exact h.not_sound .output hcalls rfl rfl

/-- A request that is over leaves what `Leaks` says. -/
theorem held_eq_false_iff (hfinishing : r.finishing = false) (hwaiting : r.waiting = false)
    (res : ClientResource) : r.held res = false ↔ ¬ r.Leaks res := by
  cases res with
  | state => cases hkind : r.kind <;> simp [held, Leaks, hkind, hwaiting]
  | stream => simp [held, Leaks]
  | addr => simp [held, Leaks, hfinishing]
  | handle => simp [held, Leaks, hfinishing, hwaiting]
  | path => simp [held, Leaks]
  | bulkHandle => simp [held, Leaks, hwaiting]
  | output => simp [held, Leaks]

theorem Booked.given_eq_taken_iff (h : r.Booked true) (hfinishing : r.finishing = false)
    (hwaiting : r.waiting = false) (res : ClientResource) :
    given ClientCall.move res r.calls = taken ClientCall.move res r.calls ↔ ¬ r.Leaks res := by
  obtain ⟨left, hfollow, hheld⟩ := h
  rw [Ledger.given_eq_taken_iff (hfollow res), hheld rfl res]
  exact held_eq_false_iff hfinishing hwaiting res

end ClientRpc

/-! ### Runs -/

/-- Every request is booked. -/
def BooksInv (s : ClientBooks) : Prop := ∀ r ∈ s.rpcs, r.Booked s.alive

namespace BooksInv

variable {s s' : ClientBooks} {l : BooksLabel}

/-- A stage of one request, at the end of which the process may be over. -/
theorem set {rpcs : List ClientRpc} (h : BooksInv ⟨true, rpcs⟩) {alive : Bool} (n : Nat)
    {r : ClientRpc} (hr : r.Booked alive) : BooksInv ⟨alive, rpcs.set n r⟩ := by
  intro r' hr'
  rcases List.mem_or_eq_of_mem_set hr' with hmem | rfl
  · exact (h r' hmem).mono
  · exact hr

/-- One step: what it frees is held if and only if no request frees too much. -/
theorem step_iff (h : BooksInv s) (hstep : booksMachine.step s l = some (s', ())) :
    ((∀ r ∈ s'.rpcs, r.Sound) ↔ FreesHeld s l) ∧ (FreesHeld s l → BooksInv s') := by
  suffices hboth : (FreesHeld s l → BooksInv s') ∧ (¬ FreesHeld s l → ∃ r ∈ s'.rpcs, ¬ r.Sound) by
    refine ⟨⟨fun hsound => ?_, fun hfrees r hr => (hboth.1 hfrees r hr).sound⟩, hboth.1⟩
    by_contra hnot
    obtain ⟨r, hr, hbad⟩ := hboth.2 hnot
    exact hbad (hsound r hr)
  obtain ⟨alive, rpcs⟩ := s
  cases alive with
  | false => cases hstep
  | true =>
    cases l with
    | issue kind outcome =>
      cases hstep
      refine ⟨fun _ r hr => ?_, fun hnot => absurd trivial hnot⟩
      rcases List.mem_append.mp hr with hmem | hnew
      · exact (h r hmem).mono
      · rw [List.mem_singleton.mp hnew]
        exact booked_issued kind outcome
    | finish n =>
      simp only [booksMachine, if_true] at hstep
      cases hr : rpcs[n]? with
      | none =>
        rw [hr] at hstep
        cases hstep
      | some r =>
        obtain ⟨hn, rfl⟩ := List.getElem?_eq_some_iff.mp hr
        simp only [hr] at hstep
        obtain ⟨hfinishing, hstep⟩ := Option.ite_none_right_eq_some.mp hstep
        cases hstep
        have hbooked := h _ (List.getElem_mem hn)
        constructor
        · intro hfrees
          exact set h n (ClientRpc.booked_finish hbooked hfinishing (hfrees _ hr))
        · intro hnot
          have hfound : rpcs[n].lookup.found = false := by
            refine Bool.eq_false_iff.mpr fun hfound => hnot fun r' hr' => ?_
            rw [hr] at hr'
            cases hr'
            exact hfound
          exact ⟨_, List.mem_set hn _, ClientRpc.not_sound_finish hbooked hfound⟩
    | callback n success getOutput =>
      simp only [booksMachine, if_true] at hstep
      cases hr : rpcs[n]? with
      | none =>
        rw [hr] at hstep
        cases hstep
      | some r =>
        obtain ⟨hn, rfl⟩ := List.getElem?_eq_some_iff.mp hr
        simp only [hr] at hstep
        obtain ⟨hwaiting, hstep⟩ := Option.ite_none_right_eq_some.mp hstep
        cases hstep
        have hbooked := h _ (List.getElem_mem hn)
        constructor
        · intro hfrees
          exact set h n (ClientRpc.booked_callback hbooked hwaiting (hfrees _ hr))
        · intro hnot
          have hreply : ¬ ReplyHeld success getOutput rpcs[n].kind := by
            refine fun hreply => hnot fun r' hr' => ?_
            rw [hr] at hr'
            cases hr'
            exact hreply
          exact ⟨_, List.mem_set hn _, ClientRpc.not_sound_callback hbooked hreply⟩

end BooksInv

theorem booksInv_start : BooksInv .start := List.forall_mem_nil _

/-- **Nothing is given back that is not held if and only if no address is freed that was
    not found, and no reply that was not decoded.** -/
theorem sound_iff (labels : List BooksLabel) :
    booksMachine.Along (fun _ _ s' _ => ∀ r ∈ s'.rpcs, r.Sound) .start labels ↔
      booksMachine.Along (fun s l _ _ => FreesHeld s l) .start labels :=
  Machine.along_iff (I := BooksInv) (fun _ _ _ _ h hstep => h.step_iff hstep) booksInv_start

/-- **In a process with no request under way each request gave back what it took, the
    path of an open, the state of a close and the stream of a scan apart.** -/
theorem leftover_iff {labels : List BooksLabel}
    (hfrees : booksMachine.Along (fun s l _ _ => FreesHeld s l) .start labels) :
    booksMachine.Along (fun _ _ s' _ => s'.Quiet → ∀ r ∈ s'.rpcs, ∀ res,
      given ClientCall.move res r.calls = taken ClientCall.move res r.calls ↔ ¬ r.Leaks res)
      .start labels := by
  refine Machine.along_of_invariant (I := BooksInv) ?_ booksInv_start hfrees
  intro s l s' o h hl hstep
  have hnext := (h.step_iff hstep).2 hl
  refine ⟨fun hquiet r hr res => ?_, hnext⟩
  have hbooked := hnext r hr
  rw [hquiet.1] at hbooked
  obtain ⟨hfinishing, hwaiting⟩ := hquiet.2 r hr
  exact hbooked.given_eq_taken_iff hfinishing hwaiting res

def IssueOutcome.clean (scanned : Bool) : IssueOutcome := ⟨⟨scanned, true⟩, true, true, true⟩

/-- An open that scans the address file, whose callback comes before its caller goes on,
    a read and a close. -/
def openReadClose : List BooksLabel :=
  [.issue .openRpc (.clean true), .callback 0 true true, .finish 0,
    .issue .readRpc (.clean false), .finish 1, .callback 1 true true,
    .issue .closeRpc (.clean false), .finish 2]

theorem leftover_iff_openReadClose :
    booksMachine.Along (fun _ _ s' _ => s'.Quiet → ∀ r ∈ s'.rpcs, ∀ res,
      given ClientCall.move res r.calls = taken ClientCall.move res r.calls ↔ ¬ r.Leaks res)
      .start openReadClose ∧
    (booksMachine.run .start openReadClose).any (fun r => decide (r.1.alive = true ∧
      ∀ x ∈ r.1.rpcs, x.finishing = false ∧ x.waiting = false)) = true := by
  exact ⟨leftover_iff (by decide), by decide⟩

end Hvac
