/-
  Hvac/ReadSync.lean
  ==================
  **How concurrent reads wait for their replies** (`hvac_read_cb` and
  `hvac_read_block` of `hvac_comm_client.cpp`, `hvac_remote_read` and
  `hvac_remote_pread` of `hvac_client.cpp`).

  Unlike a seek, a read brings its own flag, result, mutex and condition variable:
  they are locals of the call, and the callback gets their addresses.  A thread's
  next call finds its locals where the last one had them, so a callback that
  wrote after its call returned would write into another call.  Steps are the
  critical sections of these mutexes and the part of the callback before its own;
  the number of threads is arbitrary.

  No call returns early, late or with another's reply (`read_rendezvous`).
-/
import Hvac.SeekSync

namespace Hvac

variable {T : Type} [DecidableEq T]

/-! ### State and steps -/

/-- The locals of a call, and the threads inside `pthread_cond_wait` on its `cond`. -/
structure ReadFrame (T : Type) where
  bytesRead : Int
  done : UInt8
  cond : List T

def ReadFrame.fresh : ReadFrame T := ⟨-1, HG_FALSE, []⟩

/-- Where the callback of a request stands: not run yet, or before its critical
    section with the result stored. -/
inductive ReadCbPc where
  | forwarded
  | stored
deriving DecidableEq

/-- `callbacks` holds the callbacks that have not ended, each with the thread whose
    locals it was given. -/
structure ReadState (T : Type) where
  alive : Bool
  frames : T → ReadFrame T
  calls : T → Option Nat
  issued : Nat
  callbacks : Nat → Option (T × ReadCbPc)

/-- `woken` is the waiter that `pthread_cond_signal` releases, when there is one. -/
inductive ReadLabel (T : Type) where
  | issue (t : T)
  | output (request : Nat)
  | signal (request : Nat) (woken : Option T)
  | check (t : T)
  | spurious (t : T)
  | abort
deriving DecidableEq

/-- `pthread_cond_signal` releases a waiter if there is one. -/
def Releases (cond : List T) : Option T → Prop
  | none => cond = []
  | some t => t ∈ cond

instance (cond : List T) : ∀ woken, Decidable (Releases cond woken)
  | none => inferInstanceAs (Decidable (cond = []))
  | some t => inferInstanceAs (Decidable (t ∈ cond))

namespace ReadState

def setFrame (s : ReadState T) (t : T) (frame : ReadFrame T) : ReadState T :=
  { s with frames := Function.update s.frames t frame }

/-- `hvac_client_comm_gen_read_rpc`, with the locals just initialised. -/
def genReadRpc (s : ReadState T) (t : T) : ReadState T :=
  { s.setFrame t ReadFrame.fresh with
    calls := Function.update s.calls t (some s.issued)
    issued := s.issued + 1
    callbacks := Function.update s.callbacks s.issued (some (t, .forwarded)) }

/-- The first part of `hvac_read_cb`: the result is stored if it can be decoded. -/
def readOutput (s : ReadState T) (request : Nat) (t : T) (reply : Option Int) : ReadState T :=
  { s.setFrame t { s.frames t with bytesRead := reply.getD (s.frames t).bytesRead } with
    callbacks := Function.update s.callbacks request (some (t, .stored)) }

/-- Its critical section, and the `free` of its argument. -/
def readSignal (s : ReadState T) (request : Nat) (t : T) (woken : Option T) : ReadState T :=
  { s.setFrame t { s.frames t with
      done := HG_TRUE, cond := (s.frames t).cond.filter fun u => some u ≠ woken } with
    callbacks := Function.update s.callbacks request none }

end ReadState

variable (reply : Nat → Option Int)

/-- `reply r` is what the response to request `r` decodes to.  The observation of a
    step is the request of the call that returns in it, and its result. -/
def readBlockMachine : Machine (ReadState T) (ReadLabel T) (Option (Nat × Int)) where
  step s l :=
    if s.alive then
      match l with
      | .issue t => if s.calls t = none then some (s.genReadRpc t, none) else none
      | .output request =>
          match s.callbacks request with
          | some (t, .forwarded) => some (s.readOutput request t (reply request), none)
          | _ => none
      | .signal request woken =>
          match s.callbacks request with
          | some (t, .stored) =>
              if Releases (s.frames t).cond woken then
                some (s.readSignal request t woken, none)
              else none
          | _ => none
      -- one pass of the loop in `hvac_read_block`
      | .check t =>
          match s.calls t with
          | none => none
          | some request =>
              if t ∈ (s.frames t).cond then none
              else if (s.frames t).done = HG_TRUE then
                some ({ s with calls := Function.update s.calls t none },
                  some (request, (s.frames t).bytesRead))
              else
                some (s.setFrame t { s.frames t with cond := t :: (s.frames t).cond }, none)
      | .spurious t =>
          if t ∈ (s.frames t).cond then
            some (s.setFrame t
              { s.frames t with cond := (s.frames t).cond.filter (· ≠ t) }, none)
          else none
      -- a failed assertion ends the process
      | .abort => some ({ s with alive := false }, none)
    else none

def readStart : ReadState T where
  alive := true
  frames := fun _ => ReadFrame.fresh
  calls := fun _ => none
  issued := 0
  callbacks := fun _ => none

/-- The requests whose callback has set `done` and signalled. -/
def ReadLabel.signals (signalled : List Nat) : ReadLabel T → List Nat
  | .signal request _ => request :: signalled
  | .issue _ => signalled
  | .output _ => signalled
  | .check _ => signalled
  | .spurious _ => signalled
  | .abort => signalled

/-- The machine with the requests that have been signalled. -/
def rendezvousMachine :
    Machine (ReadState T × List Nat) (ReadLabel T) (Option (Nat × Int)) :=
  (readBlockMachine reply).withHistory fun signalled l _ => l.signals signalled

/-- What a call returns: its own response, or -1 if that could not be decoded. -/
def ownRet (request : Nat) : Int := (reply request).getD (-1)

/-- A call that returns has been signalled and returns its own response; a call that
    has been signalled is not waiting and returns when it runs next. -/
structure Rendezvous (x : ReadState T × List Nat) (out : Option (Nat × Int))
    (x' : ReadState T × List Nat) : Prop where
  own : ∀ request ret, out = some (request, ret) → request ∈ x.2 ∧ ret = ownRet reply request
  woken : ∀ t request, x'.1.calls t = some request → request ∈ x'.2 →
    ∀ u, t ∉ (x'.1.frames u).cond
  returns : ∀ t request, x'.1.alive = true → x'.1.calls t = some request → request ∈ x'.2 →
    ∃ s, (readBlockMachine reply).step x'.1 (.check t) =
      some (s, some (request, ownRet reply request))

/-! ### The invariant -/

/-- What the locals of a call hold while its callback has not ended. -/
def ReadFrame.Expects (frame : ReadFrame T) (request : Nat) : ReadCbPc → Prop
  | .forwarded => frame.done = HG_FALSE ∧ frame.bytesRead = -1
  | .stored => frame.done = HG_FALSE ∧ frame.bytesRead = ownRet reply request

/-- What they hold once it has. -/
structure ReadFrame.Answered (frame : ReadFrame T) (request : Nat) : Prop where
  done : frame.done = HG_TRUE
  bytesRead : frame.bytesRead = ownRet reply request
  cond : frame.cond = []

/-- Where a call of thread `t` stands with its request. -/
inductive ReadPhase (s : ReadState T) (signalled : List Nat) (t : T) (request : Nat) : Prop where
  | inFlight {pc : ReadCbPc} (hcallback : s.callbacks request = some (t, pc))
      (hframe : (s.frames t).Expects reply request pc)
  | answered (hmem : request ∈ signalled) (hframe : (s.frames t).Answered reply request)

structure ReadInv (s : ReadState T) (signalled : List Nat) : Prop where
  waiters : ∀ t, ∀ u ∈ (s.frames t).cond, u = t ∧ s.calls t ≠ none
  owner : ∀ request t pc, s.callbacks request = some (t, pc) →
    s.calls t = some request ∧ request ∉ signalled
  phase : ∀ t request, s.calls t = some request → ReadPhase reply s signalled t request
  numbers : ∀ request, s.issued ≤ request → request ∉ signalled ∧ s.callbacks request = none

variable {reply} {s s' : ReadState T} {signalled signalled' : List Nat} {t : T} {request : Nat}

omit [DecidableEq T] in
theorem readInv_start : ReadInv reply (readStart : ReadState T) [] where
  waiters t u hu := by cases hu
  owner request t pc h := by cases h
  phase t request h := by cases h
  numbers request _ := ⟨List.not_mem_nil, rfl⟩

omit [DecidableEq T] in
/-- A step that touches neither the thread nor the callback of its request. -/
theorem ReadPhase.frame {u : T} {r : Nat} (h : ReadPhase reply s signalled u r)
    (hframe : s'.frames u = s.frames u)
    (hcallback : ∀ pc, s.callbacks r = some (u, pc) → s'.callbacks r = s.callbacks r)
    (hsub : signalled ⊆ signalled') : ReadPhase reply s' signalled' u r := by
  cases h with
  | inFlight hpending hphase =>
    refine .inFlight ((hcallback _ hpending).trans hpending) ?_
    rw [hframe]
    exact hphase
  | answered hmem hphase =>
    refine .answered (hsub hmem) ?_
    rw [hframe]
    exact hphase

omit [DecidableEq T] in
/-- A step that touches the locals of one thread and the callback of one request, which
    is the thread's own, has to keep the invariant for these two only. -/
theorem ReadInv.update (h : ReadInv reply s signalled) (t : T) (request : Nat)
    (hown : ∀ r, s.calls t = some r → r = request)
    (howner : ∀ u pc, s.callbacks request = some (u, pc) → u = t)
    (hframes : ∀ u, u ≠ t → s'.frames u = s.frames u)
    (hcalls : ∀ u, u ≠ t → s'.calls u = s.calls u)
    (hcallbacks : ∀ r, r ≠ request → s'.callbacks r = s.callbacks r)
    (hsub : signalled ⊆ signalled') (hsignalled : ∀ r ∈ signalled', r = request ∨ r ∈ signalled)
    (hissued : s.issued ≤ s'.issued) (hrequest : request < s'.issued)
    (hwaiters : ∀ u ∈ (s'.frames t).cond, u = t ∧ s'.calls t ≠ none)
    (howner' : ∀ u pc, s'.callbacks request = some (u, pc) →
      u = t ∧ s'.calls t = some request ∧ request ∉ signalled')
    (hphase : ∀ r, s'.calls t = some r → r = request ∧ ReadPhase reply s' signalled' t request) :
    ReadInv reply s' signalled' := by
  constructor
  · intro u v hv
    by_cases hu : u = t
    · subst hu
      exact hwaiters v hv
    · rw [hframes u hu] at hv
      rw [hcalls u hu]
      exact h.waiters u v hv
  · intro r u pc hr
    by_cases hsame : r = request
    · subst hsame
      obtain ⟨rfl, hr'⟩ := howner' u pc hr
      exact hr'
    · rw [hcallbacks r hsame] at hr
      obtain ⟨hcall, hnew⟩ := h.owner r u pc hr
      have hu : u ≠ t := by
        rintro rfl
        exact hsame (hown r hcall)
      rw [hcalls u hu]
      exact ⟨hcall, fun hmem => (hsignalled r hmem).elim hsame hnew⟩
  · intro u r hcall
    by_cases hu : u = t
    · subst hu
      obtain ⟨rfl, hr⟩ := hphase r hcall
      exact hr
    · rw [hcalls u hu] at hcall
      refine (h.phase u r hcall).frame (hframes u hu) (fun pc hpending => ?_) hsub
      apply hcallbacks r
      rintro rfl
      exact hu (howner u pc hpending)
  · intro r hr
    have hsame : r ≠ request := by omega
    obtain ⟨hnew, hnone⟩ := h.numbers r (le_trans hissued hr)
    constructor
    · intro hmem
      exact (hsignalled r hmem).elim hsame hnew
    · rw [hcallbacks r hsame]
      exact hnone

omit [DecidableEq T] in
theorem ReadInv.lt_issued (h : ReadInv reply s signalled) (hcall : s.calls t = some request) :
    request < s.issued := by
  by_contra hge
  obtain ⟨hnew, hnone⟩ := h.numbers request (not_lt.mp hge)
  cases h.phase t request hcall with
  | inFlight hcallback =>
    rw [hnone] at hcallback
    cases hcallback
  | answered hmem => exact hnew hmem

/-! ### Steps -/

theorem ReadInv.issue (h : ReadInv reply s signalled) (hfree : s.calls t = none) :
    ReadInv reply (s.genReadRpc t) signalled := by
  obtain ⟨hnew, hnone⟩ := h.numbers s.issued le_rfl
  have hcall : (s.genReadRpc t).calls t = some s.issued := Function.update_self ..
  have hcallback : (s.genReadRpc t).callbacks s.issued = some (t, .forwarded) :=
    Function.update_self ..
  have hframe : (s.genReadRpc t).frames t = ReadFrame.fresh := Function.update_self ..
  apply h.update t s.issued
  · intro r hr
    rw [hfree] at hr
    cases hr
  · intro u pc hr
    rw [hnone] at hr
    cases hr
  · intro u hu
    exact Function.update_of_ne hu ..
  · intro u hu
    exact Function.update_of_ne hu ..
  · intro r hr
    exact Function.update_of_ne hr ..
  · exact List.Subset.refl _
  · intro r hr
    exact Or.inr hr
  · exact Nat.le_succ _
  · exact Nat.lt_succ_self _
  · intro u hu
    rw [hframe] at hu
    cases hu
  · intro u pc hr
    rw [hcallback] at hr
    cases hr
    exact ⟨rfl, hcall, hnew⟩
  · intro r hr
    rw [hcall] at hr
    cases hr
    refine ⟨rfl, .inFlight hcallback ?_⟩
    rw [hframe]
    exact ⟨rfl, rfl⟩

omit [DecidableEq T] in
/-- A callback that has not ended is that of its thread's only call. -/
theorem ReadInv.inFlight (h : ReadInv reply s signalled) {pc : ReadCbPc}
    (hcallback : s.callbacks request = some (t, pc)) :
    (∀ r, s.calls t = some r → r = request) ∧
      (∀ u pc, s.callbacks request = some (u, pc) → u = t) ∧ s.calls t = some request ∧
      request ∉ signalled ∧ (s.frames t).Expects reply request pc := by
  obtain ⟨hcall, hnew⟩ := h.owner request t pc hcallback
  refine ⟨fun r hr => Option.some.inj (hr.symm.trans hcall), fun u pc' hu => ?_, hcall, hnew, ?_⟩
  · rw [hcallback] at hu
    cases hu
    rfl
  · cases h.phase t request hcall with
    | inFlight hcallback' hframe =>
      rw [hcallback] at hcallback'
      cases hcallback'
      exact hframe
    | answered hmem => exact absurd hmem hnew

theorem ReadInv.output (h : ReadInv reply s signalled)
    (hcallback : s.callbacks request = some (t, .forwarded)) :
    ReadInv reply (s.readOutput request t (reply request)) signalled := by
  obtain ⟨hown, howner, hcall, hnew, hdone, hret⟩ := h.inFlight hcallback
  have hcallback' : (s.readOutput request t (reply request)).callbacks request =
      some (t, .stored) := Function.update_self ..
  have hframe : (s.readOutput request t (reply request)).frames t =
      { s.frames t with bytesRead := (reply request).getD (s.frames t).bytesRead } :=
    Function.update_self ..
  apply h.update t request hown howner
  · intro u hu
    exact Function.update_of_ne hu ..
  · intro u _
    rfl
  · intro r hr
    exact Function.update_of_ne hr ..
  · exact List.Subset.refl _
  · intro r hr
    exact Or.inr hr
  · exact le_rfl
  · exact h.lt_issued hcall
  · intro u hu
    rw [hframe] at hu
    exact h.waiters t u hu
  · intro u pc hr
    rw [hcallback'] at hr
    cases hr
    exact ⟨rfl, hcall, hnew⟩
  · intro r hr
    refine ⟨hown r hr, .inFlight hcallback' ?_⟩
    rw [hframe]
    refine ⟨hdone, ?_⟩
    rw [hret]
    rfl

/-- Only its own thread can wait on it, so a signal leaves no waiter. -/
theorem filter_releases {cond : List T} {woken : Option T}
    (hcond : ∀ u ∈ cond, u = t) (hreleases : Releases cond woken) :
    cond.filter (fun u => some u ≠ woken) = [] := by
  rw [List.filter_eq_nil_iff]
  intro u hu
  cases woken with
  | none =>
    rw [show cond = [] from hreleases] at hu
    cases hu
  | some w =>
    rw [hcond u hu, hcond w hreleases]
    simp

theorem ReadInv.signal (h : ReadInv reply s signalled) {woken : Option T}
    (hcallback : s.callbacks request = some (t, .stored))
    (hreleases : Releases (s.frames t).cond woken) :
    ReadInv reply (s.readSignal request t woken) (request :: signalled) := by
  obtain ⟨hown, howner, hcall, hnew, -, hret⟩ := h.inFlight hcallback
  have hcallback' : (s.readSignal request t woken).callbacks request = none :=
    Function.update_self ..
  have hframe : (s.readSignal request t woken).frames t =
      ⟨(s.frames t).bytesRead, HG_TRUE, []⟩ := by
    rw [← filter_releases (fun u hu => (h.waiters t u hu).1) hreleases]
    exact Function.update_self ..
  apply h.update t request hown howner
  · intro u hu
    exact Function.update_of_ne hu ..
  · intro u _
    rfl
  · intro r hr
    exact Function.update_of_ne hr ..
  · exact List.subset_cons_self ..
  · intro r hr
    exact List.mem_cons.mp hr
  · exact le_rfl
  · exact h.lt_issued hcall
  · intro u hu
    rw [hframe] at hu
    cases hu
  · intro u pc hr
    rw [hcallback'] at hr
    cases hr
  · intro r hr
    refine ⟨hown r hr, .answered List.mem_cons_self ?_⟩
    rw [hframe]
    exact ⟨rfl, hret, rfl⟩

/-- Before the callback has ended its thread may start or stop waiting. -/
theorem ReadInv.setCond (h : ReadInv reply s signalled) {pc : ReadCbPc}
    (hcallback : s.callbacks request = some (t, pc)) {cond : List T} (hcond : ∀ u ∈ cond, u = t) :
    ReadInv reply (s.setFrame t { s.frames t with cond := cond }) signalled := by
  obtain ⟨hown, howner, hcall, hnew, hexpects⟩ := h.inFlight hcallback
  have hframe : (s.setFrame t { s.frames t with cond := cond }).frames t =
      { s.frames t with cond := cond } := Function.update_self ..
  apply h.update t request hown howner
  · intro u hu
    exact Function.update_of_ne hu ..
  · intro u _
    rfl
  · intro r _
    rfl
  · exact List.Subset.refl _
  · intro r hr
    exact Or.inr hr
  · exact le_rfl
  · exact h.lt_issued hcall
  · intro u hu
    rw [hframe] at hu
    refine ⟨hcond u hu, ?_⟩
    rw [show (s.setFrame t { s.frames t with cond := cond }).calls t = some request from hcall]
    exact Option.some_ne_none _
  · intro u pc' hr
    exact ⟨howner u pc' hr, hcall, hnew⟩
  · intro r hr
    refine ⟨hown r hr, .inFlight hcallback ?_⟩
    rw [hframe]
    cases pc with
    | forwarded => exact hexpects
    | stored => exact hexpects

/-- A call returns once it has been answered. -/
theorem ReadInv.returns (h : ReadInv reply s signalled) (hcall : s.calls t = some request)
    (hmem : request ∈ signalled) (hframe : (s.frames t).Answered reply request) :
    ReadInv reply { s with calls := Function.update s.calls t none } signalled := by
  have hnone : Function.update s.calls t none t = none := Function.update_self ..
  have hended : ∀ u pc, s.callbacks request ≠ some (u, pc) := fun u pc hr =>
    (h.owner request u pc hr).2 hmem
  apply h.update t request
  · intro r hr
    exact Option.some.inj (hr.symm.trans hcall)
  · intro u pc hr
    exact absurd hr (hended u pc)
  · intro u _
    rfl
  · intro u hu
    exact Function.update_of_ne hu ..
  · intro r _
    rfl
  · exact List.Subset.refl _
  · intro r hr
    exact Or.inr hr
  · exact le_rfl
  · exact h.lt_issued hcall
  · intro u hu
    rw [hframe.cond] at hu
    cases hu
  · intro u pc hr
    exact absurd hr (hended u pc)
  · intro r hr
    cases hnone.symm.trans hr

omit [DecidableEq T] in
/-- The process ends: nothing else changes. -/
theorem ReadInv.abort (h : ReadInv reply s signalled) :
    ReadInv reply { s with alive := false } signalled where
  waiters := h.waiters
  owner := h.owner
  phase t r hcall := by
    cases h.phase t r hcall with
    | inFlight hcallback hframe => exact .inFlight hcallback hframe
    | answered hmem hframe => exact .answered hmem hframe
  numbers := h.numbers

/-- What a step of the machine does. -/
inductive ReadLeaves (reply : Nat → Option Int) (s : ReadState T) :
    ReadLabel T → ReadState T → Option (Nat × Int) → Prop where
  | issue {t : T} (hfree : s.calls t = none) : ReadLeaves reply s (.issue t) (s.genReadRpc t) none
  | output {request : Nat} {t : T} (hcallback : s.callbacks request = some (t, .forwarded)) :
      ReadLeaves reply s (.output request) (s.readOutput request t (reply request)) none
  | signal {request : Nat} {t : T} {woken : Option T}
      (hcallback : s.callbacks request = some (t, .stored))
      (hreleases : Releases (s.frames t).cond woken) :
      ReadLeaves reply s (.signal request woken) (s.readSignal request t woken) none
  | returned {request : Nat} {t : T} (hcall : s.calls t = some request)
      (hdone : (s.frames t).done = HG_TRUE) :
      ReadLeaves reply s (.check t) { s with calls := Function.update s.calls t none }
        (some (request, (s.frames t).bytesRead))
  | waits {request : Nat} {t : T} (hcall : s.calls t = some request)
      (hdone : (s.frames t).done ≠ HG_TRUE) :
      ReadLeaves reply s (.check t)
        (s.setFrame t { s.frames t with cond := t :: (s.frames t).cond }) none
  | spurious {t : T} (hwaits : t ∈ (s.frames t).cond) :
      ReadLeaves reply s (.spurious t)
        (s.setFrame t { s.frames t with cond := (s.frames t).cond.filter (· ≠ t) }) none
  | abort : ReadLeaves reply s .abort { s with alive := false } none

theorem readBlockMachine_step {l : ReadLabel T} {out : Option (Nat × Int)}
    (hstep : (readBlockMachine reply).step s l = some (s', out)) : ReadLeaves reply s l s' out := by
  simp only [readBlockMachine, Option.ite_none_right_eq_some] at hstep
  obtain ⟨-, hstep⟩ := hstep
  cases l with
  | issue t =>
    simp only [Option.ite_none_right_eq_some, Option.some.injEq, Prod.mk.injEq] at hstep
    obtain ⟨hfree, rfl, rfl⟩ := hstep
    exact .issue hfree
  | output request =>
    dsimp only at hstep
    split at hstep
    · next hcallback =>
      cases hstep
      exact .output hcallback
    · cases hstep
  | signal request woken =>
    dsimp only at hstep
    split at hstep
    · next hcallback =>
      simp only [Option.ite_none_right_eq_some, Option.some.injEq, Prod.mk.injEq] at hstep
      obtain ⟨hreleases, rfl, rfl⟩ := hstep
      exact .signal hcallback hreleases
    · cases hstep
  | check t =>
    dsimp only at hstep
    split at hstep
    · cases hstep
    · next hcall =>
      split at hstep
      · cases hstep
      · split at hstep
        · next hdone =>
          cases hstep
          exact .returned hcall hdone
        · next hdone =>
          cases hstep
          exact .waits hcall hdone
  | spurious t =>
    simp only [Option.ite_none_right_eq_some, Option.some.injEq, Prod.mk.injEq] at hstep
    obtain ⟨hwaits, rfl, rfl⟩ := hstep
    exact .spurious hwaits
  | abort =>
    cases hstep
    exact .abort

omit [DecidableEq T] in
/-- A flag that is set was set by the call's own callback. -/
theorem ReadInv.answered (h : ReadInv reply s signalled) (hcall : s.calls t = some request)
    (hset : (s.frames t).done = HG_TRUE) :
    request ∈ signalled ∧ (s.frames t).Answered reply request := by
  cases h.phase t request hcall with
  | answered hmem hframe => exact ⟨hmem, hframe⟩
  | @inFlight pc _ hexpects =>
    have hunset : (s.frames t).done = HG_FALSE := by
      cases pc with
      | forwarded => exact hexpects.1
      | stored => exact hexpects.1
    rw [hunset] at hset
    exact absurd hset (by decide)

omit [DecidableEq T] in
/-- A flag that is not set, or a thread that waits, has its callback still to come. -/
theorem ReadInv.unanswered (h : ReadInv reply s signalled) (hcall : s.calls t = some request)
    (hunset : (s.frames t).done ≠ HG_TRUE ∨ t ∈ (s.frames t).cond) :
    ∃ pc, s.callbacks request = some (t, pc) := by
  cases h.phase t request hcall with
  | inFlight hcallback => exact ⟨_, hcallback⟩
  | answered _ hframe =>
    rcases hunset with hunset | hwaits
    · exact absurd hframe.done hunset
    · rw [hframe.cond] at hwaits
      cases hwaits

theorem ReadInv.step (h : ReadInv reply s signalled) {l : ReadLabel T} {out : Option (Nat × Int)}
    (hstep : (readBlockMachine reply).step s l = some (s', out)) :
    ReadInv reply s' (l.signals signalled) ∧
      ∀ request ret, out = some (request, ret) →
        request ∈ signalled ∧ ret = ownRet reply request := by
  have hsilent : ∀ request ret, none = some (request, ret) →
      request ∈ signalled ∧ ret = ownRet reply request := fun _ _ hout => by cases hout
  cases readBlockMachine_step hstep with
  | issue hfree => exact ⟨h.issue hfree, hsilent⟩
  | output hcallback => exact ⟨h.output hcallback, hsilent⟩
  | signal hcallback hreleases => exact ⟨h.signal hcallback hreleases, hsilent⟩
  | returned hcall hdone =>
    obtain ⟨hmem, hframe⟩ := h.answered hcall hdone
    refine ⟨h.returns hcall hmem hframe, ?_⟩
    rintro request ret hout
    cases hout
    exact ⟨hmem, hframe.bytesRead⟩
  | @waits request t hcall hunset =>
    obtain ⟨pc, hcallback⟩ := h.unanswered hcall (Or.inl hunset)
    refine ⟨h.setCond hcallback ?_, hsilent⟩
    intro u hu
    rcases List.mem_cons.mp hu with rfl | hu
    · rfl
    · exact (h.waiters t u hu).1
  | @spurious t hwaits =>
    obtain ⟨request, hcall⟩ := Option.ne_none_iff_exists'.mp (h.waiters t t hwaits).2
    obtain ⟨pc, hcallback⟩ := h.unanswered hcall (Or.inr hwaits)
    refine ⟨h.setCond hcallback ?_, hsilent⟩
    intro u hu
    exact (h.waiters t u (List.mem_of_mem_filter hu)).1
  | abort => exact ⟨h.abort, hsilent⟩

omit [DecidableEq T] in
/-- Where a call has been signalled its locals say so. -/
theorem ReadInv.framed (h : ReadInv reply s signalled) (hcall : s.calls t = some request)
    (hmem : request ∈ signalled) : (s.frames t).Answered reply request := by
  cases h.phase t request hcall with
  | answered _ hframe => exact hframe
  | inFlight hcallback => exact absurd hmem (h.owner request t _ hcallback).2

/-- **Along every run, a call returns the response to its own request, after its
    callback has signalled, and is not left waiting then.** -/
theorem read_rendezvous (reply : Nat → Option Int) (labels : List (ReadLabel T)) :
    (rendezvousMachine reply).Along (fun x _ x' out => Rendezvous reply x out x') (readStart, [])
      labels := by
  refine Machine.along_of_step (I := fun x => ReadInv reply x.1 x.2) ?_ readInv_start
  rintro ⟨s, signalled⟩ l ⟨s', signalled'⟩ out h hstep
  obtain ⟨hread, rfl⟩ := Machine.withHistory_step_eq_some_iff.mp hstep
  obtain ⟨h', hown⟩ := h.step hread
  refine ⟨⟨hown, ?_, ?_⟩, h'⟩
  · intro t request hcall hmem u hwaits
    obtain ⟨rfl, -⟩ := h'.waiters u t hwaits
    rw [(h'.framed hcall hmem).cond] at hwaits
    cases hwaits
  · intro t request halive hcall hmem
    have hframe := h'.framed hcall hmem
    dsimp only at halive hcall hframe
    refine ⟨{ s' with calls := Function.update s'.calls t none }, ?_⟩
    simp only [readBlockMachine, halive, if_true, hcall, hframe.cond, hframe.done, hframe.bytesRead,
      List.not_mem_nil, if_false]

/-- Two threads; the second response cannot be decoded and is handled first. -/
example :
    ((readBlockMachine fun request => if request = 1 then none else some 7).run
      (readStart : ReadState Bool)
      [.issue true, .issue false, .check true, .output 1, .spurious true, .output 0,
        .signal 1 none, .check true, .check false, .signal 0 (some true), .check true]).map
      (fun r => r.2.filterMap id) = some [(1, -1), (0, 7)] := by
  decide +kernel

end Hvac
