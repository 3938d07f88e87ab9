/-
  Hvac/Handoff.lean
  =================
  **How a closed file reaches the data mover** (`hvac_close_rpc_handler` and
  `hvac_data_mover_fn`), lock by lock.

  `Server.lean` runs a handler and each step of the mover as one step.  Here the
  RPC thread and the mover meet at their two mutexes and the condition variable:
  the handler takes `data_mutex` inside of `path_map_mutex`, the mover takes them
  one at a time.  What stands between two lock operations is one step, so the
  push and the signal are one; a woken mover still has to take `data_mutex` again.

  `HandoffInv` says which mutexes each thread is inside of (`Locks.Holds`), and
  that nothing is lost on the way from a push to the end of its processing.  From
  it follow `HandoffInv.progress` (both threads stop only when every path has been
  processed) and `HandoffInv.close_atomic`, which is why `closeRpcHandler` may look
  up and push in one step.
-/
import Hvac.Library.Locks
import Hvac.Server
import Hvac.Library.Machine

namespace Hvac

/-! ### State -/

inductive HandoffThread where
  | rpc
  | mover
deriving DecidableEq, Repr

inductive HandoffMutex where
  | pathMapMutex
  | dataMutex
deriving DecidableEq, Repr

/-- Where the RPC thread is in a close of `path`; the four constructors with a path
    stand before the lock of `path_map_mutex`, the lookup, the lock of `data_mutex`
    and the push. -/
inductive RpcAt where
  | idle
  | lockPath (path : String)
  | lookup (path : String)
  | lockData (path : String)
  | push (path : String)
  | unlockData
  | unlockPath
deriving DecidableEq, Repr

/-- Where the mover is.  In `wait` it is blocked on the condition variable with
    `data_mutex` released, in `relock` it has been woken and needs the mutex again. -/
inductive MoverAt where
  | lockData
  | test
  | wait
  | relock
  | unlockData
  | next
  | copy
  | lockPath (filename : String)
  | publish (filename : String)
  | unlockPath
  | pop
deriving DecidableEq, Repr

structure Handoff where
  owner : HandoffMutex → Option HandoffThread
  pathCacheMap : OrdMap String String
  dataQueue : List String
  localList : List String
  rpc : RpcAt
  mover : MoverAt

def handoffStart : Handoff where
  owner _ := none
  pathCacheMap := OrdMap.empty
  dataQueue := []
  localList := []
  rpc := .idle
  mover := .lockData

/-- What a step says of a path: it was pushed, or its processing has ended. -/
inductive Moved where
  | pushed (path : String)
  | finished (path : String)
deriving DecidableEq, Repr

namespace Handoff

variable (s : Handoff)

def acquire (m : HandoffMutex) (t : HandoffThread) : Handoff :=
  { s with owner := Function.update s.owner m (some t) }

def release (m : HandoffMutex) : Handoff :=
  { s with owner := Function.update s.owner m none }

/-- The next step of the close handler; `none` while it is blocked. -/
def rpcStep : Option (Handoff × Option Moved) :=
  match s.rpc with
  | .idle => none
  | .lockPath path =>
      if s.owner .pathMapMutex = none then
        some ({ s.acquire .pathMapMutex .rpc with rpc := .lookup path }, none)
      else none
  | .lookup path =>
      if (s.pathCacheMap.find? path).isNone then some ({ s with rpc := .lockData path }, none)
      else some ({ s with rpc := .unlockPath }, none)
  | .lockData path =>
      if s.owner .dataMutex = none then
        some ({ s.acquire .dataMutex .rpc with rpc := .push path }, none)
      else none
  | .push path =>
      -- a signal without a waiter is lost
      some ({ s with
          dataQueue := s.dataQueue ++ [path]
          rpc := .unlockData
          mover := if s.mover = .wait then .relock else s.mover }, some (.pushed path))
  | .unlockData => some ({ s.release .dataMutex with rpc := .unlockPath }, none)
  | .unlockPath => some ({ s.release .pathMapMutex with rpc := .idle }, none)

/-- The next step of the mover; `copied` is the name of the copy, `none` when
    `fs::copy` throws. -/
def moverStep (copied : Option String) : Option (Handoff × Option Moved) :=
  match s.mover with
  | .lockData =>
      if s.owner .dataMutex = none then
        some ({ s.acquire .dataMutex .mover with mover := .test }, none)
      else none
  | .test =>
      if s.dataQueue = [] then some ({ s.release .dataMutex with mover := .wait }, none)
      else
        some ({ s with
            localList := s.localList ++ s.dataQueue, dataQueue := [], mover := .unlockData }, none)
  | .wait => none
  | .relock =>
      if s.owner .dataMutex = none then
        some ({ s.acquire .dataMutex .mover with mover := .test }, none)
      else none
  | .unlockData => some ({ s.release .dataMutex with mover := .next }, none)
  | .next =>
      some ({ s with mover := if s.localList = [] then .lockData else .copy }, none)
  | .copy =>
      match copied with
      | none => some ({ s with mover := .pop }, none)
      | some filename => some ({ s with mover := .lockPath filename }, none)
  | .lockPath filename =>
      if s.owner .pathMapMutex = none then
        some ({ s.acquire .pathMapMutex .mover with mover := .publish filename }, none)
      else none
  | .publish filename =>
      match s.localList with
      | [] => none
      | path :: _ =>
          some ({ s with
              pathCacheMap := s.pathCacheMap.insert path filename, mover := .unlockPath }, none)
  | .unlockPath => some ({ s.release .pathMapMutex with mover := .pop }, none)
  | .pop =>
      match s.localList with
      | [] => none
      | path :: rest => some ({ s with localList := rest, mover := .next }, some (.finished path))

end Handoff

inductive HandoffLabel where
  | close (path : String)
  | rpc
  | mover (copied : Option String)
  | spurious
deriving DecidableEq, Repr

/-- Close requests arrive one after the other, each for any path. -/
def handoffMachine : Machine Handoff HandoffLabel (Option Moved) where
  step s l :=
    match l with
    | .close path => if s.rpc = .idle then some ({ s with rpc := .lockPath path }, none) else none
    | .rpc => s.rpcStep
    | .mover copied => s.moverStep copied
    | .spurious => if s.mover = .wait then some ({ s with mover := .relock }, none) else none

/-- The paths pushed so far, and those whose processing has ended. -/
structure Handed where
  pushed : List String
  finished : List String
deriving DecidableEq

def Handed.record (h : Handed) (_ : HandoffLabel) : Option Moved → Handed
  | none => h
  | some (.pushed path) => { h with pushed := h.pushed ++ [path] }
  | some (.finished path) => { h with finished := h.finished ++ [path] }

def handedMachine : Machine (Handoff × Handed) HandoffLabel (Option Moved) :=
  handoffMachine.withHistory Handed.record

/-! ### Who holds and who waits -/

def RpcAt.held : RpcAt → List HandoffMutex
  | .idle => []
  | .lockPath _ => []
  | .lookup _ => [.pathMapMutex]
  | .lockData _ => [.pathMapMutex]
  | .push _ => [.dataMutex, .pathMapMutex]
  | .unlockData => [.dataMutex, .pathMapMutex]
  | .unlockPath => [.pathMapMutex]

def MoverAt.held : MoverAt → List HandoffMutex
  | .lockData => []
  | .test => [.dataMutex]
  | .wait => []
  | .relock => []
  | .unlockData => [.dataMutex]
  | .next => []
  | .copy => []
  | .lockPath _ => []
  | .publish _ => [.pathMapMutex]
  | .unlockPath => [.pathMapMutex]
  | .pop => []

/-- `local_list` is empty before it is filled, and is not while its front is used. -/
def MoverAt.FitsList (l : List String) : MoverAt → Prop
  | .lockData => l = []
  | .test => l = []
  | .wait => l = []
  | .relock => l = []
  | .unlockData => True
  | .next => True
  | .copy => l ≠ []
  | .lockPath _ => l ≠ []
  | .publish _ => l ≠ []
  | .unlockPath => l ≠ []
  | .pop => l ≠ []

/-- The path a close found absent from `path_cache_map` and has not pushed yet. -/
def RpcAt.caching? : RpcAt → Option String
  | .lockData path => some path
  | .push path => some path
  | .idle => none
  | .lockPath _ => none
  | .lookup _ => none
  | .unlockData => none
  | .unlockPath => none

theorem RpcAt.mem_held_of_caching? (x : RpcAt) {path : String} (h : x.caching? = some path) :
    HandoffMutex.pathMapMutex ∈ x.held := by
  cases x with
  | lockData | push => simp [RpcAt.held]
  | idle | lockPath | lookup | unlockData | unlockPath => cases h

namespace Handoff

variable (s : Handoff)

def held : HandoffThread → List HandoffMutex
  | .rpc => s.rpc.held
  | .mover => s.mover.held

/-- The mutex a thread is about to lock. -/
def waitsFor : HandoffThread → Option HandoffMutex
  | .rpc =>
      match s.rpc with
      | .lockPath _ => some .pathMapMutex
      | .lockData _ => some .dataMutex
      | _ => none
  | .mover =>
      match s.mover with
      | .lockData => some .dataMutex
      | .relock => some .dataMutex
      | .lockPath _ => some .pathMapMutex
      | _ => none

/-- Each thread waits for a mutex that the other one holds. -/
def MutualWait : Prop :=
  ∃ m m', s.waitsFor .rpc = some m ∧ s.owner m = some .mover ∧
    s.waitsFor .mover = some m' ∧ s.owner m' = some .rpc

theorem held_setRpc (x : RpcAt) :
    ({ s with rpc := x } : Handoff).held = Function.update s.held .rpc x.held := by
  funext t
  cases t <;> rfl

theorem held_setMover (x : MoverAt) :
    ({ s with mover := x } : Handoff).held = Function.update s.held .mover x.held := by
  funext t
  cases t <;> rfl

end Handoff

structure HandoffInv (s : Handoff) (h : Handed) : Prop where
  owned : Locks.Holds s.owner s.held
  sequence : h.pushed = h.finished ++ s.localList ++ s.dataQueue
  awake : s.mover = .wait → s.dataQueue = []
  list : s.mover.FitsList s.localList
  uncached : ∀ path, s.rpc.caching? = some path → s.pathCacheMap.find? path = none

section HandoffInv

variable {s : Handoff} {h : Handed}

theorem handoffInv_start : HandoffInv handoffStart ⟨[], []⟩ where
  owned m t := by cases t <;> simp [handoffStart, Handoff.held, RpcAt.held, MoverAt.held]
  sequence := rfl
  awake _ := rfl
  list := rfl
  uncached path hpath := by cases hpath

/-! A thread moves on: taking a free mutex, leaving one, or neither. -/

theorem HandoffInv.rpcAcquire (hinv : HandoffInv s h) {m : HandoffMutex} {x : RpcAt}
    (hfree : s.owner m = none) (hx : x.held = m :: s.rpc.held)
    (hcaching : ∀ path, x.caching? = some path → s.pathCacheMap.find? path = none) :
    HandoffInv { s.acquire m .rpc with rpc := x } h where
  owned := by
    rw [Handoff.held_setRpc, hx]
    exact hinv.owned.acquire hfree
  sequence := hinv.sequence
  awake := hinv.awake
  list := hinv.list
  uncached := hcaching

theorem HandoffInv.rpcRelease (hinv : HandoffInv s h) {m : HandoffMutex} {x : RpcAt}
    (hx : s.rpc.held = m :: x.held) (hm : m ∉ x.held) (hcaching : x.caching? = none) :
    HandoffInv { s.release m with rpc := x } h where
  owned := by
    rw [Handoff.held_setRpc]
    exact hinv.owned.release hx hm
  sequence := hinv.sequence
  awake := hinv.awake
  list := hinv.list
  uncached path hpath := by
    rw [hcaching] at hpath
    cases hpath

theorem HandoffInv.setRpc (hinv : HandoffInv s h) {x : RpcAt} (hx : x.held = s.rpc.held)
    (hcaching : ∀ path, x.caching? = some path → s.pathCacheMap.find? path = none) :
    HandoffInv { s with rpc := x } h where
  owned := by
    rw [Handoff.held_setRpc, hx]
    exact (Function.update_eq_self (f := s.held) .rpc).symm ▸ hinv.owned
  sequence := hinv.sequence
  awake := hinv.awake
  list := hinv.list
  uncached := hcaching

theorem HandoffInv.moverAcquire (hinv : HandoffInv s h) {m : HandoffMutex} {x : MoverAt}
    (hfree : s.owner m = none) (hx : x.held = m :: s.mover.held) (hwait : x ≠ .wait)
    (hlist : x.FitsList s.localList) :
    HandoffInv { s.acquire m .mover with mover := x } h where
  owned := by
    rw [Handoff.held_setMover, hx]
    exact hinv.owned.acquire hfree
  sequence := hinv.sequence
  awake := fun hx => absurd hx hwait
  list := hlist
  uncached := hinv.uncached

theorem HandoffInv.moverRelease (hinv : HandoffInv s h) {m : HandoffMutex} {x : MoverAt}
    (hx : s.mover.held = m :: x.held) (hm : m ∉ x.held) (hwait : x = .wait → s.dataQueue = [])
    (hlist : x.FitsList s.localList) :
    HandoffInv { s.release m with mover := x } h where
  owned := by
    rw [Handoff.held_setMover]
    exact hinv.owned.release hx hm
  sequence := hinv.sequence
  awake := hwait
  list := hlist
  uncached := hinv.uncached

theorem HandoffInv.setMover (hinv : HandoffInv s h) {x : MoverAt} (hx : x.held = s.mover.held)
    (hwait : x ≠ .wait) (hlist : x.FitsList s.localList) :
    HandoffInv { s with mover := x } h where
  owned := by
    rw [Handoff.held_setMover, hx]
    exact (Function.update_eq_self (f := s.held) .mover).symm ▸ hinv.owned
  sequence := hinv.sequence
  awake := fun hx => absurd hx hwait
  list := hlist
  uncached := hinv.uncached

/-! The four steps that move a path. -/

theorem HandoffInv.push (hinv : HandoffInv s h) {path : String} (hrpc : s.rpc = .push path) :
    HandoffInv { s with
        dataQueue := s.dataQueue ++ [path]
        rpc := .unlockData
        mover := if s.mover = .wait then .relock else s.mover }
      { h with pushed := h.pushed ++ [path] } where
  owned := by
    have hheld : Handoff.held { s with
        dataQueue := s.dataQueue ++ [path], rpc := .unlockData
        mover := if s.mover = .wait then .relock else s.mover } = s.held := by
      funext t
      cases t with
      | rpc => simp only [Handoff.held, hrpc]; rfl
      | mover =>
        simp only [Handoff.held]
        split
        · next hwait => rw [hwait]; rfl
        · rfl
    rw [hheld]
    exact hinv.owned
  sequence := by
    simp only [hinv.sequence, List.append_assoc]
  awake hwait := by
    by_cases hblocked : s.mover = .wait
    · simp only [hblocked, if_true] at hwait
      cases hwait
    · simp only [hblocked, if_false] at hwait
  list := by
    have hlist := hinv.list
    split
    · next hwait =>
      rw [hwait] at hlist
      exact hlist
    · exact hlist
  uncached path hpath := by cases hpath

theorem HandoffInv.drain (hinv : HandoffInv s h) (hmover : s.mover = .test) :
    HandoffInv { s with
        localList := s.localList ++ s.dataQueue, dataQueue := [], mover := .unlockData } h where
  owned := (hinv.setMover (x := .unlockData) (by rw [hmover]; rfl) (by decide) trivial).owned
  sequence := by
    simp only [hinv.sequence, List.append_assoc, List.append_nil]
  awake _ := rfl
  list := trivial
  uncached := hinv.uncached

/-- A close that has looked a path up holds `path_map_mutex` until it has pushed it,
    so no entry appears in between. -/
theorem HandoffInv.publish (hinv : HandoffInv s h) {filename : String} (path : String)
    (hmover : s.mover = .publish filename) :
    HandoffInv { s with
        pathCacheMap := s.pathCacheMap.insert path filename, mover := .unlockPath } h where
  owned := (hinv.setMover (x := .unlockPath) (by rw [hmover]; rfl) (by decide)
    (by have hlist := hinv.list; rw [hmover] at hlist; exact hlist)).owned
  sequence := hinv.sequence
  awake hwait := by cases hwait
  list := by
    have hlist := hinv.list
    rw [hmover] at hlist
    exact hlist
  uncached path' hcaching := by
    have hrpc : HandoffMutex.pathMapMutex ∈ s.held .rpc :=
      s.rpc.mem_held_of_caching? hcaching
    have hown : HandoffMutex.pathMapMutex ∈ s.held .mover := by
      simp only [Handoff.held, hmover, MoverAt.held, List.mem_singleton]
    cases hinv.owned.exclusive hrpc hown

theorem HandoffInv.pop (hinv : HandoffInv s h) {path : String} {rest : List String}
    (hmover : s.mover = .pop) (hlist : s.localList = path :: rest) :
    HandoffInv { s with localList := rest, mover := .next }
      { h with finished := h.finished ++ [path] } where
  owned := (hinv.setMover (x := .next) (by rw [hmover]; rfl) (by decide) trivial).owned
  sequence := by
    simp only [hinv.sequence, hlist, List.append_assoc, List.cons_append, List.nil_append]
  awake hwait := by cases hwait
  list := trivial
  uncached := hinv.uncached

theorem HandoffInv.rpcStep (hinv : HandoffInv s h) {s' : Handoff} {moved : Option Moved}
    (hstep : s.rpcStep = some (s', moved)) (l : HandoffLabel) :
    HandoffInv s' (h.record l moved) := by
  unfold Handoff.rpcStep at hstep
  cases hrpc : s.rpc with
  | idle => simp only [hrpc, reduceCtorEq] at hstep
  | lockPath path =>
    simp only [hrpc, Option.ite_none_right_eq_some, Option.some.injEq, Prod.mk.injEq] at hstep
    obtain ⟨hfree, rfl, rfl⟩ := hstep
    exact hinv.rpcAcquire hfree (by rw [hrpc]; rfl) (fun _ hpath => by cases hpath)
  | lookup path =>
    simp only [hrpc] at hstep
    split at hstep
    · next hnone =>
      obtain ⟨rfl, rfl⟩ := Prod.mk.inj (Option.some.inj hstep)
      refine hinv.setRpc (by rw [hrpc]; rfl) fun path' hpath => ?_
      cases hpath
      exact Option.isNone_iff_eq_none.mp hnone
    · obtain ⟨rfl, rfl⟩ := Prod.mk.inj (Option.some.inj hstep)
      exact hinv.setRpc (by rw [hrpc]; rfl) (fun _ hpath => by cases hpath)
  | lockData path =>
    simp only [hrpc, Option.ite_none_right_eq_some, Option.some.injEq, Prod.mk.injEq] at hstep
    obtain ⟨hfree, rfl, rfl⟩ := hstep
    refine hinv.rpcAcquire hfree (by rw [hrpc]; rfl) fun path' hpath => ?_
    exact hinv.uncached path' (by rw [hrpc]; exact hpath)
  | push path =>
    simp only [hrpc, Option.some.injEq, Prod.mk.injEq] at hstep
    obtain ⟨rfl, rfl⟩ := hstep
    exact hinv.push hrpc
  | unlockData =>
    simp only [hrpc, Option.some.injEq, Prod.mk.injEq] at hstep
    obtain ⟨rfl, rfl⟩ := hstep
    exact hinv.rpcRelease (by rw [hrpc]; rfl) (by decide) rfl
  | unlockPath =>
    simp only [hrpc, Option.some.injEq, Prod.mk.injEq] at hstep
    obtain ⟨rfl, rfl⟩ := hstep
    exact hinv.rpcRelease (by rw [hrpc]; rfl) (by decide) rfl

theorem HandoffInv.moverStep (hinv : HandoffInv s h) {copied : Option String} {s' : Handoff}
    {moved : Option Moved} (hstep : s.moverStep copied = some (s', moved)) (l : HandoffLabel) :
    HandoffInv s' (h.record l moved) := by
  have hlist := hinv.list
  unfold Handoff.moverStep at hstep
  cases hmover : s.mover with
  | lockData =>
    -- `pthread_mutex_lock(&data_mutex)`
    rw [hmover] at hlist
    simp only [hmover, Option.ite_none_right_eq_some, Option.some.injEq, Prod.mk.injEq] at hstep
    obtain ⟨hfree, rfl, rfl⟩ := hstep
    exact hinv.moverAcquire hfree (by rw [hmover]; rfl) (by decide) hlist
  | test =>
    rw [hmover] at hlist
    simp only [hmover] at hstep
    split at hstep
    · next hempty =>
      obtain ⟨rfl, rfl⟩ := Prod.mk.inj (Option.some.inj hstep)
      exact hinv.moverRelease (by rw [hmover]; rfl) (by decide) (fun _ => hempty) hlist
    · obtain ⟨rfl, rfl⟩ := Prod.mk.inj (Option.some.inj hstep)
      exact hinv.drain hmover
  | wait => simp only [hmover, reduceCtorEq] at hstep
  | relock =>
    -- the mutex is taken again inside `pthread_cond_wait`
    rw [hmover] at hlist
    simp only [hmover, Option.ite_none_right_eq_some, Option.some.injEq, Prod.mk.injEq] at hstep
    obtain ⟨hfree, rfl, rfl⟩ := hstep
    exact hinv.moverAcquire hfree (by rw [hmover]; rfl) (by decide) hlist
  | unlockData =>
    simp only [hmover, Option.some.injEq, Prod.mk.injEq] at hstep
    obtain ⟨rfl, rfl⟩ := hstep
    exact hinv.moverRelease (by rw [hmover]; rfl) (by decide) (fun hwait => by cases hwait) trivial
  | next =>
    simp only [hmover, Option.some.injEq, Prod.mk.injEq] at hstep
    obtain ⟨rfl, rfl⟩ := hstep
    by_cases hempty : s.localList = []
    · rw [if_pos hempty]
      exact hinv.setMover (by rw [hmover]; rfl) (by decide) hempty
    · rw [if_neg hempty]
      exact hinv.setMover (by rw [hmover]; rfl) (by decide) hempty
  | copy =>
    rw [hmover] at hlist
    simp only [hmover] at hstep
    rcases copied with _ | filename
    · obtain ⟨rfl, rfl⟩ := Prod.mk.inj (Option.some.inj hstep)
      exact hinv.setMover (by rw [hmover]; rfl) (by decide) hlist
    · obtain ⟨rfl, rfl⟩ := Prod.mk.inj (Option.some.inj hstep)
      exact hinv.setMover (by rw [hmover]; rfl) (by simp) hlist
  | lockPath filename =>
    rw [hmover] at hlist
    simp only [hmover, Option.ite_none_right_eq_some, Option.some.injEq, Prod.mk.injEq] at hstep
    obtain ⟨hfree, rfl, rfl⟩ := hstep
    exact hinv.moverAcquire hfree (by rw [hmover]; rfl) (by simp) hlist
  | publish filename =>
    rw [hmover] at hlist
    rcases hfront : s.localList with _ | ⟨path, rest⟩
    · exact absurd hfront hlist
    · simp only [hmover, hfront, Option.some.injEq, Prod.mk.injEq] at hstep
      obtain ⟨rfl, rfl⟩ := hstep
      have hpublish := hinv.publish path hmover
      rw [hfront] at hpublish
      exact hpublish
  | unlockPath =>
    rw [hmover] at hlist
    simp only [hmover, Option.some.injEq, Prod.mk.injEq] at hstep
    obtain ⟨rfl, rfl⟩ := hstep
    exact hinv.moverRelease (by rw [hmover]; rfl) (by decide) (fun hwait => by cases hwait) hlist
  | pop =>
    rw [hmover] at hlist
    rcases hfront : s.localList with _ | ⟨path, rest⟩
    · exact absurd hfront hlist
    · simp only [hmover, hfront, Option.some.injEq, Prod.mk.injEq] at hstep
      obtain ⟨rfl, rfl⟩ := hstep
      exact hinv.pop hmover hfront

theorem HandoffInv.step {x x' : Handoff × Handed} {l : HandoffLabel} {moved : Option Moved}
    (hinv : HandoffInv x.1 x.2) (hstep : handedMachine.step x l = some (x', moved)) :
    HandoffInv x'.1 x'.2 := by
  obtain ⟨hso, hhistory⟩ := Machine.withHistory_step_eq_some_iff.mp hstep
  rw [hhistory]
  cases l with
  | close path =>
    simp only [handoffMachine, Option.ite_none_right_eq_some, Option.some.injEq,
      Prod.mk.injEq] at hso
    obtain ⟨hidle, hs', rfl⟩ := hso
    rw [← hs']
    exact hinv.setRpc (by rw [hidle]; rfl) (fun _ hpath => by cases hpath)
  | rpc => exact hinv.rpcStep hso _
  | mover copied => exact hinv.moverStep hso _
  | spurious =>
    simp only [handoffMachine, Option.ite_none_right_eq_some, Option.some.injEq,
      Prod.mk.injEq] at hso
    obtain ⟨hwait, hs', rfl⟩ := hso
    have hlist := hinv.list
    rw [hwait] at hlist
    rw [← hs']
    exact hinv.setMover (by rw [hwait]; rfl) (by decide) hlist

/-! ### What holds in every state -/

/-- `data_mutex` is only ever locked inside of `path_map_mutex`. -/
def lockRank : HandoffMutex → Nat
  | .pathMapMutex => 0
  | .dataMutex => 1

theorem lockRank_lt (s : Handoff) (t : HandoffThread) (m m' : HandoffMutex)
    (hwait : s.waitsFor t = some m) (hheld : m' ∈ s.held t) : lockRank m' < lockRank m := by
  cases t with
  | rpc =>
    simp only [Handoff.waitsFor, Handoff.held] at hwait hheld
    rcases hrpc : s.rpc with _ | p | p | p | p | _ | _ <;> simp only [hrpc] at hwait hheld <;>
      cases hwait
    · cases hheld
    · obtain rfl := List.mem_singleton.mp hheld
      decide
  | mover =>
    simp only [Handoff.waitsFor, Handoff.held] at hwait hheld
    rcases hmover : s.mover with _ | _ | _ | _ | _ | _ | _ | f | f | _ | _ <;>
      simp only [hmover] at hwait hheld <;> cases hwait
    · cases hheld
    · cases hheld
    · cases hheld

theorem HandoffInv.not_mutualWait (hinv : HandoffInv s h) : ¬ s.MutualWait := by
  rintro ⟨m, m', hrpc, hown, hmover, hown'⟩
  refine hinv.owned.no_wait_cycle s.waitsFor lockRank (lockRank_lt s) .rpc ?_
  exact .tail (.single ⟨m, hrpc, hown⟩) ⟨m', hmover, hown'⟩

/-- A lock that does not succeed finds an owner. -/
theorem exists_owner {m : HandoffMutex} {r : Handoff × Option Moved}
    (hblocked : (if s.owner m = none then some r else none) = none) : ∃ t, s.owner m = some t := by
  apply Option.ne_none_iff_exists'.mp
  intro hfree
  rw [if_pos hfree] at hblocked
  cases hblocked

theorem rpcStep_eq_none (hblocked : s.rpcStep = none) :
    s.rpc = .idle ∨ ∃ m t, s.waitsFor .rpc = some m ∧ s.owner m = some t := by
  unfold Handoff.rpcStep at hblocked
  unfold Handoff.waitsFor
  rcases hrpc : s.rpc with _ | path | path | path | path | _ | _ <;> rw [hrpc] at hblocked
  · exact Or.inl rfl
  · obtain ⟨t, ht⟩ := exists_owner hblocked
    exact Or.inr ⟨.pathMapMutex, t, rfl, ht⟩
  · dsimp only at hblocked
    split at hblocked <;> cases hblocked
  · obtain ⟨t, ht⟩ := exists_owner hblocked
    exact Or.inr ⟨.dataMutex, t, rfl, ht⟩
  · cases hblocked
  · cases hblocked
  · cases hblocked

theorem HandoffInv.moverStep_eq_none (hinv : HandoffInv s h) {copied : Option String}
    (hblocked : s.moverStep copied = none) :
    s.mover = .wait ∨ ∃ m t, s.waitsFor .mover = some m ∧ s.owner m = some t := by
  have hlist := hinv.list
  unfold Handoff.moverStep at hblocked
  unfold Handoff.waitsFor
  rcases hmover : s.mover with _ | _ | _ | _ | _ | _ | _ | filename | filename | _ | _ <;>
    rw [hmover] at hblocked hlist
  · obtain ⟨t, ht⟩ := exists_owner hblocked
    exact Or.inr ⟨.dataMutex, t, rfl, ht⟩
  · dsimp only at hblocked
    split at hblocked <;> cases hblocked
  · exact Or.inl rfl
  · obtain ⟨t, ht⟩ := exists_owner hblocked
    exact Or.inr ⟨.dataMutex, t, rfl, ht⟩
  · cases hblocked
  · cases hblocked
  · cases copied <;> cases hblocked
  · obtain ⟨t, ht⟩ := exists_owner hblocked
    exact Or.inr ⟨.pathMapMutex, t, rfl, ht⟩
  · obtain ⟨path, rest, hfront⟩ := List.exists_cons_of_ne_nil hlist
    simp only [hfront, reduceCtorEq] at hblocked
  · cases hblocked
  · obtain ⟨path, rest, hfront⟩ := List.exists_cons_of_ne_nil hlist
    simp only [hfront, reduceCtorEq] at hblocked

/-- Some thread can move unless there is nothing to do. -/
theorem HandoffInv.progress (hinv : HandoffInv s h) (copied : Option String)
    (hrpc : s.rpcStep = none) (hmover : s.moverStep copied = none) :
    s.rpc = .idle ∧ s.mover = .wait ∧ h.pushed = h.finished := by
  have hcycle := hinv.owned.no_wait_cycle s.waitsFor lockRank (lockRank_lt s)
  rcases hinv.moverStep_eq_none hmover with hwait | ⟨m, t, hm, hown⟩
  · rcases rpcStep_eq_none hrpc with hidle | ⟨m', t', hm', hown'⟩
    · have hlist := hinv.list
      rw [hwait] at hlist
      have hempty : s.localList = [] := hlist
      refine ⟨hidle, hwait, ?_⟩
      rw [hinv.sequence, hempty, hinv.awake hwait, List.append_nil, List.append_nil]
    · -- in its wait the mover holds nothing
      cases t' with
      | rpc => exact absurd (.single ⟨m', hm', hown'⟩) (hcycle .rpc)
      | mover =>
        have hheld := (hinv.owned m' .mover).mp hown'
        simp only [Handoff.held, hwait] at hheld
        cases hheld
  · cases t with
    | mover => exact absurd (.single ⟨m, hm, hown⟩) (hcycle .mover)
    | rpc =>
      rcases rpcStep_eq_none hrpc with hidle | ⟨m', t', hm', hown'⟩
      · have hheld := (hinv.owned m .rpc).mp hown
        simp only [Handoff.held, hidle] at hheld
        cases hheld
      · cases t' with
        | rpc => exact absurd (.single ⟨m', hm', hown'⟩) (hcycle .rpc)
        | mover => exact absurd (.tail (.single ⟨m', hm', hown'⟩) ⟨m, hm, hown⟩) (hcycle .rpc)

/-- A path is pushed only while `path_cache_map` has no entry for it, so the close as
    a whole does to the queue what the handler run without interruption does. -/
theorem HandoffInv.close_atomic (hinv : HandoffInv s h) {path : String} {v : Server} {fd : Int}
    (hpath : (v.fdToPath.index fd "").1 = path) (hqueue : v.dataQueue = s.dataQueue)
    (hcache : v.pathCacheMap = s.pathCacheMap)
    (hrpc : s.rpc = .push path ∨ s.rpc = .lookup path ∧ s.pathCacheMap.find? path ≠ none)
    {s' : Handoff} {moved : Option Moved} (hstep : s.rpcStep = some (s', moved)) :
    (v.closeRpcHandler fd).dataQueue = s'.dataQueue := by
  simp only [Server.closeRpcHandler, hpath, hqueue, hcache]
  rcases hrpc with hrpc | ⟨hrpc, hcached⟩
  · have hnone := hinv.uncached path (by rw [hrpc]; rfl)
    simp only [Handoff.rpcStep, hrpc, Option.some.injEq, Prod.mk.injEq] at hstep
    obtain ⟨rfl, -⟩ := hstep
    rw [hnone, Option.isNone_none, if_pos rfl]
  · rw [Ne, ← Option.isNone_iff_eq_none, Bool.not_eq_true] at hcached
    simp only [Handoff.rpcStep, hrpc, hcached, Bool.false_eq_true, if_false, Option.some.injEq,
      Prod.mk.injEq] at hstep
    obtain ⟨rfl, -⟩ := hstep
    rw [hcached, if_neg Bool.false_ne_true]

end HandoffInv

/-- No path is lost, duplicated or reordered, the mover does not sleep over a
    queued path, and the threads do not block each other. -/
structure HandoffSafe (s : Handoff) (h : Handed) : Prop where
  sequence : h.pushed = h.finished ++ s.localList ++ s.dataQueue
  awake : s.mover = .wait → s.dataQueue = []
  free : ¬ s.MutualWait

/-- **Every state of every interleaving is safe.** -/
theorem handoffSafe_run (labels : List HandoffLabel) :
    HandoffSafe handoffStart ⟨[], []⟩ ∧
    handedMachine.Along (fun _ _ x' _ => HandoffSafe x'.1 x'.2) (handoffStart, ⟨[], []⟩)
      labels := by
  have hsafe : ∀ {s h}, HandoffInv s h → HandoffSafe s h := fun hinv =>
    ⟨hinv.sequence, hinv.awake, hinv.not_mutualWait⟩
  refine ⟨hsafe handoffInv_start, ?_⟩
  refine Machine.along_of_step (I := fun x => HandoffInv x.1 x.2) ?_ handoffInv_start
  intro x l x' moved hinv hstep
  have hinv' := hinv.step hstep
  exact ⟨hsafe hinv', hinv'⟩

end Hvac
