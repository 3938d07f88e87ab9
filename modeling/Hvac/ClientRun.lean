/-
  Hvac/ClientRun.lean
  ===================
  **Runs of one client**: any sequence of the five intercepted calls, with any
  answer (or none) from the network, and timeouts recorded for any server.

  `Call.route` says which server a call's request goes to; `perform_sent` is the
  only place where the five operations are unfolded for it.  `FailoverInv` is the
  relation between ring, counters and flags that the initialisation sets up and
  every call keeps (`perform_failoverInv`).
-/
import Hvac.Client
import Hvac.Library.Machine

namespace Hvac

open Cxx Posix

/-! ### Calls and events -/

/-- An intercepted call; `openFile` is the part of `open` and `fopen` after the
    real one returned `fd`. -/
inductive Call where
  | openFile (path : String) (flags : OFlags) (fd : Int)
  | read (fd : Int) (count : Nat)
  | pread (fd : Int) (count : Nat) (offset : Int)
  | lseek (fd offset whence : Int)
  | close (fd : Int)
deriving DecidableEq, Repr

/-- The local descriptor whose remote descriptor the call's request carries. -/
def Call.descriptor : Call → Option Int
  | .openFile _ _ _ => none
  | .read fd _ => some fd
  | .pread fd _ _ => some fd
  | .lseek fd _ _ => some fd
  | .close fd => some fd

inductive ClientEvent where
  | call (call : Call) (answer : Option Reply)
  | timeout (host : Int)
deriving DecidableEq, Repr

inductive Status where
  | running
  | blocked
  | terminated
deriving DecidableEq, Repr

def Outcome.status {α : Type} : Outcome α → Status
  | .returned _ => .running
  | .blocked => .blocked
  | .exited _ => .terminated
  | .threw _ => .terminated

structure Process where
  client : Client
  status : Status
deriving DecidableEq

/-- The state, the requests and the status a call leaves. -/
structure Step where
  client : Client
  sent : List (Int × Request)
  status : Status
deriving DecidableEq

def Effect.toStep {α : Type} (e : Effect Client α) : Step :=
  ⟨e.state, e.sent, e.outcome.status⟩

variable (env : Env)

def Call.perform (answer : Int → Request → Option Reply) (c : Client) : Call → Step
  | .openFile path flags fd => (hvacTrackFile env answer c path flags fd).toStep
  | .read fd count => (hvacRemoteRead env answer c fd count).toStep
  | .pread fd count offset => (hvacRemotePread env answer c fd count offset).toStep
  | .lseek fd offset whence => (hvacRemoteLseek env answer c fd offset whence).toStep
  | .close fd => (hvacRemoveFd env c fd).toStep

/-- The runs of a client; the observation of a step is what it sent. -/
def clientMachine : Machine Process ClientEvent (List (Int × Request)) where
  step p ev :=
    if p.status = .running then
      match ev with
      | .call call answer =>
          let s := call.perform env (fun _ _ => answer) p.client
          some (⟨s.client, s.status⟩, s.sent)
      | .timeout host => some (⟨p.client.recordTimeout host, .running⟩, [])
    else none

def clientStart (serverCount : Nat) : Process := ⟨hvacClientInit env serverCount, .running⟩

theorem clientMachine_step_eq_some {p p' : Process} {ev : ClientEvent}
    {out : List (Int × Request)} (h : (clientMachine env).step p ev = some (p', out)) :
    p.status = .running ∧
    ((∃ call answer, ev = .call call answer ∧
        p' = ⟨(call.perform env (fun _ _ => answer) p.client).client,
          (call.perform env (fun _ _ => answer) p.client).status⟩ ∧
        out = (call.perform env (fun _ _ => answer) p.client).sent) ∨
      ∃ host, ev = .timeout host ∧ p' = ⟨p.client.recordTimeout host, .running⟩ ∧ out = []) := by
  simp only [clientMachine] at h
  split at h
  · next hrun =>
    refine ⟨hrun, ?_⟩
    cases ev with
    | call call answer =>
      cases h
      exact Or.inl ⟨call, answer, rfl, rfl, rfl⟩
    | timeout host =>
      cases h
      exact Or.inr ⟨host, rfl, rfl, rfl⟩
  · cases h

/-! ### Which server a request goes to -/

/-- The descriptor's path while it is tracked, as the remote calls look it up. -/
def Client.ringRoute (c : Client) (limit : Bool) (fd : Int) : Option Int :=
  match c.fdMap.find? fd with
  | none => none
  | some path =>
      match c.ringHost env path with
      | .error _ => none
      | .ok (_, host) => if limit && c.reachedLimit host then none else some host

/-- The server the call's request is sent to; `none` when it sends none. -/
def Call.route (c : Client) : Call → Option Int
  | .openFile path flags _ => (trackPath env path flags).map (c.hashHost env)
  | .read fd _ => (c.fdMap.find? fd).map (c.hashHost env)
  | .pread fd _ _ => c.ringRoute env true fd
  | .lseek fd _ _ => c.ringRoute env false fd
  | .close fd => c.ringRoute env true fd

variable {env}

theorem perform_sent (answer : Int → Request → Option Reply) (c : Client) (call : Call) :
    (call.perform env answer c).sent.map Prod.fst = (call.route env c).toList := by
  cases call with
  | openFile path flags fd =>
    simp only [Call.perform, Effect.toStep, Call.route, hvacTrackFile]
    rcases htrack : trackPath env path flags with _ | canonicalPath
    · rfl
    · simp only [Client.initMercury_setMaps]
      have hhost : ({ c.initMercury env with fdMap := c.fdMap.insert fd canonicalPath }).hashHost
          env canonicalPath = c.hashHost env canonicalPath := c.hashHost_initMercury canonicalPath
      simp only [hhost]
      split <;> rfl
  | read fd count =>
    simp only [Call.perform, Effect.toStep, Call.route, hvacRemoteRead, Client.hvacGetPath_eq]
    rcases c.fdMap.find? fd with _ | path
    · rfl
    · dsimp only
      split <;> rfl
  | pread fd count offset =>
    simp only [Call.perform, Effect.toStep, Call.route, Client.ringRoute, hvacRemotePread,
      Client.hvacGetPath_eq, Bool.true_and]
    rcases c.fdMap.find? fd with _ | path
    · rfl
    · rcases hhost : c.ringHost env path with what | ⟨hostname, host⟩
      · simp only [hhost]; rfl
      · simp only [hhost]
        split
        · rfl
        · split <;> rfl
  | lseek fd offset whence =>
    simp only [Call.perform, Effect.toStep, Call.route, Client.ringRoute, hvacRemoteLseek,
      Client.hvacGetPath_eq, Bool.false_and]
    rcases c.fdMap.find? fd with _ | path
    · rfl
    · rcases hhost : c.ringHost env path with what | ⟨hostname, host⟩
      · simp only [hhost]; rfl
      · simp only [hhost]
        split <;> rfl
  | close fd =>
    simp only [Call.perform, Effect.toStep, Call.route, Client.ringRoute, hvacRemoveFd,
      hvacRemoteClose, Client.hvacGetPath_eq, Bool.true_and]
    split
    · next hempty => rw [OrdMap.isEmpty_iff.mp hempty fd]; rfl
    · rcases c.fdMap.find? fd with _ | path
      · rfl
      · rcases hhost : c.ringHost env path with what | ⟨hostname, host⟩
        · simp only [hhost]; rfl
        · cases hlimit : c.reachedLimit host
          · simp only [hhost, hlimit, Bool.false_eq_true, if_false]; rfl
          · simp only [hhost, hlimit, if_true]; rfl

theorem mem_sent_route {answer : Int → Request → Option Reply} {c : Client} {call : Call}
    {x : Int × Request} (hx : x ∈ (call.perform env answer c).sent) :
    call.route env c = some x.1 := by
  have hmem := List.mem_map_of_mem hx (f := Prod.fst)
  rw [perform_sent] at hmem
  exact Option.mem_toList.mp hmem

/-! ### What a call can leave behind -/

/-- The tables track no new descriptor, and keep the entries of those that stay
    tracked. -/
def Client.Untracks (c : Client) (m : OrdMap Int String) (r : OrdMap Int Int) : Prop :=
  ∀ fd path, m.find? fd = some path →
    c.fdMap.find? fd = some path ∧ ∀ x, c.fdRedirMap.find? fd = some x → r.find? fd = some x

/-- The client after a call on a descriptor: other tables, and before them perhaps a
    server declared failed, on the condition the code checks. -/
inductive CallLeaves (env : Env) (c : Client) : Client → Prop where
  | maps {m : OrdMap Int String} {r : OrdMap Int Int} (h : c.Untracks m r) :
      CallLeaves env c { c with fdMap := m, fdRedirMap := r }
  | failed {m : OrdMap Int String} {r : OrdMap Int Int} (h : c.Untracks m r) {fd : Int}
      {path hostname : String} {host : Int} (hfd : c.fdMap.find? fd = some path)
      (hhost : c.ringHost env path = .ok (hostname, host)) (hlimit : c.reachedLimit host = true) :
      CallLeaves env c { c.declareFailed env hostname host with fdMap := m, fdRedirMap := r }

/-- The client after an open: unchanged if the file is not tracked, else set up and
    with other tables, and one more timeout if there was no answer. -/
inductive OpenLeaves (env : Env) (c : Client) : Client → Prop where
  | untracked : OpenLeaves env c c
  | answered (m : OrdMap Int String) (r : OrdMap Int Int) :
      OpenLeaves env c { c.initMercury env with fdMap := m, fdRedirMap := r }
  | unanswered (m : OrdMap Int String) (r : OrdMap Int Int) (host : Int) :
      OpenLeaves env c (({ c.initMercury env with fdMap := m, fdRedirMap := r }).recordTimeout host)

theorem Client.Untracks.refl (c : Client) : c.Untracks c.fdMap c.fdRedirMap :=
  fun _ _ h => ⟨h, fun _ hx => hx⟩

theorem Client.Untracks.index (c : Client) (fd : Int) :
    c.Untracks c.fdMap (c.fdRedirMap.index fd 0).2 :=
  fun _ _ h => ⟨h, fun _ hx => OrdMap.find?_index hx fd 0⟩

theorem Client.Untracks.erase {c : Client} {m : OrdMap Int String} {r : OrdMap Int Int}
    (h : c.Untracks m r) (fd : Int) : c.Untracks (m.erase fd) r := by
  exact fun fd' path hpath => h fd' path (OrdMap.find?_of_find?_erase hpath)

/-- The entry that is erased belongs to the descriptor that is untracked. -/
theorem Client.Untracks.eraseBoth {c : Client} {m : OrdMap Int String} {r : OrdMap Int Int}
    (h : c.Untracks m r) (fd : Int) : c.Untracks (m.erase fd) (r.erase fd) := by
  intro fd' path hpath
  rw [OrdMap.find?_erase] at hpath
  split at hpath
  · cases hpath
  · next hne =>
    obtain ⟨hbefore, hkeep⟩ := h fd' path hpath
    refine ⟨hbefore, fun x hx => ?_⟩
    exact (OrdMap.find?_erase_of_ne hne r).trans (hkeep x hx)

theorem CallLeaves.refl (env : Env) (c : Client) : CallLeaves env c c :=
  .maps (.refl c)

theorem finishRead_leaves (c : Client) (fd : Int) (out : Reply) :
    CallLeaves env c (finishRead { c with fdRedirMap := (c.fdRedirMap.index fd 0).2 } fd out) := by
  unfold finishRead
  split
  · exact .maps ((Client.Untracks.index c fd).erase fd)
  · exact .maps (.index c fd)

theorem hvacTrackFile_leaves (answer : Int → Request → Option Reply) (c : Client) (path : String)
    (flags : OFlags) (fd : Int) :
    OpenLeaves env c (hvacTrackFile env answer c path flags fd).state := by
  unfold hvacTrackFile
  rcases trackPath env path flags with _ | canonicalPath
  · exact .untracked
  · simp only [Client.initMercury_setMaps]
    split
    · exact .answered _ _
    · exact .unanswered _ _ _

theorem hvacRemoteRead_leaves (answer : Int → Request → Option Reply) (c : Client) (fd : Int)
    (count : Nat) : CallLeaves env c (hvacRemoteRead env answer c fd count).state := by
  unfold hvacRemoteRead
  rcases c.hvacGetPath fd with _ | path
  · exact .refl env c
  · simp only [Client.genReadRpc]
    split
    · exact finishRead_leaves c fd _
    · exact .maps (.index c fd)

theorem hvacRemotePread_leaves (answer : Int → Request → Option Reply) (c : Client) (fd : Int)
    (count : Nat) (offset : Int) :
    CallLeaves env c (hvacRemotePread env answer c fd count offset).state := by
  simp only [hvacRemotePread, Client.hvacGetPath_eq]
  rcases hfd : c.fdMap.find? fd with _ | path
  · exact .refl env c
  · rcases hhost : c.ringHost env path with what | ⟨hostname, host⟩
    · simp only [hhost]
      exact .refl env c
    · simp only [hhost, Client.genReadRpc]
      split
      · next hlimit => exact .failed ((Client.Untracks.refl c).erase fd) hfd hhost hlimit
      · split
        · exact finishRead_leaves c fd _
        · exact .maps (.index c fd)

theorem hvacRemoteLseek_leaves (answer : Int → Request → Option Reply) (c : Client)
    (fd offset whence : Int) :
    CallLeaves env c (hvacRemoteLseek env answer c fd offset whence).state := by
  unfold hvacRemoteLseek
  rcases c.hvacGetPath fd with _ | path
  · exact .refl env c
  · rcases hhost : c.ringHost env path with what | ⟨hostname, host⟩
    · simp only [hhost]
      exact .refl env c
    · simp only [hhost, Client.genSeekRpc]
      split
      · exact .maps (.index c fd)
      · exact .maps (.index c fd)

theorem hvacRemoveFd_leaves (c : Client) (fd : Int) :
    CallLeaves env c (hvacRemoveFd env c fd).state := by
  simp only [hvacRemoveFd, hvacRemoteClose, Client.hvacGetPath_eq]
  split
  · exact .refl env c
  · rcases hfd : c.fdMap.find? fd with _ | path
    · exact .maps ((Client.Untracks.refl c).erase fd)
    · rcases hhost : c.ringHost env path with what | ⟨hostname, host⟩
      · simp only [hhost]
        exact .refl env c
      · cases hlimit : c.reachedLimit host
        · simp only [hhost, hlimit, Bool.false_eq_true, if_false, Client.genCloseRpc]
          exact .maps ((Client.Untracks.index c fd).eraseBoth fd)
        · simp only [hhost, hlimit, if_true]
          exact .failed ((Client.Untracks.refl c).erase fd) hfd hhost hlimit

/-- What a call on a descriptor leaves. -/
theorem perform_leaves (answer : Int → Request → Option Reply) (c : Client) {call : Call} {fd : Int}
    (hcall : call.descriptor = some fd) : CallLeaves env c (call.perform env answer c).client := by
  cases call with
  | openFile => cases hcall
  | read fd count => exact hvacRemoteRead_leaves answer c fd count
  | pread fd count offset => exact hvacRemotePread_leaves answer c fd count offset
  | lseek fd offset whence => exact hvacRemoteLseek_leaves answer c fd offset whence
  | close fd => exact hvacRemoveFd_leaves c fd

theorem CallLeaves.untracks {c c' : Client} (h : CallLeaves env c c') :
    c.Untracks c'.fdMap c'.fdRedirMap := by
  cases h with
  | maps h => exact h
  | failed h => exact h

/-! ### Ring, counters and flags -/

/-- How ring, counters and flags are related in every state the initialisation and
    the failover code leave: a set flag belongs to a server that reached its
    limit and has no point left, and nothing is tracked before Mercury is up and
    every server has its counter and its flag. -/
structure FailoverInv (env : Env) (N : Nat) (c : Client) : Prop where
  count : c.gHvacServerCount = N
  counters : c.timeoutCounters.length ≤ N
  flags : c.failureFlags.length ≤ N
  sized : c.gMercuryInit = true → c.timeoutCounters.length = N ∧ c.failureFlags.length = N
  ring : RingInv env.hash N c.hashRing
  flagged : ∀ i, c.failureFlags.getD i false = true →
    TIMEOUT_LIMIT ≤ c.timeoutCounters.getD i 0 ∧
    ∀ k, c.hashRing.ring.find? k ≠ some (serverName (i + 1))
  fresh : c.gMercuryInit = false →
    (∀ i, c.failureFlags.getD i false = false) ∧ ∀ fd, c.fdMap.find? fd = none

theorem length_resize {α : Type} (l : List α) (n : Nat) (a : α) : (resize l n a).length = n := by
  simp only [resize, List.length_take, List.length_append, List.length_replicate]
  omega

/-- A vector that is not too long keeps its entries. -/
theorem getD_resize {α : Type} {l : List α} {n : Nat} (h : l.length ≤ n) (a : α) (i : Nat) :
    (resize l n a).getD i a = l.getD i a := by
  simp only [resize, List.getD_eq_getElem?_getD, List.getElem?_take, List.getElem?_append,
    List.getElem?_replicate]
  by_cases hi : i < l.length
  · rw [if_pos (by omega), if_pos hi]
  · have hnone : l[i]? = none := List.getElem?_eq_none (by omega)
    rw [if_neg hi, hnone]
    split
    · split <;> rfl
    · rfl

theorem failoverInv_init (env : Env) (N : Nat) : FailoverInv env N (hvacClientInit env N) where
  count := rfl
  counters := Nat.zero_le N
  flags := Nat.zero_le N
  sized hup := by cases hup
  ring := ringInv_initRing env.hash N VIRTUAL_NODE_CNT
  flagged i h := by cases h
  fresh _ := ⟨fun _ => rfl, fun _ => rfl⟩

section FailoverInv

variable {N : Nat} {c : Client}

/-- The descriptor tables do not matter once Mercury is up. -/
theorem FailoverInv.setMaps (h : FailoverInv env N c) (m : OrdMap Int String)
    (r : OrdMap Int Int) (hm : ∀ fd, c.fdMap.find? fd = none → m.find? fd = none) :
    FailoverInv env N { c with fdMap := m, fdRedirMap := r } where
  count := h.count
  counters := h.counters
  flags := h.flags
  sized := h.sized
  ring := h.ring
  flagged := h.flagged
  fresh hinit := ⟨(h.fresh hinit).1, fun fd => hm fd ((h.fresh hinit).2 fd)⟩

theorem FailoverInv.mercuryInit (h : FailoverInv env N c) {fd : Int} {path : String}
    (hfd : c.fdMap.find? fd = some path) : c.gMercuryInit = true := by
  by_contra hinit
  rw [Bool.not_eq_true] at hinit
  rw [(h.fresh hinit).2 fd] at hfd
  cases hfd

theorem Client.counter_le_recordTimeout (c : Client) (host : Int) (i : Nat) :
    c.timeoutCounters.getD i 0 ≤ (c.recordTimeout host).timeoutCounters.getD i 0 := by
  simp only [Client.recordTimeout, List.getD_eq_getElem?_getD, List.getElem?_modify]
  rcases c.timeoutCounters[i]? with _ | n
  · exact le_refl _
  · dsimp only [Option.map_eq_map, Option.map_some, Option.getD_some]
    split <;> omega

theorem FailoverInv.recordTimeout (h : FailoverInv env N c) (host : Int) :
    FailoverInv env N (c.recordTimeout host) where
  count := h.count
  counters := by rw [Client.recordTimeout, List.length_modify]; exact h.counters
  flags := h.flags
  sized hup := by rw [Client.recordTimeout, List.length_modify]; exact h.sized hup
  ring := h.ring
  flagged i hi := by
    obtain ⟨hlimit, hpoints⟩ := h.flagged i hi
    exact ⟨le_trans hlimit (c.counter_le_recordTimeout host i), hpoints⟩
  fresh := h.fresh

/-- The first tracked open builds the ring again; nothing was removed before it. -/
theorem FailoverInv.initMercury (h : FailoverInv env N c) (m : OrdMap Int String)
    (r : OrdMap Int Int) :
    FailoverInv env N { c.initMercury env with fdMap := m, fdRedirMap := r } := by
  unfold Client.initMercury
  split
  · next hup =>
    exact ⟨h.count, h.counters, h.flags, h.sized, h.ring, h.flagged,
      fun hdown => absurd (hup.symm.trans hdown) (by decide)⟩
  · next hdown =>
    rw [Bool.not_eq_true] at hdown
    have hcounters := (length_resize c.timeoutCounters c.gHvacServerCount 0).trans h.count
    have hflags := (length_resize c.failureFlags c.gHvacServerCount false).trans h.count
    refine ⟨h.count, hcounters.le, hflags.le, fun _ => ⟨hcounters, hflags⟩, ?_, ?_,
      fun hup => by cases hup⟩
    · simp only [initializeHashRing, h.count]
      exact ringInv_initRing env.hash N VIRTUAL_NODE_CNT
    · intro i hi
      simp only [initializeHashRing, h.count, getD_resize h.flags] at hi
      rw [(h.fresh hdown).1 i] at hi
      cases hi

/-- What the ring's host selection can answer. -/
theorem FailoverInv.ringHost_ok (hN : N < 2 ^ 31) (h : FailoverInv env N c)
    {path hostname : String} {host : Int} (hhost : c.ringHost env path = .ok (hostname, host)) :
    c.hashRing.getNode env.hash path = some hostname ∧
    ∃ i, i < N ∧ hostname = serverName (i + 1) ∧ host = (i : Int) := by
  simp only [Client.ringHost] at hhost
  rcases hnode : c.hashRing.getNode env.hash path with _ | node
  · rw [hnode] at hhost; cases hhost
  · obtain ⟨i, hi, hname, hconvert⟩ := h.ring.exists_host hN hnode
    simp only [hnode, hconvert, Except.ok.injEq, Prod.mk.injEq] at hhost
    obtain ⟨rfl, rfl⟩ := hhost
    exact ⟨rfl, i, hi, hname, rfl⟩

/-- It throws exactly on the empty ring. -/
theorem FailoverInv.ringHost_error (hN : N < 2 ^ 31) (h : FailoverInv env N c) {path what : String}
    (hhost : c.ringHost env path = .error what) : c.hashRing.ring.isEmpty = true := by
  simp only [Client.ringHost] at hhost
  rcases hnode : c.hashRing.getNode env.hash path with _ | node
  · exact (HashRing.getNode_eq_none_iff _ _).mp hnode
  · obtain ⟨i, -, -, hconvert⟩ := h.ring.exists_host hN hnode
    simp only [hnode, hconvert] at hhost
    cases hhost

theorem FailoverInv.declareFailed (hN : N < 2 ^ 31) (h : FailoverInv env N c)
    {fd : Int} {path hostname : String} {host : Int} (hfd : c.fdMap.find? fd = some path)
    (hhost : c.ringHost env path = .ok (hostname, host)) (hlimit : c.reachedLimit host = true) :
    FailoverInv env N (c.declareFailed env hostname host) where
  count := h.count
  counters := h.counters
  flags := by rw [Client.declareFailed, List.length_set]; exact h.flags
  sized hup := by rw [Client.declareFailed, List.length_set]; exact h.sized hup
  ring := h.ring.removeNode hostname
  flagged i hi := by
    obtain ⟨-, j, hj, hname, rfl⟩ := h.ringHost_ok hN hhost
    simp only [Client.declareFailed, Int.toNat_natCast, List.getD_eq_getElem?_getD,
      List.getElem?_set] at hi
    by_cases hij : j = i
    · -- the server just declared failed: its limit was the branch's condition
      subst hij
      simp only [Client.reachedLimit, Bool.and_eq_true, decide_eq_true_eq,
        Int.toNat_natCast] at hlimit
      refine ⟨hlimit.1, fun k hk => h.ring.find?_removeNode_ne hostname k ?_⟩
      rw [hname]
      rw [Client.declareFailed, hname] at hk
      exact hk
    · rw [if_neg hij, ← List.getD_eq_getElem?_getD] at hi
      obtain ⟨hcount, hpoints⟩ := h.flagged i hi
      exact ⟨hcount, fun k hk => hpoints k (HashRing.find?_of_removeNode hk)⟩
  fresh hinit := by
    have hup : c.gMercuryInit = false := hinit
    rw [h.mercuryInit hfd] at hup
    cases hup

theorem Client.Untracks.fdMap_eq_none {m : OrdMap Int String} {r : OrdMap Int Int}
    (h : c.Untracks m r) (fd : Int) (hfd : c.fdMap.find? fd = none) : m.find? fd = none := by
  rcases hpath : m.find? fd with _ | path
  · rfl
  · rw [(h fd path hpath).1] at hfd
    cases hfd

theorem CallLeaves.failoverInv (hN : N < 2 ^ 31) {c' : Client} (hleaves : CallLeaves env c c')
    (h : FailoverInv env N c) : FailoverInv env N c' := by
  cases hleaves with
  | maps huntracks => exact h.setMaps _ _ huntracks.fdMap_eq_none
  | failed huntracks hfd hhost hlimit =>
    exact (h.declareFailed hN hfd hhost hlimit).setMaps _ _ huntracks.fdMap_eq_none

theorem OpenLeaves.failoverInv {c' : Client} (hleaves : OpenLeaves env c c')
    (h : FailoverInv env N c) : FailoverInv env N c' := by
  cases hleaves with
  | untracked => exact h
  | answered m r => exact h.initMercury m r
  | unanswered m r host => exact (h.initMercury m r).recordTimeout host

/-- Every call keeps the relation. -/
theorem perform_failoverInv (hN : N < 2 ^ 31) (h : FailoverInv env N c)
    (answer : Int → Request → Option Reply) (call : Call) :
    FailoverInv env N (call.perform env answer c).client := by
  rcases hcall : call.descriptor with _ | fd
  · cases call with
    | openFile path flags fd => exact (hvacTrackFile_leaves answer c path flags fd).failoverInv h
    | read | pread | lseek | close => cases hcall
  · exact (perform_leaves answer c hcall).failoverInv hN h

theorem FailoverInv.counter_initMercury (h : FailoverInv env N c) (i : Nat) :
    (c.initMercury env).timeoutCounters.getD i 0 = c.timeoutCounters.getD i 0 := by
  unfold Client.initMercury
  split
  · rfl
  · simp only [initializeHashRing, h.count, getD_resize h.counters]

theorem CallLeaves.counters_eq {c' : Client} (hleaves : CallLeaves env c c') :
    c'.timeoutCounters = c.timeoutCounters := by
  cases hleaves with
  | maps => rfl
  | failed => rfl

theorem OpenLeaves.counter_le {c' : Client} (hleaves : OpenLeaves env c c')
    (h : FailoverInv env N c) (i : Nat) :
    c.timeoutCounters.getD i 0 ≤ c'.timeoutCounters.getD i 0 := by
  cases hleaves with
  | untracked => exact le_refl _
  | answered m r => exact (h.counter_initMercury i).ge
  | unanswered m r host =>
    exact le_trans (h.counter_initMercury i).ge (Client.counter_le_recordTimeout _ host i)

/-- No call lowers a counter. -/
theorem perform_counter_le (h : FailoverInv env N c) (answer : Int → Request → Option Reply)
    (call : Call) (i : Nat) :
    c.timeoutCounters.getD i 0 ≤ (call.perform env answer c).client.timeoutCounters.getD i 0 := by
  rcases hcall : call.descriptor with _ | fd
  · cases call with
    | openFile path flags fd => exact (hvacTrackFile_leaves answer c path flags fd).counter_le h i
    | read | pread | lseek | close => cases hcall
  · rw [(perform_leaves answer c hcall).counters_eq]

theorem step_failoverInv (hN : N < 2 ^ 31) {p p' : Process} {ev : ClientEvent}
    {out : List (Int × Request)} (h : FailoverInv env N p.client)
    (hstep : (clientMachine env).step p ev = some (p', out)) : FailoverInv env N p'.client := by
  obtain ⟨-, ⟨call, answer, -, rfl, -⟩ | ⟨host, -, rfl, -⟩⟩ :=
    clientMachine_step_eq_some env hstep
  · exact perform_failoverInv hN h _ call
  · exact h.recordTimeout host

end FailoverInv

/-- Every name hashes to `0`, every path is canonical and the data directory is
    `/data`. -/
def zeroHashEnv : Env where
  hash _ := ⟨0, by decide⟩
  canonical path := some path
  hvacDataDir := some "/data"
  currentPath := "/"

end Hvac
