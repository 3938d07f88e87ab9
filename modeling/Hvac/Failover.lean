/-
  Hvac/Failover.lean
  ==================
  **What the failover code achieves**: when the loss of servers leaves the
  application running, and when a server that was given up is left alone.

  Both results are about whole runs and give the exact condition.  A run ends
  with the process terminated when an open goes unanswered (`hvac_client_block`
  calls `exit`) or when `GetNode` is asked for a node of the emptied ring.  A
  server at its limit is still contacted by `open` and `read`, which choose by
  the hash modulo the server count, and by `lseek`, which does not check.

  The ring is built twice, the second time by the first tracked open, which also
  gives every server its counter and its flag: it is the ring that is there, and no
  counter and no flag changes (`initMercury_run`).
-/
import Hvac.ClientRun

namespace Hvac

open Cxx Posix

variable (env : Env)

/-! ### Staying up -/

/-- A call that needs a ring node finds one. -/
def RingServes (c : Client) (fd : Int) : Prop :=
  c.fdMap.find? fd = none ∨ c.hashRing.ring.isEmpty = false

/-- An open that is sent is answered, and a call that asks the ring for a node
    does not find it empty. -/
def StaysUp (c : Client) : ClientEvent → Prop
  | .call (.openFile path flags _) answer => trackPath env path flags = none ∨ answer ≠ none
  | .call (.read _ _) _ => True
  | .call (.pread fd _ _) _ => RingServes c fd
  | .call (.lseek fd _ _) _ => RingServes c fd
  | .call (.close fd) _ => RingServes c fd
  | .timeout _ => True

variable {env}

/-- Where the ring's host selection throws, the descriptor is tracked and the ring
    empty. -/
theorem FailoverInv.ringServes_iff {N : Nat} (hN : N < 2 ^ 31) {c : Client}
    (h : FailoverInv env N c) (fd : Int) :
    RingServes c fd ↔
      ∀ path, c.fdMap.find? fd = some path → ∀ what, c.ringHost env path ≠ .error what := by
  unfold RingServes
  constructor
  · rintro (hfd | hring) path hpath what herror
    · rw [hfd] at hpath; cases hpath
    · rw [h.ringHost_error hN herror] at hring; cases hring
  · intro hserves
    rcases hfd : c.fdMap.find? fd with _ | path
    · exact Or.inl rfl
    · right
      by_contra hempty
      rw [Bool.not_eq_false] at hempty
      apply hserves path hfd "Empty ring"
      simp only [Client.ringHost, (HashRing.getNode_eq_none_iff c.hashRing path).mpr hempty]

/-- One call terminates the process exactly when the condition fails. -/
theorem perform_status_iff {N : Nat} (hN : N < 2 ^ 31) {c : Client} (h : FailoverInv env N c)
    (call : Call) (answer : Option Reply) :
    (call.perform env (fun _ _ => answer) c).status ≠ .terminated ↔
      StaysUp env c (.call call answer) := by
  cases call with
  | openFile path flags fd =>
    simp only [Call.perform, Effect.toStep, hvacTrackFile, StaysUp]
    rcases trackPath env path flags with _ | canonicalPath
    · simp [Outcome.status]
    · cases answer <;> simp [Outcome.status]
  | read fd count =>
    simp only [Call.perform, Effect.toStep, hvacRemoteRead, StaysUp, iff_true]
    rcases c.hvacGetPath fd with _ | path
    · simp [Outcome.status]
    · cases answer <;> simp [Outcome.status]
  | pread fd count offset =>
    simp only [StaysUp, h.ringServes_iff hN, Call.perform, Effect.toStep, hvacRemotePread,
      Client.hvacGetPath_eq]
    rcases c.fdMap.find? fd with _ | path
    · simp [Outcome.status]
    · rcases hhost : c.ringHost env path with what | ⟨hostname, host⟩
      · simp [hhost, Outcome.status]
      · cases answer <;> cases hlimit : c.reachedLimit host <;>
          simp [hhost, hlimit, Outcome.status]
  | lseek fd offset whence =>
    simp only [StaysUp, h.ringServes_iff hN, Call.perform, Effect.toStep, hvacRemoteLseek,
      Client.hvacGetPath_eq]
    rcases c.fdMap.find? fd with _ | path
    · simp [Outcome.status]
    · rcases hhost : c.ringHost env path with what | ⟨hostname, host⟩
      · simp [hhost, Outcome.status]
      · cases answer <;> simp [hhost, Outcome.status]
  | close fd =>
    simp only [StaysUp, h.ringServes_iff hN, Call.perform, Effect.toStep, hvacRemoveFd,
      hvacRemoteClose, Client.hvacGetPath_eq]
    split
    · next hempty => simp [OrdMap.isEmpty_iff.mp hempty fd, Outcome.status]
    · rcases c.fdMap.find? fd with _ | path
      · simp [Outcome.status]
      · rcases hhost : c.ringHost env path with what | ⟨hostname, host⟩
        · simp [hhost, Outcome.status]
        · cases hlimit : c.reachedLimit host <;> simp [hhost, hlimit, Outcome.status]

theorem step_status_iff {N : Nat} (hN : N < 2 ^ 31) {p p' : Process} {ev : ClientEvent}
    {out : List (Int × Request)} (h : FailoverInv env N p.client)
    (hstep : (clientMachine env).step p ev = some (p', out)) :
    p'.status ≠ .terminated ↔ StaysUp env p.client ev := by
  obtain ⟨-, ⟨call, answer, rfl, rfl, -⟩ | ⟨host, rfl, rfl, -⟩⟩ :=
    clientMachine_step_eq_some env hstep
  · exact perform_status_iff hN h call answer
  · simp [StaysUp]

/-- **A run leaves the process up exactly when every open it sends is answered and
    no call asks an empty ring for a node.** -/
theorem status_ne_terminated_iff {N : Nat} (hN : 1 ≤ N ∧ N < 2 ^ 31) {events : List ClientEvent}
    {t : Process} {outs : List (List (Int × Request))}
    (hrun : (clientMachine env).run (clientStart env N) events = some (t, outs)) :
    t.status ≠ .terminated ↔
      (clientMachine env).Along (fun p ev _ _ => StaysUp env p.client ev) (clientStart env N)
        events := by
  have henabled : ∀ p ev p' out, (clientMachine env).step p ev = some (p', out) →
      p.status ≠ .terminated := by
    intro p ev p' out hstep
    rw [(clientMachine_step_eq_some env hstep).1]
    decide
  have hfinal := Machine.along_iff_final henabled (by simp [clientStart]) hrun
  rw [← hfinal]
  refine Machine.along_iff (I := fun p => FailoverInv env N p.client) ?_
    (failoverInv_init env N)
  intro p ev p' out hinv hstep
  exact ⟨step_status_iff hN.2 hinv hstep, fun _ => step_failoverInv hN.2 hinv hstep⟩

/-- A server that is given up at a `pread`, after three timeouts, and a read of another
    descriptor after it. -/
def givenUpAtPread : List ClientEvent :=
  [.call (.openFile "/data/a" O_RDONLY 3) (some ⟨5, []⟩),
    .call (.openFile "/data/a" O_RDONLY 4) (some ⟨6, []⟩),
    .timeout 1, .timeout 1, .timeout 1, .call (.pread 3 1 0) none,
    .call (.read 4 1) (some ⟨1, [7]⟩)]

theorem status_ne_terminated_iff_givenUp :
    ∃ t outs, (clientMachine zeroHashEnv).run (clientStart zeroHashEnv 2) givenUpAtPread =
      some (t, outs) ∧
    (t.status ≠ .terminated ↔
      (clientMachine zeroHashEnv).Along (fun p ev _ _ => StaysUp zeroHashEnv p.client ev)
        (clientStart zeroHashEnv 2) givenUpAtPread) := by
  obtain ⟨⟨t, outs⟩, hrun⟩ := Option.isSome_iff_exists.mp (show ((clientMachine zeroHashEnv).run
    (clientStart zeroHashEnv 2) givenUpAtPread).isSome = true by decide +kernel)
  exact ⟨t, outs, hrun, status_ne_terminated_iff (by decide) hrun⟩

/-- Two opens of one file on a single server, three timeouts, a `pread` that
    gives the server up and one more `pread`: `GetNode` throws.  The first open of
    a second run is not answered at all. -/
theorem status_terminated :
    ((clientMachine zeroHashEnv).run (clientStart zeroHashEnv 1)
      [.call (.openFile "/data/a" O_RDONLY 3) (some ⟨5, []⟩),
        .call (.openFile "/data/a" O_RDONLY 4) (some ⟨6, []⟩),
        .timeout 0, .timeout 0, .timeout 0,
        .call (.pread 3 1 0) none, .call (.pread 4 1 0) none]).map (fun r => r.1.status) =
      some .terminated ∧
    ((clientMachine zeroHashEnv).run (clientStart zeroHashEnv 1)
      [.call (.openFile "/data/a" O_RDONLY 3) none]).map (fun r => r.1.status) =
      some .terminated := by
  decide +kernel

/-! ### A server at its limit -/

variable (env)

/-- The call does not choose server `i`: `open` and `read` by the hash of the path,
    `lseek` by the ring; `pread` and `close` check the limit themselves. -/
def Avoids (i : Nat) (c : Client) : ClientEvent → Prop
  | .call (.openFile path flags _) _ =>
      ∀ canonicalPath, trackPath env path flags = some canonicalPath →
        c.hashHost env canonicalPath ≠ i
  | .call (.read fd _) _ => ∀ path, c.fdMap.find? fd = some path → c.hashHost env path ≠ i
  | .call (.lseek fd _ _) _ =>
      ∀ path, c.fdMap.find? fd = some path →
        c.hashRing.getNode env.hash path ≠ some (serverName (i + 1))
  | .call (.pread _ _ _) _ => True
  | .call (.close _) _ => True
  | .timeout _ => True

variable {env}

section Limit

variable {N : Nat} {c : Client} {i : Nat}

/-- With the check, the ring never routes to a server at its limit: a set flag
    has taken its points, and an unset one stops the call. -/
theorem FailoverInv.ringRoute_ne (hN : N < 2 ^ 31) (h : FailoverInv env N c)
    (hi : TIMEOUT_LIMIT ≤ c.timeoutCounters.getD i 0) (fd : Int) :
    c.ringRoute env true fd ≠ some (i : Int) := by
  intro hroute
  simp only [Client.ringRoute, Bool.true_and] at hroute
  rcases hfd : c.fdMap.find? fd with _ | path
  · rw [hfd] at hroute; cases hroute
  · rcases hhost : c.ringHost env path with what | ⟨hostname, host⟩
    · simp only [hfd, hhost] at hroute; cases hroute
    · simp only [hfd, hhost] at hroute
      split at hroute
      · cases hroute
      · next hunlimited =>
        cases hroute
        obtain ⟨hnode, j, -, hname, hj⟩ := h.ringHost_ok hN hhost
        obtain rfl : i = j := by exact_mod_cast hj
        have hflag : c.failureFlags.getD i false = true := by
          simpa only [Client.reachedLimit, Int.toNat_natCast, hi, decide_true, Bool.true_and,
            Bool.not_eq_true, Bool.not_eq_false'] using hunlimited
        obtain ⟨k, hk⟩ := HashRing.exists_point_of_getNode hnode
        rw [hname] at hk
        exact (h.flagged i hflag).2 k hk

theorem FailoverInv.ringRoute_lseek_iff (hN : N < 2 ^ 31) (h : FailoverInv env N c)
    (fd : Int) :
    c.ringRoute env false fd ≠ some (i : Int) ↔
      ∀ path, c.fdMap.find? fd = some path →
        c.hashRing.getNode env.hash path ≠ some (serverName (i + 1)) := by
  simp only [Client.ringRoute, Bool.false_and, Bool.false_eq_true, if_false]
  rcases hfd : c.fdMap.find? fd with _ | path
  · simp
  · simp only [Option.some.injEq, forall_eq']
    rcases hnode : c.hashRing.getNode env.hash path with _ | node
    · simp only [Client.ringHost, hnode]
      simp
    · obtain ⟨j, -, rfl, hconvert⟩ := h.ring.exists_host hN hnode
      simp only [Client.ringHost, hnode, hconvert, ne_eq, Option.some.injEq, serverName_inj]
      omega

/-- One call contacts a server at its limit exactly when it does not avoid it. -/
theorem route_ne_iff (hN : N < 2 ^ 31) (h : FailoverInv env N c)
    (hi : TIMEOUT_LIMIT ≤ c.timeoutCounters.getD i 0) (call : Call) (answer : Option Reply) :
    call.route env c ≠ some (i : Int) ↔ Avoids env i c (.call call answer) := by
  cases call with
  | openFile path flags fd =>
    simp only [Call.route, Avoids]
    rcases trackPath env path flags with _ | canonicalPath <;> simp
  | read fd count =>
    simp only [Call.route, Avoids]
    rcases c.fdMap.find? fd with _ | path <;> simp
  | pread fd count offset => exact iff_of_true (h.ringRoute_ne hN hi fd) trivial
  | lseek fd offset whence => exact h.ringRoute_lseek_iff hN fd
  | close fd => exact iff_of_true (h.ringRoute_ne hN hi fd) trivial

theorem sent_ne_iff_route_ne (call : Call) (answer : Int → Request → Option Reply) (host : Int) :
    (∀ x ∈ (call.perform env answer c).sent, x.1 ≠ host) ↔ call.route env c ≠ some host := by
  have hsent : (∀ x ∈ (call.perform env answer c).sent, x.1 ≠ host) ↔
      ∀ y ∈ (call.perform env answer c).sent.map Prod.fst, y ≠ host := by
    rw [List.forall_mem_map]
  rw [hsent, perform_sent]
  rcases call.route env c with _ | host' <;> simp

end Limit

/-- **From a state the failover code can leave, a server at its limit gets no
    request exactly when no open or read hashes to it and no seek's path lies on
    one of its points.** -/
theorem no_request_at_limit_iff {N : Nat} (hN : 1 ≤ N ∧ N < 2 ^ 31) {c : Client} {i : Nat}
    (h : FailoverInv env N c) (hi : TIMEOUT_LIMIT ≤ c.timeoutCounters.getD i 0)
    {events : List ClientEvent} {t : Process} {outs : List (List (Int × Request))}
    (hrun : (clientMachine env).run ⟨c, .running⟩ events = some (t, outs)) :
    (∀ out ∈ outs, ∀ x ∈ out, x.1 ≠ (i : Int)) ↔
      (clientMachine env).Along (fun p ev _ _ => Avoids env i p.client ev) ⟨c, .running⟩
        events := by
  have houtput := Machine.along_output_iff (P := fun out => ∀ x ∈ out, x.1 ≠ (i : Int)) hrun
  rw [← houtput]
  refine Machine.along_iff
    (I := fun p => FailoverInv env N p.client ∧ TIMEOUT_LIMIT ≤ p.client.timeoutCounters.getD i 0)
    ?_ ⟨h, hi⟩
  rintro p ev p' out ⟨hinv, hlimit⟩ hstep
  have hinv' := step_failoverInv hN.2 hinv hstep
  obtain ⟨-, ⟨call, answer, rfl, rfl, rfl⟩ | ⟨host, rfl, rfl, rfl⟩⟩ :=
    clientMachine_step_eq_some env hstep
  · constructor
    · rw [sent_ne_iff_route_ne]
      exact route_ne_iff hN.2 hinv hlimit call answer
    · intro _
      exact ⟨hinv', le_trans hlimit (perform_counter_le hinv _ call i)⟩
  · constructor
    · simp [Avoids]
    · intro _
      exact ⟨hinv', le_trans hlimit (p.client.counter_le_recordTimeout host i)⟩

/-- The client that has opened a file, after three timeouts of server `0`. -/
def limitedClient : Client :=
  ((((Call.openFile "/data/b" O_RDONLY 7).perform zeroHashEnv (fun _ _ => some ⟨4, []⟩)
    (hvacClientInit zeroHashEnv 2)).client.recordTimeout 0).recordTimeout 0).recordTimeout 0

theorem failoverInv_limitedClient : FailoverInv zeroHashEnv 2 limitedClient :=
  (((perform_failoverInv (by decide) (failoverInv_init zeroHashEnv 2) _ _).recordTimeout
    0).recordTimeout 0).recordTimeout 0

/-- A `pread` and a close of the file, whose path the ring gives to server `1`, and a
    timeout of that server between them. -/
def callsPastLimit : List ClientEvent :=
  [.call (.pread 7 1 0) (some ⟨1, [9]⟩), .timeout 1, .call (.close 7) none]

theorem no_request_at_limit_iff_timeout :
    ∃ t outs, (clientMachine zeroHashEnv).run ⟨limitedClient, .running⟩ callsPastLimit =
      some (t, outs) ∧
    ((∀ out ∈ outs, ∀ x ∈ out, x.1 ≠ ((0 : Nat) : Int)) ↔
      (clientMachine zeroHashEnv).Along (fun p ev _ _ => Avoids zeroHashEnv 0 p.client ev)
        ⟨limitedClient, .running⟩ callsPastLimit) := by
  obtain ⟨⟨t, outs⟩, hrun⟩ := Option.isSome_iff_exists.mp (show ((clientMachine zeroHashEnv).run
    ⟨limitedClient, .running⟩ callsPastLimit).isSome = true by decide +kernel)
  exact ⟨t, outs, hrun,
    no_request_at_limit_iff (by decide) failoverInv_limitedClient (by decide +kernel) hrun⟩

/-- An open and a read after the limit both go to server `0`. -/
theorem request_at_limit :
    FailoverInv zeroHashEnv 2 limitedClient ∧
    TIMEOUT_LIMIT ≤ limitedClient.timeoutCounters.getD 0 0 ∧
    ∃ t, (clientMachine zeroHashEnv).run ⟨limitedClient, .running⟩
      [.call (.openFile "/data/a" O_RDONLY 3) (some ⟨5, []⟩),
        .call (.read 3 1) (some ⟨1, [7]⟩)] =
      some (t, [[(0, .openIn "/data/a" 3)], [(0, .rpcIn 1 5 3 (-1))]]) :=
  ⟨failoverInv_limitedClient, by decide +kernel, _, rfl⟩

/-! ### Initialising twice -/

/-- Until Mercury is up the ring is the one that was built first. -/
structure FreshRing (env : Env) (N : Nat) (c : Client) : Prop where
  failover : FailoverInv env N c
  ring : c.gMercuryInit = false → c.hashRing = initRing env.hash N VIRTUAL_NODE_CNT

section Fresh

variable {N : Nat} {c c' : Client}

theorem gMercuryInit_initMercury (env : Env) (c : Client) :
    (c.initMercury env).gMercuryInit = true := by
  unfold Client.initMercury
  split
  · next hup => exact hup
  · rfl

/-- A server is given up on a tracked descriptor only, so not before. -/
theorem CallLeaves.freshRing (hN : N < 2 ^ 31) (hleaves : CallLeaves env c c')
    (h : FreshRing env N c) : FreshRing env N c' := by
  refine ⟨hleaves.failoverInv hN h.failover, fun hdown => ?_⟩
  cases hleaves with
  | maps => exact h.ring hdown
  | failed huntracks hfd hhost hlimit =>
    have hdown' : c.gMercuryInit = false := hdown
    rw [h.failover.mercuryInit hfd] at hdown'
    cases hdown'

theorem OpenLeaves.freshRing (hleaves : OpenLeaves env c c') (h : FreshRing env N c) :
    FreshRing env N c' := by
  refine ⟨hleaves.failoverInv h.failover, fun hdown => ?_⟩
  cases hleaves with
  | untracked => exact h.ring hdown
  | answered | unanswered =>
    have hdown' : (c.initMercury env).gMercuryInit = false := hdown
    rw [gMercuryInit_initMercury] at hdown'
    cases hdown'

theorem step_freshRing (hN : N < 2 ^ 31) {p p' : Process} {ev : ClientEvent}
    {out : List (Int × Request)} (h : FreshRing env N p.client)
    (hstep : (clientMachine env).step p ev = some (p', out)) : FreshRing env N p'.client := by
  obtain ⟨-, ⟨call, answer, -, rfl, -⟩ | ⟨host, -, rfl, -⟩⟩ :=
    clientMachine_step_eq_some env hstep
  · rcases hcall : call.descriptor with _ | fd
    · cases call with
      | openFile path flags fd => exact (hvacTrackFile_leaves _ p.client path flags fd).freshRing h
      | read | pread | lseek | close => cases hcall
    · exact (perform_leaves _ p.client hcall).freshRing hN h
  · exact ⟨h.failover.recordTimeout host, h.ring⟩

/-- **The second initialisation loses nothing.**  Whatever a client has called, was
    answered and has counted before its first tracked open, that open builds the ring
    that is there, gives each server a counter and a flag, and leaves those that were
    set: no server that was given up comes back, and no timeout is forgotten. -/
theorem initMercury_run (hN : N < 2 ^ 31) {events : List ClientEvent} {t : Process}
    {outs : List (List (Int × Request))}
    (hrun : (clientMachine env).run (clientStart env N) events = some (t, outs)) :
    ∃ counters flags, t.client.initMercury env =
        { t.client with
          gMercuryInit := true, timeoutCounters := counters, failureFlags := flags } ∧
      counters.length = N ∧ (∀ i, counters.getD i 0 = t.client.timeoutCounters.getD i 0) ∧
      flags.length = N ∧ ∀ i, flags.getD i false = t.client.failureFlags.getD i false := by
  have hstep : ∀ (p : Process) (ev : ClientEvent) (p' : Process) (out : List (Int × Request)),
      FreshRing env N p.client → (clientMachine env).step p ev = some (p', out) →
      FreshRing env N p'.client :=
    fun _ _ _ _ h hstep => step_freshRing hN h hstep
  have hstart : FreshRing env N (clientStart env N).client :=
    ⟨failoverInv_init env N, fun _ => rfl⟩
  have hfresh : FreshRing env N t.client := Machine.run_of_step hstep hstart hrun
  unfold Client.initMercury
  split
  · next hup =>
    obtain ⟨hcounters, hflags⟩ := hfresh.failover.sized hup
    exact ⟨_, _, by rw [← hup], hcounters, fun _ => rfl, hflags, fun _ => rfl⟩
  · next hdown =>
    rw [Bool.not_eq_true] at hdown
    refine ⟨resize t.client.timeoutCounters N 0, resize t.client.failureFlags N false, ?_,
      length_resize _ _ _, getD_resize hfresh.failover.counters 0, length_resize _ _ _,
      getD_resize hfresh.failover.flags false⟩
    simp only [initializeHashRing, hfresh.failover.count, ← hfresh.ring hdown]

/-- A `pread` and a close of descriptors that are not tracked before the first open. -/
theorem initMercury_run_untracked :
    ∃ t outs, (clientMachine zeroHashEnv).run (clientStart zeroHashEnv 2)
        [.call (.pread 3 1 0) none, .call (.close 3) none] = some (t, outs) ∧
      ∃ counters flags, t.client.initMercury zeroHashEnv =
          { t.client with
            gMercuryInit := true, timeoutCounters := counters, failureFlags := flags } ∧
        counters.length = 2 ∧ (∀ i, counters.getD i 0 = t.client.timeoutCounters.getD i 0) ∧
        flags.length = 2 ∧ ∀ i, flags.getD i false = t.client.failureFlags.getD i false := by
  have hsome : ((clientMachine zeroHashEnv).run (clientStart zeroHashEnv 2)
      [.call (.pread 3 1 0) none, .call (.close 3) none]).isSome = true := rfl
  obtain ⟨⟨t, outs⟩, hrun⟩ := Option.isSome_iff_exists.mp hsome
  exact ⟨t, outs, hrun, initMercury_run (by decide) hrun⟩

end Fresh

end Hvac
