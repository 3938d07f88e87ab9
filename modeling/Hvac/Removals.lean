/-
  Hvac/Removals.lean
  ==================
  **The servers the failover code has removed from the ring.**

  `hvac_remote_pread` and `hvac_remote_close` each contain the code that calls
  `RemoveNode`.  What a ring is after any number of such calls depends only on the
  set of nodes they were made on (`removeNodes_congr`), also where points of
  different servers coincide and a removal erases points of a server that stays.

  The second half follows the calls of one client.  `failoverMachine` observes at
  each step the node `RemoveNode` was called on, and `RemovalInv` ties this history
  to ring, flags and counters: the ring is the initial one without the nodes of
  the history, and the flags are set for exactly these.
-/
import Hvac.ClientRun

namespace Hvac

open Cxx Posix

/-! ### Removals commute -/

/-- The ring after `RemoveNode` was called on each of `nodes`. -/
def removeNodes (hash : String → SizeT) (ring : HashRing String) (nodes : List String) :
    HashRing String :=
  nodes.foldl (fun ring node => ring.removeNode hash node) ring

section RemoveNodes

variable {hash : String → SizeT}

theorem removeNodes_append (ring : HashRing String) (nodes : List String) (node : String) :
    removeNodes hash ring (nodes ++ [node]) =
      (removeNodes hash ring nodes).removeNode hash node := by
  simp only [removeNodes, List.foldl_append, List.foldl_cons, List.foldl_nil]

@[simp] theorem removeNodes_replicas (ring : HashRing String) (nodes : List String) :
    (removeNodes hash ring nodes).replicas = ring.replicas := by
  induction nodes using List.reverseRecOn with
  | nil => rfl
  | append_singleton nodes node ih => rw [removeNodes_append, HashRing.removeNode_replicas, ih]

/-- A point is left when it is on no replica of a removed node. -/
theorem find?_removeNodes (ring : HashRing String) (nodes : List String) (k : SizeT) :
    (removeNodes hash ring nodes).ring.find? k =
      if ∃ node ∈ nodes, k ∈ HashRing.points hash ring.replicas node then none
      else ring.ring.find? k := by
  induction nodes using List.reverseRecOn with
  | nil => simp [removeNodes]
  | append_singleton nodes node ih =>
    rw [removeNodes_append, HashRing.find?_removeNode, removeNodes_replicas, ih]
    by_cases hlast : k ∈ HashRing.points hash ring.replicas node
    · simp [hlast]
    · simp [hlast, or_and_right, exists_or]

/-- The order and the number of the removals do not matter. -/
theorem removeNodes_congr (ring : HashRing String) {nodes nodes' : List String}
    (hsame : ∀ node, node ∈ nodes ↔ node ∈ nodes') :
    removeNodes hash ring nodes = removeNodes hash ring nodes' := by
  have hring : (removeNodes hash ring nodes).ring = (removeNodes hash ring nodes').ring := by
    apply OrdMap.ext_find?
    intro k
    simp only [find?_removeNodes, hsame]
  have hreplicas : (removeNodes hash ring nodes).replicas =
      (removeNodes hash ring nodes').replicas := by
    rw [removeNodes_replicas, removeNodes_replicas]
  cases h : removeNodes hash ring nodes
  cases h' : removeNodes hash ring nodes'
  simp only [h, h'] at hring hreplicas
  rw [hring, hreplicas]

theorem RingInv.removeNodes {N : Nat} {ring : HashRing String} (h : RingInv hash N ring)
    (nodes : List String) : RingInv hash N (removeNodes hash ring nodes) := by
  induction nodes using List.reverseRecOn with
  | nil => exact h
  | append_singleton nodes node ih =>
    rw [removeNodes_append]
    exact ih.removeNode node

/-- A removed node owns nothing: the points left to it would be its own replicas. -/
theorem RingInv.find?_removeNodes_ne {N : Nat} {ring : HashRing String} (h : RingInv hash N ring)
    {nodes : List String} {node : String} (hnode : node ∈ nodes) (k : SizeT) :
    (Hvac.removeNodes hash ring nodes).ring.find? k ≠ some node := by
  intro hk
  have hown := (h.removeNodes nodes).own k node hk
  rw [removeNodes_replicas] at hown
  rw [find?_removeNodes, if_pos ⟨node, hnode, hown⟩] at hk
  cases hk

theorem RingInv.getNode_removeNodes_ne {N : Nat} {ring : HashRing String}
    (h : RingInv hash N ring) {nodes : List String} {path node : String}
    (hget : (Hvac.removeNodes hash ring nodes).getNode hash path = some node) :
    node ∉ nodes := by
  intro hnode
  obtain ⟨k, hk⟩ := HashRing.exists_point_of_getNode hget
  exact h.find?_removeNodes_ne hnode k hk

end RemoveNodes

/-- The client after its failover code ran for each of `failed`, a host's name and
    number. -/
def Client.failOver (env : Env) (c : Client) (failed : List (String × Int)) : Client :=
  failed.foldl (fun c x => c.declareFailed env x.1 x.2) c

theorem Client.hashRing_failOver (env : Env) (c : Client) (failed : List (String × Int)) :
    (c.failOver env failed).hashRing =
      removeNodes env.hash c.hashRing (failed.map Prod.fst) := by
  induction failed using List.reverseRecOn with
  | nil => rfl
  | append_singleton failed x ih =>
    rw [List.map_append, List.map_singleton, removeNodes_append, ← ih]
    simp only [Client.failOver, List.foldl_append, List.foldl_cons, List.foldl_nil]
    rfl

/-- **Two clients that gave up the same servers route alike, and never to one of
    these servers.** -/
theorem failOver_agree {env env' : Env} (hhash : env'.hash = env.hash) (c c' : Client)
    (N V : Nat) {failed failed' : List (String × Int)}
    (hsame : ∀ node, node ∈ failed.map Prod.fst ↔ node ∈ failed'.map Prod.fst) :
    let d := (initializeHashRing env c N V).failOver env failed
    let d' := (initializeHashRing env' c' N V).failOver env' failed'
    d.hashRing = d'.hashRing ∧
    ∀ path : String, d.hashRing.getNode env.hash path = d'.hashRing.getNode env'.hash path ∧
      ∀ node, d.hashRing.getNode env.hash path = some node →
        node ∉ failed.map Prod.fst ∧ node ∉ failed'.map Prod.fst := by
  intro d d'
  have hd : d.hashRing = removeNodes env.hash (initRing env.hash N V) (failed.map Prod.fst) :=
    Client.hashRing_failOver env _ failed
  have hd' : d'.hashRing =
      removeNodes env'.hash (initRing env'.hash N V) (failed'.map Prod.fst) :=
    Client.hashRing_failOver env' _ failed'
  have hring : d.hashRing = d'.hashRing := by
    rw [hd, hd', hhash]
    exact removeNodes_congr _ hsame
  refine ⟨hring, fun path => ⟨by rw [hring, hhash], ?_⟩⟩
  intro node hnode
  rw [hd] at hnode
  have hnot := (ringInv_initRing env.hash N V).getNode_removeNodes_ne hnode
  exact ⟨hnot, fun hmem => hnot ((hsame node).mpr hmem)⟩

/-- Two orders, one of them with a repetition. -/
theorem failOver_agree_two :
    let d := (initializeHashRing zeroHashEnv (hvacClientInit zeroHashEnv 3) 3 2).failOver
      zeroHashEnv [("server1", 0), ("server3", 2)]
    let d' := (initializeHashRing zeroHashEnv (hvacClientInit zeroHashEnv 3) 3 2).failOver
      zeroHashEnv [("server3", 2), ("server1", 0), ("server3", 2)]
    d.hashRing = d'.hashRing ∧
    ∀ path : String,
      d.hashRing.getNode zeroHashEnv.hash path = d'.hashRing.getNode zeroHashEnv.hash path ∧
      ∀ node, d.hashRing.getNode zeroHashEnv.hash path = some node →
        node ∉ ["server1", "server3"] ∧ node ∉ ["server3", "server1", "server3"] :=
  failOver_agree rfl _ _ 3 2 (by intro node; simp; tauto)

/-! ### The history of one client -/

/-- A wait on a server that timed out, and the two calls that can remove one; their
    descriptor is tracked with `path`, and `answer` is what the network returns. -/
inductive FailoverEvent where
  | timeout (host : Nat)
  | pread (fd : Int) (path : String) (count : Nat) (offset : Int) (answer : Option Reply)
  | close (fd : Int) (path : String)
deriving DecidableEq, Repr

def Client.track (c : Client) (fd : Int) (path : String) : Client :=
  { c with fdMap := c.fdMap.insert fd path }

variable (env : Env)

/-- The node a `pread` or `close` of a file with this path calls `RemoveNode` on. -/
def Client.removes (c : Client) (path : String) : Option String :=
  match c.ringHost env path with
  | .error _ => none
  | .ok (hostname, host) => if c.reachedLimit host then some hostname else none

/-- The runs of the failover code; the observation of a step is the node it called
    `RemoveNode` on. -/
def failoverMachine : Machine Client FailoverEvent (Option String) where
  step c ev :=
    match ev with
    | .timeout host =>
        if host < c.timeoutCounters.length then some (c.recordTimeout host, none) else none
    | .pread fd path count offset answer =>
        some ((hvacRemotePread env (fun _ _ => answer) (c.track fd path) fd count offset).state,
          c.removes env path)
    | .close fd path => some ((hvacRemoveFd env (c.track fd path) fd).state, c.removes env path)

/-- The client `initialize_hash_ring` leaves once Mercury is up. -/
def failoverStart (N V : Nat) : Client :=
  { initializeHashRing env
      { fdMap := OrdMap.empty, fdRedirMap := OrdMap.empty, hashRing := ⟨OrdMap.empty, 0⟩,
        timeoutCounters := [], failureFlags := [], gHvacServerCount := N, gMercuryInit := false }
      N V with
    gMercuryInit := true }

/-- What one step of the failover code leaves, with the node it removed. -/
inductive FailoverLeaves (env : Env) (c : Client) : Client → Option String → Prop where
  | timeout (host : Nat) : FailoverLeaves env c (c.recordTimeout host) none
  | kept (m : OrdMap Int String) (r : OrdMap Int Int) :
      FailoverLeaves env c { c with fdMap := m, fdRedirMap := r } none
  | removed (m : OrdMap Int String) (r : OrdMap Int Int) {path hostname : String} {host : Int}
      (hhost : c.ringHost env path = .ok (hostname, host)) (hlimit : c.reachedLimit host = true) :
      FailoverLeaves env c { c.declareFailed env hostname host with fdMap := m, fdRedirMap := r }
        (some hostname)

variable {env}

theorem hvacGetPath_track (c : Client) (fd : Int) (path : String) :
    (c.track fd path).hvacGetPath fd = some path := by
  rw [Client.hvacGetPath_eq]
  exact OrdMap.find?_insert_self ..

theorem ringHost_track (c : Client) (fd : Int) (path path' : String) :
    (c.track fd path).ringHost env path' = c.ringHost env path' := rfl

theorem reachedLimit_track (c : Client) (fd : Int) (path : String) (host : Int) :
    (c.track fd path).reachedLimit host = c.reachedLimit host := rfl

theorem pread_leaves (c : Client) (fd : Int) (path : String) (count : Nat) (offset : Int)
    (answer : Int → Request → Option Reply) :
    FailoverLeaves env c
      (hvacRemotePread env answer (c.track fd path) fd count offset).state
      (c.removes env path) := by
  simp only [hvacRemotePread, hvacGetPath_track, ringHost_track, reachedLimit_track,
    Client.removes]
  rcases hhost : c.ringHost env path with what | ⟨hostname, host⟩
  · exact .kept _ _
  · rcases hlimit : c.reachedLimit host with _ | _
    · simp only [hlimit, Bool.false_eq_true, if_false, Client.genReadRpc, finishRead]
      split
      · split
        · exact .kept _ _
        · exact .kept _ _
      · exact .kept _ _
    · simp only [hlimit, if_true]
      exact .removed _ _ hhost hlimit

theorem close_leaves (c : Client) (fd : Int) (path : String) :
    FailoverLeaves env c (hvacRemoveFd env (c.track fd path) fd).state (c.removes env path) := by
  have hnonempty : (c.track fd path).fdMap.isEmpty = false :=
    OrdMap.isEmpty_eq_false (OrdMap.find?_insert_self c.fdMap fd path)
  simp only [hvacRemoveFd, hnonempty, Bool.false_eq_true, if_false, hvacRemoteClose,
    hvacGetPath_track, ringHost_track, reachedLimit_track, Client.removes]
  rcases hhost : c.ringHost env path with what | ⟨hostname, host⟩
  · exact .kept _ _
  · rcases hlimit : c.reachedLimit host with _ | _
    · simp only [hlimit, Bool.false_eq_true, if_false, Client.genCloseRpc]
      exact .kept _ _
    · simp only [hlimit, if_true]
      exact .removed _ _ hhost hlimit

theorem failoverMachine_leaves {c c' : Client} {ev : FailoverEvent} {node : Option String}
    (hstep : (failoverMachine env).step c ev = some (c', node)) :
    FailoverLeaves env c c' node := by
  cases ev with
  | timeout host =>
    simp only [failoverMachine, Option.ite_none_right_eq_some, Option.some.injEq,
      Prod.mk.injEq] at hstep
    obtain ⟨-, rfl, rfl⟩ := hstep
    exact .timeout host
  | pread fd path count offset answer =>
    obtain ⟨rfl, rfl⟩ := Prod.mk.inj (Option.some.inj hstep)
    exact pread_leaves c fd path count offset _
  | close fd path =>
    obtain ⟨rfl, rfl⟩ := Prod.mk.inj (Option.some.inj hstep)
    exact close_leaves c fd path

/-! ### Ring, flags, counters and history -/

/-- Ring, flags and counters are those of a client that called `RemoveNode` on the
    nodes of `removed`. -/
structure RemovalInv (env : Env) (N V : Nat) (c : Client) (removed : List String) : Prop where
  inv : FailoverInv env N c
  up : c.gMercuryInit = true
  ring : c.hashRing = removeNodes env.hash (initRing env.hash N V) removed
  once : removed.Nodup
  servers : ∀ node ∈ removed, ∃ i, i < N ∧ node = serverName (i + 1)
  flags : ∀ i, c.failureFlags.getD i false = true ↔ serverName (i + 1) ∈ removed

/-- What the failover code promises of every state. -/
structure FailoverState (env : Env) (N : Nat) (c : Client) (removed : List String) : Prop where
  points : ∀ k node, c.hashRing.ring.find? k = some node → ∃ j, 1 ≤ j ∧ j ≤ N ∧ node = serverName j
  flags : ∀ i, i < N → (c.failureFlags[i]? = some true ↔ serverName (i + 1) ∈ removed)
  once : removed.Nodup
  servers : ∀ node ∈ removed, ∃ i, i < N ∧ node = serverName (i + 1) ∧
    TIMEOUT_LIMIT ≤ c.timeoutCounters.getD i 0
  unowned : ∀ i, c.failureFlags[i]? = some true →
    ∀ k, c.hashRing.ring.find? k ≠ some (serverName (i + 1))
  routed : ∀ path node : String, c.hashRing.getNode env.hash path = some node →
    ∃ i : Nat, HashRing.convertHostToNumber node = some (i : Int) ∧
      i < c.timeoutCounters.length ∧ i < c.failureFlags.length ∧ c.failureFlags[i]? = some false

/-- `RemoveNode` is called on a server that is at its limit and was not removed. -/
def RemovesAtLimit (N : Nat) (c : Client) (removed : List String) (node : Option String) : Prop :=
  ∀ hostname, node = some hostname → ∃ i, i < N ∧ hostname = serverName (i + 1) ∧
    TIMEOUT_LIMIT ≤ c.timeoutCounters.getD i 0 ∧ hostname ∉ removed

section History

variable {N V : Nat} {c : Client} {removed : List String}

theorem removalInv_start (env : Env) (N V : Nat) :
    RemovalInv env N V (failoverStart env N V) [] := by
  have hflags : ∀ i, (failoverStart env N V).failureFlags.getD i false = false := by
    intro i
    simp only [failoverStart, initializeHashRing, resize, List.nil_append, List.length_nil,
      Nat.sub_zero, List.take_replicate, Nat.min_self]
    rw [List.getD_eq_getElem?_getD, List.getElem?_replicate]
    split <;> rfl
  have hcounters := length_resize ([] : List Nat) N 0
  have hlength := length_resize ([] : List Bool) N false
  refine ⟨⟨rfl, hcounters.le, hlength.le, fun _ => ⟨hcounters, hlength⟩,
    ringInv_initRing env.hash N V, ?_, ?_⟩, rfl, rfl, List.nodup_nil, ?_, fun i => ?_⟩
  · intro i hi
    rw [hflags] at hi
    cases hi
  · intro hdown
    cases hdown
  · intro node hnode
    cases hnode
  · simp only [hflags, Bool.false_eq_true, List.not_mem_nil]

theorem RemovalInv.setMaps (h : RemovalInv env N V c removed) (m : OrdMap Int String)
    (r : OrdMap Int Int) : RemovalInv env N V { c with fdMap := m, fdRedirMap := r } removed where
  inv := {
    count := h.inv.count
    counters := h.inv.counters
    flags := h.inv.flags
    sized := h.inv.sized
    ring := h.inv.ring
    flagged := h.inv.flagged
    fresh := fun hdown => by
      have hup := h.up
      rw [hdown] at hup
      cases hup }
  up := h.up
  ring := h.ring
  once := h.once
  servers := h.servers
  flags := h.flags

theorem RemovalInv.recordTimeout (h : RemovalInv env N V c removed) (host : Int) :
    RemovalInv env N V (c.recordTimeout host) removed where
  inv := h.inv.recordTimeout host
  up := h.up
  ring := h.ring
  once := h.once
  servers := h.servers
  flags := h.flags

/-- A server with its flag down, which the ring chose, has reached its limit. -/
theorem RemovalInv.removesAtLimit (hN : N < 2 ^ 31) (h : RemovalInv env N V c removed)
    {path hostname : String} {host : Int} (hhost : c.ringHost env path = .ok (hostname, host))
    (hlimit : c.reachedLimit host = true) : RemovesAtLimit N c removed (some hostname) := by
  obtain ⟨-, i, hi, rfl, rfl⟩ := h.inv.ringHost_ok hN hhost
  simp only [Client.reachedLimit, Bool.and_eq_true, decide_eq_true_eq, Int.toNat_natCast,
    Bool.not_eq_true'] at hlimit
  intro name hname
  cases hname
  refine ⟨i, hi, rfl, hlimit.1, fun hmem => ?_⟩
  rw [(h.flags i).mpr hmem] at hlimit
  cases hlimit.2

theorem RemovalInv.declareFailed (hN : N < 2 ^ 31) (h : RemovalInv env N V c removed)
    {path hostname : String} {host : Int} (hhost : c.ringHost env path = .ok (hostname, host))
    (hlimit : c.reachedLimit host = true) :
    RemovalInv env N V (c.declareFailed env hostname host) (removed ++ [hostname]) := by
  obtain ⟨-, -, -, -, hnew⟩ := h.removesAtLimit hN hhost hlimit hostname rfl
  have htracked : (c.track 0 path).fdMap.find? 0 = some path := OrdMap.find?_insert_self ..
  have hinv : FailoverInv env N (c.track 0 path) :=
    (h.setMaps (c.fdMap.insert 0 path) c.fdRedirMap).inv
  have hafter : FailoverInv env N ((c.track 0 path).declareFailed env hostname host) :=
    hinv.declareFailed hN htracked hhost hlimit
  obtain ⟨-, i, hi, rfl, rfl⟩ := h.inv.ringHost_ok hN hhost
  refine ⟨⟨hafter.count, hafter.counters, hafter.flags, hafter.sized, hafter.ring, hafter.flagged,
    ?_⟩, h.up, ?_, ?_, ?_, ?_⟩
  · intro hdown
    have hup : c.gMercuryInit = false := hdown
    rw [h.up] at hup
    cases hup
  · rw [removeNodes_append, ← h.ring]
    rfl
  · exact List.nodup_append.mpr ⟨h.once, List.nodup_singleton _, fun a ha b hb => by
      rw [List.mem_singleton.mp hb]
      rintro rfl
      exact hnew ha⟩
  · intro node hnode
    rcases List.mem_append.mp hnode with hnode | hnode
    · exact h.servers node hnode
    · exact ⟨i, hi, List.mem_singleton.mp hnode⟩
  · intro j
    simp only [Client.declareFailed, Int.toNat_natCast, List.getD_eq_getElem?_getD,
      List.getElem?_set, List.mem_append, List.mem_singleton, serverName_inj]
    by_cases hij : i = j
    · subst hij
      have hlen : i < c.failureFlags.length := by rw [(h.inv.sized h.up).2]; exact hi
      simp [hlen]
    · rw [if_neg hij, ← List.getD_eq_getElem?_getD, h.flags j]
      simp [Ne.symm hij]

theorem removesAtLimit_none (N : Nat) (c : Client) (removed : List String) :
    RemovesAtLimit N c removed none := by
  intro hostname hnone
  cases hnone

theorem RemovalInv.step (hN : N < 2 ^ 31) (h : RemovalInv env N V c removed) {c' : Client}
    {node : Option String} (hleaves : FailoverLeaves env c c' node) :
    RemovesAtLimit N c removed node ∧ RemovalInv env N V c' (removed ++ node.toList) := by
  cases hleaves with
  | timeout host =>
    rw [Option.toList_none, List.append_nil]
    exact ⟨removesAtLimit_none N c removed, h.recordTimeout host⟩
  | kept m r =>
    rw [Option.toList_none, List.append_nil]
    exact ⟨removesAtLimit_none N c removed, h.setMaps m r⟩
  | removed m r hhost hlimit =>
    refine ⟨h.removesAtLimit hN hhost hlimit, ?_⟩
    exact (h.declareFailed hN hhost hlimit).setMaps m r

theorem flag_eq_iff (l : List Bool) (i : Nat) : l[i]? = some true ↔ l.getD i false = true := by
  rw [List.getD_eq_getElem?_getD]
  rcases l[i]? with _ | b
  · simp
  · simp

theorem RemovalInv.failoverState (hN : N < 2 ^ 31) (h : RemovalInv env N V c removed) :
    FailoverState env N c removed where
  points := h.inv.ring.server
  flags i _ := by rw [flag_eq_iff, h.flags]
  once := h.once
  servers node hnode := by
    obtain ⟨i, hi, rfl⟩ := h.servers node hnode
    exact ⟨i, hi, rfl, (h.inv.flagged i ((h.flags i).mpr hnode)).1⟩
  unowned i hi := (h.inv.flagged i ((flag_eq_iff _ i).mp hi)).2
  routed path node hnode := by
    obtain ⟨i, hi, rfl, hconvert⟩ := h.inv.ring.exists_host hN hnode
    have hlen : i < c.failureFlags.length := by rw [(h.inv.sized h.up).2]; exact hi
    refine ⟨i, hconvert, by rw [(h.inv.sized h.up).1]; exact hi, hlen, ?_⟩
    rw [List.getElem?_eq_getElem hlen, Option.some.injEq, ← Bool.not_eq_true]
    intro hset
    -- a flagged server owns no point, and this one owns the point of the path
    obtain ⟨k, hk⟩ := HashRing.exists_point_of_getNode hnode
    refine (h.inv.flagged i ?_).2 k hk
    rw [← flag_eq_iff, List.getElem?_eq_getElem hlen, hset]

/-- The failover code with the list of nodes it called `RemoveNode` on. -/
def removalMachine (env : Env) :
    Machine (Client × List String) FailoverEvent (Option String) :=
  (failoverMachine env).withHistory fun removed _ node => removed ++ node.toList

theorem removalMachine_step (hN : N < 2 ^ 31) {x x' : Client × List String} {ev : FailoverEvent}
    {node : Option String} (h : RemovalInv env N V x.1 x.2)
    (hstep : (removalMachine env).step x ev = some (x', node)) :
    RemovesAtLimit N x.1 x.2 node ∧ RemovalInv env N V x'.1 x'.2 := by
  obtain ⟨hclient, hhistory⟩ := Machine.withHistory_step_eq_some_iff.mp hstep
  rw [hhistory]
  exact h.step hN (failoverMachine_leaves hclient)

/-- Two clients whose runs removed the same servers have the same ring. -/
theorem removalMachine_agree (hN : N < 2 ^ 31) {events events' : List FailoverEvent}
    {x x' : Client × List String} {out out' : List (Option String)}
    (hrun : (removalMachine env).run (failoverStart env N V, []) events = some (x, out))
    (hrun' : (removalMachine env).run (failoverStart env N V, []) events' = some (x', out'))
    (hsame : ∀ node, node ∈ x.2 ↔ node ∈ x'.2) : x.1.hashRing = x'.1.hashRing := by
  have hinv : ∀ {is : List FailoverEvent} {t : Client × List String} {os : List (Option String)},
      (removalMachine env).run (failoverStart env N V, []) is = some (t, os) →
      RemovalInv env N V t.1 t.2 :=
    Machine.run_of_step (I := fun x => RemovalInv env N V x.1 x.2)
      (fun _ _ _ _ h hstep => (removalMachine_step hN h hstep).2) (removalInv_start env N V)
  rw [(hinv hrun).ring, (hinv hrun').ring]
  exact removeNodes_congr _ hsame

/-- **In every state of every run the ring, the flags and the counters agree**, and
    the ring leads to a server that was not given up. -/
theorem failoverState_run (hN : 1 ≤ N ∧ N < 2 ^ 31 - 1) (env : Env) (V : Nat)
    (events : List FailoverEvent) :
    FailoverState env N (failoverStart env N V) [] ∧
    (removalMachine env).Along
      (fun x _ x' node => RemovesAtLimit N x.1 x.2 node ∧ FailoverState env N x'.1 x'.2)
      (failoverStart env N V, []) events := by
  have hN' : N < 2 ^ 31 := by omega
  refine ⟨(removalInv_start env N V).failoverState hN', ?_⟩
  refine Machine.along_of_step (I := fun x => RemovalInv env N V x.1 x.2) ?_
    (removalInv_start env N V)
  intro x ev x' node h hstep
  obtain ⟨hlimit, h'⟩ := removalMachine_step hN' h hstep
  exact ⟨⟨hlimit, h'.failoverState hN'⟩, h'⟩

/-- Three timeouts of the only server, a `pread` and a `close`. -/
theorem failoverState_run_one :
    FailoverState zeroHashEnv 1 (failoverStart zeroHashEnv 1 2) [] ∧
    (removalMachine zeroHashEnv).Along
      (fun x _ x' node => RemovesAtLimit 1 x.1 x.2 node ∧ FailoverState zeroHashEnv 1 x'.1 x'.2)
      (failoverStart zeroHashEnv 1 2, [])
      [.timeout 0, .timeout 0, .timeout 0, .pread 3 "/data/a" 1 0 none, .close 3 "/data/a"] :=
  failoverState_run (by decide) zeroHashEnv 2 _

end History

end Hvac
