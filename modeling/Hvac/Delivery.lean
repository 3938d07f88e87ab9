/-
  Hvac/Delivery.lean
  ==================
  **From a path to an address.**

  Every request begins with a lookup (`hvac_client_comm_gen_open_rpc` and its
  siblings): the number that the hash or the ring has chosen becomes an address from
  the file the servers post theirs to.  Hash and ring choose a number below the
  server count (`Call.route_lt`), and a number that has posted resolves to its own
  line, so once every server has posted each request goes to the address of the
  server that was chosen, as long as that address is in the cache or the process has a
  stream left to scan the file with (`requests_delivered`).

  The source expects the servers to be started in advance of the clients: a lookup of
  a number that has not posted returns an address nobody has set.
-/
import Hvac.ClientRun
import Hvac.Addresses

namespace Hvac

open Cxx Posix

/-! ### A client and the address file -/

structure Wired where
  process : Process
  addrs : AddrState

inductive WiredLabel where
  | client (ev : ClientEvent)
  | listAddr (rank : Int) (addr : List Char)
deriving DecidableEq

/-- The lookups before the requests of one call. -/
def lookupsFor (sent : List (Int × Request)) : List AddrLabel :=
  sent.map fun x => .lookup x.1

/-- A step of the client is observed by its requests and what their lookups gave. -/
def wiredMachine (env : Env) :
    Machine Wired WiredLabel (List ((Int × Request) × Option Resolved)) where
  step s
    | .client ev =>
        match (clientMachine env).step s.process ev with
        | none => none
        | some (process, sent) =>
            match addrMachine.run s.addrs (lookupsFor sent) with
            | none => none
            | some (addrs, found) => some (⟨process, addrs⟩, sent.zip found)
    | .listAddr rank addr =>
        match addrMachine.step s.addrs (.listAddr rank addr) with
        | none => none
        | some (addrs, _) => some ({ s with addrs := addrs }, [])

def wiredStart (env : Env) (N streams : Nat) : Wired :=
  ⟨clientStart env N, AddrState.start streams⟩

/-- The lines that were posted, in their order. -/
def postedIn (labels : List WiredLabel) : List (Int × List Char) :=
  labels.filterMap fun l =>
    match l with
    | .listAddr rank addr => some (rank, addr)
    | .client _ => none

/-- Every server has posted. -/
def AllPosted (N : Nat) (posts : List (Int × List Char)) : Prop :=
  ∀ i < N, ∃ addr, ((i : Int), addr) ∈ posts

/-! ### The number -/

section Route

variable {env : Env} {N : Nat} {c : Client}

theorem Client.hashHost_lt (hN : 1 ≤ N) (hcount : c.gHvacServerCount = N) (path : String) :
    ∃ i < N, c.hashHost env path = (i : Int) := by
  refine ⟨(env.hash path).val % N, Nat.mod_lt _ hN, ?_⟩
  rw [Client.hashHost, hcount]

theorem FailoverInv.ringRoute_lt (hN : N < 2 ^ 31) (h : FailoverInv env N c) {limit : Bool}
    {fd host : Int} (hroute : c.ringRoute env limit fd = some host) :
    ∃ i < N, host = (i : Int) := by
  unfold Client.ringRoute at hroute
  rcases hfd : c.fdMap.find? fd with _ | path
  · rw [hfd] at hroute
    cases hroute
  · rcases hhost : c.ringHost env path with what | ⟨hostname, host'⟩
    · simp only [hfd, hhost] at hroute
      cases hroute
    · simp only [hfd, hhost, Option.ite_none_left_eq_some, Option.some.injEq] at hroute
      obtain ⟨-, rfl⟩ := hroute
      obtain ⟨-, i, hi, -, heq⟩ := h.ringHost_ok hN hhost
      exact ⟨i, hi, heq⟩

/-- A request is for one of the servers, in every state the failover code leaves. -/
theorem Call.route_lt (hN : 1 ≤ N ∧ N < 2 ^ 31) (h : FailoverInv env N c) {call : Call}
    {host : Int} (hroute : call.route env c = some host) : ∃ i < N, host = (i : Int) := by
  cases call with
  | openFile path flags fd =>
    obtain ⟨file, -, rfl⟩ := Option.map_eq_some_iff.mp hroute
    exact Client.hashHost_lt hN.1 h.count file
  | read fd count =>
    obtain ⟨path, -, rfl⟩ := Option.map_eq_some_iff.mp hroute
    exact Client.hashHost_lt hN.1 h.count path
  | pread fd count offset => exact h.ringRoute_lt hN.2 hroute
  | lseek fd offset whence => exact h.ringRoute_lt hN.2 hroute
  | close fd => exact h.ringRoute_lt hN.2 hroute

/-- A step sends one request at most. -/
theorem length_sent_le_one {p p' : Process} {ev : ClientEvent} {sent : List (Int × Request)}
    (hstep : (clientMachine env).step p ev = some (p', sent)) : sent.length ≤ 1 := by
  obtain ⟨-, ⟨call, answer, rfl, rfl, rfl⟩ | ⟨host, rfl, rfl, rfl⟩⟩ :=
    clientMachine_step_eq_some env hstep
  · rw [← List.length_map (f := Prod.fst), perform_sent]
    exact Option.length_toList_le
  · exact Nat.zero_le 1

theorem sent_lt (hN : 1 ≤ N ∧ N < 2 ^ 31) {p p' : Process} {ev : ClientEvent}
    {sent : List (Int × Request)} (h : FailoverInv env N p.client)
    (hstep : (clientMachine env).step p ev = some (p', sent)) {x : Int × Request} (hx : x ∈ sent) :
    ∃ i < N, x.1 = (i : Int) := by
  obtain ⟨-, ⟨call, answer, rfl, rfl, rfl⟩ | ⟨host, rfl, rfl, rfl⟩⟩ :=
    clientMachine_step_eq_some env hstep
  · exact Call.route_lt hN h (mem_sent_route hx)
  · cases hx

end Route

/-! ### The address -/

section Address

variable {posts : List (Int × List Char)} {s : AddrState}

theorem postsOf_lookupsFor (sent : List (Int × Request)) : postsOf (lookupsFor sent) = [] := by
  apply postsOf_eq_nil
  intro l hl
  obtain ⟨x, -, rfl⟩ := List.mem_map.mp hl
  rfl

/-- The number of the one request of a call resolves to its own line, once it has
    posted. -/
theorem AddrInv.lookups (h : AddrInv posts s) (hposts : PostsOk posts)
    {sent : List (Int × Request)} (hone : sent.length ≤ 1)
    (hsent : ∀ x ∈ sent, s.CanResolve x.1 ∧ ∃ addr, (x.1, addr) ∈ posts) :
    ∃ t found, addrMachine.run s (lookupsFor sent) = some (t, found) ∧
      found.length = sent.length ∧
      ∀ x ∈ sent.zip found, ∃ addr,
        x.2.bind Resolved.addr? = some addr ∧ (x.1.1, addr) ∈ posts := by
  match sent, hone with
  | [], _ => exact ⟨s, [], rfl, rfl, fun x hx => absurd hx List.not_mem_nil⟩
  | [x], _ =>
    obtain ⟨hcan, addr, hmem⟩ := hsent x List.mem_cons_self
    obtain ⟨t, o, hstep, haddr, -⟩ := h.step_lookup hposts hmem hcan
    refine ⟨t, [some o], Machine.run_cons_eq_some_iff.mpr ⟨_, _, _, hstep, rfl, rfl⟩, rfl, ?_⟩
    intro y hy
    rw [List.zip_cons_cons, List.zip_nil_right, List.mem_singleton] at hy
    subst hy
    exact ⟨addr, haddr, hmem⟩

end Address

/-! ### Runs -/

section Runs

variable {env : Env} {N : Nat} {s t : Wired} {labels : List WiredLabel}
  {outs : List (List ((Int × Request) × Option Resolved))} {posts : List (Int × List Char)}

/-- The ring and the file are in the state their own runs leave. -/
structure WiredInv (env : Env) (N : Nat) (posts : List (Int × List Char)) (s : Wired) : Prop where
  failover : FailoverInv env N s.process.client
  addrs : AddrInv posts s.addrs

theorem WiredInv.run (hN : N < 2 ^ 31) (h : WiredInv env N posts s)
    (hposts : PostsOk (posts ++ postedIn labels))
    (hrun : (wiredMachine env).run s labels = some (t, outs)) :
    WiredInv env N (posts ++ postedIn labels) t := by
  induction labels generalizing posts s outs with
  | nil =>
    cases hrun
    rwa [postedIn, List.filterMap_nil, List.append_nil]
  | cons l labels ih =>
    obtain ⟨s', o, outs', hstep, hrest, rfl⟩ := Machine.run_cons_eq_some_iff.mp hrun
    cases l with
    | listAddr rank addr =>
      have hsplit : posts ++ postedIn (.listAddr rank addr :: labels) =
          (posts ++ [(rank, addr)]) ++ postedIn labels := by
        rw [List.append_assoc]
        rfl
      rw [hsplit] at hposts ⊢
      cases hstep
      refine ih ?_ hposts hrest
      exact ⟨h.failover, h.addrs.listAddr rank addr⟩
    | client ev =>
      simp only [wiredMachine] at hstep
      rcases hclient : (clientMachine env).step s.process ev with _ | ⟨process, sent⟩
      · rw [hclient] at hstep
        cases hstep
      · rcases hlookups : addrMachine.run s.addrs (lookupsFor sent) with _ | ⟨addrs, found⟩
        · simp only [hclient, hlookups] at hstep
          cases hstep
        · simp only [hclient, hlookups, Option.some.injEq, Prod.mk.injEq] at hstep
          obtain ⟨rfl, -⟩ := hstep
          have hposts' : PostsOk (posts ++ postsOf (lookupsFor sent)) := by
            rw [postsOf_lookupsFor, List.append_nil]
            exact hposts.of_append
          have haddrs := h.addrs.run hposts' hlookups
          rw [postsOf_lookupsFor, List.append_nil] at haddrs
          exact ih ⟨step_failoverInv hN h.failover hclient, haddrs⟩ hposts hrest

theorem wiredInv_start (env : Env) (N streams : Nat) :
    WiredInv env N [] (wiredStart env N streams) where
  failover := failoverInv_init env N
  addrs := addrInv_start streams

/-- **Every request reaches the server that was chosen for it.**  After any run of the
    client, with any answers and timeouts and between the appends of the servers in any
    order, once every server has posted its line no call is kept from sending whose
    server is in the cache or can be scanned for, and its request goes to the address
    that the server of its number has posted. -/
theorem requests_delivered {streams : Nat} (hN : 1 ≤ N ∧ N < 2 ^ 31)
    (hposts : PostsOk (postedIn labels)) (hall : AllPosted N (postedIn labels))
    (hrun : (wiredMachine env).run (wiredStart env N streams) labels = some (t, outs))
    {ev : ClientEvent} {process : Process} {sent : List (Int × Request)}
    (hclient : (clientMachine env).step t.process ev = some (process, sent))
    (hcan : ∀ x ∈ sent, t.addrs.CanResolve x.1) :
    ∃ t' out, (wiredMachine env).step t (.client ev) = some (t', out) ∧ t'.process = process ∧
      out.map Prod.fst = sent ∧
      ∀ x ∈ out, (∃ i < N, x.1.1 = (i : Int)) ∧
        ∃ addr, x.2.bind Resolved.addr? = some addr ∧ (x.1.1, addr) ∈ postedIn labels := by
  have hinv := (wiredInv_start env N streams).run hN.2 hposts hrun
  have hsent : ∀ x ∈ sent, t.addrs.CanResolve x.1 ∧ ∃ addr, (x.1, addr) ∈ postedIn labels := by
    intro x hx
    refine ⟨hcan x hx, ?_⟩
    obtain ⟨i, hi, heq⟩ := sent_lt hN hinv.failover hclient hx
    rw [heq]
    exact hall i hi
  obtain ⟨addrs, found, hlookups, hlength, hfound⟩ :=
    hinv.addrs.lookups hposts (length_sent_le_one hclient) hsent
  refine ⟨⟨process, addrs⟩, sent.zip found, ?_, rfl, List.map_fst_zip hlength.ge, ?_⟩
  · simp only [wiredMachine, hclient]
    exact hlookups ▸ rfl
  · intro x hx
    exact ⟨sent_lt hN hinv.failover hclient (List.of_mem_zip hx).1, hfound x hx⟩

/-- Two servers post, the second one first. -/
def postTwo : List WiredLabel :=
  [.listAddr 1 "10.0.0.1:42".toList, .listAddr 0 "na+tcp://b:1".toList]

theorem postsOk_postTwo : PostsOk (postedIn postTwo) where
  distinct := by decide
  each post hmem := by
    have hcases : post = (1, "10.0.0.1:42".toList) ∨ post = (0, "na+tcp://b:1".toList) := by
      simpa only [postedIn, postTwo, List.filterMap_cons, List.filterMap_nil, List.mem_cons,
        List.not_mem_nil, or_false] using hmem
    rcases hcases with rfl | rfl
    · exact ⟨by decide, by decide, by simp [isSpace], by simp [PATH_MAX]⟩
    · exact ⟨by decide, by decide, by simp [isSpace], by simp [PATH_MAX]⟩

theorem allPosted_postTwo : AllPosted 2 (postedIn postTwo) := by
  intro i hi
  interval_cases i
  · exact ⟨_, List.mem_cons_of_mem _ List.mem_cons_self⟩
  · exact ⟨_, List.mem_cons_self⟩

/-- The client opens a file after them. -/
def openFirst : ClientEvent := .call (.openFile "/data/a" O_RDONLY 3) (some ⟨5, []⟩)

theorem requests_delivered_open :
    ∃ t outs process sent,
      (wiredMachine zeroHashEnv).run (wiredStart zeroHashEnv 2 1) postTwo = some (t, outs) ∧
      (clientMachine zeroHashEnv).step t.process openFirst = some (process, sent) ∧
      ∃ t' out, (wiredMachine zeroHashEnv).step t (.client openFirst) = some (t', out) ∧
        t'.process = process ∧ out.map Prod.fst = sent ∧
        ∀ x ∈ out, (∃ i < (2 : Nat), x.1.1 = (i : Int)) ∧
          ∃ addr, x.2.bind Resolved.addr? = some addr ∧ (x.1.1, addr) ∈ postedIn postTwo := by
  obtain ⟨⟨t, outs⟩, hrun⟩ := Option.isSome_iff_exists.mp (show
    ((wiredMachine zeroHashEnv).run (wiredStart zeroHashEnv 2 1) postTwo).isSome = true from rfl)
  have hprocess : ((wiredMachine zeroHashEnv).run (wiredStart zeroHashEnv 2 1) postTwo).map
      (fun r => (r.1.process, r.1.addrs.freeStreams)) = some (clientStart zeroHashEnv 2, 1) := rfl
  rw [hrun, Option.map_some, Option.some.injEq, Prod.mk.injEq] at hprocess
  obtain ⟨hprocess, hfree⟩ := hprocess
  have hclient : ((clientMachine zeroHashEnv).step t.process openFirst).isSome = true := by
    rw [hprocess]
    rfl
  obtain ⟨⟨process, sent⟩, hclient⟩ := Option.isSome_iff_exists.mp hclient
  have hcan : ∀ x ∈ sent, t.addrs.CanResolve x.1 := by
    intro x hx
    refine Or.inr ?_
    rw [hfree]
    exact Nat.one_pos
  exact ⟨t, outs, process, sent, hrun, hclient,
    requests_delivered (by decide) postsOk_postTwo allPosted_postTwo hrun hclient hcan⟩

end Runs

end Hvac
