/-
  Hvac/Client.lean
  ================
  **The client side of one intercepted call** (`hvac_client.cpp` and the request
  builders and waits of `hvac_comm_client.cpp`).

  A call reads and writes the client's tables, sends at most one request, and
  waits for its answer.  What the network answers is a parameter
  (`answer host request`, `none` when no answer comes: the open's timed wait
  then ends the process, the other waits have no timeout), so the same
  definitions run against a scripted network and against the model of the
  server.  An `Effect` collects the tables the call leaves, the requests it sent
  and how it ended.

  Logging, the resolution of a server number to an address and the Mercury
  handles leave no trace in these tables and are not modelled; neither is a
  callback with a Mercury error, which the code asserts away.  The server count
  is an `int` where the ring is built, so it is below `2 ^ 31` throughout.
-/
import Hvac.RingDisruption
import Hvac.Library.Posix

namespace Hvac

open Cxx Posix

def TIMEOUT_LIMIT : Nat := 3

/-! ### Requests and answers -/

/-- The inputs of the four RPCs (`hvac_comm.h`), without the bulk handle and the
    rank that only the log reads. -/
inductive Request where
  | openIn (path : String) (localfd : Int)
  | rpcIn (inputVal accessfd localfd offset : Int)
  | seekIn (fd offset whence : Int)
  | closeIn (fd : Int)
deriving DecidableEq, Repr

/-- The one number every response carries (`ret_status`, `ret`), and the bytes a
    bulk push left in the caller's buffer. -/
structure Reply where
  ret : Int
  data : Contents
deriving DecidableEq, Repr

/-- How a call ends. -/
inductive Outcome (α : Type) where
  | returned (a : α)
  | blocked
  | exited (code : Int)
  | threw (what : String)
deriving DecidableEq, Repr

/-- What a call did: the state it leaves, the requests it sent (server number and
    input) and its outcome. -/
structure Effect (σ α : Type) where
  state : σ
  sent : List (Int × Request)
  outcome : Outcome α

/-! ### The client's tables -/

structure Client where
  fdMap : OrdMap Int String
  fdRedirMap : OrdMap Int Int
  hashRing : HashRing String
  timeoutCounters : List Nat
  failureFlags : List Bool
  gHvacServerCount : Nat
  gMercuryInit : Bool
deriving DecidableEq

/-- The environment of the process: `std::hash<std::string>`,
    `std::filesystem::canonical` (`none` where it throws), `HVAC_DATA_DIR` and the
    working directory. -/
structure Env where
  hash : String → SizeT
  canonical : String → Option String
  hvacDataDir : Option String
  currentPath : String

/-- `std::vector::resize`. -/
def resize {α : Type} (l : List α) (n : Nat) (a : α) : List α :=
  (l ++ List.replicate (n - l.length) a).take n

variable (env : Env)

/-- `initialize_hash_ring`. -/
def initializeHashRing (c : Client) (serverCount vnodes : Nat) : Client :=
  { c with
    hashRing := initRing env.hash serverCount vnodes
    timeoutCounters := resize c.timeoutCounters serverCount 0
    failureFlags := resize c.failureFlags serverCount false }

/-- The client when `main` starts.  `hvac_client_init` has built the ring; the two
    vectors were constructed after it, and are empty again. -/
def hvacClientInit (serverCount : Nat) : Client :=
  { initializeHashRing env
      { fdMap := OrdMap.empty, fdRedirMap := OrdMap.empty, hashRing := ⟨OrdMap.empty, 0⟩,
        timeoutCounters := [], failureFlags := [], gHvacServerCount := serverCount,
        gMercuryInit := false }
      serverCount VIRTUAL_NODE_CNT with
    timeoutCounters := [], failureFlags := [] }

namespace Client

variable (c : Client)

def hvacFileTracked (fd : Int) : Bool :=
  if c.fdMap.isEmpty then false else (c.fdMap.find? fd).isSome

def hvacGetPath (fd : Int) : Option String :=
  if c.fdMap.isEmpty then none else c.fdMap.find? fd

/-- The counter of a wait on `host` that timed out. -/
def recordTimeout (host : Int) : Client :=
  { c with timeoutCounters := c.timeoutCounters.modify host.toNat (· + 1) }

/-- `timeout_counters[host] >= TIMEOUT_LIMIT && !failure_flags[host]`. -/
def reachedLimit (host : Int) : Bool :=
  decide (TIMEOUT_LIMIT ≤ c.timeoutCounters.getD host.toNat 0) &&
    !c.failureFlags.getD host.toNat false

/-- `hashRing->RemoveNode(hostname); failure_flags[host] = true;` -/
def declareFailed (hostname : String) (host : Int) : Client :=
  { c with
    hashRing := c.hashRing.removeNode env.hash hostname
    failureFlags := c.failureFlags.set host.toNat true }

/-- The set-up `hvac_track_file` performs on the first tracked open: Mercury and,
    once more, the ring. -/
def initMercury : Client :=
  if c.gMercuryInit then c
  else initializeHashRing env { c with gMercuryInit := true } c.gHvacServerCount VIRTUAL_NODE_CNT

/-! ### Choosing a server -/

/-- `std::hash<std::string>{}(path) % g_hvac_server_count`, the server `open` and
    `read` go to. -/
def hashHost (path : String) : Int :=
  ((env.hash path).val % c.gHvacServerCount : Nat)

/-- `GetNode` and `ConvertHostToNumber`, the server `pread`, `lseek` and `close` go
    to; the message of the exception where one is thrown. -/
def ringHost (path : String) : Except String (String × Int) :=
  match c.hashRing.getNode env.hash path with
  | none => .error "Empty ring"
  | some hostname =>
      match HashRing.convertHostToNumber hostname with
      | none => .error "Invalid node name format"
      | some host => .ok (hostname, host)

/-! ### Building a request

`fd_redir_map[fd]` stores a zero when the descriptor has no entry. -/

/-- `hvac_client_comm_gen_read_rpc`: the count travels as a signed 32-bit integer. -/
def genReadRpc (fd : Int) (count : Nat) (offset : Int) : Client × Request :=
  let (accessfd, redir) := c.fdRedirMap.index fd 0
  ({ c with fdRedirMap := redir }, .rpcIn (int32 count) accessfd fd offset)

/-- `hvac_client_comm_gen_seek_rpc`. -/
def genSeekRpc (fd offset whence : Int) : Client × Request :=
  let (accessfd, redir) := c.fdRedirMap.index fd 0
  ({ c with fdRedirMap := redir }, .seekIn accessfd offset whence)

/-- `hvac_client_comm_gen_close_rpc`, which forgets the remote descriptor. -/
def genCloseRpc (fd : Int) : Client × Request :=
  let (accessfd, redir) := c.fdRedirMap.index fd 0
  ({ c with fdRedirMap := redir.erase fd }, .closeIn accessfd)

end Client

/-! ### `hvac_track_file` -/

/-- The path `hvac_track_file` enters into `fd_map`, when it tracks the file. -/
def trackPath (path : String) (flags : OFlags) : Option String :=
  if find path ".ports.cfg." then none
  else if flags &&& O_ACCMODE = O_WRONLY then none
  else if flags &&& O_APPEND ≠ 0#32 then none
  else
    -- an exception of `canonical` ends in `catch (...)` and the file is not tracked
    match env.canonical path with
    | none => none
    | some canonicalPath =>
        let ppath := parentPath canonicalPath
        match env.hvacDataDir with
        | some dir =>
            match env.canonical dir with
            | none => none
            | some test => if find ppath test then some canonicalPath else none
        | none => if ppath = env.currentPath then some canonicalPath else none

variable (answer : Int → Request → Option Reply)

/-- `hvac_track_file`: enter the descriptor, send the open and wait for its answer
    at most `TIMEOUT_SECONDS`. -/
def hvacTrackFile (c : Client) (path : String) (flags : OFlags) (fd : Int) :
    Effect Client Bool :=
  match trackPath env path flags with
  | none => ⟨c, [], .returned false⟩
  | some canonicalPath =>
      let c := ({ c with fdMap := c.fdMap.insert fd canonicalPath }).initMercury env
      let host := c.hashHost env canonicalPath
      let request := Request.openIn canonicalPath fd
      match answer host request with
      -- `hvac_open_cb`
      | some out =>
          ⟨{ c with fdRedirMap := c.fdRedirMap.insert fd out.ret }, [(host, request)],
            .returned true⟩
      -- `hvac_client_block` after `ETIMEDOUT`
      | none => ⟨c.recordTimeout host, [(host, request)], .exited (-1)⟩

/-! ### The remote calls -/

/-- `hvac_read_cb` and what follows `hvac_read_block`: a `-1` untracks the file. -/
def finishRead (c : Client) (fd : Int) (out : Reply) : Client :=
  if out.ret = -1 then { c with fdMap := c.fdMap.erase fd } else c

/-- `hvac_remote_read`. -/
def hvacRemoteRead (c : Client) (fd : Int) (count : Nat) : Effect Client Reply :=
  match c.hvacGetPath fd with
  | none => ⟨c, [], .returned ⟨-1, []⟩⟩
  | some path =>
      let host := c.hashHost env path
      let (c, request) := c.genReadRpc fd count (-1)
      match answer host request with
      | some out => ⟨finishRead c fd out, [(host, request)], .returned out⟩
      | none => ⟨c, [(host, request)], .blocked⟩

/-- `hvac_remote_pread`. -/
def hvacRemotePread (c : Client) (fd : Int) (count : Nat) (offset : Int) :
    Effect Client Reply :=
  match c.hvacGetPath fd with
  | none => ⟨c, [], .returned ⟨-1, []⟩⟩
  | some path =>
      match c.ringHost env path with
      | .error what => ⟨c, [], .threw what⟩
      | .ok (hostname, host) =>
          if c.reachedLimit host then
            let c := c.declareFailed env hostname host
            ⟨{ c with fdMap := c.fdMap.erase fd }, [], .returned ⟨-1, []⟩⟩
          else
            let (c, request) := c.genReadRpc fd count offset
            match answer host request with
            | some out => ⟨finishRead c fd out, [(host, request)], .returned out⟩
            | none => ⟨c, [(host, request)], .blocked⟩

/-- `hvac_remote_lseek`; its `offset` parameter is an `int`. -/
def hvacRemoteLseek (c : Client) (fd offset whence : Int) : Effect Client Int :=
  match c.hvacGetPath fd with
  | none => ⟨c, [], .returned (-1)⟩
  | some path =>
      match c.ringHost env path with
      | .error what => ⟨c, [], .threw what⟩
      | .ok (_, host) =>
          let (c, request) := c.genSeekRpc fd (int32 offset) whence
          match answer host request with
          | some out => ⟨c, [(host, request)], .returned out.ret⟩
          | none => ⟨c, [(host, request)], .blocked⟩

/-- `hvac_remote_close`: the request has no response, so nothing is waited for. -/
def hvacRemoteClose (c : Client) (fd : Int) : Effect Client Unit :=
  match c.hvacGetPath fd with
  | none => ⟨c, [], .returned ()⟩
  | some path =>
      match c.ringHost env path with
      | .error what => ⟨c, [], .threw what⟩
      | .ok (hostname, host) =>
          if c.reachedLimit host then ⟨c.declareFailed env hostname host, [], .returned ()⟩
          else
            let (c, request) := c.genCloseRpc fd
            ⟨c, [(host, request)], .returned ()⟩

/-- `hvac_remove_fd`. -/
def hvacRemoveFd (c : Client) (fd : Int) : Effect Client Bool :=
  if c.fdMap.isEmpty then ⟨c, [], .returned false⟩
  else
    let e := hvacRemoteClose env c fd
    match e.outcome with
    | .returned _ =>
        ⟨{ e.state with fdMap := e.state.fdMap.erase fd }, e.sent,
          .returned (e.state.fdMap.find? fd).isSome⟩
    | .blocked => ⟨e.state, e.sent, .blocked⟩
    | .exited code => ⟨e.state, e.sent, .exited code⟩
    | .threw what => ⟨e.state, e.sent, .threw what⟩

/-! ### First facts -/

variable {env}

theorem Client.hvacGetPath_eq (c : Client) (fd : Int) : c.hvacGetPath fd = c.fdMap.find? fd := by
  unfold Client.hvacGetPath
  split
  · next h => exact (OrdMap.isEmpty_iff.mp h fd).symm
  · rfl

theorem Client.hvacFileTracked_eq (c : Client) (fd : Int) :
    c.hvacFileTracked fd = (c.fdMap.find? fd).isSome := by
  unfold Client.hvacFileTracked
  split
  · next h => rw [OrdMap.isEmpty_iff.mp h fd]; rfl
  · rfl

theorem Client.genReadRpc_of_find? {c : Client} {fd r : Int} (h : c.fdRedirMap.find? fd = some r)
    (count : Nat) (offset : Int) :
    c.genReadRpc fd count offset = (c, .rpcIn (int32 count) r fd offset) := by
  simp only [Client.genReadRpc, OrdMap.index_of_find? h]

theorem Client.genSeekRpc_of_find? {c : Client} {fd r : Int} (h : c.fdRedirMap.find? fd = some r)
    (offset whence : Int) :
    c.genSeekRpc fd offset whence = (c, .seekIn r offset whence) := by
  simp only [Client.genSeekRpc, OrdMap.index_of_find? h]

theorem Client.genCloseRpc_of_find? {c : Client} {fd r : Int} (h : c.fdRedirMap.find? fd = some r) :
    c.genCloseRpc fd = ({ c with fdRedirMap := c.fdRedirMap.erase fd }, .closeIn r) := by
  simp only [Client.genCloseRpc, OrdMap.index_of_find? h]

/-- Setting up Mercury leaves the descriptor tables alone. -/
theorem Client.initMercury_setMaps (c : Client) (m : OrdMap Int String) :
    ({ c with fdMap := m }).initMercury env = { c.initMercury env with fdMap := m } := by
  unfold Client.initMercury
  split <;> rfl

theorem Client.initMercury_fdRedirMap (c : Client) :
    (c.initMercury env).fdRedirMap = c.fdRedirMap := by
  unfold Client.initMercury
  split <;> rfl

theorem Client.hashHost_initMercury (c : Client) (path : String) :
    (c.initMercury env).hashHost env path = c.hashHost env path := by
  unfold Client.initMercury
  split <;> rfl

end Hvac
