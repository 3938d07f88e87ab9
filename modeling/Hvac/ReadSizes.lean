/-
  Hvac/ReadSizes.lean
  ===================
  **The sizes of a remote read**: the count a request carries, what the server
  allocates and reads for it, and what its handler transfers back.

  The count travels in a signed 32-bit field.  Its low 32 bits decide: a count in
  the upper half of a block of `2 ^ 32` arrives negative, and a multiple of
  `2 ^ 32` arrives as zero, which the application takes for the end of the file
  (`sizesSurvive_iff`).  On the way back the signed result becomes the size of the
  bulk transfer, checked for a positional read only (`boundedTransfer_iff`).
-/
import Hvac.SeekRange
import Hvac.ReadRpc

namespace Hvac

open Cxx Posix

/-! ### The count -/

theorem int32_natCast (n : Nat) :
    int32 n = if n % 2 ^ 32 < 2 ^ 31 then ((n % 2 ^ 32 : Nat) : Int)
      else ((n % 2 ^ 32 : Nat) : Int) - 2 ^ 32 := by
  rw [int32, Int.bmod_def]
  split <;> split <;> omega

theorem hgSize_of_nonneg {x : Int} (h : 0 ≤ x) (hx : x < 2 ^ 64) : hgSize x = x.toNat := by
  rw [hgSize, Int.emod_eq_of_lt h hx]

/-- The two calls that read. -/
inductive ReadCall where
  | read
  | pread (offset : Int)

namespace ReadCall

def appCall (fd : Int) (count : Nat) : ReadCall → AppCall
  | read => .read fd count
  | pread offset => .pread fd count offset

/-- The offset of the request; `-1` asks for a sequential read. -/
def offset : ReadCall → Int
  | read => -1
  | pread offset => offset

/-- The server the call asks. -/
def Asks (env : Env) (c : Client) (path : String) (host : Int) : ReadCall → Prop
  | read => c.hashHost env path = host
  | pread _ => ∃ hostname, c.ringHost env path = .ok (hostname, host) ∧ c.reachedLimit host = false

/-- Where the server reads from a descriptor. -/
def position (g : OpenFile String) (call : ReadCall) : Nat :=
  if call.offset = -1 then g.pos else call.offset.toNat

end ReadCall

/-- The requests of a call, each with the server it goes to. -/
def Sys.requests (env : Env) (rl : ReadLen) (bbpath : String) (s : Sys) (call : AppCall)
    (remote : Int) : List (Int × Request) :=
  match call.perform env rl (s.net.answer rl bbpath remote) s.proc with
  | none => []
  | some e => e.sent

/-- For a read request the server allocates a buffer of at most `count` bytes, for a
    number that is not negative, reads at most as many, and answers with no more. -/
def Server.StaysWithin (rl : ReadLen) (bbpath : String) (files : Files) (server : Server)
    (remote : Int) (count : Nat) : Request → Prop
  | .rpcIn inputVal accessfd localfd offset =>
      (∃ size, Server.rpcSize inputVal = some size ∧ size ≤ count ∧
        (server.rpcRead rl bbpath files size accessfd offset remote).ret ≤ count) ∧
      ∀ server' reply, server.handle rl bbpath files remote
          (.rpcIn inputVal accessfd localfd offset) = some (server', some reply) →
        reply.ret ≤ count ∧ reply.data.length ≤ count
  | .openIn _ _ => True
  | .seekIn _ _ _ => True
  | .closeIn _ => True

/-- What the server allocates, reads and answers stays within `count`; and the call
    returns a zero only if nothing was asked for or nothing is left. -/
structure SizesSurvive (env : Env) (rl : ReadLen) (bbpath : String) (s : Sys) (call : AppCall)
    (remote : Int) (count size pos : Nat) : Prop where
  server : ∀ x ∈ s.requests env rl bbpath call remote,
    (s.net.servers x.1).StaysWithin rl bbpath s.proc.files remote count x.2
  zero : ∀ s' reply, (sysMachine env rl bbpath).step s (.call call remote) =
    some (s', some (.returned reply)) → reply.ret = 0 → count = 0 ∨ size ≤ pos

/-- The low 32 bits of the count are below `2 ^ 31`, and zero only at the end of the file
    or for a count of zero. -/
def CountFits (count size pos : Nat) : Prop :=
  count % 2 ^ 32 < 2 ^ 31 ∧ (count % 2 ^ 32 = 0 → count = 0 ∨ size ≤ pos)

/-- A count that arrives without a sign bit. -/
theorem int32_of_mod {count : Nat} (h : count % 2 ^ 32 < 2 ^ 31) :
    int32 count = ((count % 2 ^ 32 : Nat) : Int) := by
  rw [int32_natCast, if_pos h]

/-- With a count that fits, nothing is read only where nothing can be. -/
theorem CountFits.of_len_eq_zero {count size pos : Nat} (h : CountFits count size pos)
    (rl : ReadLen) (hzero : rl.len size pos (count % 2 ^ 32) = 0) : count = 0 ∨ size ≤ pos := by
  by_cases hnone : count % 2 ^ 32 = 0
  · exact h.2 hnone
  · right
    by_contra hleft
    have hpos := rl.pos_of_left size pos (count % 2 ^ 32) (not_le.mp hleft)
      (Nat.pos_of_ne_zero hnone)
    omega

/-! ### What the server does for a request -/

/-- What a read gives: the bytes it read, at most as many as asked for, or `-1`. -/
theorem Server.rpcRead_ret (rl : ReadLen) (bbpath : String) (files : Files) (s : Server)
    (size : Nat) (accessfd offset ret : Int) :
    let io := s.rpcRead rl bbpath files size accessfd offset ret
    (io.ret = -1 ∧ io.data = []) ∨ (0 ≤ io.ret ∧ io.ret ≤ size) ∧ io.data.length ≤ size := by
  have hlen : ∀ (c : Contents) (pos : Nat),
      ((0 : Int) ≤ (rl.len c.length pos size : Nat) ∧
        ((rl.len c.length pos size : Nat) : Int) ≤ size) ∧
      (slice c pos (rl.len c.length pos size)).length ≤ size := by
    intro c pos
    have hle := rl.le_count c.length pos size
    rw [length_slice]
    omega
  unfold Server.rpcRead
  split
  · exact Or.inl ⟨rfl, rfl⟩
  · split
    · unfold sysRead
      rcases s.fds.find? accessfd with _ | g
      · exact Or.inl ⟨rfl, rfl⟩
      · dsimp only
        split
        · exact Or.inr (hlen ..)
        · exact Or.inl ⟨rfl, rfl⟩
    · unfold sysPread
      rcases s.fds.find? accessfd with _ | g
      · exact Or.inl ⟨rfl, rfl⟩
      · dsimp only
        split
        · exact Or.inr (hlen ..)
        · exact Or.inl ⟨rfl, rfl⟩

/-- A number that is not negative keeps the server within it. -/
theorem Server.staysWithin {rl : ReadLen} {bbpath : String} {files : Files} (server : Server)
    (remote : Int) {count : Nat} {inputVal : Int} (hinput : 0 ≤ inputVal)
    (hle : inputVal.toNat ≤ count) (accessfd localfd offset : Int) :
    server.StaysWithin rl bbpath files remote count (.rpcIn inputVal accessfd localfd offset) := by
  have hread := server.rpcRead_ret rl bbpath files inputVal.toNat accessfd offset remote
  refine ⟨⟨_, Server.rpcSize_of_nonneg hinput, hle, ?_⟩, fun server' reply hhandle => ?_⟩
  · rcases hread with ⟨hfailed, -⟩ | ⟨⟨-, hret⟩, -⟩
    · omega
    · omega
  · rcases Server.handle_rpcIn_some hhandle with ⟨-, rfl⟩ | ⟨hnonneg, rfl⟩
    · exact ⟨by dsimp only; omega, Nat.zero_le _⟩
    · rcases hread with ⟨hfailed, -⟩ | ⟨⟨-, hret⟩, hdata⟩
      · omega
      · have hint := int32_le hnonneg
        exact ⟨by dsimp only; omega, hdata.trans hle⟩

section Step

variable {env : Env} {rl : ReadLen} {bbpath : String} {s : Sys} {fd r host : Int} {path : String}
  {server : Server} {reply : Option Reply}

/-- What a call that reads does with the answer of the server it asks. -/
theorem ReadCall.step_eq (call : ReadCall) (hrunning : s.status = .running)
    (hpath : s.proc.client.fdMap.find? fd = some path)
    (hr : s.proc.client.fdRedirMap.find? fd = some r)
    (hasks : call.Asks env s.proc.client path host) {count : Nat} {remote : Int}
    (hhandle : (s.net.servers host).handle rl bbpath s.proc.files remote
      (.rpcIn (int32 count) r fd call.offset) = some (server, reply)) :
    (∀ n : Nat, ∀ data, int32 n = n → reply = some ⟨n, data⟩ →
      ∃ s', (sysMachine env rl bbpath).step s (.call (call.appCall fd count) remote) =
        some (s', some (.returned ⟨n, data⟩))) ∧
    (reply = none → ∃ s',
      (sysMachine env rl bbpath).step s (.call (call.appCall fd count) remote) =
        some (s', some .blocked)) := by
  have hnonneg : ∀ n : Nat, ¬ (n : Int) < 0 := fun n => by omega
  cases call with
  | read =>
    have hstep := step_read_of_host hrunning hpath hr hasks hhandle
    constructor
    · rintro n data hn rfl
      simp only [hn, hnonneg, if_false] at hstep
      exact ⟨_, hstep⟩
    · rintro rfl
      exact ⟨_, hstep⟩
  | pread offset =>
    obtain ⟨hostname, hhost, hlimit⟩ := hasks
    have hstep := step_pread_of_ringHost hrunning hpath hr hhost hlimit hhandle
    constructor
    · rintro n data - rfl
      simp only [hnonneg, if_false] at hstep
      exact ⟨_, hstep⟩
    · rintro rfl
      exact ⟨_, hstep⟩

/-- The call sends one request, to the server it asks. -/
theorem ReadCall.requests_eq (call : ReadCall) (hpath : s.proc.client.fdMap.find? fd = some path)
    (hr : s.proc.client.fdRedirMap.find? fd = some r)
    (hasks : call.Asks env s.proc.client path host) (count : Nat) (remote : Int) :
    s.requests env rl bbpath (call.appCall fd count) remote =
      [(host, .rpcIn (int32 count) r fd call.offset)] := by
  cases call with
  | read =>
    rw [ReadCall.Asks] at hasks
    simp only [Sys.requests, ReadCall.appCall, AppCall.perform, wrapRead,
      hvacRemoteRead_eq hpath hr, hasks, ReadCall.offset]
    rcases s.net.answer rl bbpath remote s.proc.files host (.rpcIn (int32 count) r fd (-1)) with
      _ | out
    · rfl
    · rfl
  | pread offset =>
    obtain ⟨hostname, hhost, hlimit⟩ := hasks
    simp only [Sys.requests, ReadCall.appCall, AppCall.perform, wrapPread, Client.hvacGetPath_eq,
      hpath, hvacRemotePread_of_ringHost hpath hr hhost hlimit, ReadCall.offset]
    rcases s.net.answer rl bbpath remote s.proc.files host (.rpcIn (int32 count) r fd offset) with
      _ | out
    · rfl
    · rfl

/-- The answer of a server whose read succeeds. -/
theorem ReadCall.handle_eq (call : ReadCall) {g : OpenFile String} {server : Server}
    {files : Files} {inputVal : Int} (halive : server.alive = true) (hinput : 0 ≤ inputVal)
    (hg : server.fds.find? r = some g) (hread : canRead g.flags = true)
    (hoffset : call.offset = -1 ∨ 0 ≤ call.offset)
    (hend : call.position g + inputVal.toNat ≤ LOFF_MAX) {remote : Int} (hremote : remote ≠ -1) :
    ∃ server', ∃ data, server.handle rl bbpath files remote (.rpcIn inputVal r fd call.offset) =
      some (server', some ⟨rl.len (server.content bbpath files g.file).length (call.position g)
        inputVal.toNat, data⟩) := by
  by_cases hseq : call.offset = -1
  · rw [ReadCall.position, if_pos hseq] at *
    rw [hseq]
    exact ⟨_, _, Server.handle_read halive hinput hg hread hend hremote⟩
  · rw [ReadCall.position, if_neg hseq] at *
    exact ⟨_, _,
      Server.handle_pread halive hinput hg hread (hoffset.resolve_left hseq) hend hremote⟩

/-- The call with a count that arrives without a sign bit. -/
theorem ReadCall.step_of_fits (call : ReadCall) {g : OpenFile String}
    (hrunning : s.status = .running)
    (hpath : s.proc.client.fdMap.find? fd = some path)
    (hr : s.proc.client.fdRedirMap.find? fd = some r)
    (hasks : call.Asks env s.proc.client path host)
    (halive : (s.net.servers host).alive = true)
    (hg : (s.net.servers host).fds.find? r = some g) (hread : canRead g.flags = true)
    (hoffset : call.offset = -1 ∨ 0 ≤ call.offset) {count : Nat}
    (hend : call.position g + count % 2 ^ 32 ≤ LOFF_MAX) {remote : Int} (hremote : remote ≠ -1)
    (hcount : count % 2 ^ 32 < 2 ^ 31) :
    ∃ s' data, (sysMachine env rl bbpath).step s (.call (call.appCall fd count) remote) =
      some (s', some (.returned ⟨rl.len ((s.net.servers host).content bbpath s.proc.files
        g.file).length (call.position g) (count % 2 ^ 32), data⟩)) := by
  have hint := int32_of_mod hcount
  have htoNat : (int32 count).toNat = count % 2 ^ 32 := by rw [hint, Int.toNat_natCast]
  have hinput : (0 : Int) ≤ int32 count := by
    rw [hint]
    exact Int.natCast_nonneg _
  obtain ⟨server', data, hhandle⟩ : ∃ server' data, (s.net.servers host).handle rl bbpath
      s.proc.files remote (.rpcIn (int32 count) r fd call.offset) = some (server', some
        ⟨rl.len ((s.net.servers host).content bbpath s.proc.files g.file).length
          (call.position g) (int32 count).toNat, data⟩) :=
    call.handle_eq halive hinput hg hread hoffset (by rw [htoNat]; exact hend) hremote
  obtain ⟨s', hstep⟩ := (call.step_eq hrunning hpath hr hasks hhandle).1 _ data
    (int32_readLen ..) rfl
  rw [htoNat] at hstep
  exact ⟨s', data, hstep⟩

/-- **Read sizes on the wire, exactly.**  For a tracked descriptor and a server whose
    kernel reads its descriptor at the position asked for, `read` and `pread` keep the
    sizes if and only if the count fits. -/
theorem sizesSurvive_iff {call : ReadCall} {g : OpenFile String} (hrunning : s.status = .running)
    (hpath : s.proc.client.fdMap.find? fd = some path)
    (hr : s.proc.client.fdRedirMap.find? fd = some r)
    (hasks : call.Asks env s.proc.client path host)
    (halive : (s.net.servers host).alive = true)
    (hg : (s.net.servers host).fds.find? r = some g) (hread : canRead g.flags = true)
    (hoffset : call.offset = -1 ∨ 0 ≤ call.offset) {count : Nat}
    (hend : call.position g + count % 2 ^ 32 ≤ LOFF_MAX) {remote : Int} (hremote : remote ≠ -1) :
    ∃ s' out, (sysMachine env rl bbpath).step s (.call (call.appCall fd count) remote) =
        some (s', out) ∧
      (SizesSurvive env rl bbpath s (call.appCall fd count) remote count
          ((s.net.servers host).content bbpath s.proc.files g.file).length (call.position g) ↔
        CountFits count ((s.net.servers host).content bbpath s.proc.files g.file).length
          (call.position g)) := by
  have hrequests := @call.requests_eq env rl bbpath s fd r host path hpath hr hasks count remote
  by_cases hcount : count % 2 ^ 32 < 2 ^ 31
  · obtain ⟨s', data, hstep⟩ := @call.step_of_fits env rl bbpath s fd r host path g hrunning hpath
      hr hasks halive hg hread hoffset count hend remote hremote hcount
    refine ⟨s', _, hstep, fun h => ⟨hcount, fun hzero => ?_⟩, fun h => ⟨?_, ?_⟩⟩
    · refine h.zero s' _ hstep ?_
      have hlen := rl.le_count ((s.net.servers host).content bbpath s.proc.files g.file).length
        (call.position g) (count % 2 ^ 32)
      dsimp only
      omega
    · intro x hx
      rw [hrequests, List.mem_singleton] at hx
      rw [hx]
      have hint := int32_of_mod hcount
      exact Server.staysWithin _ remote (by omega) (by omega) _ _ _
    · intro s'' reply hstep' hzero
      rw [hstep] at hstep'
      cases hstep'
      exact h.of_len_eq_zero rl (by simpa using hzero)
  · have hneg : int32 count < 0 := by
      rw [int32_natCast, if_neg hcount]
      omega
    obtain ⟨server', hhandle⟩ : ∃ server', (s.net.servers host).handle rl bbpath s.proc.files
        remote (.rpcIn (int32 count) r fd call.offset) = some (server', none) :=
      Server.handle_rpcIn_none fun _ hspared => absurd hneg (not_lt.mpr hspared.1)
    obtain ⟨s', hstep⟩ := (call.step_eq hrunning hpath hr hasks hhandle).2 rfl
    refine ⟨s', _, hstep, iff_of_false (fun h => ?_) fun h => hcount h.1⟩
    -- no buffer has the size that the number converts to
    obtain ⟨⟨size, hsize, -⟩, -⟩ := h.server (host, .rpcIn (int32 count) r fd call.offset)
      (by rw [hrequests]; exact List.mem_singleton_self _)
    rw [Server.rpcSize_of_neg hneg] at hsize
    cases hsize

end Step

theorem sizesSurvive_iff_two :
    ∃ s' out, (sysMachine zeroHashEnv ReadLen.full "/bb").step (oneFileSys [1, 2, 3])
        (.call (ReadCall.read.appCall 3 2) 0) = some (s', out) ∧
      (SizesSurvive zeroHashEnv ReadLen.full "/bb" (oneFileSys [1, 2, 3])
          (ReadCall.read.appCall 3 2) 0 2
          (((oneFileSys [1, 2, 3]).net.servers 0).content "/bb"
            (oneFileSys [1, 2, 3]).proc.files "/data/a").length 0 ↔
        CountFits 2 (((oneFileSys [1, 2, 3]).net.servers 0).content "/bb"
          (oneFileSys [1, 2, 3]).proc.files "/data/a").length 0) := by
  have hasks : ReadCall.read.Asks zeroHashEnv (oneFileSys [1, 2, 3]).proc.client "/data/a" 0 :=
    (calm_oneFileSys [1, 2, 3]).hashHost_one "/data/a"
  exact sizesSurvive_iff rfl rfl rfl hasks rfl (oneFileSys_fds [1, 2, 3]).2 (by decide)
    (Or.inl rfl) (by decide) (by decide)

/-- A read of `2 ^ 32` bytes at the start of a file of three bytes returns zero; one of
    `2 ^ 31` bytes reaches the server as a negative number, for which no buffer is
    allocated. -/
theorem read_four_gib :
    ¬ SizesSurvive zeroHashEnv ReadLen.full "/bb" (oneFileSys [1, 2, 3]) (.read 3 (2 ^ 32)) 0
        (2 ^ 32) 3 0 ∧
    ¬ SizesSurvive zeroHashEnv ReadLen.full "/bb" (oneFileSys [1, 2, 3]) (.read 3 (2 ^ 31)) 0
        (2 ^ 31) 3 0 := by
  constructor
  · intro h
    have hstep : ((sysMachine zeroHashEnv ReadLen.full "/bb").step (oneFileSys [1, 2, 3])
        (.call (.read 3 (2 ^ 32)) 0)).map Prod.snd = some (some (.returned ⟨0, []⟩)) := by decide
    obtain ⟨⟨s', o⟩, hstep, rfl⟩ := Option.map_eq_some_iff.mp hstep
    exact absurd (h.zero s' ⟨0, []⟩ hstep rfl) (by decide)
  · intro h
    have hrequests : (oneFileSys [1, 2, 3]).requests zeroHashEnv ReadLen.full "/bb"
        (.read 3 (2 ^ 31)) 0 = [(0, .rpcIn (-2 ^ 31) 5 3 (-1))] := by decide
    obtain ⟨⟨size, hsize, -⟩, -⟩ := h.server (0, .rpcIn (-2 ^ 31) 5 3 (-1))
      (by rw [hrequests]; exact List.mem_singleton_self _)
    cases hsize

/-! ### The bulk transfer -/

/-- The size a bulk transfer is started with. -/
def RpcCall.transferSize? : RpcCall → Option Nat
  | .transfer size _ => some size
  | _ => none

/-- The number a response is given. -/
def RpcCall.answer? : RpcCall → Option Int
  | .respond ret _ => some ret
  | _ => none

def transferSizes (calls : List RpcCall) : List Nat := calls.filterMap RpcCall.transferSize?

def answersOf (calls : List RpcCall) : List Int := calls.filterMap RpcCall.answer?

/-- A negative answer and no transfer; or one transfer, of the `r` bytes that were read,
    within the client's buffer of `n` bytes and the server's. -/
def BoundedTransfer (n : Nat) (r : Int) (calls : List RpcCall) : Prop :=
  (∃ ret, ret < 0 ∧ answersOf calls = [ret]) ∧ transferSizes calls = [] ∨
    ∃ size : Nat, transferSizes calls = [size] ∧ (size : Int) = r ∧ size ≤ n ∧
      size ≤ hgSize (int32 n)

/-- The handler gets as far as its `read` or `pread`. -/
structure RpcOutcome.Reads (o : RpcOutcome) : Prop where
  getInput : o.getInput = true
  calloc : o.calloc = true
  info : o.info = true
  bulkCreate : o.bulkCreate = true

/-- After the read: a failed positional one is answered, anything else is transferred. -/
theorem hvacRpcHandler_of_reads {o : RpcOutcome} (h : o.Reads) (offset : Int) :
    hvacRpcHandler offset o = .mallocState :: .getInput :: .calloc :: .bulkCreate ::
      if offset ≠ -1 ∧ o.readbytes < 0 then
        [.bulkFree, .freeBuffer, .respond (-1) o.respond, .freeState]
      else .transfer (hgSize o.readbytes) o.transfer :: if o.transfer then [] else [.abort] := by
  simp only [hvacRpcHandler, h.getInput, h.calloc, h.info, h.bulkCreate, if_true]

theorem transferSizes_of_transfer (size : Nat) (started : Bool) :
    transferSizes (.mallocState :: .getInput :: .calloc :: .bulkCreate ::
      .transfer size started :: if started then [] else [.abort]) = [size] := by
  cases started <;> rfl

theorem answersOf_of_transfer (size : Nat) (started : Bool) :
    answersOf (.mallocState :: .getInput :: .calloc :: .bulkCreate ::
      .transfer size started :: if started then [] else [.abort]) = [] := by
  cases started <;> rfl

/-- **Transfers, exactly.**  Whatever `read` or `pread` gave for a request of `n` bytes,
    the handler answers a failure and transfers nothing, or transfers what was read, if
    and only if it is not a sequential read that failed. -/
theorem boundedTransfer_iff {n : Nat} (hn : n < 2 ^ 31) {offset r : Int}
    (hr : r = -1 ∨ 0 ≤ r ∧ r ≤ n) {o : RpcOutcome} (hreads : o.Reads) (hresult : o.readbytes = r) :
    BoundedTransfer n r (hvacRpcHandler offset o) ↔ ¬ (offset = -1 ∧ r = -1) := by
  have hbuffer : hgSize (int32 n) = n := by
    rw [int32_of_isInt32 ⟨by omega, by omega⟩, hgSize_of_nonneg (by omega) (by omega),
      Int.toNat_natCast]
  rw [hvacRpcHandler_of_reads hreads, hresult]
  by_cases hanswered : offset ≠ -1 ∧ r < 0
  · rw [if_pos hanswered]
    refine iff_of_true (Or.inl ⟨⟨-1, by decide, rfl⟩, rfl⟩) fun h => hanswered.1 h.1
  · rw [if_neg hanswered, BoundedTransfer, transferSizes_of_transfer, answersOf_of_transfer]
    constructor
    · rintro (⟨⟨ret, -, hnone⟩, -⟩ | ⟨size, -, hsize, -⟩) ⟨-, hfailed⟩
      · cases hnone
      · omega
    · intro h
      have hread : 0 ≤ r := by
        rcases hr with hfailed | hread
        · exact absurd ⟨fun hseq => h ⟨hseq, hfailed⟩, by omega⟩ hanswered
        · exact hread.1
      right
      refine ⟨hgSize r, rfl, ?_, ?_, ?_⟩
      all_goals rw [hgSize_of_nonneg hread (by omega)]
      all_goals omega

theorem boundedTransfer_iff_one :
    BoundedTransfer 1 1 (hvacRpcHandler (-1) (.clean 1 1)) ↔ ¬ ((-1 : Int) = -1 ∧ (1 : Int) = -1) :=
  boundedTransfer_iff (by decide) (Or.inr (by decide)) ⟨rfl, rfl, rfl, rfl⟩ rfl

/-- A sequential read of a descriptor that is not open starts a transfer of
    `2 ^ 64 - 1` bytes. -/
theorem failed_read_transfers :
    (Server.init.rpcRead ReadLen.full "/bb" OrdMap.empty 1 7 (-1) 0).ret = -1 ∧
    transferSizes (hvacRpcHandler (-1) (.clean 1 (-1))) = [2 ^ 64 - 1] ∧
    ¬ BoundedTransfer 1 (-1) (hvacRpcHandler (-1) (.clean 1 (-1))) := by
  refine ⟨by decide, by decide, ?_⟩
  rintro (⟨-, hnone⟩ | ⟨size, -, hsize, -⟩)
  · cases hnone
  · omega

end Hvac
