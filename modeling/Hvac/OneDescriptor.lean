/-
  Hvac/OneDescriptor.lean
  =======================
  **The calls of one descriptor**, with what the servers do between them: the
  system, and the plain file system, on `read`, `pread`, `lseek` and `close` of one
  number.

  A descriptor that is not tracked is the local one (`step_untracked`).  On the
  servers' side, `DescriptorLeaves` says what becomes of one number whatever is asked
  of the server, and `forall_server_of_run` takes a property of single servers through
  a run.
-/
import Hvac.Simulation
import Hvac.ServerRun

namespace Hvac

open Cxx Posix

variable (env : Env) (rl : ReadLen) (bbpath : String)

inductive FdCall where
  | read (count : Nat)
  | pread (count : Nat) (offset : Int)
  | lseek (offset whence : Int)
  | close
deriving DecidableEq

def FdCall.appCall (fd : Int) : FdCall → AppCall
  | read count => .read fd count
  | pread count offset => .pread fd count offset
  | lseek offset whence => .lseek fd offset whence
  | close => .close fd

/-- The call on the local descriptor. -/
def FdCall.direct (p : Proc) (fd : Int) : FdCall → Proc × Reply
  | read count => realRead rl p fd count
  | pread count offset => realPread rl p fd count offset
  | lseek offset whence =>
      ((realLseek p fd offset whence).1, ⟨(realLseek p fd offset whence).2, []⟩)
  | close => ((realClose p fd).1, ⟨(realClose p fd).2, []⟩)

inductive FdLabel where
  | call (call : FdCall) (remote : Int)
  | deliver (i : Nat)
  | mover (host : Int) (step : MoverStep)
deriving DecidableEq

def FdLabel.sys (fd : Int) : FdLabel → SysLabel
  | call k remote => .call (k.appCall fd) remote
  | deliver i => .deliver i
  | mover host step => .mover host step

def fdMachine (fd : Int) : Machine Sys FdLabel (Option (Outcome Reply)) :=
  (sysMachine env rl bbpath).relabel (FdLabel.sys fd)

/-- The system beside the plain file system, on the same calls. -/
def besideLocal (fd : Int) :
    Machine (Sys × Proc) FdLabel (Option (Outcome Reply) × Option (Outcome Reply)) :=
  ((sysMachine env rl bbpath).both (directMachine env rl)).relabel (FdLabel.sys fd)

variable {env rl bbpath} {s : Sys} {fd : Int}

/-! ### Local calls -/

theorem FdCall.direct_appCall (p : Proc) (k : FdCall) :
    (k.appCall fd).direct env rl p = some (k.direct rl p fd) := by
  cases k <;> rfl

/-- The descriptors and the files decide what a local call does to them. -/
theorem FdCall.direct_congr {p q : Proc} (hfds : p.fds = q.fds) (hfiles : p.files = q.files)
    (k : FdCall) :
    (k.direct rl p fd).2 = (k.direct rl q fd).2 ∧
    (k.direct rl p fd).1.fds = (k.direct rl q fd).1.fds ∧
    (k.direct rl p fd).1.files = (k.direct rl q fd).1.files := by
  cases k with
  | read | pread | lseek | close =>
    simp only [FdCall.direct, realRead, realPread, realLseek, realClose, hfds, hfiles, and_self]

theorem FdCall.direct_client (p : Proc) (k : FdCall) :
    (k.direct rl p fd).1.client = p.client := by
  cases k <;> rfl

/-- A descriptor that is not tracked. -/
theorem step_untracked (hrunning : s.status = .running)
    (hfd : s.proc.client.fdMap.find? fd = none) (k : FdCall) (remote : Int) :
    (sysMachine env rl bbpath).step s (.call (k.appCall fd) remote) =
      some (⟨(k.direct rl s.proc fd).1, .running, s.net⟩,
        some (.returned (k.direct rl s.proc fd).2)) := by
  cases k with
  | read count => exact step_read_untracked hrunning hfd count remote
  | pread count offset => exact step_pread_untracked hrunning hfd count offset remote
  | lseek offset whence => exact step_lseek_untracked hrunning hfd offset whence remote
  | close => exact step_close_untracked hrunning hfd remote

/-! ### One descriptor of a server -/

/-- What becomes of the number `r`, and of its entry in `fd_to_path`. -/
inductive DescriptorLeaves (server server' : Server) (r : Int) : Prop where
  | kept (hfds : server'.fds.find? r = none ↔ server.fds.find? r = none)
      (hentry : ∀ path, server.fdToPath.find? r = some path →
        ∃ path', server'.fdToPath.find? r = some path')
  | opened (hnumber : 0 ≤ r) (hentry : ∃ path, server'.fdToPath.find? r = some path)
  | closed (hfds : server'.fds.find? r = none)

theorem DescriptorLeaves.of_openRpcHandler {server server' : Server} {files : Files}
    {path : String} {remote : Int} {reply : Option Reply}
    (hopen : server.openRpcHandler bbpath files path remote = some (server', reply)) (r : Int) :
    DescriptorLeaves server server' r := by
  obtain ⟨-, ⟨-, rfl⟩ | ⟨c, -, hnonneg, -, -, rfl⟩⟩ := Server.openRpcHandler_eq_some hopen
  · refine .kept Iff.rfl fun p hp => ?_
    by_cases hr : r = remote
    · exact ⟨path, by rw [hr]; exact OrdMap.find?_insert_self ..⟩
    · exact ⟨p, (OrdMap.find?_insert_of_ne hr ..).trans hp⟩
  · by_cases hr : r = remote
    · subst hr
      exact .opened hnonneg ⟨path, OrdMap.find?_insert_self ..⟩
    · refine .kept ?_ fun p hp => ⟨p, (OrdMap.find?_insert_of_ne hr ..).trans hp⟩
      rw [OrdMap.find?_insert_of_ne hr]

theorem DescriptorLeaves.of_rpcHandler (rl : ReadLen) (bbpath : String) (files : Files)
    (server : Server) (inputVal accessfd offset r : Int) :
    DescriptorLeaves server
      (server.rpcHandler rl bbpath files inputVal accessfd offset remote).1 r := by
  obtain ⟨alive, fds, hmoves, heq | heq⟩ :=
    @Server.rpcHandler_shape bbpath files rl server inputVal accessfd offset remote
  · rw [heq]
    exact .kept Iff.rfl fun path hpath => ⟨path, hpath⟩
  · rw [heq]
    exact .kept (hmoves.find?_eq_none_iff r) fun path hpath =>
      ⟨path, OrdMap.find?_index hpath accessfd ""⟩

theorem DescriptorLeaves.of_closeRpcHandler (server : Server) (fd r : Int) :
    DescriptorLeaves server (server.closeRpcHandler fd) r := by
  by_cases hr : r = fd
  · exact .closed (by rw [Server.closeRpcHandler, find?_sysClose, if_pos hr])
  · refine .kept ?_ fun path hpath =>
      ⟨path, (OrdMap.find?_erase_of_ne hr _).trans (OrdMap.find?_index hpath fd "")⟩
    rw [Server.closeRpcHandler, find?_sysClose_of_ne hr]

theorem Server.handle_descriptor {server server' : Server} {files : Files} {remote : Int}
    {request : Request} {reply : Option Reply}
    (hhandle : server.handle rl bbpath files remote request = some (server', reply)) (r : Int) :
    DescriptorLeaves server server' r := by
  unfold Server.handle at hhandle
  split at hhandle
  · cases request with
    | openIn path localfd => exact .of_openRpcHandler hhandle r
    | rpcIn inputVal accessfd localfd offset =>
      have hserver :
          (server.rpcHandler rl bbpath files inputVal accessfd offset remote).1 = server' :=
        congrArg Prod.fst (Option.some.inj hhandle)
      rw [← hserver]
      exact .of_rpcHandler rl bbpath files server inputVal accessfd offset r
    | seekIn fd offset whence =>
      cases hhandle
      exact .kept ((sysSeek_movesOnly ..).find?_eq_none_iff r) fun path hpath => ⟨path, hpath⟩
    | closeIn fd =>
      cases hhandle
      exact .of_closeRpcHandler server fd r
  · cases hhandle
    exact .kept Iff.rfl fun path hpath => ⟨path, hpath⟩

theorem Server.moverStep_descriptor {server server' : Server} {files : Files} {step : MoverStep}
    (hstep : server.moverStep bbpath files step = some server') (r : Int) :
    DescriptorLeaves server server' r := by
  obtain ⟨-, hfds, hpaths, -⟩ := Server.moverStep_frame hstep
  refine .kept (by rw [hfds]) fun path hpath => ⟨path, ?_⟩
  rw [hpaths]
  exact hpath

/-! ### What holds of every server -/

section Servers

variable {I : Server → Prop}
  (hhandle : ∀ files remote request (server server' : Server) reply, I server →
    server.handle rl bbpath files remote request = some (server', reply) → I server')
  (hmover : ∀ files step (server server' : Server), I server →
    server.moverStep bbpath files step = some server' → I server')

theorem Net.forall_setServer {net : Net} (h : ∀ host, I (net.servers host)) {host : Int}
    {server : Server} (hserver : I server) :
    ∀ host', I ((net.setServer host server).servers host') := by
  intro host'
  rw [Net.servers_setServer]
  split
  · exact hserver
  · exact h host'

include hhandle

theorem Net.forall_serve {remote : Int} {files : Files} {sent : List (Int × Request)} :
    ∀ {net net' : Net}, (∀ host, I (net.servers host)) →
      net.serve rl bbpath remote files sent = some net' → ∀ host, I (net'.servers host) := by
  induction sent with
  | nil =>
    intro net net' h hserve
    cases hserve
    exact h
  | cons sent rest ih =>
    intro net net' h hserve
    obtain ⟨host, request⟩ := sent
    cases request with
    | closeIn fd =>
      exact @ih { net with inFlight := net.inFlight ++ [(host, fd)] } net' h hserve
    | openIn | rpcIn | seekIn =>
      simp only [Net.serve] at hserve
      split at hserve
      · cases hserve
      · next hserver =>
        exact ih (Net.forall_setServer h (hhandle _ _ _ _ _ _ (h host) hserver)) hserve

include hmover

/-- A property of single servers that requests and the mover keep. -/
theorem forall_server_of_step {s' : Sys} {label : SysLabel} {o : Option (Outcome Reply)}
    (h : ∀ host, I (s.net.servers host))
    (hstep : (sysMachine env rl bbpath).step s label = some (s', o)) :
    ∀ host, I (s'.net.servers host) := by
  cases label with
  | call call remote =>
    have hrunning := running_of_step hstep
    simp only [sysMachine, hrunning, if_true] at hstep
    split at hstep
    · cases hstep
    · split at hstep
      · cases hstep
      · next hserve =>
        cases hstep
        exact Net.forall_serve hhandle h hserve
  | deliver i =>
    obtain ⟨net, hdeliver, rfl, -⟩ := step_deliver_eq_some hstep
    obtain ⟨host, r, server, -, hserver, rfl⟩ :=
      @Net.deliver_eq_some rl bbpath s.proc.files s.net i net hdeliver
    exact Net.forall_setServer h (hhandle _ _ _ _ _ _ (h host) hserver)
  | mover host step =>
    obtain ⟨server, -, hmove, rfl, -⟩ := step_mover_eq_some hstep
    exact Net.forall_setServer h (hmover _ _ _ _ (h host) hmove)

theorem forall_server_of_run (hinit : I Server.init) {N : Nat} {files : Files}
    {labels : List SysLabel} {t : Sys} {os : List (Option (Outcome Reply))}
    (hrun : (sysMachine env rl bbpath).run (sysStart env N files) labels = some (t, os)) :
    ∀ host, I (t.net.servers host) :=
  Machine.run_of_step (I := fun s => ∀ host, I (s.net.servers host))
    (fun _ _ _ _ h hstep => forall_server_of_step hhandle hmover h hstep) (fun _ => hinit) hrun

end Servers

end Hvac
