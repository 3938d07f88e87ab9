/-
  Hvac/SystemStep.lean
  ====================
  **One call of the system, as an equation.**

  Each equation says what the step for a call is, given the descriptor's entries
  and what the server it asks makes of the request: the only place where the
  wrappers, the remote calls and the delivery of a request are unfolded together.
-/
import Hvac.System

namespace Hvac

open Cxx Posix

variable {env : Env} {rl : ReadLen} {bbpath : String} {N : Nat} {s : Sys}

theorem Calm.hashHost {c : Client} (h : Calm env N c) (path : String) :
    c.hashHost env path = hostOf env N path := by
  rw [Client.hashHost, h.count, hostOf]

theorem hostOf_one (path : String) : hostOf env 1 path = 0 := by
  simp only [hostOf, Nat.mod_one, Nat.cast_zero]

/-! With one server both rules lead to it. -/

theorem Calm.hashHost_one {c : Client} (h : Calm env 1 c) (path : String) :
    c.hashHost env path = 0 :=
  (h.hashHost path).trans (hostOf_one path)

theorem Calm.ringHost_one {c : Client} (h : Calm env 1 c) {fd : Int} {path : String}
    (hpath : c.fdMap.find? fd = some path) :
    ∃ hostname, c.ringHost env path = .ok (hostname, 0) := by
  obtain ⟨hostname, hhost⟩ := h.ringHost (by decide) hpath (h.ringAgrees_one false fd)
  rw [h.hashHost_one] at hhost
  exact ⟨hostname, hhost⟩

/-- Reads and seeks, which open and close no descriptor. -/
def Request.Transfers : Request → Prop
  | .rpcIn _ _ _ _ => True
  | .seekIn _ _ _ => True
  | .openIn _ _ => False
  | .closeIn _ => False

theorem Request.Transfers.ne_openIn {request : Request} (h : request.Transfers) (path : String)
    (localfd : Int) : request ≠ .openIn path localfd := by
  rintro rfl
  exact h

theorem Request.Transfers.ne_closeIn {request : Request} (h : request.Transfers) (fd : Int) :
    request ≠ .closeIn fd := by
  rintro rfl
  exact h

/-- They are never refused. -/
theorem Server.handle_ne_none (server : Server) (files : Files) (remote : Int)
    {request : Request} (h : request.Transfers) :
    ∃ server' reply, server.handle rl bbpath files remote request = some (server', reply) := by
  unfold Server.handle
  split
  · cases request with
    | openIn path localfd => exact absurd rfl (h.ne_openIn path localfd)
    | rpcIn | seekIn | closeIn => exact ⟨_, _, rfl⟩
  · exact ⟨_, _, rfl⟩

/-! ### What a step needs -/

theorem running_of_step {call : AppCall} {remote : Int} {x : Sys × Option (Outcome Reply)}
    (hstep : (sysMachine env rl bbpath).step s (.call call remote) = some x) :
    s.status = .running := by
  by_contra hstopped
  simp only [sysMachine, hstopped, if_false] at hstep
  cases hstep

theorem step_deliver_eq_some {i : Nat} {s' : Sys} {o : Option (Outcome Reply)}
    (hstep : (sysMachine env rl bbpath).step s (.deliver i) = some (s', o)) :
    ∃ net, s.net.deliver i = some net ∧ s' = { s with net := net } ∧ o = none := by
  rcases hdeliver : s.net.deliver i with _ | net
  · simp only [sysMachine, hdeliver] at hstep
    cases hstep
  · simp only [sysMachine, hdeliver, Option.some.injEq, Prod.mk.injEq] at hstep
    obtain ⟨rfl, rfl⟩ := hstep
    exact ⟨net, rfl, rfl, rfl⟩

theorem step_mover_eq_some {host : Int} {step : MoverStep} {s' : Sys}
    {o : Option (Outcome Reply)}
    (hstep : (sysMachine env rl bbpath).step s (.mover host step) = some (s', o)) :
    ∃ server, (s.net.servers host).alive = true ∧
      (s.net.servers host).moverStep bbpath s.proc.files step = some server ∧
      s' = { s with net := s.net.setServer host server } ∧ o = none := by
  simp only [sysMachine] at hstep
  split at hstep
  · next halive =>
    rcases hmove : (s.net.servers host).moverStep bbpath s.proc.files step with _ | server
    · rw [hmove] at hstep
      cases hstep
    · simp only [hmove, Option.some.injEq, Prod.mk.injEq] at hstep
      obtain ⟨rfl, rfl⟩ := hstep
      exact ⟨server, halive, rfl, rfl, rfl⟩
  · cases hstep

/-! ### Calls that are served locally -/

theorem step_read_untracked (hrunning : s.status = .running) {fd : Int}
    (hfd : s.proc.client.fdMap.find? fd = none) (count : Nat) (remote : Int) :
    (sysMachine env rl bbpath).step s (.call (.read fd count) remote) =
      some (⟨(realRead rl s.proc fd count).1, .running, s.net⟩,
        some (.returned (realRead rl s.proc fd count).2)) := by
  have hneg : int32 (-1) < 0 := by decide
  simp only [sysMachine, hrunning, if_true, AppCall.perform, wrapRead, hvacRemoteRead,
    Client.hvacGetPath_eq, hfd, Effect.andThen, hneg, int32_realRead, Net.serve, Outcome.status]

theorem step_pread_untracked (hrunning : s.status = .running) {fd : Int}
    (hfd : s.proc.client.fdMap.find? fd = none) (count : Nat) (offset remote : Int) :
    (sysMachine env rl bbpath).step s (.call (.pread fd count offset) remote) =
      some (⟨(realPread rl s.proc fd count offset).1, .running, s.net⟩,
        some (.returned (realPread rl s.proc fd count offset).2)) := by
  simp only [sysMachine, hrunning, if_true, AppCall.perform, wrapPread,
    Client.hvacGetPath_eq, hfd, Net.serve, Outcome.status]

theorem step_lseek_untracked (hrunning : s.status = .running) {fd : Int}
    (hfd : s.proc.client.fdMap.find? fd = none) (offset whence remote : Int) :
    (sysMachine env rl bbpath).step s (.call (.lseek fd offset whence) remote) =
      some (⟨(realLseek s.proc fd offset whence).1, .running, s.net⟩,
        some (.returned ⟨(realLseek s.proc fd offset whence).2, []⟩)) := by
  simp only [sysMachine, hrunning, if_true, AppCall.perform, wrapLseek,
    Client.hvacFileTracked_eq, hfd, Option.isSome_none, Bool.false_eq_true, if_false,
    Effect.ofRet, Outcome.map, Net.serve, Outcome.status]

theorem step_close_untracked (hrunning : s.status = .running) {fd : Int}
    (hfd : s.proc.client.fdMap.find? fd = none) (remote : Int) :
    (sysMachine env rl bbpath).step s (.call (.close fd) remote) =
      some (⟨(realClose s.proc fd).1, .running, s.net⟩,
        some (.returned ⟨(realClose s.proc fd).2, []⟩)) := by
  simp only [sysMachine, hrunning, if_true, AppCall.perform, wrapClose,
    Client.hvacGetPath_eq, hfd, Effect.ofRet, Outcome.map, Net.serve, Outcome.status]

theorem step_read64 (hrunning : s.status = .running) (fd : Int) (count : Nat) (remote : Int) :
    (sysMachine env rl bbpath).step s (.call (.read64 fd count) remote) =
      some (⟨(realRead rl s.proc fd count).1, .running, s.net⟩,
        some (.returned (realRead rl s.proc fd count).2)) := by
  simp only [sysMachine, hrunning, if_true, AppCall.perform, wrapRead64, Net.serve, Outcome.status]

theorem step_readv (hrunning : s.status = .running) (fd : Int) (iov : List Nat) (remote : Int) :
    (sysMachine env rl bbpath).step s (.call (.readv fd iov) remote) =
      some (⟨(realRead rl s.proc fd iov.sum).1, .running, s.net⟩,
        some (.returned (realRead rl s.proc fd iov.sum).2)) := by
  simp only [sysMachine, hrunning, if_true, AppCall.perform, wrapReadv, Net.serve, Outcome.status]

theorem step_write (hrunning : s.status = .running) (fd : Int) (data : Contents) (remote : Int) :
    (sysMachine env rl bbpath).step s (.call (.write fd data) remote) =
      some (⟨(realWrite s.proc fd data).1, .running, s.net⟩,
        some (.returned ⟨(realWrite s.proc fd data).2, []⟩)) := by
  simp only [sysMachine, hrunning, if_true, AppCall.perform, wrapWrite, Effect.ofRet, Outcome.map,
    Net.serve, Outcome.status]

/-! ### Calls of a tracked descriptor -/

section Tracked

variable {fd r remote host : Int} {path hostname : String} {server : Server} {reply : Option Reply}

/-! At any state of the client, given the server it asks. -/

theorem step_read_of_host (hrunning : s.status = .running)
    (hpath : s.proc.client.fdMap.find? fd = some path)
    (hr : s.proc.client.fdRedirMap.find? fd = some r)
    (hhost : s.proc.client.hashHost env path = host) {count : Nat}
    (hhandle : (s.net.servers host).handle rl bbpath s.proc.files remote
      (.rpcIn (int32 count) r fd (-1)) = some (server, reply)) :
    (sysMachine env rl bbpath).step s (.call (.read fd count) remote) =
      some (match reply with
        | none => (⟨s.proc, .blocked, s.net.setServer host server⟩, some .blocked)
        | some out =>
            let p := { s.proc with client := finishRead s.proc.client fd out }
            if int32 out.ret < 0 then
              (⟨(realRead rl p fd count).1, .running, s.net.setServer host server⟩,
                some (.returned (realRead rl p fd count).2))
            else
              (⟨p, .running, s.net.setServer host server⟩,
                some (.returned ⟨int32 out.ret, out.data⟩))) := by
  simp only [sysMachine, hrunning, if_true, AppCall.perform, wrapRead,
    hvacRemoteRead_eq hpath hr, hhost, Net.answer, hhandle]
  cases reply with
  | none => simp only [Effect.andThen, Net.serve, hhandle, Outcome.status]
  | some out =>
    by_cases hneg : int32 out.ret < 0
    · simp only [Effect.andThen, hneg, if_true, int32_realRead]
      simp only [realRead, Net.serve, hhandle, Outcome.status]
    · simp only [Effect.andThen, Net.serve, hneg, if_false, hhandle, Outcome.status]

theorem step_pread_of_ringHost (hrunning : s.status = .running)
    (hpath : s.proc.client.fdMap.find? fd = some path)
    (hr : s.proc.client.fdRedirMap.find? fd = some r)
    (hhost : s.proc.client.ringHost env path = .ok (hostname, host))
    (hlimit : s.proc.client.reachedLimit host = false) {count : Nat} {offset : Int}
    (hhandle : (s.net.servers host).handle rl bbpath s.proc.files remote
      (.rpcIn (int32 count) r fd offset) = some (server, reply)) :
    (sysMachine env rl bbpath).step s (.call (.pread fd count offset) remote) =
      some (match reply with
        | none => (⟨s.proc, .blocked, s.net.setServer host server⟩, some .blocked)
        | some out =>
            let p := { s.proc with client := finishRead s.proc.client fd out }
            if out.ret < 0 then
              (⟨(realPread rl p fd count offset).1, .running, s.net.setServer host server⟩,
                some (.returned (realPread rl p fd count offset).2))
            else
              (⟨p, .running, s.net.setServer host server⟩, some (.returned out))) := by
  simp only [sysMachine, hrunning, if_true, AppCall.perform, wrapPread, Client.hvacGetPath_eq,
    hpath, hvacRemotePread_of_ringHost hpath hr hhost hlimit, Net.answer, hhandle]
  cases reply with
  | none => simp only [Effect.andThen, Net.serve, hhandle, Outcome.status]
  | some out =>
    by_cases hneg : out.ret < 0
    · simp only [Effect.andThen, Net.serve, hneg, if_true, realPread, hhandle, Outcome.status]
    · simp only [Effect.andThen, Net.serve, hneg, if_false, hhandle, Outcome.status]

theorem step_lseek_of_ringHost (hrunning : s.status = .running)
    (hpath : s.proc.client.fdMap.find? fd = some path)
    (hr : s.proc.client.fdRedirMap.find? fd = some r)
    (hhost : s.proc.client.ringHost env path = .ok (hostname, host)) {offset whence : Int}
    (hhandle : (s.net.servers host).handle rl bbpath s.proc.files remote
      (.seekIn r (int32 offset) whence) = some (server, reply)) :
    (sysMachine env rl bbpath).step s (.call (.lseek fd offset whence) remote) =
      some (match reply with
        | none => (⟨s.proc, .blocked, s.net.setServer host server⟩, some .blocked)
        | some out =>
            (⟨s.proc, .running, s.net.setServer host server⟩,
              some (.returned ⟨out.ret, []⟩))) := by
  simp only [sysMachine, hrunning, if_true, AppCall.perform, wrapLseek, Client.hvacFileTracked_eq,
    hpath, Option.isSome_some, hvacRemoteLseek_of_ringHost hpath hr hhost, Net.answer, hhandle]
  cases reply with
  | none =>
    simp only [Effect.andThen, Effect.ofRet, Outcome.map, Net.serve, hhandle, Outcome.status]
  | some out =>
    simp only [Effect.andThen, Effect.ofRet, Outcome.map, Net.serve, hhandle, Outcome.status]

theorem step_close_of_ringHost (hrunning : s.status = .running)
    (hpath : s.proc.client.fdMap.find? fd = some path)
    (hr : s.proc.client.fdRedirMap.find? fd = some r)
    (hhost : s.proc.client.ringHost env path = .ok (hostname, host))
    (hlimit : s.proc.client.reachedLimit host = false) :
    (sysMachine env rl bbpath).step s (.call (.close fd) remote) =
      some (⟨{ s.proc with
            client := { s.proc.client with
              fdMap := s.proc.client.fdMap.erase fd
              fdRedirMap := s.proc.client.fdRedirMap.erase fd }
            fds := (sysClose s.proc.fds fd).2 }, .running,
          { s.net with inFlight := s.net.inFlight ++ [(host, r)] }⟩,
        some (.returned ⟨(sysClose s.proc.fds fd).1, []⟩)) := by
  simp only [sysMachine, hrunning, if_true, AppCall.perform, wrapClose, Client.hvacGetPath_eq,
    hpath, hvacRemoveFd_of_ringHost hpath hr hhost hlimit, Effect.andThen, realClose,
    Effect.ofRet, Outcome.map, Net.serve, Outcome.status]

/-! Where the ring names no server, or one that has reached the limit. -/

theorem step_pread_threw (hrunning : s.status = .running)
    (hpath : s.proc.client.fdMap.find? fd = some path) {what : String}
    (hhost : s.proc.client.ringHost env path = .error what) (count : Nat) (offset : Int) :
    (sysMachine env rl bbpath).step s (.call (.pread fd count offset) remote) =
      some (⟨s.proc, .terminated, s.net⟩, some (.threw what)) := by
  simp only [sysMachine, hrunning, if_true, AppCall.perform, wrapPread, Client.hvacGetPath_eq,
    hpath, hvacRemotePread, hhost, Effect.andThen, Net.serve, Outcome.status]

theorem step_pread_limit (hrunning : s.status = .running)
    (hpath : s.proc.client.fdMap.find? fd = some path)
    (hhost : s.proc.client.ringHost env path = .ok (hostname, host))
    (hlimit : s.proc.client.reachedLimit host = true) (count : Nat) (offset : Int) :
    (sysMachine env rl bbpath).step s (.call (.pread fd count offset) remote) =
      let c := s.proc.client.declareFailed env hostname host
      let p := { s.proc with client := { c with fdMap := c.fdMap.erase fd } }
      some (⟨(realPread rl p fd count offset).1, .running, s.net⟩,
        some (.returned (realPread rl p fd count offset).2)) := by
  simp only [sysMachine, hrunning, if_true, AppCall.perform, wrapPread, Client.hvacGetPath_eq,
    hpath, hvacRemotePread, hhost, hlimit, Effect.andThen, Int.reduceNeg, Int.reduceLT, realPread,
    Net.serve, Outcome.status]

theorem step_lseek_threw (hrunning : s.status = .running)
    (hpath : s.proc.client.fdMap.find? fd = some path) {what : String}
    (hhost : s.proc.client.ringHost env path = .error what) (offset whence : Int) :
    (sysMachine env rl bbpath).step s (.call (.lseek fd offset whence) remote) =
      some (⟨s.proc, .terminated, s.net⟩, some (.threw what)) := by
  simp only [sysMachine, hrunning, if_true, AppCall.perform, wrapLseek, Client.hvacFileTracked_eq,
    hpath, Option.isSome_some, hvacRemoteLseek, Client.hvacGetPath_eq, hhost, Effect.andThen,
    Effect.ofRet, Outcome.map, Net.serve, Outcome.status]

theorem step_close_threw (hrunning : s.status = .running)
    (hpath : s.proc.client.fdMap.find? fd = some path) {what : String}
    (hhost : s.proc.client.ringHost env path = .error what) :
    (sysMachine env rl bbpath).step s (.call (.close fd) remote) =
      some (⟨s.proc, .terminated, s.net⟩, some (.threw what)) := by
  simp only [sysMachine, hrunning, if_true, AppCall.perform, wrapClose, Client.hvacGetPath_eq,
    hpath, hvacRemoveFd, OrdMap.isEmpty_eq_false hpath, Bool.false_eq_true, if_false,
    hvacRemoteClose, hhost, Effect.andThen, Effect.ofRet, Outcome.map, Net.serve, Outcome.status]

theorem step_close_limit (hrunning : s.status = .running)
    (hpath : s.proc.client.fdMap.find? fd = some path)
    (hhost : s.proc.client.ringHost env path = .ok (hostname, host))
    (hlimit : s.proc.client.reachedLimit host = true) :
    (sysMachine env rl bbpath).step s (.call (.close fd) remote) =
      let c := s.proc.client.declareFailed env hostname host
      some (⟨{ s.proc with
            client := { c with fdMap := c.fdMap.erase fd }
            fds := (sysClose s.proc.fds fd).2 }, .running, s.net⟩,
        some (.returned ⟨(sysClose s.proc.fds fd).1, []⟩)) := by
  simp only [sysMachine, hrunning, if_true, AppCall.perform, wrapClose, Client.hvacGetPath_eq,
    hpath, hvacRemoveFd, OrdMap.isEmpty_eq_false hpath, Bool.false_eq_true, if_false,
    hvacRemoteClose, hhost, hlimit, Effect.andThen, realClose, Effect.ofRet, Outcome.map,
    Net.serve, Outcome.status]

/-! While no timeout has been recorded that is the server the path hashes to. -/

theorem step_read (hrunning : s.status = .running) (hcalm : Calm env N s.proc.client)
    (hpath : s.proc.client.fdMap.find? fd = some path)
    (hr : s.proc.client.fdRedirMap.find? fd = some r) {count : Nat}
    (hhandle : (s.net.servers (hostOf env N path)).handle rl bbpath s.proc.files remote
      (.rpcIn (int32 count) r fd (-1)) = some (server, reply)) :
    (sysMachine env rl bbpath).step s (.call (.read fd count) remote) =
      some (match reply with
        | none => (⟨s.proc, .blocked, s.net.setServer (hostOf env N path) server⟩, some .blocked)
        | some out =>
            let p := { s.proc with client := finishRead s.proc.client fd out }
            if int32 out.ret < 0 then
              (⟨(realRead rl p fd count).1, .running, s.net.setServer (hostOf env N path) server⟩,
                some (.returned (realRead rl p fd count).2))
            else
              (⟨p, .running, s.net.setServer (hostOf env N path) server⟩,
                some (.returned ⟨int32 out.ret, out.data⟩))) := by
  rw [step_read_of_host hrunning hpath hr (hcalm.hashHost path) hhandle]
  cases reply <;> rfl

theorem step_pread (hN : 1 ≤ N ∧ N < 2 ^ 31) (hrunning : s.status = .running)
    (hcalm : Calm env N s.proc.client) (hpath : s.proc.client.fdMap.find? fd = some path)
    (hr : s.proc.client.fdRedirMap.find? fd = some r)
    (hagree : RingAgrees env true s.proc.client fd) {count : Nat} {offset : Int}
    (hhandle : (s.net.servers (hostOf env N path)).handle rl bbpath s.proc.files remote
      (.rpcIn (int32 count) r fd offset) = some (server, reply)) :
    (sysMachine env rl bbpath).step s (.call (.pread fd count offset) remote) =
      some (match reply with
        | none => (⟨s.proc, .blocked, s.net.setServer (hostOf env N path) server⟩, some .blocked)
        | some out =>
            let p := { s.proc with client := finishRead s.proc.client fd out }
            if out.ret < 0 then
              (⟨(realPread rl p fd count offset).1, .running,
                s.net.setServer (hostOf env N path) server⟩,
                some (.returned (realPread rl p fd count offset).2))
            else
              (⟨p, .running, s.net.setServer (hostOf env N path) server⟩,
                some (.returned out))) := by
  obtain ⟨hostname, hhost⟩ := hcalm.ringHost hN hpath hagree
  rw [hcalm.hashHost] at hhost
  rw [step_pread_of_ringHost hrunning hpath hr hhost (hcalm.reachedLimit _) hhandle]
  cases reply <;> rfl

theorem step_lseek (hN : 1 ≤ N ∧ N < 2 ^ 31) (hrunning : s.status = .running)
    (hcalm : Calm env N s.proc.client) (hpath : s.proc.client.fdMap.find? fd = some path)
    (hr : s.proc.client.fdRedirMap.find? fd = some r)
    (hagree : RingAgrees env false s.proc.client fd) {offset whence : Int}
    (hhandle : (s.net.servers (hostOf env N path)).handle rl bbpath s.proc.files remote
      (.seekIn r (int32 offset) whence) = some (server, reply)) :
    (sysMachine env rl bbpath).step s (.call (.lseek fd offset whence) remote) =
      some (match reply with
        | none => (⟨s.proc, .blocked, s.net.setServer (hostOf env N path) server⟩, some .blocked)
        | some out =>
            (⟨s.proc, .running, s.net.setServer (hostOf env N path) server⟩,
              some (.returned ⟨out.ret, []⟩))) := by
  obtain ⟨hostname, hhost⟩ := hcalm.ringHost hN hpath hagree
  rw [hcalm.hashHost] at hhost
  rw [step_lseek_of_ringHost hrunning hpath hr hhost hhandle]
  cases reply <;> rfl

theorem step_close (hN : 1 ≤ N ∧ N < 2 ^ 31) (hrunning : s.status = .running)
    (hcalm : Calm env N s.proc.client) (hpath : s.proc.client.fdMap.find? fd = some path)
    (hr : s.proc.client.fdRedirMap.find? fd = some r)
    (hagree : RingAgrees env true s.proc.client fd) :
    (sysMachine env rl bbpath).step s (.call (.close fd) remote) =
      some (⟨{ s.proc with
            client := { s.proc.client with
              fdMap := s.proc.client.fdMap.erase fd
              fdRedirMap := s.proc.client.fdRedirMap.erase fd }
            fds := (sysClose s.proc.fds fd).2 }, .running,
          { s.net with inFlight := s.net.inFlight ++ [(hostOf env N path, r)] }⟩,
        some (.returned ⟨(sysClose s.proc.fds fd).1, []⟩)) := by
  obtain ⟨hostname, hhost⟩ := hcalm.ringHost hN hpath hagree
  rw [hcalm.hashHost] at hhost
  exact step_close_of_ringHost hrunning hpath hr hhost (hcalm.reachedLimit _)

end Tracked

/-! ### Opens -/

section Open

variable {path file : String} {flags : OFlags} {ret remote : Int} {p : Proc}

theorem step_open_untracked (hrunning : s.status = .running)
    (hopen : realOpen env s.proc path flags ret = some p)
    (htrack : ret = -1 ∨ trackPath env path flags = none) :
    (sysMachine env rl bbpath).step s (.call (.openFile path flags ret) remote) =
      some (⟨p, .running, s.net⟩, some (.returned ⟨ret, []⟩)) := by
  simp only [sysMachine, hrunning, if_true, AppCall.perform, wrapOpen, openAndTrack, hopen]
  by_cases hret : ret = -1
  · simp only [hret, if_true, Option.map_some, Effect.ofRet, Outcome.map, Net.serve, Outcome.status]
  · have hnone := htrack.resolve_left hret
    simp only [hret, if_false, hvacTrackFile, hnone, Effect.andThen, Option.map_some, Effect.ofRet,
      Outcome.map, Net.serve, Outcome.status]

theorem step_open_of_host {host : Int} (hrunning : s.status = .running)
    (hhost : s.proc.client.hashHost env file = host)
    (hopen : realOpen env s.proc path flags ret = some p) (hret : ret ≠ -1)
    (htrack : trackPath env path flags = some file) :
    (sysMachine env rl bbpath).step s (.call (.openFile path flags ret) remote) =
      match (s.net.servers host).handle rl bbpath p.files remote (.openIn file ret) with
      | none => none
      | some (server, none) =>
          some (⟨{ p with
              client := ({ s.proc.client.initMercury env with
                fdMap := s.proc.client.fdMap.insert ret file }).recordTimeout host }, .terminated,
              s.net.setServer host server⟩, some (.exited (-1)))
      | some (server, some out) =>
          some (⟨{ p with
              client := { s.proc.client.initMercury env with
                fdMap := s.proc.client.fdMap.insert ret file
                fdRedirMap := s.proc.client.fdRedirMap.insert ret out.ret } }, .running,
              s.net.setServer host server⟩, some (.returned ⟨ret, []⟩)) := by
  have hclient := realOpen_client hopen
  simp only [sysMachine, hrunning, if_true, AppCall.perform, wrapOpen, openAndTrack, hopen, hret,
    if_false, hvacTrackFile_eq htrack, hclient, hhost, Net.answer]
  rcases hhandle : (s.net.servers host).handle rl bbpath p.files remote
    (.openIn file ret) with _ | ⟨server, _ | out⟩
  · simp only [Effect.andThen, Option.map_some, Effect.ofRet, Outcome.map, Net.serve, hhandle]
  · simp only [Effect.andThen, Option.map_some, Effect.ofRet, Outcome.map, Net.serve, hhandle,
      Outcome.status]
  · simp only [Effect.andThen, Option.map_some, Effect.ofRet, Outcome.map, Net.serve, hhandle,
      Outcome.status]

theorem step_open (hrunning : s.status = .running) (hcalm : Calm env N s.proc.client)
    (hopen : realOpen env s.proc path flags ret = some p) (hret : ret ≠ -1)
    (htrack : trackPath env path flags = some file) :
    (sysMachine env rl bbpath).step s (.call (.openFile path flags ret) remote) =
      match (s.net.servers (hostOf env N file)).handle rl bbpath p.files remote
        (.openIn file ret) with
      | none => none
      | some (server, none) =>
          some (⟨{ p with
              client := ({ s.proc.client.initMercury env with
                fdMap := s.proc.client.fdMap.insert ret file }).recordTimeout
                  (hostOf env N file) }, .terminated,
              s.net.setServer (hostOf env N file) server⟩, some (.exited (-1)))
      | some (server, some out) =>
          some (⟨{ p with
              client := { s.proc.client.initMercury env with
                fdMap := s.proc.client.fdMap.insert ret file
                fdRedirMap := s.proc.client.fdRedirMap.insert ret out.ret } }, .running,
              s.net.setServer (hostOf env N file) server⟩, some (.returned ⟨ret, []⟩)) := by
  rw [step_open_of_host hrunning (hcalm.hashHost file) hopen hret htrack]

end Open

end Hvac
