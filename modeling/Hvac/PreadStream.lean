/-
  Hvac/PreadStream.lean
  =====================
  **Positional reads among sequential ones**, on one tracked descriptor with one
  server.

  Both kinds of read travel in one request, and the server takes the offset `-1`
  for a sequential read.  A positional read that the server can answer leaves the
  whole system as it was (`Stream.pread`), so a sequence of calls goes on as if it
  had not been made (`preads_leave_stream`).  One that fails untracks the
  descriptor, and one with the offset `-1` moves the position (`pread_minus_one`).
-/
import Hvac.OneDescriptor
import Hvac.SeekRange

namespace Hvac

open Cxx Posix

variable {env : Env} {rl : ReadLen} {bbpath : String}

/-- The server has `r` open for reading, and entered in `fd_to_path`. -/
structure Server.HasOpen (server : Server) (r : Int) : Prop where
  alive : server.alive = true
  there : ∃ g, server.fds.find? r = some g ∧ canRead g.flags = true
  named : ∃ path, server.fdToPath.find? r = some path

/-- A tracked descriptor behind which the one server has `r` open. -/
structure Stream (env : Env) (fd r : Int) (s : Sys) : Prop where
  calm : Calm env 1 s.proc.client
  tracked : ∃ path, s.proc.client.fdMap.find? fd = some path
  redir : s.proc.client.fdRedirMap.find? fd = some r
  server : (s.net.servers 0).HasOpen r
  flight : (0, r) ∉ s.net.inFlight

/-- Reads, seeks, and positional reads that the server can answer: their count and their
    offset arrive as they are meant, they end within the offsets of a file, and the
    server's own `pread` does not fail; and what the server does meanwhile. -/
def FdLabel.InStream : FdLabel → Prop
  | call (.read _) _ => True
  | call (.pread count offset) remote =>
      0 ≤ int32 count ∧ 0 ≤ offset ∧ offset.toNat + (int32 count).toNat ≤ LOFF_MAX ∧ remote ≠ -1
  | call (.lseek _ _) _ => True
  | call .close _ => False
  | deliver _ => True
  | mover _ _ => True

def FdLabel.isPread : FdLabel → Bool
  | call (.pread _ _) _ => true
  | _ => false

/-! ### A descriptor is one in every run -/

/-- The open handler enters a descriptor into `fd_to_path`, and only a close of it
    takes it out. -/
def Server.Named (server : Server) : Prop :=
  ∀ r, server.fds.find? r ≠ none → ∃ path, server.fdToPath.find? r = some path

theorem Server.Named.leaves {server server' : Server} (h : server.Named)
    (hleaves : ∀ r, DescriptorLeaves server server' r) : server'.Named := by
  intro r hr
  cases hleaves r with
  | kept hfds hentry =>
    obtain ⟨path, hpath⟩ := h r (mt hfds.mpr hr)
    exact hentry path hpath
  | opened _ hentry => exact hentry
  | closed hfds => exact absurd hfds hr

/-! ### One call -/

section Calls

variable {s s' : Sys} {fd r : Int} {o : Option (Outcome Reply)}

/-- A server moves on and keeps the descriptor. -/
theorem Stream.setServer (h : Stream env fd r s) {host : Int} {server : Server} (status : Status)
    (hserver : host = 0 → server.HasOpen r) :
    Stream env fd r ⟨s.proc, status, s.net.setServer host server⟩ where
  calm := h.calm
  tracked := h.tracked
  redir := h.redir
  server := by
    rw [Net.servers_setServer]
    split
    · next hhost => exact hserver hhost.symm
    · exact h.server
  flight := h.flight

theorem Net.setServer_self (net : Net) (host : Int) :
    net.setServer host (net.servers host) = net := by
  rw [Net.setServer, Function.update_eq_self]

theorem Server.HasOpen.close {server : Server} (h : server.HasOpen r) {q : Int} (hne : r ≠ q) :
    (server.closeRpcHandler q).HasOpen r where
  alive := h.alive
  there := by
    obtain ⟨g, hg, hread⟩ := h.there
    exact ⟨g, (find?_sysClose_of_ne hne _).trans hg, hread⟩
  named := by
    obtain ⟨path, hpath⟩ := h.named
    exact ⟨path, (OrdMap.find?_erase_of_ne hne _).trans (OrdMap.find?_index hpath q "")⟩

/-- A positional read changes nothing. -/
theorem Stream.pread (h : Stream env fd r s) (hrunning : s.status = .running) {count : Nat}
    {offset remote : Int} (hlabel : (FdLabel.call (.pread count offset) remote).InStream)
    (hstep : (sysMachine env rl bbpath).step s (.call (.pread fd count offset) remote) =
      some (s', o)) : s' = s := by
  obtain ⟨path, hpath⟩ := h.tracked
  obtain ⟨halive, ⟨g, hg, hread⟩, ⟨p, hp⟩⟩ := h.server
  obtain ⟨hcount, hoffset, hend, hremote⟩ := hlabel
  obtain ⟨hostname, hhost⟩ := h.calm.ringHost_one hpath
  rw [step_pread_of_ringHost hrunning hpath h.redir hhost (h.calm.reachedLimit 0)
    (Server.handle_pread halive hcount hg hread hoffset hend hremote)] at hstep
  simp only [finishRead_natCast, not_lt.mpr (Int.natCast_nonneg _), if_false,
    OrdMap.index_of_find? hp, Option.some.injEq, Prod.mk.injEq] at hstep
  obtain ⟨rfl, -⟩ := hstep
  rw [← hrunning, Net.setServer_self]

theorem Stream.read (h : Stream env fd r s) (hrunning : s.status = .running) {count : Nat}
    {remote : Int}
    (hstep : (sysMachine env rl bbpath).step s (.call (.read fd count) remote) = some (s', o))
    (hstill : s'.status = .running) : Stream env fd r s' := by
  obtain ⟨path, hpath⟩ := h.tracked
  obtain ⟨halive, ⟨g, hg, hread⟩, ⟨p, hp⟩⟩ := h.server
  have hhost := h.calm.hashHost_one path
  by_cases hspared : (s.net.servers 0).Spared remote (.rpcIn (int32 count) r fd (-1))
  · obtain ⟨hcount, hends⟩ := hspared
    obtain ⟨hremote, g', hg', hend⟩ := hends rfl
    obtain rfl := Option.some.inj (hg.symm.trans hg')
    rw [step_read_of_host hrunning hpath h.redir hhost
      (Server.handle_read halive hcount hg hread hend hremote)] at hstep
    simp only [finishRead_natCast, int32_readLen, not_lt.mpr (Int.natCast_nonneg _), if_false,
      Option.some.injEq, Prod.mk.injEq] at hstep
    obtain ⟨rfl, -⟩ := hstep
    exact h.setServer .running fun _ =>
      ⟨halive, ⟨_, OrdMap.find?_insert_self .., hread⟩, p, OrdMap.find?_index hp r ""⟩
  · -- the server aborts, and the process waits for ever
    obtain ⟨server, hhandle⟩ := @Server.handle_rpcIn_none rl bbpath s.proc.files
      (s.net.servers 0) r (int32 count) fd (-1) remote fun _ => hspared
    rw [step_read_of_host hrunning hpath h.redir hhost hhandle] at hstep
    cases hstep
    cases hstill

theorem Stream.lseek (h : Stream env fd r s) (hrunning : s.status = .running)
    {offset whence remote : Int}
    (hstep : (sysMachine env rl bbpath).step s (.call (.lseek fd offset whence) remote) =
      some (s', o)) : Stream env fd r s' := by
  obtain ⟨path, hpath⟩ := h.tracked
  obtain ⟨halive, ⟨g, hg, hread⟩, hnamed⟩ := h.server
  obtain ⟨hostname, hhost⟩ := h.calm.ringHost_one hpath
  rcases hx : seekTarget ((s.net.servers 0).content bbpath s.proc.files g.file).length g.pos
    (int32 offset) whence with _ | x
  · rw [step_lseek_of_ringHost hrunning hpath h.redir hhost
      (Server.handle_seek_failed halive hg hx remote)] at hstep
    cases hstep
    exact h.setServer .running fun _ => h.server
  · rw [step_lseek_of_ringHost hrunning hpath h.redir hhost
      (Server.handle_seek halive hg (canSeek_of_canRead hread) hx remote)] at hstep
    cases hstep
    exact h.setServer .running fun _ => ⟨halive, ⟨_, OrdMap.find?_insert_self .., hread⟩, hnamed⟩

/-- A close request for another descriptor. -/
theorem Stream.deliver (h : Stream env fd r s) {i : Nat}
    (hstep : (sysMachine env rl bbpath).step s (.deliver i) = some (s', o)) :
    Stream env fd r s' := by
  obtain ⟨net, hdeliver, rfl, -⟩ := step_deliver_eq_some hstep
  obtain ⟨host, q, server, hi, hhandle, rfl⟩ :=
    @Net.deliver_eq_some rl bbpath s.proc.files s.net i net hdeliver
  have hstream := @Stream.setServer env s fd r h host server s.status fun hhost => by
    subst hhost
    have hne : r ≠ q := by
      rintro rfl
      exact h.flight (List.mem_of_getElem? hi)
    rw [Server.handle, if_pos h.server.alive] at hhandle
    cases hhandle
    exact h.server.close hne
  exact ⟨hstream.calm, hstream.tracked, hstream.redir, hstream.server,
    fun hmem => h.flight (List.mem_of_mem_eraseIdx hmem)⟩

theorem Stream.mover (h : Stream env fd r s) {host : Int} {step : MoverStep}
    (hstep : (sysMachine env rl bbpath).step s (.mover host step) = some (s', o)) :
    Stream env fd r s' := by
  obtain ⟨server, -, hmove, rfl, -⟩ := step_mover_eq_some hstep
  obtain ⟨hsame, hfds, hpaths, -⟩ := Server.moverStep_frame hmove
  refine h.setServer s.status fun hhost => ?_
  subst hhost
  exact ⟨hsame.trans h.server.alive, by rw [hfds]; exact h.server.there,
    by rw [hpaths]; exact h.server.named⟩

theorem Stream.step (h : s.status = .running → Stream env fd r s) {label : FdLabel}
    (hlabel : label.InStream)
    (hstep : (fdMachine env rl bbpath fd).step s label = some (s', o)) :
    (s'.status = .running → Stream env fd r s') ∧ (label.isPread = true → s' = s) := by
  cases label with
  | call k remote =>
    have hrunning := running_of_step hstep
    cases k with
    | read count => exact ⟨(h hrunning).read hrunning hstep, fun hpread => by cases hpread⟩
    | pread count offset =>
      obtain rfl := (h hrunning).pread hrunning hlabel hstep
      exact ⟨h, fun _ => rfl⟩
    | lseek offset whence =>
      exact ⟨fun _ => (h hrunning).lseek hrunning hstep, fun hpread => by cases hpread⟩
    | close => cases hlabel
  | deliver i =>
    have hsys : (sysMachine env rl bbpath).step s (.deliver i) = some (s', o) := hstep
    have hstatus : s'.status = s.status := by
      obtain ⟨net, -, rfl, -⟩ := step_deliver_eq_some hsys
      rfl
    exact ⟨fun hstill => (h (hstatus ▸ hstill)).deliver hsys, fun hpread => by cases hpread⟩
  | mover host step =>
    have hsys : (sysMachine env rl bbpath).step s (.mover host step) = some (s', o) := hstep
    have hstatus : s'.status = s.status := by
      obtain ⟨server, -, -, rfl, -⟩ := step_mover_eq_some hsys
      rfl
    exact ⟨fun hstill => (h (hstatus ▸ hstill)).mover hsys, fun hpread => by cases hpread⟩

/-! ### Sequences of calls -/

/-- **Positional reads do not move the stream.**  In a sequence of reads, seeks and
    positional reads of a tracked descriptor, the latter with counts and offsets that the
    server can answer, no positional read moves the server's position, and the other
    calls return what they return without them. -/
theorem preads_leave_stream (h : Stream env fd r s) {labels : List FdLabel}
    (hlabels : ∀ label ∈ labels, label.InStream) :
    (fdMachine env rl bbpath fd).Along (fun s label s' _ => label.isPread = true →
        posOf (s'.net.servers 0).fds r = posOf (s.net.servers 0).fds r) s labels ∧
      ((fdMachine env rl bbpath fd).trace s labels).filter (fun x => !x.1.isPread) =
        (fdMachine env rl bbpath fd).trace s (labels.filter fun label => !label.isPread) := by
  constructor
  · refine Machine.along_of_invariant (I := fun s => s.status = .running → Stream env fd r s)
      (C := fun _ label _ _ => label.InStream) ?_ (fun _ => h)
      (Machine.along_of_forall_mem hlabels)
    intro s label s' o hs hlabel hstep
    obtain ⟨hs', hpread⟩ := Stream.step hs hlabel hstep
    exact ⟨fun hp => by rw [hpread hp], hs'⟩
  · refine @Machine.trace_filter _ _ _ (fdMachine env rl bbpath fd)
      (fun s t => s = t ∧ (s.status = .running → Stream env fd r s)) FdLabel.InStream
      (fun label => !label.isPread) ?_ ?_ labels s s ⟨rfl, fun _ => h⟩ hlabels
    · rintro s t label ⟨rfl, hs⟩ hlabel -
      rcases hstep : (fdMachine env rl bbpath fd).step s label with _ | ⟨s', o⟩
      · exact Or.inl ⟨rfl, rfl⟩
      · exact Or.inr ⟨s', s', o, rfl, rfl, rfl, (Stream.step hs hlabel hstep).1⟩
    · rintro s t label s' o ⟨rfl, hs⟩ hlabel hpread hstep
      obtain rfl := (Stream.step hs hlabel hstep).2 (by simpa using hpread)
      exact ⟨rfl, hs⟩

end Calls

/-! ### Every tracked descriptor -/

/-- A descriptor that a run tracked, and the server opened, is one. -/
theorem SysInv.stream {allowed : OFlags → Prop} {kept : String → String → Prop} {files : Files}
    {labels : List SysLabel} {s : Sys} {os : List (Option (Outcome Reply))}
    (h : SysInv env allowed kept bbpath 1 s)
    (hrun : (sysMachine env rl bbpath).run (sysStart env 1 files) labels = some (s, os))
    (halive : (s.net.servers 0).alive = true) {fd r : Int} {path : String}
    (hpath : s.proc.client.fdMap.find? fd = some path)
    (hr : s.proc.client.fdRedirMap.find? fd = some r) (hopened : r ≠ -1) :
    Stream env fd r s := by
  have hnamed := forall_server_of_run
    (fun _ _ _ _ _ _ h hhandle => Server.Named.leaves h (Server.handle_descriptor hhandle))
    (fun _ _ _ _ h hmove => Server.Named.leaves h (Server.moverStep_descriptor hmove))
    (fun _ hr => absurd rfl hr) hrun
  obtain ⟨-, r', hr', hlink⟩ := h.tracked hpath
  obtain rfl := Option.some.inj (hr.symm.trans hr')
  obtain ⟨⟨g, hg, -⟩, hflight⟩ := hlink.resolve_left hopened
  rw [hostOf_one] at hg hflight
  have hflags := ((h.linked.servers 0).descriptors r g hg).2
  exact
    { calm := h.calm
      tracked := ⟨path, hpath⟩
      redir := hr
      server := ⟨halive, ⟨g, hg, by rw [hflags]; rfl⟩, hnamed 0 r (by rw [hg]; simp)⟩
      flight := hflight }

/-- `oneFileSys` with the entry of `fd_to_path`. -/
def streamSys (data : Contents) : Sys :=
  { oneFileSys data with
    net := ⟨fun _ => { (oneFileSys data).net.servers 0 with
      fdToPath := OrdMap.empty.insert 5 "/data/a" }, []⟩ }

theorem stream_streamSys (data : Contents) : Stream zeroHashEnv 3 5 (streamSys data) where
  calm := calm_oneFileSys data
  tracked := ⟨"/data/a", rfl⟩
  redir := rfl
  server := ⟨rfl, ⟨⟨"/data/a", O_RDONLY, 0⟩, rfl, rfl⟩, "/data/a", rfl⟩
  flight := List.not_mem_nil

/-- `pread` between two reads. -/
def streamLabels : List FdLabel := [.call (.read 1) 0, .call (.pread 2 0) 0, .call (.read 1) 0]

theorem preads_leave_stream_two :
    (fdMachine zeroHashEnv ReadLen.full "/bb" 3).Along (fun s label s' _ => label.isPread = true →
        posOf (s'.net.servers 0).fds 5 = posOf (s.net.servers 0).fds 5)
        (streamSys [1, 2, 3]) streamLabels ∧
      ((fdMachine zeroHashEnv ReadLen.full "/bb" 3).trace (streamSys [1, 2, 3]) streamLabels).filter
          (fun x => !x.1.isPread) =
        (fdMachine zeroHashEnv ReadLen.full "/bb" 3).trace (streamSys [1, 2, 3])
          (streamLabels.filter fun label => !label.isPread) :=
  preads_leave_stream (stream_streamSys [1, 2, 3])
    (by simp [streamLabels, FdLabel.InStream]; decide)

/-- `pread(fd, buf, 1, -1)` returns the first byte, and the read after it the second. -/
theorem pread_minus_one :
    ((fdMachine zeroHashEnv ReadLen.full "/bb" 3).trace (streamSys [1, 2, 3])
        [.call (.pread 1 (-1)) 0, .call (.read 1) 0]).filter (fun x => !x.1.isPread) =
      [(.call (.read 1) 0, some (.returned ⟨1, [2]⟩))] ∧
    (fdMachine zeroHashEnv ReadLen.full "/bb" 3).trace (streamSys [1, 2, 3]) [.call (.read 1) 0] =
      [(.call (.read 1) 0, some (.returned ⟨1, [1]⟩))] := by
  constructor
  · decide +kernel
  · decide +kernel

end Hvac
