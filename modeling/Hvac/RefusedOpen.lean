/-
  Hvac/RefusedOpen.lean
  =====================
  **A file the server cannot open**: its descriptor stays tracked, with the `-1` of
  the response in `fd_redir_map`, and every later call is left to cope with that.

  Only `pread` and `close` are written to: the server fails a positional read of
  `-1`, and the client falls back to the local file; a close does not look.  A
  `read` aborts the server, and `lseek` hands the server's `-1` to the application.
  `refusedOpen_invisible_iff` says of every sequence of calls when the application
  does not notice.
-/
import Hvac.OneDescriptor
import Hvac.SeekRange

namespace Hvac

open Cxx Posix

variable {env : Env} {rl : ReadLen} {bbpath : String}

/-! ### The calls that cope -/

/-- A call that copes with the `-1` behind a tracked descriptor: a positional read that
    arrives as one, at a server that lives, or that finds the server given up; a seek
    that fails locally too; a close.  All of them need the ring to name a server. -/
def FdCall.Copes (env : Env) (s : Sys) (fd : Int) (path : String) : FdCall → Prop
  | read _ => False
  | pread count offset => ∃ hostname host,
      s.proc.client.ringHost env path = .ok (hostname, host) ∧
      (s.proc.client.reachedLimit host = true ∨
        (s.net.servers host).alive = true ∧ 0 ≤ int32 count ∧ offset ≠ -1)
  | lseek offset whence => ∃ hostname host,
      s.proc.client.ringHost env path = .ok (hostname, host) ∧
      (s.net.servers host).alive = true ∧
      ∀ f, s.proc.fds.find? fd = some f → canSeek f.flags = true →
        seekTarget (s.proc.files.content f.file).length f.pos offset whence = none
  | close => ∃ hostname host, s.proc.client.ringHost env path = .ok (hostname, host)

/-- Once the descriptor is untracked there is nothing to cope with. -/
def FdLabel.Copes (env : Env) (fd : Int) (s : Sys) : FdLabel → Prop
  | call k _ => ∀ path, s.proc.client.fdMap.find? fd = some path → k.Copes env s fd path
  | deliver _ => True
  | mover _ _ => True

/-! ### The descriptor of a refused open -/

/-- No kernel gives a descriptor the number `-1`. -/
def Net.KernelNumbers (net : Net) : Prop := ∀ host, (net.servers host).fds.find? (-1) = none

/-- The system with the descriptor, beside the plain file system. -/
structure Refused (fd : Int) (x : Sys × Proc) : Prop where
  running : x.1.status = .running
  fds : x.2.fds = x.1.proc.fds
  files : x.2.files = x.1.proc.files
  refused : ∀ path, x.1.proc.client.fdMap.find? fd = some path →
    x.1.proc.client.fdRedirMap.find? fd = some (-1)
  numbers : x.1.net.KernelNumbers

theorem Net.KernelNumbers.setServer {net : Net} (h : net.KernelNumbers) {host : Int}
    {server : Server} (hclosed : server.fds.find? (-1) = none) :
    (net.setServer host server).KernelNumbers :=
  Net.forall_setServer (I := fun server => server.fds.find? (-1) = none) h hclosed

/-! Every request and every step of the mover keeps it so. -/

theorem DescriptorLeaves.closed_neg_one {server server' : Server}
    (h : DescriptorLeaves server server' (-1)) (hclosed : server.fds.find? (-1) = none) :
    server'.fds.find? (-1) = none := by
  cases h with
  | kept hfds _ => exact hfds.mpr hclosed
  | opened hnumber _ => omega
  | closed hfds => exact hfds

theorem Net.KernelNumbers.step {s s' : Sys} (h : s.net.KernelNumbers) {label : SysLabel}
    {o : Option (Outcome Reply)}
    (hstep : (sysMachine env rl bbpath).step s label = some (s', o)) : s'.net.KernelNumbers :=
  forall_server_of_step
    (fun _ _ _ _ _ _ hclosed hhandle => (Server.handle_descriptor hhandle _).closed_neg_one hclosed)
    (fun _ _ _ _ hclosed hmove => (Server.moverStep_descriptor hmove _).closed_neg_one hclosed)
    h hstep

/-- In every state the system reaches. -/
theorem kernelNumbers_of_run {N : Nat} {files : Files} {labels : List SysLabel} {t : Sys}
    {os : List (Option (Outcome Reply))}
    (hrun : (sysMachine env rl bbpath).run (sysStart env N files) labels = some (t, os)) :
    t.net.KernelNumbers :=
  Machine.run_of_step (I := fun s => s.net.KernelNumbers) (fun _ _ _ _ h hstep => h.step hstep)
    (fun _ => rfl) hrun

/-- The open is answered, and the answer is a `-1`. -/
theorem refused_of_open {s₀ s₁ : Sys} {fd : Int} {path file : String} {flags : OFlags}
    (hnumbers : s₀.net.KernelNumbers) (hfd : fd ≠ -1)
    (htrack : trackPath env path flags = some file)
    (hopen : (sysMachine env rl bbpath).step s₀ (.call (.openFile path flags fd) (-1)) =
      some (s₁, some (.returned ⟨fd, []⟩))) :
    Refused fd (s₁, s₁.proc) := by
  have hrunning := running_of_step hopen
  rcases hp : realOpen env s₀.proc path flags fd with _ | p
  · simp only [sysMachine, hrunning, if_true, AppCall.perform, wrapOpen, openAndTrack, hp,
      Option.map_none] at hopen
    cases hopen
  · rw [step_open_of_host hrunning rfl hp hfd htrack] at hopen
    by_cases halive : (s₀.net.servers (s₀.proc.client.hashHost env file)).alive = true
    · simp only [Server.handle, halive, if_true, Server.openRpcHandler] at hopen
      cases hopen
      refine ⟨rfl, rfl, rfl, fun path' hpath' => ?_, hnumbers.setServer (hnumbers _)⟩
      exact OrdMap.find?_insert_self ..
    · simp only [Server.handle, halive, Bool.false_eq_true, if_false] at hopen
      cases hopen

/-! ### One call -/

/-- The call copes, and then it is the local one; or it does not, and shows it. -/
def Refused.CallIs (env : Env) (rl : ReadLen) (s : Sys) (p : Proc) (fd : Int) (path : String)
    (k : FdCall) (s' : Sys) (o : Option (Outcome Reply)) : Prop :=
  k.Copes env s fd path ∧ o = some (.returned (k.direct rl p fd).2) ∧
      Refused fd (s', (k.direct rl p fd).1) ∨
    ¬ k.Copes env s fd path ∧ o ≠ some (.returned (k.direct rl p fd).2)

section Calls

variable {s s' : Sys} {p : Proc} {fd : Int} {path : String} {o : Option (Outcome Reply)}

/-- A call on the local descriptor, which is untracked from then on. -/
theorem Refused.local (h : Refused fd (s, p)) (rl : ReadLen) (k : FdCall) {c : Client} {net : Net}
    (hc : c.fdMap.find? fd = none) (hnet : net.KernelNumbers) :
    let q := k.direct rl { s.proc with client := c } fd
    q.2 = (k.direct rl p fd).2 ∧ Refused fd (⟨q.1, .running, net⟩, (k.direct rl p fd).1) := by
  obtain ⟨hout, hfds, hfiles⟩ :=
    @FdCall.direct_congr rl fd p { s.proc with client := c } h.fds h.files k
  refine ⟨hout.symm, rfl, hfds, hfiles, fun path' hpath' => ?_, hnet⟩
  rw [FdCall.direct_client, hc] at hpath'
  cases hpath'

theorem Refused.fallsBack (h : Refused fd (s, p)) {k : FdCall} (hcopes : k.Copes env s fd path)
    {c : Client} {net : Net} (hc : c.fdMap.find? fd = none) (hnet : net.KernelNumbers) :
    Refused.CallIs env rl s p fd path k
      ⟨(k.direct rl { s.proc with client := c } fd).1, .running, net⟩
      (some (.returned (k.direct rl { s.proc with client := c } fd).2)) := by
  obtain ⟨hout, hrefused⟩ := h.local rl k hc hnet
  exact Or.inl ⟨hcopes, by rw [hout], hrefused⟩

theorem finishRead_failed (c : Client) (fd : Int) :
    (finishRead c fd ⟨-1, []⟩).fdMap.find? fd = none := by
  simp only [finishRead, if_true, OrdMap.find?_erase_self]

theorem sysSeek_of_fails {content : String → Contents} {t : FdTable String} {fd offset whence : Int}
    (h : ∀ f, t.find? fd = some f → canSeek f.flags = true →
      seekTarget (content f.file).length f.pos offset whence = none) :
    sysSeek content t fd offset whence = (-1, t) := by
  rcases hf : t.find? fd with _ | f
  · exact sysSeek_of_closed hf offset whence
  · by_cases hseek : canSeek f.flags = true
    · exact sysSeek_of_no_target hf (h f hf hseek)
    · simp only [sysSeek, hf, hseek, if_false, Bool.false_eq_true]

theorem Refused.read (h : Refused fd (s, p)) (hpath : s.proc.client.fdMap.find? fd = some path)
    {count : Nat} {remote : Int}
    (hstep : (sysMachine env rl bbpath).step s (.call (.read fd count) remote) = some (s', o)) :
    Refused.CallIs env rl s p fd path (.read count) s' o := by
  obtain ⟨server, hhandle⟩ := @Server.handle_rpcIn_none rl bbpath s.proc.files
    (s.net.servers (s.proc.client.hashHost env path)) (-1) (int32 count) fd (-1)
    remote fun _ hspared =>
      ((Server.spared_of_closed (h.numbers _) remote).mp hspared).2 rfl
  rw [step_read_of_host h.running hpath (h.refused path hpath) rfl hhandle] at hstep
  cases hstep
  exact Or.inr ⟨id, by simp⟩

theorem Refused.pread (h : Refused fd (s, p)) (hpath : s.proc.client.fdMap.find? fd = some path)
    {count : Nat} {offset remote : Int}
    (hstep : (sysMachine env rl bbpath).step s (.call (.pread fd count offset) remote) =
      some (s', o)) :
    Refused.CallIs env rl s p fd path (.pread count offset) s' o := by
  rcases hring : s.proc.client.ringHost env path with what | ⟨hostname, host⟩
  · rw [step_pread_threw h.running hpath hring] at hstep
    cases hstep
    exact Or.inr ⟨by simp [FdCall.Copes, hring], by simp⟩
  rcases hlimit : s.proc.client.reachedLimit host with _ | _
  · by_cases hcopes : (s.net.servers host).alive = true ∧ 0 ≤ int32 count ∧ offset ≠ -1
    · obtain ⟨halive, hcount, hoffset⟩ := hcopes
      rw [step_pread_of_ringHost h.running hpath (h.refused path hpath) hring hlimit
        (Server.handle_pread_closed halive hcount (h.numbers host) hoffset remote)] at hstep
      cases hstep
      exact h.fallsBack (k := .pread count offset)
        ⟨hostname, host, hring, Or.inr ⟨halive, hcount, hoffset⟩⟩ (finishRead_failed _ fd)
        (h.numbers.setServer (h.numbers host))
    · obtain ⟨server, hhandle⟩ := @Server.handle_rpcIn_none rl bbpath s.proc.files
        (s.net.servers host) (-1) (int32 count) fd offset remote fun halive hspared =>
          hcopes ⟨halive, (Server.spared_of_closed (h.numbers host) remote).mp hspared⟩
      rw [step_pread_of_ringHost h.running hpath (h.refused path hpath) hring hlimit hhandle]
        at hstep
      cases hstep
      refine Or.inr ⟨?_, by simp⟩
      rintro ⟨hostname', host', hring', hserved⟩
      obtain ⟨rfl, rfl⟩ := Prod.mk.inj (Except.ok.inj (hring.symm.trans hring'))
      rcases hserved with hreached | hserved
      · rw [hlimit] at hreached
        cases hreached
      · exact hcopes hserved
  · rw [step_pread_limit h.running hpath hring hlimit] at hstep
    cases hstep
    exact h.fallsBack (k := .pread count offset) ⟨hostname, host, hring, Or.inl hlimit⟩
      (OrdMap.find?_erase_self ..) h.numbers

/-- A seek that the server answers, with `-1`. -/
theorem Refused.seekAnswered (h : Refused fd (s, p)) {offset whence host : Int} {hostname : String}
    (hring : s.proc.client.ringHost env path = .ok (hostname, host))
    (halive : (s.net.servers host).alive = true) :
    Refused.CallIs env rl s p fd path (.lseek offset whence)
      ⟨s.proc, .running, s.net.setServer host (s.net.servers host)⟩
      (some (.returned ⟨-1, []⟩)) := by
  have hfds : p.fds = s.proc.fds := h.fds
  have hfiles : p.files = s.proc.files := h.files
  by_cases hfails : ∀ f, s.proc.fds.find? fd = some f → canSeek f.flags = true →
      seekTarget (s.proc.files.content f.file).length f.pos offset whence = none
  · have hdirect : (FdCall.lseek offset whence).direct rl p fd = (p, ⟨-1, []⟩) := by
      simp only [FdCall.direct, realLseek, hfds, hfiles, sysSeek_of_fails hfails]
      rw [← hfds, ← hfiles]
    refine Or.inl ⟨⟨hostname, host, hring, halive, hfails⟩, by rw [hdirect], ?_⟩
    rw [hdirect]
    exact ⟨rfl, h.fds, h.files, h.refused, h.numbers.setServer (h.numbers host)⟩
  · push Not at hfails
    obtain ⟨f, hf, hseek, hmoves⟩ := hfails
    obtain ⟨x, hx⟩ := Option.ne_none_iff_exists'.mp hmoves
    have hdirect : ((FdCall.lseek offset whence).direct rl p fd).2 = ⟨x, []⟩ := by
      simp only [FdCall.direct, realLseek, hfds, hfiles, sysSeek_of_target hf hseek hx]
    refine Or.inr ⟨?_, ?_⟩
    · rintro ⟨-, -, -, -, hfails⟩
      rw [hfails f hf hseek] at hx
      cases hx
    · rw [hdirect]
      simp only [ne_eq, Option.some.injEq, Outcome.returned.injEq, Reply.mk.injEq, and_true]
      omega

theorem Refused.lseek (h : Refused fd (s, p)) (hpath : s.proc.client.fdMap.find? fd = some path)
    {offset whence remote : Int}
    (hstep : (sysMachine env rl bbpath).step s (.call (.lseek fd offset whence) remote) =
      some (s', o)) :
    Refused.CallIs env rl s p fd path (.lseek offset whence) s' o := by
  rcases hring : s.proc.client.ringHost env path with what | ⟨hostname, host⟩
  · rw [step_lseek_threw h.running hpath hring] at hstep
    cases hstep
    exact Or.inr ⟨by simp [FdCall.Copes, hring], by simp⟩
  rcases Bool.eq_false_or_eq_true (s.net.servers host).alive with halive | hdead
  · rw [step_lseek_of_ringHost h.running hpath (h.refused path hpath) hring
      (Server.handle_seek_closed halive (h.numbers host) ..)] at hstep
    cases hstep
    exact h.seekAnswered hring halive
  · rw [step_lseek_of_ringHost h.running hpath (h.refused path hpath) hring
      (Server.handle_dead hdead ..)] at hstep
    cases hstep
    refine Or.inr ⟨?_, by simp⟩
    rintro ⟨hostname', host', hring', hlive, -⟩
    obtain ⟨rfl, rfl⟩ := Prod.mk.inj (Except.ok.inj (hring.symm.trans hring'))
    rw [hdead] at hlive
    cases hlive

theorem Refused.close (h : Refused fd (s, p)) (hpath : s.proc.client.fdMap.find? fd = some path)
    {remote : Int}
    (hstep : (sysMachine env rl bbpath).step s (.call (.close fd) remote) = some (s', o)) :
    Refused.CallIs env rl s p fd path .close s' o := by
  rcases hring : s.proc.client.ringHost env path with what | ⟨hostname, host⟩
  · rw [step_close_threw h.running hpath hring] at hstep
    cases hstep
    exact Or.inr ⟨by simp [FdCall.Copes, hring], by simp⟩
  · rcases hlimit : s.proc.client.reachedLimit host with _ | _
    · rw [step_close_of_ringHost h.running hpath (h.refused path hpath) hring hlimit] at hstep
      cases hstep
      exact h.fallsBack (k := .close) ⟨hostname, host, hring⟩ (OrdMap.find?_erase_self ..) h.numbers
    · rw [step_close_limit h.running hpath hring hlimit] at hstep
      cases hstep
      exact h.fallsBack (k := .close) ⟨hostname, host, hring⟩ (OrdMap.find?_erase_self ..) h.numbers

theorem Refused.call (h : Refused fd (s, p)) (hpath : s.proc.client.fdMap.find? fd = some path)
    {k : FdCall} {remote : Int}
    (hstep : (sysMachine env rl bbpath).step s (.call (k.appCall fd) remote) = some (s', o)) :
    Refused.CallIs env rl s p fd path k s' o := by
  cases k with
  | read count => exact h.read hpath hstep
  | pread count offset => exact h.pread hpath hstep
  | lseek offset whence => exact h.lseek hpath hstep
  | close => exact h.close hpath hstep

end Calls

/-- **One step: the application notices nothing exactly when the call copes**, and the
    next one starts from such a state again. -/
theorem Refused.step {fd : Int} {x x' : Sys × Proc} (h : Refused fd x) {label : FdLabel}
    {o : Option (Outcome Reply) × Option (Outcome Reply)}
    (hstep : (besideLocal env rl bbpath fd).step x label = some (x', o)) :
    (o.1 = o.2 ↔ label.Copes env fd x.1) ∧ (label.Copes env fd x.1 → Refused fd x') := by
  obtain ⟨s, p⟩ := x
  obtain ⟨s', p'⟩ := x'
  obtain ⟨o₁, o₂⟩ := o
  obtain ⟨hsys, hdirect⟩ := Machine.both_step_eq_some_iff.mp hstep
  cases label with
  | deliver i =>
    have hnumbers := h.numbers.step hsys
    obtain ⟨net, -, rfl, rfl⟩ := step_deliver_eq_some hsys
    cases hdirect
    exact ⟨iff_of_true rfl trivial, fun _ =>
      ⟨h.running, h.fds, h.files, h.refused, hnumbers⟩⟩
  | mover host step =>
    have hnumbers := h.numbers.step hsys
    obtain ⟨server, -, -, rfl, rfl⟩ := step_mover_eq_some hsys
    cases hdirect
    exact ⟨iff_of_true rfl trivial, fun _ =>
      ⟨h.running, h.fds, h.files, h.refused, hnumbers⟩⟩
  | call k remote =>
    simp only [FdLabel.sys, directMachine, FdCall.direct_appCall] at hsys hdirect
    cases hdirect
    rcases hpath : s.proc.client.fdMap.find? fd with _ | path
    · rw [step_untracked h.running hpath] at hsys
      cases hsys
      obtain ⟨hout, hrefused⟩ := h.local rl k hpath h.numbers
      refine ⟨iff_of_true (by rw [← hout]) fun path hpath' => ?_, fun _ => hrefused⟩
      rw [hpath] at hpath'
      cases hpath'
    · have hcopes : (FdLabel.call k remote).Copes env fd s ↔ k.Copes env s fd path := by
        simp only [FdLabel.Copes, hpath, Option.some.injEq, forall_eq']
      rw [hcopes]
      rcases h.call hpath hsys with ⟨hk, hout, hrefused⟩ | ⟨hk, hout⟩
      · exact ⟨iff_of_true hout hk, fun _ => hrefused⟩
      · exact ⟨iff_of_false hout hk, fun hk' => absurd hk' hk⟩

/-- **When a refused open stays invisible.**  Whatever the state in which a tracked open
    is made that the server refuses, a sequence of calls of the new descriptor, with
    what the servers do between them, goes like the same calls on the local descriptor
    if and only if each of them copes. -/
theorem refusedOpen_invisible_iff {s₀ s₁ : Sys} {fd : Int} {path file : String} {flags : OFlags}
    (hnumbers : s₀.net.KernelNumbers) (hfd : fd ≠ -1)
    (htrack : trackPath env path flags = some file)
    (hopen : (sysMachine env rl bbpath).step s₀ (.call (.openFile path flags fd) (-1)) =
      some (s₁, some (.returned ⟨fd, []⟩))) (labels : List FdLabel) :
    (besideLocal env rl bbpath fd).Along (fun _ _ _ o => o.1 = o.2) (s₁, s₁.proc) labels ↔
      (besideLocal env rl bbpath fd).Along (fun x label _ _ => label.Copes env fd x.1)
        (s₁, s₁.proc) labels :=
  Machine.along_iff (fun _ _ _ _ h hstep => h.step hstep)
    (refused_of_open hnumbers hfd htrack hopen)

/-- `open("/data/a", O_RDONLY)`, which returns 3 and fails at the server. -/
theorem exists_refusedOpen :
    ∃ s₁, (sysMachine zeroHashEnv ReadLen.full "/bb").step (sysStart zeroHashEnv 1 threeBytes)
      (.call (.openFile "/data/a" O_RDONLY 3) (-1)) = some (s₁, some (.returned ⟨3, []⟩)) := by
  have hopen : ((sysMachine zeroHashEnv ReadLen.full "/bb").step (sysStart zeroHashEnv 1 threeBytes)
      (.call (.openFile "/data/a" O_RDONLY 3) (-1))).map Prod.snd =
        some (some (.returned ⟨3, []⟩)) := by
    decide +kernel
  obtain ⟨⟨s₁, o⟩, hopen, rfl⟩ := Option.map_eq_some_iff.mp hopen
  exact ⟨s₁, hopen⟩

/-- A positional read, and the read after it, which is local. -/
theorem refusedOpen_invisible_iff_pread :
    ∃ s₁, (sysMachine zeroHashEnv ReadLen.full "/bb").step (sysStart zeroHashEnv 1 threeBytes)
        (.call (.openFile "/data/a" O_RDONLY 3) (-1)) = some (s₁, some (.returned ⟨3, []⟩)) ∧
      ((besideLocal zeroHashEnv ReadLen.full "/bb" 3).Along (fun _ _ _ o => o.1 = o.2)
          (s₁, s₁.proc) [.call (.pread 2 0) 0, .call (.read 1) 0] ↔
        (besideLocal zeroHashEnv ReadLen.full "/bb" 3).Along
          (fun x label _ _ => label.Copes zeroHashEnv 3 x.1)
          (s₁, s₁.proc) [.call (.pread 2 0) 0, .call (.read 1) 0]) := by
  obtain ⟨s₁, hopen⟩ := exists_refusedOpen
  have htrack : trackPath zeroHashEnv "/data/a" O_RDONLY = some "/data/a" := by decide +kernel
  exact ⟨s₁, hopen, refusedOpen_invisible_iff (fun _ => rfl) (by decide) htrack hopen _⟩

/-- After the refused open, `lseek` returns the server's `-1` where the local descriptor
    moves, and `read` never returns. -/
theorem refusedOpen_visible :
    ∃ s₁, (sysMachine zeroHashEnv ReadLen.full "/bb").step (sysStart zeroHashEnv 1 threeBytes)
        (.call (.openFile "/data/a" O_RDONLY 3) (-1)) = some (s₁, some (.returned ⟨3, []⟩)) ∧
      (∃ x, (besideLocal zeroHashEnv ReadLen.full "/bb" 3).step (s₁, s₁.proc)
        (.call (.lseek 1 SEEK_SET) 0) =
          some (x, (some (.returned ⟨-1, []⟩), some (.returned ⟨1, []⟩)))) ∧
      ∃ x, (besideLocal zeroHashEnv ReadLen.full "/bb" 3).step (s₁, s₁.proc) (.call (.read 1) 0) =
        some (x, (some .blocked, some (.returned ⟨1, [1]⟩))) := by
  obtain ⟨s₁, hopen⟩ := exists_refusedOpen
  have hlseek : ((sysMachine zeroHashEnv ReadLen.full "/bb").step
      (sysStart zeroHashEnv 1 threeBytes) (.call (.openFile "/data/a" O_RDONLY 3) (-1))).map
        (fun x => ((besideLocal zeroHashEnv ReadLen.full "/bb" 3).step (x.1, x.1.proc)
          (.call (.lseek 1 SEEK_SET) 0)).map Prod.snd) =
      some (some (some (.returned ⟨-1, []⟩), some (.returned ⟨1, []⟩))) := by
    decide +kernel
  have hread : ((sysMachine zeroHashEnv ReadLen.full "/bb").step
      (sysStart zeroHashEnv 1 threeBytes) (.call (.openFile "/data/a" O_RDONLY 3) (-1))).map
        (fun x => ((besideLocal zeroHashEnv ReadLen.full "/bb" 3).step (x.1, x.1.proc)
          (.call (.read 1) 0)).map Prod.snd) =
      some (some (some .blocked, some (.returned ⟨1, [1]⟩))) := by
    decide +kernel
  rw [hopen, Option.map_some, Option.some.injEq] at hlseek hread
  obtain ⟨⟨x, -⟩, hx, rfl⟩ := Option.map_eq_some_iff.mp hlseek
  obtain ⟨⟨y, -⟩, hy, rfl⟩ := Option.map_eq_some_iff.mp hread
  exact ⟨s₁, hopen, ⟨x, hx⟩, y, hy⟩

end Hvac
