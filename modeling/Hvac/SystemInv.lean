/-
  Hvac/SystemInv.lean
  ===================
  **What every run of the system keeps.**

  `SysInv` puts together the calm client, its link to the servers, and the local
  side of the tracked descriptors.  A step keeps it (`step_sysInv`) when a file of
  which a kept copy was begun is not changed, no node-local name is tracked, and the
  calls that ask the ring are led to the server of the path (`Admissible`); a call
  that does not return leaves a process that makes no further call.
-/
import Hvac.SystemStep

namespace Hvac

open Cxx Posix

variable (env : Env) (allowed : OFlags → Prop) (kept : String → String → Prop) (bbpath : String)

/-! ### The invariant and its condition -/

/-- A tracked descriptor is open on the file it is tracked for, not write-only, and with
    flags that are allowed. -/
def LocallyOpen (fdMap : OrdMap Int String) (fds : FdTable String) : Prop :=
  ∀ fd path, fdMap.find? fd = some path → ∃ f, fds.find? fd = some f ∧ f.file = path ∧
    f.flags &&& O_ACCMODE ≠ O_WRONLY ∧ allowed f.flags

structure SysInv (N : Nat) (s : Sys) : Prop where
  calm : Calm env N s.proc.client
  linked : Linked kept bbpath (hostOf env N) s.proc.client.fdMap s.proc.client.fdRedirMap
    s.proc.files s.net
  locally : LocallyOpen allowed s.proc.client.fdMap s.proc.fds

/-- No server has begun a copy of the file that is kept. -/
def Sys.Unbegun (s : Sys) (file : String) : Prop :=
  ∀ copy, kept file copy → ∀ k, (s.net.servers k).Unbegun file copy

/-- No open and no write changes a file of which a kept copy was begun, what is tracked
    is no node-local name and opened with flags that are allowed, and a call that asks
    the ring is led to the server its path hashes to. -/
def Admissible (s : Sys) : SysLabel → Prop
  | .call (.openFile path flags ret) _ =>
      ∀ file, env.canonical path = some file →
        (ret = -1 ∨ openedContents flags (s.proc.files.find? file) = s.proc.files.find? file ∨
          s.Unbegun kept file) ∧
        (trackPath env path flags = some file → ¬ underBB bbpath file ∧ allowed flags)
  | .call (.write fd data) _ =>
      ∀ file contents fds,
        sysWrite s.proc.files.content s.proc.fds fd data = some (file, contents, fds) →
          s.proc.files.find? file = some contents ∨ s.Unbegun kept file
  | .call (.pread fd _ _) _ => RingAgrees env true s.proc.client fd
  | .call (.lseek fd _ _) _ => RingAgrees env false s.proc.client fd
  | .call (.close fd) _ => RingAgrees env true s.proc.client fd
  | .call (.read _ _) _ => True
  | .call (.read64 _ _) _ => True
  | .call (.readv _ _) _ => True
  | .deliver _ => True
  | .mover _ _ => True

variable {env allowed kept bbpath} {N : Nat}

theorem sysInv_start (allowed : OFlags → Prop) (kept : String → String → Prop) (bbpath : String)
    (N : Nat) (files : Files) : SysInv env allowed kept bbpath N (sysStart env N files) where
  calm := calm_init env N
  linked := linked_init kept bbpath (hostOf env N) files
  locally fd path h := by cases h

/-! ### Pieces of a call -/

section Pieces

variable {fdMap fdMap' : OrdMap Int String} {fds fds' : FdTable String}

theorem LocallyOpen.untrack (h : LocallyOpen allowed fdMap fds)
    (hmap : ∀ fd path, fdMap'.find? fd = some path → fdMap.find? fd = some path) :
    LocallyOpen allowed fdMap' fds :=
  fun fd path hpath => h fd path (hmap fd path hpath)

theorem LocallyOpen.movesOnly (h : LocallyOpen allowed fdMap fds) {fd : Int}
    (hmoves : MovesOnly fd fds fds') : LocallyOpen allowed fdMap fds' := by
  obtain ⟨pos, hpos⟩ := hmoves
  intro fd' path hpath
  obtain ⟨f, hf, hfile, hmode⟩ := h fd' path hpath
  by_cases hfd : fd' = fd
  · exact ⟨{ f with pos := pos }, by rw [hpos, if_pos hfd, hf, Option.map_some], hfile, hmode⟩
  · exact ⟨f, by rw [hpos, if_neg hfd, hf], hfile, hmode⟩

/-- A number without an open file is not tracked. -/
theorem LocallyOpen.untracked (h : LocallyOpen allowed fdMap fds) {fd : Int}
    (hfd : fds.find? fd = none) : fdMap.find? fd = none := by
  rcases hpath : fdMap.find? fd with _ | path
  · rfl
  · obtain ⟨f, hf, -⟩ := h fd path hpath
    rw [hfd] at hf
    cases hf

theorem LocallyOpen.close (h : LocallyOpen allowed fdMap fds) {fd : Int}
    (hfd : fdMap.find? fd = none) : LocallyOpen allowed fdMap (sysClose fds fd).2 := by
  intro fd' path hpath
  have hne : fd' ≠ fd := by
    rintro rfl
    rw [hfd] at hpath
    cases hpath
  rw [find?_sysClose_of_ne hne]
  exact h fd' path hpath

theorem LocallyOpen.insert (h : LocallyOpen allowed fdMap fds) {fd : Int}
    (hfd : fds.find? fd = none) (f : OpenFile String) :
    LocallyOpen allowed fdMap (fds.insert fd f) := by
  intro fd' path hpath
  have hne : fd' ≠ fd := by
    rintro rfl
    rw [h.untracked hfd] at hpath
    cases hpath
  rw [OrdMap.find?_insert_of_ne hne]
  exact h fd' path hpath

/-- With plain flags a tracked descriptor is open for reading. -/
theorem LocallyOpen.canRead (h : LocallyOpen PlainFlags fdMap fds) {fd : Int} {path : String}
    (hpath : fdMap.find? fd = some path) :
    ∃ f, fds.find? fd = some f ∧ f.file = path ∧ canRead f.flags = true := by
  obtain ⟨f, hf, hfile, hmode, hplain⟩ := h fd path hpath
  exact ⟨f, hf, hfile, hplain.canRead hmode⟩

end Pieces

/-- A tracked file was not opened write-only. -/
theorem mode_of_trackPath {path file : String} {flags : OFlags}
    (h : trackPath env path flags = some file) : flags &&& O_ACCMODE ≠ O_WRONLY := by
  unfold trackPath at h
  split at h
  · cases h
  · split at h
    · cases h
    · next hflags => exact hflags

section Calls

variable {rl : ReadLen} {s : Sys}

/-- A call that only moves local positions. -/
theorem SysInv.localMove (h : SysInv env allowed kept bbpath N s) {fd : Int} {fds : FdTable String}
    (hmoves : MovesOnly fd s.proc.fds fds) (status : Status) :
    SysInv env allowed kept bbpath N ⟨{ s.proc with fds := fds }, status, s.net⟩ :=
  ⟨h.calm, h.linked, h.locally.movesOnly hmoves⟩

/-- A request that one server handled, with the descriptor untracked or not, and
    moved locally or not. -/
theorem SysInv.request (h : SysInv env allowed kept bbpath N s) {k remote : Int} {request : Request}
    {server : Server} {reply : Option Reply}
    (hhandle : (s.net.servers k).handle rl bbpath s.proc.files remote request =
      some (server, reply))
    (hrequest : request.Transfers)
    {fdMap : OrdMap Int String}
    (hmap : ∀ fd path, fdMap.find? fd = some path → s.proc.client.fdMap.find? fd = some path)
    {fd : Int} {fds : FdTable String} (hmoves : MovesOnly fd s.proc.fds fds) (status : Status) :
    SysInv env allowed kept bbpath N
      ⟨{ s.proc with client := { s.proc.client with fdMap := fdMap }, fds := fds }, status,
        s.net.setServer k server⟩ where
  calm := h.calm.setMaps fdMap s.proc.client.fdRedirMap
  linked :=
    (h.linked.handle (fun path localfd heq => absurd heq (hrequest.ne_openIn path localfd))
      hrequest.ne_closeIn hhandle).untrack hmap fun _ _ _ => rfl
  locally := (h.locally.movesOnly hmoves).untrack hmap

theorem finishRead_map (c : Client) (fd : Int) (out : Reply) :
    ∃ fdMap, finishRead c fd out = { c with fdMap := fdMap } ∧
      ∀ fd' path, fdMap.find? fd' = some path → c.fdMap.find? fd' = some path := by
  unfold finishRead
  split
  · refine ⟨c.fdMap.erase fd, rfl, ?_⟩
    exact fun _ _ hpath => OrdMap.find?_of_find?_erase hpath
  · exact ⟨c.fdMap, rfl, fun _ _ hpath => hpath⟩

/-- A read that was answered: the descriptor is untracked or not, and moved locally or
    not. -/
theorem SysInv.readReply (h : SysInv env allowed kept bbpath N s)
    {k r localfd inputVal offset remote : Int} {server : Server} {out : Reply}
    (hhandle : (s.net.servers k).handle rl bbpath s.proc.files remote
      (.rpcIn inputVal r localfd offset) = some (server, some out))
    {fd : Int} {fds : FdTable String} (hmoves : MovesOnly fd s.proc.fds fds) (status : Status) :
    SysInv env allowed kept bbpath N
      ⟨{ s.proc with client := finishRead s.proc.client fd out, fds := fds }, status,
        s.net.setServer k server⟩ := by
  obtain ⟨fdMap, hfinish, hmap⟩ := finishRead_map s.proc.client fd out
  rw [hfinish]
  exact h.request hhandle trivial hmap hmoves status

/-- A request that was never answered. -/
theorem SysInv.blocked (h : SysInv env allowed kept bbpath N s) {k remote : Int} {request : Request}
    {server : Server}
    (hhandle : (s.net.servers k).handle rl bbpath s.proc.files remote request =
      some (server, none)) (hrequest : request.Transfers) :
    SysInv env allowed kept bbpath N ⟨s.proc, .blocked, s.net.setServer k server⟩ :=
  h.request hhandle hrequest (fun _ _ hp => hp) (MovesOnly.refl 0 s.proc.fds) .blocked

/-- The entries of a tracked descriptor. -/
theorem SysInv.tracked (h : SysInv env allowed kept bbpath N s) {fd : Int} {path : String}
    (hpath : s.proc.client.fdMap.find? fd = some path) :
    ¬ underBB bbpath path ∧ ∃ r, s.proc.client.fdRedirMap.find? fd = some r ∧
      (r = -1 ∨ RemoteOpen kept bbpath (hostOf env N) s.proc.files s.net path r) :=
  h.linked.entries fd path hpath

end Calls

/-! ### Each call keeps the invariant -/

section Steps

variable {rl : ReadLen} {s s' : Sys} {o : Option (Outcome Reply)} {remote : Int}

theorem SysInv.read (h : SysInv env allowed kept bbpath N s) (hrunning : s.status = .running)
    {fd : Int} {count : Nat}
    (hstep : (sysMachine env rl bbpath).step s (.call (.read fd count) remote) =
      some (s', o)) : SysInv env allowed kept bbpath N s' := by
  rcases hpath : s.proc.client.fdMap.find? fd with _ | path
  · rw [step_read_untracked hrunning hpath] at hstep
    cases hstep
    exact h.localMove (sysRead_movesOnly s.proc.fds fd count) .running
  · obtain ⟨-, r, hr, -⟩ := h.tracked hpath
    obtain ⟨server, reply, hhandle⟩ := @Server.handle_ne_none rl bbpath
      (s.net.servers (hostOf env N path)) s.proc.files remote
      (.rpcIn (int32 count) r fd (-1)) trivial
    rw [step_read hrunning h.calm hpath hr hhandle] at hstep
    cases reply with
    | none =>
      cases hstep
      exact h.blocked hhandle trivial
    | some out =>
      dsimp only at hstep
      split at hstep
      · cases hstep
        exact h.readReply hhandle (sysRead_movesOnly s.proc.fds fd count) .running
      · cases hstep
        exact h.readReply hhandle (MovesOnly.refl fd s.proc.fds) .running

theorem SysInv.pread (h : SysInv env allowed kept bbpath N s) (hN : 1 ≤ N ∧ N < 2 ^ 31)
    (hrunning : s.status = .running) {fd : Int} {count : Nat} {offset : Int}
    (hagree : RingAgrees env true s.proc.client fd)
    (hstep : (sysMachine env rl bbpath).step s (.call (.pread fd count offset) remote) =
      some (s', o)) : SysInv env allowed kept bbpath N s' := by
  have hmoves : MovesOnly fd s.proc.fds
      (sysPread rl s.proc.files.content s.proc.fds fd count offset).fds := by
    rw [sysPread_fds]
    exact MovesOnly.refl fd s.proc.fds
  rcases hpath : s.proc.client.fdMap.find? fd with _ | path
  · rw [step_pread_untracked hrunning hpath] at hstep
    cases hstep
    exact h.localMove hmoves .running
  · obtain ⟨-, r, hr, -⟩ := h.tracked hpath
    obtain ⟨server, reply, hhandle⟩ := @Server.handle_ne_none rl bbpath
      (s.net.servers (hostOf env N path)) s.proc.files remote
      (.rpcIn (int32 count) r fd offset) trivial
    rw [step_pread hN hrunning h.calm hpath hr hagree hhandle] at hstep
    cases reply with
    | none =>
      cases hstep
      exact h.blocked hhandle trivial
    | some out =>
      dsimp only at hstep
      split at hstep
      · cases hstep
        exact h.readReply hhandle hmoves .running
      · cases hstep
        exact h.readReply hhandle (MovesOnly.refl fd s.proc.fds) .running

theorem SysInv.lseek (h : SysInv env allowed kept bbpath N s) (hN : 1 ≤ N ∧ N < 2 ^ 31)
    (hrunning : s.status = .running) {fd offset whence : Int}
    (hagree : RingAgrees env false s.proc.client fd)
    (hstep : (sysMachine env rl bbpath).step s (.call (.lseek fd offset whence) remote) =
      some (s', o)) : SysInv env allowed kept bbpath N s' := by
  rcases hpath : s.proc.client.fdMap.find? fd with _ | path
  · rw [step_lseek_untracked hrunning hpath] at hstep
    cases hstep
    exact h.localMove (sysSeek_movesOnly s.proc.fds fd offset whence) .running
  · obtain ⟨-, r, hr, -⟩ := h.tracked hpath
    obtain ⟨server, reply, hhandle⟩ := @Server.handle_ne_none rl bbpath
      (s.net.servers (hostOf env N path)) s.proc.files remote
      (.seekIn r (int32 offset) whence) trivial
    rw [step_lseek hN hrunning h.calm hpath hr hagree hhandle] at hstep
    cases reply with
    | none =>
      cases hstep
      exact h.blocked hhandle trivial
    | some out =>
      cases hstep
      exact h.request hhandle trivial (fun _ _ hp => hp)
        (MovesOnly.refl fd s.proc.fds) .running

theorem SysInv.close (h : SysInv env allowed kept bbpath N s) (hN : 1 ≤ N ∧ N < 2 ^ 31)
    (hrunning : s.status = .running) {fd : Int} (hagree : RingAgrees env true s.proc.client fd)
    (hstep : (sysMachine env rl bbpath).step s (.call (.close fd) remote) = some (s', o)) :
    SysInv env allowed kept bbpath N s' := by
  rcases hpath : s.proc.client.fdMap.find? fd with _ | path
  · rw [step_close_untracked hrunning hpath] at hstep
    cases hstep
    exact ⟨h.calm, h.linked, h.locally.close hpath⟩
  · obtain ⟨-, r, hr, -⟩ := h.tracked hpath
    rw [step_close hN hrunning h.calm hpath hr hagree] at hstep
    cases hstep
    refine ⟨h.calm.setMaps _ _, h.linked.sendClose hpath hr, ?_⟩
    apply LocallyOpen.close
    · apply h.locally.untrack
      exact fun _ _ hpath' => OrdMap.find?_of_find?_erase hpath'
    · rw [OrdMap.find?_erase, if_pos rfl]

/-- The local side of a file that a call changed. -/
theorem SysInv.setFile (h : SysInv env allowed kept bbpath N s) {file : String} {data : Contents}
    (hkeep : s.proc.files.find? file = some data ∨ s.Unbegun kept file) :
    Linked kept bbpath (hostOf env N) s.proc.client.fdMap s.proc.client.fdRedirMap
      (s.proc.files.insert file data) s.net := by
  rcases hkeep with hsame | hunbegun
  · rw [OrdMap.insert_of_find? hsame]
    exact h.linked
  · exact h.linked.setFile hunbegun data

theorem SysInv.write (h : SysInv env allowed kept bbpath N s) (hrunning : s.status = .running)
    {fd : Int} {data : Contents}
    (hadm : Admissible env allowed kept bbpath s (.call (.write fd data) remote))
    (hstep : (sysMachine env rl bbpath).step s (.call (.write fd data) remote) = some (s', o)) :
    SysInv env allowed kept bbpath N s' := by
  rw [step_write hrunning] at hstep
  cases hstep
  unfold realWrite
  rcases hwrite : sysWrite s.proc.files.content s.proc.fds fd data with _ | ⟨file, contents, fds⟩
  · exact h.localMove (MovesOnly.refl fd s.proc.fds) .running
  · obtain ⟨f, pos, hfd, -, -, -, rfl⟩ := sysWrite_eq_some hwrite
    exact ⟨h.calm, h.setFile (hadm file contents _ hwrite),
      h.locally.movesOnly (MovesOnly.insert hfd _)⟩

/-- What an open leaves of the files and the local descriptors. -/
theorem SysInv.realOpen (h : SysInv env allowed kept bbpath N s) {path : String} {flags : OFlags}
    {ret : Int} {p : Proc}
    (hadm : Admissible env allowed kept bbpath s (.call (.openFile path flags ret) remote))
    (hopen : realOpen env s.proc path flags ret = some p) :
    p.client = s.proc.client ∧
      Linked kept bbpath (hostOf env N) s.proc.client.fdMap s.proc.client.fdRedirMap p.files s.net ∧
      LocallyOpen allowed s.proc.client.fdMap p.fds := by
  rcases realOpen_eq_some hopen with ⟨-, rfl⟩ | ⟨file, data, hret, hfile, hdata, -, hfree, rfl⟩
  · exact ⟨rfl, h.linked, h.locally⟩
  · refine ⟨rfl, h.setFile ?_, h.locally.insert hfree _⟩
    rcases (hadm file hfile).1 with hneg | hsame | hunbegun
    · exact absurd hneg hret
    · exact Or.inl (hsame.symm.trans hdata)
    · exact Or.inr hunbegun

theorem SysInv.openFile (h : SysInv env allowed kept bbpath N s) (hrunning : s.status = .running)
    {path : String} {flags : OFlags} {ret : Int}
    (hadm : Admissible env allowed kept bbpath s (.call (.openFile path flags ret) remote))
    (hstep : (sysMachine env rl bbpath).step s (.call (.openFile path flags ret) remote) =
      some (s', o)) (hstill : s'.status = .running) : SysInv env allowed kept bbpath N s' := by
  rcases hopen : Hvac.realOpen env s.proc path flags ret with _ | p
  · simp [sysMachine, hrunning, AppCall.perform, wrapOpen, openAndTrack, hopen] at hstep
  · obtain ⟨hclient, hlinked, hlocally⟩ := h.realOpen hadm hopen
    by_cases huntracked : ret = -1 ∨ trackPath env path flags = none
    · rw [step_open_untracked hrunning hopen huntracked] at hstep
      cases hstep
      refine ⟨?_, ?_, ?_⟩ <;> dsimp only <;> rw [hclient]
      · exact h.calm
      · exact hlinked
      · exact hlocally
    · obtain ⟨hret, htrack⟩ := not_or.mp huntracked
      obtain ⟨file, htrack⟩ := Option.ne_none_iff_exists'.mp htrack
      rw [step_open hrunning h.calm hopen hret htrack] at hstep
      rcases hhandle : (s.net.servers (hostOf env N file)).handle rl bbpath p.files remote
        (.openIn file ret) with _ | ⟨server, _ | out⟩
      · rw [hhandle] at hstep; cases hstep
      · simp only [hhandle, Option.some.injEq, Prod.mk.injEq] at hstep
        obtain ⟨rfl, -⟩ := hstep
        cases hstill
      · simp only [hhandle, Option.some.injEq, Prod.mk.injEq] at hstep
        obtain ⟨rfl, -⟩ := hstep
        have hcanonical := trackPath_canonical htrack
        refine ⟨h.calm.initMercury _ _,
          hlinked.openIn ((hadm file hcanonical).2 htrack).1 hhandle, ?_⟩
        intro fd' path' hpath'
        rw [OrdMap.find?_insert] at hpath'
        split at hpath'
        · next hfd =>
          cases hpath'
          rcases realOpen_eq_some hopen with ⟨hneg, -⟩ | ⟨file', data, -, hfile, -, -, -, rfl⟩
          · exact absurd hneg hret
          · obtain rfl := Option.some.inj (hcanonical.symm.trans hfile)
            refine ⟨⟨file, flags, 0⟩, ?_, rfl, mode_of_trackPath htrack,
              ((hadm file hcanonical).2 htrack).2⟩
            rw [OrdMap.find?_insert, if_pos hfd]
        · exact hlocally fd' path' hpath'

/-- **A step of the system keeps the invariant as long as the process runs.** -/
theorem step_sysInv (hN : 1 ≤ N ∧ N < 2 ^ 31) {label : SysLabel}
    (h : s.status = .running → SysInv env allowed kept bbpath N s)
    (hadm : Admissible env allowed kept bbpath s label)
    (hstep : (sysMachine env rl bbpath).step s label = some (s', o))
    (hstill : s'.status = .running) : SysInv env allowed kept bbpath N s' := by
  cases label with
  | call call remote =>
    have hrunning := running_of_step hstep
    have hinv := h hrunning
    cases call with
    | openFile path flags ret => exact hinv.openFile hrunning hadm hstep hstill
    | read fd count => exact hinv.read hrunning hstep
    | pread fd count offset => exact hinv.pread hN hrunning hadm hstep
    | lseek fd offset whence => exact hinv.lseek hN hrunning hadm hstep
    | close fd => exact hinv.close hN hrunning hadm hstep
    | read64 fd count =>
      rw [step_read64 hrunning] at hstep
      cases hstep
      exact hinv.localMove (sysRead_movesOnly s.proc.fds fd count) .running
    | readv fd iov =>
      rw [step_readv hrunning] at hstep
      cases hstep
      exact hinv.localMove (sysRead_movesOnly s.proc.fds fd iov.sum) .running
    | write fd data => exact hinv.write hrunning hadm hstep
  | deliver i =>
    obtain ⟨net, hdeliver, rfl, -⟩ := step_deliver_eq_some hstep
    have hinv := h hstill
    exact ⟨hinv.calm, hinv.linked.deliver hdeliver, hinv.locally⟩
  | mover host step =>
    obtain ⟨server, -, hmove, rfl, -⟩ := step_mover_eq_some hstep
    have hinv := h hstill
    exact ⟨hinv.calm, hinv.linked.moverStep hmove, hinv.locally⟩

end Steps

end Hvac
