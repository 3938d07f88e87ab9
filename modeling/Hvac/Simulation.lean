/-
  Hvac/Simulation.lean
  ====================
  **Redirected calls against the plain file system**, with one server.

  `directMachine` performs the same calls on the process's own descriptors and
  ignores the servers.  A tracked descriptor has two positions, the server's and
  the local one, of which the plain file system has one: `Follows` says which side
  is to be believed (`side`), and that the plain descriptor stands there.  A step
  keeps it when the call looks at the side that is believed, or both agree
  (`Follows.step`): read and lseek look at the server's side and leave it as the
  one to believe, read64 and readv at the local one.

  For the redirected calls alone that is always the server's, so the two systems
  answer alike (`redirected_simulates`), until a positional read that fails at the
  server untracks its descriptor: what is read from then on is read at the local
  position, which nothing has moved (`read_after_failed_pread`).
-/
import Hvac.SystemInv

namespace Hvac

open Cxx Posix

variable (env : Env) (rl : ReadLen) (bbpath : String)

/-! ### The plain file system -/

/-- A call on the process's own descriptors. -/
def AppCall.direct (p : Proc) : AppCall → Option (Proc × Reply)
  | .openFile path flags ret => (realOpen env p path flags ret).map fun p => (p, ⟨ret, []⟩)
  | .read fd count => some (realRead rl p fd count)
  | .pread fd count offset => some (realPread rl p fd count offset)
  | .lseek fd offset whence =>
      let (p, ret) := realLseek p fd offset whence
      some (p, ⟨ret, []⟩)
  | .close fd =>
      let (p, ret) := realClose p fd
      some (p, ⟨ret, []⟩)
  | .read64 fd count => some (realRead rl p fd count)
  | .readv fd iov => some (realRead rl p fd iov.sum)
  | .write fd data =>
      let (p, ret) := realWrite p fd data
      some (p, ⟨ret, []⟩)

def directMachine : Machine Proc SysLabel (Option (Outcome Reply)) where
  step p
    | .call call _ =>
        match call.direct env rl p with
        | none => none
        | some (p', out) => some (p', some (.returned out))
    | .deliver _ => some (p, none)
    | .mover _ _ => some (p, none)

/-! ### Two positions -/

inductive Side where
  | remote
  | real
deriving DecidableEq

/-- The position of a tracked descriptor on one side: locally `f`, at the server `g`. -/
def Side.pos (side : Side) (f g : OpenFile String) : Nat :=
  match side with
  | .remote => g.pos
  | .real => f.pos

/-- The server's descriptor behind `fd`. -/
def Sys.remoteFile (s : Sys) (fd : Int) : Option (OpenFile String) :=
  match s.proc.client.fdRedirMap.find? fd with
  | none => none
  | some r => (s.net.servers 0).fds.find? r

/-- The plain descriptor is the local one, at the position that is believed if the
    descriptor is tracked. -/
def Agrees (s : Sys) (side : Side) (p : Proc) (fd : Int) : Prop :=
  match s.proc.client.fdMap.find? fd with
  | none => p.fds.find? fd = s.proc.fds.find? fd
  | some _ => ∃ f g, s.proc.fds.find? fd = some f ∧ s.remoteFile fd = some g ∧
      p.fds.find? fd = some { f with pos := side.pos f g }

structure Follows (s : Sys) (side : Int → Side) (p : Proc) : Prop where
  running : s.status = .running
  inv : SysInv env PlainFlags (fun _ _ => True) bbpath 1 s
  alive : (s.net.servers 0).alive = true
  files : p.files = s.proc.files
  fds : ∀ fd, Agrees s (side fd) p fd

/-- The calls within the limits of the protocol: an open changes no file, and one that is
    tracked is plain, names no node-local file and is not refused by the server; a
    count, an offset and the position a seek leads to fit in 32 bits; a positional
    read names an offset; no read passes the largest offset or fails at the server;
    the whence of a seek is a matter of position and size. -/
def Ordinary (s : Sys) : SysLabel → Prop
  | .call (.openFile path flags ret) remote => ∀ file ∈ env.canonical path,
      (ret = -1 ∨ openedContents flags (s.proc.files.find? file) = s.proc.files.find? file) ∧
        (trackPath env path flags = some file →
          PlainFlags flags ∧ ¬ underBB bbpath file ∧ remote ≠ -1)
  | .call (.read fd count) remote =>
      count < 2 ^ 31 ∧ ∀ _path ∈ s.proc.client.fdMap.find? fd, ∀ g ∈ s.remoteFile fd,
        g.pos + count ≤ LOFF_MAX ∧ remote ≠ -1
  | .call (.pread fd count offset) remote =>
      (count < 2 ^ 31 ∧ 0 ≤ offset) ∧ ∀ _path ∈ s.proc.client.fdMap.find? fd,
        offset.toNat + count ≤ LOFF_MAX ∧ remote ≠ -1
  | .call (.lseek fd offset whence) _ =>
      ∀ path ∈ s.proc.client.fdMap.find? fd, ∀ g ∈ s.remoteFile fd,
        PlainWhence whence ∧ IsInt32 offset ∧
          ∀ x ∈ seekTarget (s.proc.files.content path).length g.pos offset whence, x < 2 ^ 31
  | .call (.write _ _) _ => False
  | .call (.close _) _ => True
  | .call (.read64 _ _) _ => True
  | .call (.readv _ _) _ => True
  | .deliver _ => True
  | .mover _ _ => True

instance (s : Sys) : ∀ label, Decidable (Ordinary env bbpath s label)
  | .call (.openFile _ _ _) _ => inferInstanceAs (Decidable (∀ _ ∈ _, _ ∧ (_ → _)))
  | .call (.read _ _) _ => inferInstanceAs (Decidable (_ ∧ ∀ _ ∈ _, ∀ _ ∈ _, _))
  | .call (.pread _ _ _) _ => inferInstanceAs (Decidable (_ ∧ ∀ _ ∈ _, _))
  | .call (.lseek _ _ _) _ => inferInstanceAs (Decidable (∀ _ ∈ _, ∀ _ ∈ _, _))
  | .call (.write _ _) _ => isFalse id
  | .call (.close _) _ => isTrue trivial
  | .call (.read64 _ _) _ => isTrue trivial
  | .call (.readv _ _) _ => isTrue trivial
  | .deliver _ => isTrue trivial
  | .mover _ _ => isTrue trivial

/-- The side is the one to believe, or the two positions are the same. -/
def Current (s : Sys) (side : Int → Side) (fd : Int) (used : Side) : Prop :=
  side fd = used ∨ ∀ f ∈ s.proc.fds.find? fd, ∀ g ∈ s.remoteFile fd, f.pos = g.pos

instance (s : Sys) (side : Int → Side) (fd : Int) (used : Side) :
    Decidable (Current s side fd used) := inferInstanceAs (Decidable (_ ∨ ∀ _ ∈ _, ∀ _ ∈ _, _))

/-- The call looks at a position that is right. -/
def SideAgrees (s : Sys) (side : Int → Side) : SysLabel → Prop
  | .call (.read fd _) _ => Current s side fd .remote
  | .call (.lseek fd _ whence) _ => whence = SEEK_CUR → Current s side fd .remote
  | .call (.read64 fd _) _ => Current s side fd .real
  | .call (.readv fd _) _ => Current s side fd .real
  | .call (.openFile _ _ _) _ => True
  | .call (.pread _ _ _) _ => True
  | .call (.close _) _ => True
  | .call (.write _ _) _ => True
  | .deliver _ => True
  | .mover _ _ => True

instance (s : Sys) (side : Int → Side) : ∀ label, Decidable (SideAgrees s side label)
  | .call (.read _ _) _ => inferInstanceAs (Decidable (Current ..))
  | .call (.lseek _ _ _) _ => inferInstanceAs (Decidable (_ → Current ..))
  | .call (.read64 _ _) _ => inferInstanceAs (Decidable (Current ..))
  | .call (.readv _ _) _ => inferInstanceAs (Decidable (Current ..))
  | .call (.openFile _ _ _) _ => isTrue trivial
  | .call (.pread _ _ _) _ => isTrue trivial
  | .call (.close _) _ => isTrue trivial
  | .call (.write _ _) _ => isTrue trivial
  | .deliver _ => isTrue trivial
  | .mover _ _ => isTrue trivial

/-- The side to believe after a step. -/
def sideAfter (side : Int → Side) (label : SysLabel) (o : Option (Outcome Reply)) : Int → Side :=
  match label, o with
  | .call (.openFile _ _ ret) _, _ => if ret = -1 then side else Function.update side ret .remote
  | .call (.read fd _) _, _ => Function.update side fd .remote
  | .call (.lseek fd _ _) _, some (.returned out) =>
      if out.ret = -1 then side else Function.update side fd .remote
  | .call (.read64 fd _) _, _ => Function.update side fd .real
  | .call (.readv fd _) _, _ => Function.update side fd .real
  | _, _ => side

/-- What is known of a tracked descriptor. -/
structure TrackedFd (s : Sys) (side : Int → Side) (p : Proc) (fd : Int) (path : String) (r : Int)
    (f g : OpenFile String) : Prop where
  redir : s.proc.client.fdRedirMap.find? fd = some r
  here : s.proc.fds.find? fd = some f
  canRead : canRead f.flags = true
  file : f.file = path
  there : (s.net.servers 0).fds.find? r = some g
  canReadThere : Posix.canRead g.flags = true
  content : (s.net.servers 0).content bbpath s.proc.files g.file = s.proc.files.content path
  plain : p.fds.find? fd = some { f with pos := (side fd).pos f g }

variable {env rl bbpath}

theorem TrackedFd.remoteFile {s : Sys} {side : Int → Side} {p : Proc} {fd r : Int} {path : String}
    {f g : OpenFile String} (h : TrackedFd bbpath s side p fd path r f g) :
    s.remoteFile fd = some g := by
  simp only [Sys.remoteFile, h.redir]
  exact h.there

theorem follows_start (files : Files) (p : Proc) (hfiles : p.files = files)
    (hfds : p.fds = OrdMap.empty) (side : Int → Side) :
    Follows env bbpath (sysStart env 1 files) side p where
  running := rfl
  inv := sysInv_start PlainFlags (fun _ _ => True) bbpath 1 files
  alive := rfl
  files := hfiles
  fds fd := by
    show p.fds.find? fd = none
    rw [hfds]
    rfl

/-! ### Descriptors of the two systems -/

section Descriptors

variable {s : Sys} {side : Int → Side} {p : Proc} {fd : Int}

/-- A descriptor that a step leaves alone. -/
theorem Agrees.frame {s' : Sys} {p' : Proc} {one : Side} (h : Agrees s one p fd)
    (hmap : s'.proc.client.fdMap.find? fd = s.proc.client.fdMap.find? fd)
    (hfds : s'.proc.fds.find? fd = s.proc.fds.find? fd)
    (hremote : ∀ path, s.proc.client.fdMap.find? fd = some path →
      s'.remoteFile fd = s.remoteFile fd)
    (hp : p'.fds.find? fd = p.fds.find? fd) : Agrees s' one p' fd := by
  unfold Agrees at h ⊢
  rw [hmap, hfds, hp]
  rcases hpath : s.proc.client.fdMap.find? fd with _ | path
  · rw [hpath] at h
    exact h
  · rw [hpath] at h
    simp only [hremote path hpath]
    exact h

theorem Follows.tracked (h : Follows env bbpath s side p) {path : String}
    (hpath : s.proc.client.fdMap.find? fd = some path) :
    ∃ r f g, TrackedFd bbpath s side p fd path r f g := by
  obtain ⟨hunder, r, hr, hlink⟩ := h.inv.tracked hpath
  have hagree := h.fds fd
  simp only [Agrees, hpath, Sys.remoteFile, hr] at hagree
  obtain ⟨f, g, hf, hg, hp⟩ := hagree
  obtain ⟨f', hf', hfile, hread⟩ := h.inv.locally.canRead hpath
  obtain rfl := Option.some.inj (hf.symm.trans hf')
  obtain ⟨hnonneg, hflags⟩ := (h.inv.linked.servers 0).descriptors r g hg
  have hne : r ≠ -1 := by omega
  obtain ⟨⟨g', hg', hreads⟩, -⟩ := hlink.resolve_left hne
  rw [hostOf_one] at hg' hreads
  obtain rfl := Option.some.inj (hg.symm.trans hg')
  exact ⟨r, f, g, hr, hf, hread, hfile, hg, by rw [hflags]; rfl,
    (hreads trivial).content_eq hunder, hp⟩

/-- A call on the local side, of a descriptor that is untracked or whose local side
    is the one to believe from now on. -/
theorem Follows.moveReal (h : Follows env bbpath s side p) {fds fds' : FdTable String}
    (hmoves : MovesOnly fd s.proc.fds fds) (hmoves' : MovesOnly fd p.fds fds')
    (hsame : fds'.find? fd = fds.find? fd) {side' : Int → Side}
    (hside : ∀ k, k ≠ fd → side' k = side k)
    (hreal : s.proc.client.fdMap.find? fd = none ∨ side' fd = .real) :
    Follows env bbpath ⟨{ s.proc with fds := fds }, .running, s.net⟩ side'
      { p with fds := fds' } where
  running := rfl
  inv := h.inv.localMove hmoves .running
  alive := h.alive
  files := h.files
  fds k := by
    by_cases hk : k = fd
    · subst hk
      rcases hpath : s.proc.client.fdMap.find? k with _ | path
      · simp only [Agrees, hpath]
        exact hsame
      · obtain ⟨r, f, g, ht⟩ := h.tracked hpath
        obtain ⟨pos, hpos⟩ := hmoves
        have hf : fds.find? k = some { f with pos := pos } := by
          rw [hpos, if_pos rfl, ht.here, Option.map_some]
        rw [hreal.resolve_left (by rw [hpath]; exact Option.some_ne_none path)]
        simp only [Agrees, hpath, Sys.remoteFile, ht.redir]
        exact ⟨{ f with pos := pos }, g, hf, ht.there, hsame.trans hf⟩
    · rw [hside k hk]
      exact (h.fds k).frame rfl (hmoves.find?_of_ne hk) (fun _ _ => rfl) (hmoves'.find?_of_ne hk)

/-- Another descriptor's server side does not notice a move of this one's. -/
theorem Follows.remoteFile_of_ne (h : Follows env bbpath s side p) {k r : Int} {path path' : String}
    (hpath : s.proc.client.fdMap.find? fd = some path)
    (hpath' : s.proc.client.fdMap.find? k = some path')
    (hr : s.proc.client.fdRedirMap.find? fd = some r) (hr' : r ≠ -1) (hk : k ≠ fd) :
    s.proc.client.fdRedirMap.find? k ≠ some r := by
  intro hsame
  apply hk
  apply h.inv.linked.distinct k fd path' path r hpath' hpath hsame hr hr'
  rw [hostOf_one, hostOf_one]

/-- The server moved the position of a tracked descriptor, which is the one to
    believe from now on. -/
theorem Follows.moveRemote (h : Follows env bbpath s side p) {path : String} {r : Int}
    {f g : OpenFile String} (hpath : s.proc.client.fdMap.find? fd = some path)
    (ht : TrackedFd bbpath s side p fd path r f g) {server : Server} {pos : Nat}
    (hserver : server.fds = (s.net.servers 0).fds.insert r { g with pos := pos })
    (halive : server.alive = true)
    (hinv : SysInv env PlainFlags (fun _ _ => True) bbpath 1
      ⟨s.proc, .running, s.net.setServer 0 server⟩) :
    Follows env bbpath ⟨s.proc, .running, s.net.setServer 0 server⟩
      (Function.update side fd .remote)
      { p with fds := p.fds.insert fd { f with pos := pos } } where
  running := rfl
  inv := hinv
  alive := by rw [Net.servers_setServer_self]; exact halive
  files := h.files
  fds k := by
    have hnonneg := ((h.inv.linked.servers 0).descriptors r g ht.there).1
    by_cases hk : k = fd
    · subst hk
      rw [Function.update_self]
      simp only [Agrees, hpath, Sys.remoteFile, ht.redir, Net.servers_setServer, if_true, hserver,
        OrdMap.find?_insert]
      exact ⟨f, { g with pos := pos }, ht.here, rfl, rfl⟩
    · rw [Function.update_of_ne hk]
      refine (h.fds k).frame rfl rfl ?_ ?_
      · intro path' hpath'
        have hne := h.remoteFile_of_ne hpath hpath' ht.redir (by omega) hk
        simp only [Sys.remoteFile, Net.servers_setServer, if_true, hserver]
        rcases hr' : s.proc.client.fdRedirMap.find? k with _ | r'
        · rfl
        · rw [hr'] at hne
          simp only [OrdMap.find?_insert, if_neg fun heq => hne (congrArg some heq)]
      · exact OrdMap.find?_insert_of_ne hk ..

/-- A step that moves no position. -/
theorem Follows.unmoved (h : Follows env bbpath s side p) {server : Server} {status : Status}
    (hstatus : status = .running) {host : Int}
    (hfds : server.fds = (s.net.servers host).fds) (halive : server.alive = true)
    (hinv : SysInv env PlainFlags (fun _ _ => True) bbpath 1
      ⟨s.proc, status, s.net.setServer host server⟩) :
    Follows env bbpath ⟨s.proc, status, s.net.setServer host server⟩ side p where
  running := hstatus
  inv := hinv
  alive := by
    rw [Net.servers_setServer]
    split
    · exact halive
    · exact h.alive
  files := h.files
  fds k := by
    refine (h.fds k).frame rfl rfl (fun _ _ => ?_) rfl
    simp only [Sys.remoteFile, Net.servers_setServer]
    by_cases hhost : (0 : Int) = host
    · rw [if_pos hhost, hfds, ← hhost]
    · rw [if_neg hhost]

/-- The plain descriptor stands where the side that is used does. -/
theorem Current.plain {used : Side} (hcur : Current s side fd used) {path : String} {r : Int}
    {f g : OpenFile String} (ht : TrackedFd bbpath s side p fd path r f g) :
    p.fds.find? fd = some { f with pos := used.pos f g } := by
  rw [ht.plain]
  rcases hcur with hside | hpos
  · rw [hside]
  · have hsame : f.pos = g.pos := by
      exact hpos f ht.here g ht.remoteFile
    cases side fd <;> cases used <;> simp only [Side.pos, hsame]

theorem realRead_congr {q : Proc} (hfiles : p.files = q.files)
    (hfd : p.fds.find? fd = q.fds.find? fd) (count : Nat) :
    (realRead rl p fd count).2 = (realRead rl q fd count).2 ∧
      (realRead rl p fd count).1.fds.find? fd = (realRead rl q fd count).1.fds.find? fd := by
  obtain ⟨hret, hdata, hfind⟩ := @sysRead_congr _ rl q.files.content _ _ _ hfd count
  simp only [realRead, hfiles]
  exact ⟨by rw [hret, hdata], hfind⟩

variable (rl) in
/-- A read on the local side, where the plain descriptor is the local one. -/
theorem Follows.realRead (h : Follows env bbpath s side p)
    (hfd : p.fds.find? fd = s.proc.fds.find? fd) {side' : Int → Side}
    (hside : ∀ k, k ≠ fd → side' k = side k)
    (hreal : s.proc.client.fdMap.find? fd = none ∨ side' fd = .real) (count : Nat) :
    (Hvac.realRead rl p fd count).2 = (Hvac.realRead rl s.proc fd count).2 ∧
      Follows env bbpath ⟨(Hvac.realRead rl s.proc fd count).1, .running, s.net⟩ side'
        (Hvac.realRead rl p fd count).1 := by
  obtain ⟨hout, hfind⟩ := @realRead_congr rl p fd s.proc h.files hfd count
  exact ⟨hout, h.moveReal (sysRead_movesOnly ..) (sysRead_movesOnly ..) hfind hside hreal⟩

end Descriptors

/-! ### One call -/

section Calls

variable {s s' : Sys} {side : Int → Side} {p : Proc} {o : Option (Outcome Reply)} {remote : Int}

theorem int32_count {count : Nat} (h : count < 2 ^ 31) : int32 count = count := by
  apply int32_of_isInt32
  constructor <;> omega

theorem finishRead_natCast (c : Client) (fd : Int) (n : Nat) (data : Contents) :
    finishRead c fd ⟨n, data⟩ = c := by
  have hne : (n : Int) ≠ -1 := by omega
  simp only [finishRead, hne, if_false]

theorem Follows.read (h : Follows env bbpath s side p) {fd : Int} {count : Nat}
    (hord : Ordinary env bbpath s (.call (.read fd count) remote))
    (hcur : Current s side fd .remote)
    (hinv : s'.status = .running → SysInv env PlainFlags (fun _ _ => True) bbpath 1 s')
    (hstep : (sysMachine env rl bbpath).step s (.call (.read fd count) remote) = some (s', o)) :
    ∃ p', (directMachine env rl).step p (.call (.read fd count) remote) = some (p', o) ∧
      Follows env bbpath s' (Function.update side fd .remote) p' := by
  have hdirect : (directMachine env rl).step p (.call (.read fd count) remote) =
      some ((Hvac.realRead rl p fd count).1,
        some (.returned (Hvac.realRead rl p fd count).2)) := rfl
  rw [hdirect]
  rcases hpath : s.proc.client.fdMap.find? fd with _ | path
  · have hfd := h.fds fd
    simp only [Agrees, hpath] at hfd
    rw [step_read_untracked h.running hpath] at hstep
    cases hstep
    obtain ⟨hout, hfollows⟩ := h.realRead rl hfd
      (fun k hk => Function.update_of_ne hk _ side) (Or.inl hpath) count
    exact ⟨_, by rw [hout], hfollows⟩
  · obtain ⟨r, f, g, ht⟩ := h.tracked hpath
    obtain ⟨hcount, hlimits⟩ := hord
    obtain ⟨hend, hremote⟩ := hlimits path hpath g ht.remoteFile
    have hhandle := @Server.handle_read rl bbpath s.proc.files _ r count fd g h.alive
      (Int.natCast_nonneg count) ht.there ht.canReadThere hend remote hremote
    rw [← int32_count hcount] at hhandle
    rw [step_read_of_host h.running hpath ht.redir (h.inv.calm.hashHost_one path) hhandle] at hstep
    simp only [ht.content, int32_count hcount, Int.toNat_natCast, finishRead_natCast,
      int32_readLen, not_lt.mpr (Int.natCast_nonneg _), if_false, Option.some.injEq,
      Prod.mk.injEq] at hstep
    obtain ⟨rfl, rfl⟩ := hstep
    refine ⟨_, ?_, h.moveRemote hpath ht rfl h.alive (hinv rfl)⟩
    simp only [Hvac.realRead, sysRead_of_find? (hcur.plain ht) ht.canRead hend, h.files, ht.file,
      Side.pos]

theorem Follows.pread (h : Follows env bbpath s side p) {fd : Int} {count : Nat} {offset : Int}
    (hord : Ordinary env bbpath s (.call (.pread fd count offset) remote))
    (hinv : s'.status = .running → SysInv env PlainFlags (fun _ _ => True) bbpath 1 s')
    (hstep : (sysMachine env rl bbpath).step s (.call (.pread fd count offset) remote) =
      some (s', o)) :
    ∃ p', (directMachine env rl).step p (.call (.pread fd count offset) remote) = some (p', o) ∧
      Follows env bbpath s' side p' := by
  have hdirect : (directMachine env rl).step p (.call (.pread fd count offset) remote) =
      some (p, some (.returned (realPread rl p fd count offset).2)) := by
    simp only [directMachine, AppCall.direct, realPread, sysPread_fds]
  rw [hdirect]
  refine ⟨p, ?_⟩
  rcases hpath : s.proc.client.fdMap.find? fd with _ | path
  · have hfd := h.fds fd
    simp only [Agrees, hpath] at hfd
    rw [step_pread_untracked h.running hpath] at hstep
    simp only [realPread, sysPread_fds, Option.some.injEq, Prod.mk.injEq] at hstep
    obtain ⟨rfl, rfl⟩ := hstep
    obtain ⟨hret, hdata⟩ := @sysPread_congr _ rl s.proc.files.content _ _ _ hfd count offset
    refine ⟨?_, ⟨rfl, hinv rfl, h.alive, h.files,
      fun k => (h.fds k).frame rfl rfl (fun _ _ => rfl) rfl⟩⟩
    simp only [realPread, h.files, hret, hdata]
  · obtain ⟨r, f, g, ht⟩ := h.tracked hpath
    obtain ⟨⟨hcount, hoffset⟩, hlimits⟩ := hord
    obtain ⟨hend, hremote⟩ := hlimits path hpath
    have hhandle := @Server.handle_pread rl bbpath s.proc.files _ r count fd offset g h.alive
      (Int.natCast_nonneg count) ht.there ht.canReadThere hoffset hend remote hremote
    obtain ⟨hostname, hhost⟩ := h.inv.calm.ringHost_one hpath
    rw [← int32_count hcount] at hhandle
    rw [step_pread_of_ringHost h.running hpath ht.redir hhost (h.inv.calm.reachedLimit 0) hhandle]
      at hstep
    simp only [ht.content, int32_count hcount, Int.toNat_natCast, finishRead_natCast,
      not_lt.mpr (Int.natCast_nonneg _), if_false, Option.some.injEq, Prod.mk.injEq] at hstep
    obtain ⟨rfl, rfl⟩ := hstep
    refine ⟨?_, h.unmoved rfl rfl h.alive (hinv rfl)⟩
    simp only [realPread, sysPread_of_find? ht.plain ht.canRead hoffset hend, h.files, ht.file]

/-- A seek lands at the same place on both sides, if the position counts at all. -/
theorem seekTarget_plain {path : String} {r : Int} {f g : OpenFile String}
    (ht : TrackedFd bbpath s side p fd path r f g) {whence : Int}
    (hcur : whence = SEEK_CUR → Current s side fd .remote) (size : Nat) (offset : Int) :
    seekTarget size ((side fd).pos f g) offset whence = seekTarget size g.pos offset whence := by
  by_cases hwhence : whence = SEEK_CUR
  · have hplain := (hcur hwhence).plain ht
    rw [ht.plain] at hplain
    have hpos : (side fd).pos f g = g.pos := congrArg OpenFile.pos (Option.some.inj hplain)
    rw [hpos]
  · exact seekTarget_of_ne_cur hwhence ..

theorem sideAfter_lseek_of_ne {fd offset whence k : Int} (hk : k ≠ fd) :
    sideAfter side (.call (.lseek fd offset whence) remote) o k = side k := by
  rcases o with _ | ⟨out⟩ | _ | _ | _
  · rfl
  · simp only [sideAfter]
    split
    · rfl
    · exact Function.update_of_ne hk ..
  · rfl
  · rfl
  · rfl

/-- A seek that fails at the server, and for the plain descriptor. -/
theorem Follows.seekFailed (h : Follows env bbpath s side p) {fd offset whence : Int}
    {path : String} {r : Int} {f g : OpenFile String}
    (hpath : s.proc.client.fdMap.find? fd = some path)
    (ht : TrackedFd bbpath s side p fd path r f g) (hoffset : IsInt32 offset)
    (hcur : whence = SEEK_CUR → Current s side fd .remote)
    (hx : seekTarget (s.proc.files.content path).length g.pos offset whence = none)
    (hinv : s'.status = .running → SysInv env PlainFlags (fun _ _ => True) bbpath 1 s')
    (hstep : (sysMachine env rl bbpath).step s (.call (.lseek fd offset whence) remote) =
      some (s', o)) :
    o = some (.returned ⟨-1, []⟩) ∧
      sysSeek p.files.content p.fds fd offset whence = (-1, p.fds) ∧
      Follows env bbpath s' side p := by
  obtain ⟨hostname, hhost⟩ := h.inv.calm.ringHost_one hpath
  have hhandle := @Server.handle_seek_failed rl bbpath s.proc.files _ r offset g h.alive
    ht.there whence (by rw [ht.content]; exact hx) remote
  rw [← int32_of_isInt32 hoffset] at hhandle
  rw [step_lseek_of_ringHost h.running hpath ht.redir hhost hhandle] at hstep
  cases hstep
  refine ⟨rfl, ?_, h.unmoved rfl rfl h.alive (hinv rfl)⟩
  apply sysSeek_of_no_target ht.plain
  rw [seekTarget_plain ht hcur, h.files, ht.file]
  exact hx

/-- A seek that leads both to the same position. -/
theorem Follows.seekMoved (h : Follows env bbpath s side p) {fd offset whence : Int}
    {path : String} {r : Int} {f g : OpenFile String}
    (hpath : s.proc.client.fdMap.find? fd = some path)
    (ht : TrackedFd bbpath s side p fd path r f g) (hoffset : IsInt32 offset)
    (hcur : whence = SEEK_CUR → Current s side fd .remote) {x : Nat} (hfits : x < 2 ^ 31)
    (hx : seekTarget (s.proc.files.content path).length g.pos offset whence = some x)
    (hinv : s'.status = .running → SysInv env PlainFlags (fun _ _ => True) bbpath 1 s')
    (hstep : (sysMachine env rl bbpath).step s (.call (.lseek fd offset whence) remote) =
      some (s', o)) :
    o = some (.returned ⟨x, []⟩) ∧
      sysSeek p.files.content p.fds fd offset whence =
        ((x : Int), p.fds.insert fd { f with pos := x }) ∧
      Follows env bbpath s' (Function.update side fd .remote)
        { p with fds := p.fds.insert fd { f with pos := x } } := by
  obtain ⟨hostname, hhost⟩ := h.inv.calm.ringHost_one hpath
  have hhandle := @Server.handle_seek rl bbpath s.proc.files _ r offset g h.alive
    ht.there (canSeek_of_canRead ht.canReadThere) whence x (by rw [ht.content]; exact hx) remote
  rw [← int32_of_isInt32 hoffset, int32_count hfits] at hhandle
  rw [step_lseek_of_ringHost h.running hpath ht.redir hhost hhandle] at hstep
  cases hstep
  refine ⟨rfl, ?_, h.moveRemote hpath ht rfl h.alive (hinv rfl)⟩
  apply sysSeek_of_target ht.plain (canSeek_of_canRead ht.canRead)
  rw [seekTarget_plain ht hcur, h.files, ht.file]
  exact hx

theorem Follows.lseek (h : Follows env bbpath s side p) {fd offset whence : Int}
    (hord : Ordinary env bbpath s (.call (.lseek fd offset whence) remote))
    (hcur : whence = SEEK_CUR → Current s side fd .remote)
    (hinv : s'.status = .running → SysInv env PlainFlags (fun _ _ => True) bbpath 1 s')
    (hstep : (sysMachine env rl bbpath).step s (.call (.lseek fd offset whence) remote) =
      some (s', o)) :
    ∃ p', (directMachine env rl).step p (.call (.lseek fd offset whence) remote) = some (p', o) ∧
      Follows env bbpath s' (sideAfter side (.call (.lseek fd offset whence) remote) o) p' := by
  have hdirect : (directMachine env rl).step p (.call (.lseek fd offset whence) remote) =
      some ((realLseek p fd offset whence).1,
        some (.returned ⟨(realLseek p fd offset whence).2, []⟩)) := rfl
  rw [hdirect]
  rcases hpath : s.proc.client.fdMap.find? fd with _ | path
  · have hfd := h.fds fd
    simp only [Agrees, hpath] at hfd
    rw [step_lseek_untracked h.running hpath] at hstep
    cases hstep
    obtain ⟨hret, hfind⟩ := @sysSeek_congr _ s.proc.files.content _ _ _ hfd offset whence
    refine ⟨_, ?_, h.moveReal (sysSeek_movesOnly s.proc.fds fd offset whence)
      (sysSeek_movesOnly p.fds fd offset whence) hfind (fun k hk => sideAfter_lseek_of_ne hk)
      (Or.inl hpath)⟩
    simp only [realLseek, h.files, hret]
  · obtain ⟨r, f, g, ht⟩ := h.tracked hpath
    obtain ⟨-, hoffset, hfits⟩ := hord path hpath g ht.remoteFile
    rcases hx : seekTarget (s.proc.files.content path).length g.pos offset whence with _ | x
    · obtain ⟨rfl, hplain, hfollows⟩ := h.seekFailed hpath ht hoffset hcur hx hinv hstep
      simp only [realLseek, hplain]
      exact ⟨p, rfl, hfollows⟩
    · obtain ⟨rfl, hplain, hfollows⟩ := h.seekMoved hpath ht hoffset hcur (hfits x hx) hx hinv hstep
      have hne : (x : Int) ≠ -1 := by omega
      simp only [realLseek, hplain, sideAfter, hne, if_false]
      exact ⟨_, rfl, hfollows⟩

variable (rl) in
/-- `read64` and `readv`. -/
theorem Follows.readReal (h : Follows env bbpath s side p) {fd : Int}
    (hcur : Current s side fd .real) (count : Nat) :
    (Hvac.realRead rl p fd count).2 = (Hvac.realRead rl s.proc fd count).2 ∧
      Follows env bbpath ⟨(Hvac.realRead rl s.proc fd count).1, .running, s.net⟩
        (Function.update side fd .real) (Hvac.realRead rl p fd count).1 := by
  have hfd : p.fds.find? fd = s.proc.fds.find? fd := by
    rcases hpath : s.proc.client.fdMap.find? fd with _ | path
    · have hfd := h.fds fd
      simp only [Agrees, hpath] at hfd
      exact hfd
    · obtain ⟨r, f, g, ht⟩ := h.tracked hpath
      rw [hcur.plain ht, ht.here, Side.pos]
  exact h.realRead rl hfd (fun k hk => Function.update_of_ne hk _ side)
    (Or.inr (Function.update_self ..)) count

theorem Follows.close (h : Follows env bbpath s side p) {fd : Int}
    (hinv : s'.status = .running → SysInv env PlainFlags (fun _ _ => True) bbpath 1 s')
    (hstep : (sysMachine env rl bbpath).step s (.call (.close fd) remote) = some (s', o)) :
    ∃ p', (directMachine env rl).step p (.call (.close fd) remote) = some (p', o) ∧
      Follows env bbpath s' side p' := by
  have hdirect : (directMachine env rl).step p (.call (.close fd) remote) =
      some ({ p with fds := (sysClose p.fds fd).2 },
        some (.returned ⟨(sysClose p.fds fd).1, []⟩)) := rfl
  rw [hdirect]
  refine ⟨{ p with fds := (sysClose p.fds fd).2 }, ?_⟩
  rcases hpath : s.proc.client.fdMap.find? fd with _ | path
  · have hfd := h.fds fd
    simp only [Agrees, hpath] at hfd
    rw [step_close_untracked h.running hpath] at hstep
    cases hstep
    have hret : (sysClose p.fds fd).1 = (sysClose s.proc.fds fd).1 := by
      unfold sysClose
      rw [hfd]
      rcases s.proc.fds.find? fd with _ | f <;> rfl
    refine ⟨by rw [hret]; rfl, ⟨rfl, hinv rfl, h.alive, h.files, fun k => ?_⟩⟩
    by_cases hk : k = fd
    · subst hk
      simp only [Agrees, realClose, hpath, find?_sysClose, if_true]
    · exact (h.fds k).frame rfl (find?_sysClose_of_ne hk _) (fun _ _ => rfl)
        (find?_sysClose_of_ne hk _)
  · obtain ⟨r, f, g, ht⟩ := h.tracked hpath
    rw [step_close (by decide) h.running h.inv.calm hpath ht.redir
      (h.inv.calm.ringAgrees_one true fd)] at hstep
    cases hstep
    refine ⟨by rw [sysClose_of_find? ht.plain, sysClose_of_find? ht.here],
      ⟨rfl, hinv rfl, h.alive, h.files, fun k => ?_⟩⟩
    by_cases hk : k = fd
    · subst hk
      simp only [Agrees, OrdMap.find?_erase, find?_sysClose, if_true]
    · refine (h.fds k).frame ?_ (find?_sysClose_of_ne hk _) (fun _ _ => ?_)
        (find?_sysClose_of_ne hk _)
      · exact OrdMap.find?_erase_of_ne hk _
      · simp only [Sys.remoteFile, OrdMap.find?_erase, hk, if_false]

theorem Follows.free_iff (h : Follows env bbpath s side p) (fd : Int) :
    p.fds.find? fd = none ↔ s.proc.fds.find? fd = none := by
  rcases hpath : s.proc.client.fdMap.find? fd with _ | path
  · have hfd := h.fds fd
    simp only [Agrees, hpath] at hfd
    rw [hfd]
  · obtain ⟨r, f, g, ht⟩ := h.tracked hpath
    rw [ht.plain, ht.here]
    exact iff_of_false (Option.some_ne_none _) (Option.some_ne_none _)

/-- An open that is not tracked. -/
theorem Follows.openReal (h : Follows env bbpath s side p) {path file : String} {flags : OFlags}
    {ret : Int} (hret : ret ≠ -1) (hfree : s.proc.fds.find? ret = none)
    (hopen : Hvac.realOpen env s.proc path flags ret =
      some { s.proc with fds := s.proc.fds.insert ret ⟨file, flags, 0⟩ })
    (htrack : trackPath env path flags = none)
    (hinv : s'.status = .running → SysInv env PlainFlags (fun _ _ => True) bbpath 1 s')
    (hstep : (sysMachine env rl bbpath).step s (.call (.openFile path flags ret) remote) =
      some (s', o)) :
    o = some (.returned ⟨ret, []⟩) ∧
      Follows env bbpath s' (Function.update side ret .remote)
        { p with fds := p.fds.insert ret ⟨file, flags, 0⟩ } := by
  rw [step_open_untracked h.running hopen (Or.inr htrack)] at hstep
  cases hstep
  refine ⟨rfl, ⟨rfl, hinv rfl, h.alive, h.files, fun k => ?_⟩⟩
  by_cases hk : k = ret
  · subst hk
    simp only [Agrees, h.inv.locally.untracked hfree, OrdMap.find?_insert_self]
  · rw [Function.update_of_ne hk]
    exact (h.fds k).frame rfl (OrdMap.find?_insert_of_ne hk ..) (fun _ _ => rfl)
      (OrdMap.find?_insert_of_ne hk ..)

/-- A tracked open: the server's new descriptor is none that is in use. -/
theorem Follows.openRemote (h : Follows env bbpath s side p) {path file : String} {flags : OFlags}
    {ret : Int} (hret : ret ≠ -1)
    (hopen : Hvac.realOpen env s.proc path flags ret =
      some { s.proc with fds := s.proc.fds.insert ret ⟨file, flags, 0⟩ })
    (htrack : trackPath env path flags = some file) (hremote : remote ≠ -1)
    (hinv : s'.status = .running → SysInv env PlainFlags (fun _ _ => True) bbpath 1 s')
    (hstep : (sysMachine env rl bbpath).step s (.call (.openFile path flags ret) remote) =
      some (s', o)) :
    o = some (.returned ⟨ret, []⟩) ∧
      Follows env bbpath s' (Function.update side ret .remote)
        { p with fds := p.fds.insert ret ⟨file, flags, 0⟩ } := by
  rw [step_open_of_host h.running (h.inv.calm.hashHost_one file) hopen hret htrack] at hstep
  simp only [Server.handle, if_pos h.alive] at hstep
  rcases hanswer : (s.net.servers 0).openRpcHandler bbpath s.proc.files file remote with
    _ | ⟨server, reply⟩
  · rw [hanswer] at hstep
    cases hstep
  · obtain ⟨rfl, ⟨hneg, -⟩ | ⟨_, -, -, hfree, -, rfl⟩⟩ := Server.openRpcHandler_eq_some hanswer
    · exact absurd hneg hremote
    · simp only [hanswer, Option.some.injEq, Prod.mk.injEq] at hstep
      obtain ⟨rfl, rfl⟩ := hstep
      refine ⟨rfl, ⟨rfl, hinv rfl, ?_, h.files, fun k => ?_⟩⟩
      · rw [Net.servers_setServer_self]
        exact h.alive
      · by_cases hk : k = ret
        · subst hk
          rw [Function.update_self]
          simp only [Agrees, Sys.remoteFile, OrdMap.find?_insert_self, Net.servers_setServer,
            if_true]
          exact ⟨_, _, rfl, rfl, rfl⟩
        · rw [Function.update_of_ne hk]
          refine (h.fds k).frame (OrdMap.find?_insert_of_ne hk ..)
            (OrdMap.find?_insert_of_ne hk ..) ?_ (OrdMap.find?_insert_of_ne hk ..)
          intro path' hpath'
          obtain ⟨r, f, g, ht⟩ := h.tracked hpath'
          have hne : r ≠ remote := by
            rintro rfl
            cases hfree.symm.trans ht.there
          simp only [Sys.remoteFile, OrdMap.find?_insert, Net.servers_setServer, if_true,
            hk, if_false, ht.redir, hne]

theorem Follows.openFile (h : Follows env bbpath s side p) {path : String} {flags : OFlags}
    {ret : Int} (hord : Ordinary env bbpath s (.call (.openFile path flags ret) remote))
    (hinv : s'.status = .running → SysInv env PlainFlags (fun _ _ => True) bbpath 1 s')
    (hstep : (sysMachine env rl bbpath).step s (.call (.openFile path flags ret) remote) =
      some (s', o)) :
    ∃ p', (directMachine env rl).step p (.call (.openFile path flags ret) remote) = some (p', o) ∧
      Follows env bbpath s' (sideAfter side (.call (.openFile path flags ret) remote) o) p' := by
  have hdirect : ∀ {p'}, Hvac.realOpen env p path flags ret = some p' →
      (directMachine env rl).step p (.call (.openFile path flags ret) remote) =
        some (p', some (.returned ⟨ret, []⟩)) := by
    intro p' hp'
    simp only [directMachine, AppCall.direct, hp', Option.map_some]
  rcases hopen : Hvac.realOpen env s.proc path flags ret with _ | q
  · simp [sysMachine, h.running, AppCall.perform, wrapOpen, openAndTrack, hopen] at hstep
  · rcases realOpen_eq_some hopen with ⟨hret, rfl⟩ | ⟨file, data, hret, hfile, hdata, hnonneg,
      hfree, rfl⟩
    · rw [step_open_untracked h.running hopen (Or.inl hret)] at hstep
      cases hstep
      refine ⟨p, hdirect (by simp only [Hvac.realOpen, hret, if_true]), ?_⟩
      simp only [sideAfter, hret, if_true]
      exact ⟨rfl, hinv rfl, h.alive, h.files,
        fun k => (h.fds k).frame rfl rfl (fun _ _ => rfl) rfl⟩
    · -- the open leaves the file as it is
      have hsame := ((hord file hfile).1.resolve_left hret).symm.trans hdata
      have hdirect' := hdirect (realOpen_of_free hret hfile (by rw [h.files]; exact hdata) hnonneg
        ((h.free_iff ret).mpr hfree))
      have hplain : p.files.insert file data = p.files :=
        OrdMap.insert_of_find? (by rw [h.files]; exact hsame)
      rw [hplain] at hdirect'
      rw [OrdMap.insert_of_find? hsame] at hopen
      simp only [sideAfter, hret, if_false]
      rcases htrack : trackPath env path flags with _ | file'
      · obtain ⟨rfl, hfollows⟩ := h.openReal hret hfree hopen htrack hinv hstep
        exact ⟨_, hdirect', hfollows⟩
      · obtain rfl := Option.some.inj (hfile.symm.trans (trackPath_canonical htrack))
        obtain ⟨-, -, hremote⟩ := (hord file hfile).2 htrack
        obtain ⟨rfl, hfollows⟩ := h.openRemote hret hopen htrack hremote hinv hstep
        exact ⟨_, hdirect', hfollows⟩

/-- A close request on its way names no descriptor that is in use. -/
theorem Follows.deliver (h : Follows env bbpath s side p) {i : Nat}
    (hinv : s'.status = .running → SysInv env PlainFlags (fun _ _ => True) bbpath 1 s')
    (hstep : (sysMachine env rl bbpath).step s (.deliver i) = some (s', o)) :
    o = none ∧ Follows env bbpath s' side p := by
  simp only [sysMachine, Net.deliver] at hstep
  rcases hi : s.net.inFlight[i]? with _ | ⟨host, r₀⟩
  · rw [hi] at hstep
    cases hstep
  · simp only [hi, Option.some.injEq, Prod.mk.injEq] at hstep
    obtain ⟨rfl, rfl⟩ := hstep
    refine ⟨rfl, ⟨h.running, hinv h.running, ?_, h.files, fun k => ?_⟩⟩
    · rw [Net.servers_setServer]
      split
      · next hhost =>
        rw [← hhost, if_pos h.alive]
        exact h.alive
      · exact h.alive
    · refine (h.fds k).frame rfl rfl (fun path hpath => ?_) rfl
      obtain ⟨r, f, g, ht⟩ := h.tracked hpath
      simp only [Sys.remoteFile, ht.redir, Net.servers_setServer]
      split
      · next hhost =>
        obtain ⟨-, r', hr', hlink⟩ := h.inv.tracked hpath
        obtain rfl := Option.some.inj (ht.redir.symm.trans hr')
        have hnonneg := ((h.inv.linked.servers 0).descriptors r g ht.there).1
        have hopen := hlink.resolve_left (by omega)
        have hne : r ≠ r₀ := by
          rintro rfl
          apply hopen.2
          rw [hostOf_one, hhost]
          exact List.mem_of_getElem? hi
        rw [← hhost, if_pos h.alive]
        simp only [Server.closeRpcHandler, find?_sysClose, hne, if_false]
      · rfl

theorem Follows.mover (h : Follows env bbpath s side p) {host : Int} {step : MoverStep}
    (hinv : s'.status = .running → SysInv env PlainFlags (fun _ _ => True) bbpath 1 s')
    (hstep : (sysMachine env rl bbpath).step s (.mover host step) = some (s', o)) :
    o = none ∧ Follows env bbpath s' side p := by
  obtain ⟨server, halive, hmove, rfl, rfl⟩ := step_mover_eq_some hstep
  have hkeeps := (h.inv.linked.servers host).moverStep hmove
  exact ⟨rfl, h.unmoved h.running hkeeps.fds (hkeeps.alive.trans halive) (hinv h.running)⟩

theorem Ordinary.admissible {label : SysLabel} (h : Follows env bbpath s side p)
    (hord : Ordinary env bbpath s label) :
    Admissible env PlainFlags (fun _ _ => True) bbpath s label := by
  cases label with
  | deliver | mover => trivial
  | call call remote =>
    cases call with
    | openFile path flags ret =>
      intro file hfile
      obtain ⟨hkeep, htrack⟩ := hord file hfile
      exact ⟨hkeep.imp id Or.inl, fun htracked => ⟨(htrack htracked).2.1, (htrack htracked).1⟩⟩
    | pread fd count offset => exact h.inv.calm.ringAgrees_one true fd
    | lseek fd offset whence => exact h.inv.calm.ringAgrees_one false fd
    | close fd => exact h.inv.calm.ringAgrees_one true fd
    | write fd data => cases hord
    | read | read64 | readv => trivial

/-- **One step: the plain file system answers a call alike if the call looks at the
    side that is to be believed.** -/
theorem Follows.step (h : Follows env bbpath s side p) {label : SysLabel}
    (hord : Ordinary env bbpath s label) (hside : SideAgrees s side label)
    (hstep : (sysMachine env rl bbpath).step s label = some (s', o)) :
    ∃ p', (directMachine env rl).step p label = some (p', o) ∧
      Follows env bbpath s' (sideAfter side label o) p' := by
  have hinv : s'.status = .running → SysInv env PlainFlags (fun _ _ => True) bbpath 1 s' :=
    step_sysInv (by decide) (fun _ => h.inv) (hord.admissible h) hstep
  cases label with
  | deliver i =>
    obtain ⟨rfl, hfollows⟩ := h.deliver hinv hstep
    exact ⟨p, rfl, hfollows⟩
  | mover host step =>
    obtain ⟨rfl, hfollows⟩ := h.mover hinv hstep
    exact ⟨p, rfl, hfollows⟩
  | call call remote =>
    cases call with
    | openFile path flags ret => exact h.openFile hord hinv hstep
    | read fd count => exact h.read hord hside hinv hstep
    | pread fd count offset => exact h.pread hord hinv hstep
    | lseek fd offset whence => exact h.lseek hord hside hinv hstep
    | close fd => exact h.close hinv hstep
    | write fd data => cases hord
    | read64 fd count =>
      rw [step_read64 h.running] at hstep
      cases hstep
      obtain ⟨hout, hfollows⟩ := h.readReal rl hside count
      exact ⟨_, by rw [← hout]; rfl, hfollows⟩
    | readv fd iov =>
      rw [step_readv h.running] at hstep
      cases hstep
      obtain ⟨hout, hfollows⟩ := h.readReal rl hside iov.sum
      exact ⟨_, by rw [← hout]; rfl, hfollows⟩

end Calls

/-! ### The redirected calls -/

/-- The calls that go to the server when their descriptor is tracked, and the steps
    of the servers. -/
def Redirected : SysLabel → Prop
  | .call (.read64 _ _) _ => False
  | .call (.readv _ _) _ => False
  | .call (.write _ _) _ => False
  | .call (.openFile _ _ _) _ => True
  | .call (.read _ _) _ => True
  | .call (.pread _ _ _) _ => True
  | .call (.lseek _ _ _) _ => True
  | .call (.close _) _ => True
  | .deliver _ => True
  | .mover _ _ => True

instance : ∀ label, Decidable (Redirected label)
  | .call (.read64 _ _) _ => isFalse id
  | .call (.readv _ _) _ => isFalse id
  | .call (.write _ _) _ => isFalse id
  | .call (.openFile _ _ _) _ => isTrue trivial
  | .call (.read _ _) _ => isTrue trivial
  | .call (.pread _ _ _) _ => isTrue trivial
  | .call (.lseek _ _ _) _ => isTrue trivial
  | .call (.close _) _ => isTrue trivial
  | .deliver _ => isTrue trivial
  | .mover _ _ => isTrue trivial

/-- The server's side stays the one to believe. -/
theorem sideAfter_of_redirected {label : SysLabel} (h : Redirected label)
    (o : Option (Outcome Reply)) : sideAfter (fun _ => .remote) label o = fun _ => .remote := by
  have hupdate : ∀ fd : Int, Function.update (fun _ => Side.remote) fd .remote = fun _ => .remote :=
    fun fd => Function.update_eq_self fd _
  cases label with
  | deliver | mover => rfl
  | call call remote =>
    cases call with
    | openFile path flags ret =>
      simp only [sideAfter]
      split
      · rfl
      · exact hupdate ret
    | read fd count => exact hupdate fd
    | lseek fd offset whence =>
      rcases o with _ | ⟨out⟩ | _ | _ | _
      · rfl
      · simp only [sideAfter]
        split
        · rfl
        · exact hupdate fd
      · rfl
      · rfl
      · rfl
    | pread | close => rfl
    | read64 | readv | write => cases h

theorem sideAgrees_of_redirected (s : Sys) {label : SysLabel} (h : Redirected label) :
    SideAgrees s (fun _ => .remote) label := by
  cases label with
  | deliver | mover => trivial
  | call call remote =>
    cases call with
    | read fd count => exact Or.inl rfl
    | lseek fd offset whence => exact fun _ => Or.inl rfl
    | openFile | pread | close => trivial
    | read64 | readv | write => cases h

/-- **With one server and no failure, every run of redirected calls within the limits is
    answered as the plain file system answers it**, whatever the movers do meanwhile
    and whenever the close requests arrive. -/
theorem redirected_simulates (files : Files) {labels : List SysLabel} {t : Sys}
    {os : List (Option (Outcome Reply))}
    (hcalls : (sysMachine env rl bbpath).Along
      (fun s label _ _ => Redirected label ∧ Ordinary env bbpath s label) (sysStart env 1 files)
      labels)
    (hrun : (sysMachine env rl bbpath).run (sysStart env 1 files) labels = some (t, os)) :
    ∃ p, (directMachine env rl).run (sysStart env 1 files).proc labels = some (p, os) := by
  have hstart : Follows env bbpath (sysStart env 1 files) (fun _ => .remote)
      (sysStart env 1 files).proc := follows_start files _ rfl rfl _
  obtain ⟨p, hp, -⟩ := Machine.run_simulation
    (R := fun s p => Follows env bbpath s (fun _ => .remote) p) (N := directMachine env rl)
    (fun s p label s' o h hlabel hstep => by
      obtain ⟨p', hdirect, hfollows⟩ :=
        h.step hlabel.2 (sideAgrees_of_redirected s hlabel.1) hstep
      rw [sideAfter_of_redirected hlabel.1] at hfollows
      exact ⟨p', hdirect, hfollows⟩) hstart hcalls hrun
  exact ⟨p, hp⟩

/-- A file of three bytes. -/
def threeBytes : Files := OrdMap.empty.insert "/data/a" [1, 2, 3]

/-- Calls of every redirected kind, on descriptors opened before and after the copy is
    published. -/
def redirectedLabels : List SysLabel :=
  [.call (.openFile "/data/a" O_RDONLY 3) 5, .call (.read 3 1) 0, .call (.pread 3 2 1) 0,
    .call (.lseek 3 (-1) SEEK_END) 0, .call (.close 3) 0, .deliver 0,
    .call (.openFile "/data/a" O_RDONLY 3) 5, .call (.read 3 1) 0, .mover 0 .drain,
    .mover 0 (.mkdtemp (some "aaaaaa")), .mover 0 .copyBegin, .mover 0 (.copyChunk 3),
    .mover 0 .copyEnd, .mover 0 .publish, .mover 0 .pop,
    .call (.openFile "/data/a" O_RDONLY 4) 6, .call (.read 4 2) 0, .call (.read 3 2) 0,
    .call (.lseek 4 (-1) SEEK_CUR) 0, .call (.pread 4 9 0) 0, .call (.read 4 9) 0,
    .call (.close 4) 0, .call (.close 3) 0, .deliver 1]

theorem redirected_simulates_copied :
    ∃ t os, (sysMachine zeroHashEnv ReadLen.full "/bb").run (sysStart zeroHashEnv 1 threeBytes)
        redirectedLabels = some (t, os) ∧
      ∃ p, (directMachine zeroHashEnv ReadLen.full).run (sysStart zeroHashEnv 1 threeBytes).proc
        redirectedLabels = some (p, os) := by
  have hsome : ((sysMachine zeroHashEnv ReadLen.full "/bb").run
      (sysStart zeroHashEnv 1 threeBytes) redirectedLabels).isSome = true := by decide +kernel
  have hcalls : (sysMachine zeroHashEnv ReadLen.full "/bb").Along
      (fun s label _ _ => Redirected label ∧ Ordinary zeroHashEnv "/bb" s label)
      (sysStart zeroHashEnv 1 threeBytes) redirectedLabels := by decide +kernel
  obtain ⟨⟨t, os⟩, hrun⟩ := Option.isSome_iff_exists.mp hsome
  exact ⟨t, os, hrun, redirected_simulates threeBytes hcalls hrun⟩

/-- A read, a positional read that would pass the largest offset, and a read. -/
def pastLabels : List SysLabel :=
  [.call (.openFile "/data/a" O_RDONLY 3) 5, .call (.read 3 1) 0,
    .call (.pread 3 10 (2 ^ 63 - 1)) 0, .call (.read 3 1) 0]

/-- The failed positional read untracks the descriptor, whose local side is where it
    was opened. -/
theorem read_after_failed_pread :
    (∃ t, (sysMachine zeroHashEnv ReadLen.full "/bb").run (sysStart zeroHashEnv 1 threeBytes)
        pastLabels =
      some (t, [some (.returned ⟨3, []⟩), some (.returned ⟨1, [1]⟩), some (.returned ⟨-1, []⟩),
        some (.returned ⟨1, [1]⟩)])) ∧
    ∃ p, (directMachine zeroHashEnv ReadLen.full).run (sysStart zeroHashEnv 1 threeBytes).proc
        pastLabels =
      some (p, [some (.returned ⟨3, []⟩), some (.returned ⟨1, [1]⟩), some (.returned ⟨-1, []⟩),
        some (.returned ⟨1, [2]⟩)]) := by
  constructor
  · have hrun : ((sysMachine zeroHashEnv ReadLen.full "/bb").run
        (sysStart zeroHashEnv 1 threeBytes) pastLabels).map Prod.snd =
        some [some (.returned ⟨3, []⟩), some (.returned ⟨1, [1]⟩), some (.returned ⟨-1, []⟩),
          some (.returned ⟨1, [1]⟩)] := by
      decide +kernel
    obtain ⟨⟨t, os⟩, hrun, rfl⟩ := Option.map_eq_some_iff.mp hrun
    exact ⟨t, hrun⟩
  · have hrun : ((directMachine zeroHashEnv ReadLen.full).run
        (sysStart zeroHashEnv 1 threeBytes).proc pastLabels).map Prod.snd =
        some [some (.returned ⟨3, []⟩), some (.returned ⟨1, [1]⟩), some (.returned ⟨-1, []⟩),
          some (.returned ⟨1, [2]⟩)] := by
      decide +kernel
    obtain ⟨⟨p, os⟩, hrun, rfl⟩ := Option.map_eq_some_iff.mp hrun
    exact ⟨p, hrun⟩

end Hvac
