/-
  Hvac/Freshness.lean
  ===================
  **Reads and writes**: which bytes a read returns when files change.

  A write goes to the file behind the servers' backs, and nothing ever takes an
  entry out of `path_cache_map`, so a file that is rewritten after a server copied
  it is read as it was by every descriptor opened on the copy (`stale_read`).
  Nothing else is stale: a descriptor whose server opened the file itself reads its
  present bytes whatever is written and copied meanwhile, and so does one on a copy
  whose source did not change since the copy was begun (`reads_current`).
-/
import Hvac.SystemInv

namespace Hvac

open Cxx Posix

variable (env : Env) (kept : String → String → Prop) (bbpath : String) (N : Nat)

/-! ### Statements -/

/-- The descriptor a call reads from, the offset it names, and its count. -/
def AppCall.source : AppCall → Option (Int × Option Int × Nat)
  | .read fd count => some (fd, none, count)
  | .pread fd count offset => some (fd, some offset, count)
  | .read64 fd count => some (fd, none, count)
  | .readv fd iov => some (fd, none, iov.sum)
  | .openFile _ _ _ => none
  | .lseek _ _ _ => none
  | .close _ => none
  | .write _ _ => none

/-- The bytes are a stretch of the file, at the offset if there is one. -/
def CurrentBytes (contents : Contents) (start : Option Int) (out : Reply) : Prop :=
  ∃ pos : Nat, (∀ offset ∈ start, (pos : Int) = offset) ∧ out.ret = out.data.length ∧
    out.data = slice contents pos out.data.length

/-- What a server has open for a tracked descriptor is the file itself, or a copy that
    is kept. -/
def Sys.OnKept (s : Sys) (fd : Int) : Prop :=
  ∀ path r g, s.proc.client.fdMap.find? fd = some path →
    s.proc.client.fdRedirMap.find? fd = some r →
      (s.net.servers (hostOf env N path)).fds.find? r = some g → g.file = path ∨ kept path g.file

/-- A read that returns, through a descriptor open for reading and not on a copy that
    is given up, returns bytes the file has at that moment.  It fails only where it
    would pass the largest offset. -/
def ReadsCurrent (s : Sys) : SysLabel → Option (Outcome Reply) → Prop
  | .call call _, some (.returned out) =>
      ∀ fd start count, call.source = some (fd, start, count) → (∀ offset ∈ start, 0 ≤ offset) →
        ∀ f, s.proc.fds.find? fd = some f → canRead f.flags = true → s.OnKept env kept N fd →
          CurrentBytes (s.proc.files.content f.file) start out ∨
            out = ⟨-1, []⟩ ∧ LOFF_MAX < (start.map Int.toNat).getD f.pos + count
  | _, _ => True

variable {env kept bbpath N} {allowed : OFlags → Prop} {rl : ReadLen}

/-! ### One read -/

theorem currentBytes_slice {contents : Contents} {start : Option Int} {pos n : Nat}
    (hn : n ≤ contents.length - pos) (hpos : ∀ offset ∈ start, (pos : Int) = offset) :
    CurrentBytes contents start ⟨n, slice contents pos n⟩ := by
  have hlength : (slice contents pos n).length = n := by
    rw [length_slice]
    omega
  exact ⟨pos, hpos, by rw [hlength], by rw [hlength]⟩

theorem current_realRead {p : Proc} {fd : Int} {f : OpenFile String}
    (hf : p.fds.find? fd = some f) (hread : canRead f.flags = true) (count : Nat) :
    CurrentBytes (p.files.content f.file) none (realRead rl p fd count).2 ∨
      (realRead rl p fd count).2 = ⟨-1, []⟩ ∧ LOFF_MAX < f.pos + count := by
  by_cases hend : f.pos + count ≤ LOFF_MAX
  · left
    simp only [realRead, sysRead_of_find? hf hread hend]
    exact currentBytes_slice (rl.le_left ..) (fun _ hoffset => by cases hoffset)
  · right
    simp only [realRead, sysRead, hf, hend, and_false, if_false]
    exact ⟨trivial, not_le.mp hend⟩

theorem current_realPread {p : Proc} {fd : Int} {f : OpenFile String}
    (hf : p.fds.find? fd = some f) (hread : canRead f.flags = true) (count : Nat) {offset : Int}
    (hoffset : 0 ≤ offset) :
    CurrentBytes (p.files.content f.file) (some offset) (realPread rl p fd count offset).2 ∨
      (realPread rl p fd count offset).2 = ⟨-1, []⟩ ∧ LOFF_MAX < offset.toNat + count := by
  by_cases hend : offset.toNat + count ≤ LOFF_MAX
  · left
    simp only [realPread, sysPread_of_find? hf hread hoffset hend]
    apply currentBytes_slice (rl.le_left ..)
    intro x hx
    cases hx
    exact Int.toNat_of_nonneg hoffset
  · right
    simp only [realPread, sysPread, hf, hend, and_false, if_false]
    exact ⟨trivial, not_le.mp hend⟩

/-- A server's answer to a read for a descriptor that is not on a given-up copy: bytes
    of the file, or the failure of a positional read. -/
theorem Linked.read_reply {host : String → Int} {fdMap : OrdMap Int String}
    {fdRedirMap : OrdMap Int Int} {files : Files} {net : Net}
    (h : Linked kept bbpath host fdMap fdRedirMap files net) {fd r : Int} {path : String}
    (hpath : fdMap.find? fd = some path) (hr : fdRedirMap.find? fd = some r)
    (honKept : ∀ g, (net.servers (host path)).fds.find? r = some g →
      g.file = path ∨ kept path g.file)
    {remote inputVal offset : Int} (hoffset : offset = -1 ∨ 0 ≤ offset) {server : Server}
    {out : Reply} (hhandle : (net.servers (host path)).handle rl bbpath files remote
      (.rpcIn inputVal r fd offset) = some (server, some out)) :
    (offset ≠ -1 ∧ out = ⟨-1, []⟩) ∨
      ∃ pos n : Nat, (offset ≠ -1 → (pos : Int) = offset) ∧ n ≤ (files.content path).length - pos ∧
        int32 n = n ∧ out = ⟨n, slice (files.content path) pos n⟩ := by
  refine (Server.handle_rpcIn_some hhandle).imp id ?_
  rintro ⟨hret, rfl⟩
  obtain ⟨g, pos, n, hg, hpos, hn, hint32, hio, hdata⟩ := Server.rpcRead_of_nonneg hoffset hret
  obtain ⟨hunder, r', hr', hlink⟩ := h.entries fd path hpath
  obtain rfl := Option.some.inj (hr.symm.trans hr')
  have hne : r ≠ -1 := by
    have hnonneg := ((h.servers (host path)).descriptors r g hg).1
    omega
  obtain ⟨⟨g', hg', hreads⟩, -⟩ := hlink.resolve_left hne
  obtain rfl := Option.some.inj (hg.symm.trans hg')
  have hcontent := Server.Reads.content_eq ((honKept g hg).elim Or.inl hreads) hunder
  rw [hcontent] at hn hdata
  exact ⟨pos, n, hpos, hn, hint32, by rw [hio, hint32, hdata]⟩

/-! ### Every read of a run -/

section Steps

variable {s s' : Sys} {remote : Int} {out : Reply}

/-- A tracked descriptor's file, and what its server sees of it. -/
theorem SysInv.file_eq (h : SysInv env allowed kept bbpath N s) {fd : Int} {path : String}
    {f : OpenFile String} (hpath : s.proc.client.fdMap.find? fd = some path)
    (hf : s.proc.fds.find? fd = some f) : f.file = path := by
  obtain ⟨f', hf', hfile, -⟩ := h.locally fd path hpath
  obtain rfl := Option.some.inj (hf.symm.trans hf')
  exact hfile

theorem SysInv.read_current (h : SysInv env allowed kept bbpath N s)
    (hrunning : s.status = .running) {fd : Int} {count : Nat} {f : OpenFile String}
    (hf : s.proc.fds.find? fd = some f) (hread : canRead f.flags = true)
    (honKept : s.OnKept env kept N fd)
    (hstep : (sysMachine env rl bbpath).step s (.call (.read fd count) remote) =
      some (s', some (.returned out))) :
    CurrentBytes (s.proc.files.content f.file) none out ∨
      out = ⟨-1, []⟩ ∧ LOFF_MAX < f.pos + count := by
  rcases hpath : s.proc.client.fdMap.find? fd with _ | path
  · rw [step_read_untracked hrunning hpath] at hstep
    obtain rfl := Outcome.returned_of_step hstep
    exact current_realRead hf hread count
  · obtain rfl := h.file_eq hpath hf
    obtain ⟨-, r, hr, -⟩ := h.tracked hpath
    obtain ⟨server, reply, hhandle⟩ := @Server.handle_ne_none rl bbpath
      (s.net.servers (hostOf env N f.file)) s.proc.files remote
      (.rpcIn (int32 count) r fd (-1)) trivial
    rw [step_read hrunning h.calm hpath hr hhandle] at hstep
    cases reply with
    | none => cases hstep
    | some answer =>
      obtain ⟨hne, -⟩ | ⟨pos, n, -, hn, hint32, rfl⟩ :=
        h.linked.read_reply hpath hr (fun g hg => honKept _ r g hpath hr hg) (Or.inl rfl) hhandle
      · exact absurd rfl hne
      · have hnonneg : ¬ (n : Int) < 0 := by omega
        simp only [hint32, hnonneg, if_false] at hstep
        obtain rfl := Outcome.returned_of_step hstep
        exact Or.inl (currentBytes_slice hn (fun _ hoffset => by cases hoffset))

theorem SysInv.pread_current (h : SysInv env allowed kept bbpath N s) (hN : 1 ≤ N ∧ N < 2 ^ 31)
    (hrunning : s.status = .running) {fd : Int} {count : Nat} {offset : Int}
    (hoffset : 0 ≤ offset) (hagree : RingAgrees env true s.proc.client fd) {f : OpenFile String}
    (hf : s.proc.fds.find? fd = some f) (hread : canRead f.flags = true)
    (honKept : s.OnKept env kept N fd)
    (hstep : (sysMachine env rl bbpath).step s (.call (.pread fd count offset) remote) =
      some (s', some (.returned out))) :
    CurrentBytes (s.proc.files.content f.file) (some offset) out ∨
      out = ⟨-1, []⟩ ∧ LOFF_MAX < offset.toNat + count := by
  have hlocal := @current_realPread rl s.proc fd f hf hread count offset hoffset
  rcases hpath : s.proc.client.fdMap.find? fd with _ | path
  · rw [step_pread_untracked hrunning hpath] at hstep
    obtain rfl := Outcome.returned_of_step hstep
    exact hlocal
  · obtain rfl := h.file_eq hpath hf
    obtain ⟨-, r, hr, -⟩ := h.tracked hpath
    obtain ⟨server, reply, hhandle⟩ := @Server.handle_ne_none rl bbpath
      (s.net.servers (hostOf env N f.file)) s.proc.files remote
      (.rpcIn (int32 count) r fd offset) trivial
    rw [step_pread hN hrunning h.calm hpath hr hagree hhandle] at hstep
    cases reply with
    | none => cases hstep
    | some answer =>
      obtain ⟨-, rfl⟩ | ⟨pos, n, hpos, hn, -, rfl⟩ :=
        h.linked.read_reply hpath hr (fun g hg => honKept _ r g hpath hr hg) (Or.inr hoffset)
          hhandle
      · -- the server could not read, and the local descriptor is read instead
        obtain rfl := Outcome.returned_of_step hstep
        exact hlocal
      · have hnonneg : ¬ (n : Int) < 0 := by omega
        simp only [hnonneg, if_false] at hstep
        obtain rfl := Outcome.returned_of_step hstep
        refine Or.inl (currentBytes_slice hn ?_)
        intro x hx
        cases hx
        exact hpos (by omega)

theorem step_readsCurrent (hN : 1 ≤ N ∧ N < 2 ^ 31) {label : SysLabel}
    {o : Option (Outcome Reply)} (h : s.status = .running → SysInv env allowed kept bbpath N s)
    (hadm : Admissible env allowed kept bbpath s label)
    (hstep : (sysMachine env rl bbpath).step s label = some (s', o)) :
    ReadsCurrent env kept N s label o := by
  cases label with
  | deliver | mover => cases o <;> trivial
  | call call remote =>
    have hrunning : s.status = .running := by
      by_contra hstopped
      simp only [sysMachine, hstopped, if_false] at hstep
      cases hstep
    rcases o with _ | ⟨out⟩ | _ | _ | _
    · trivial
    · intro fd start count hsource hstart f hf hread honKept
      cases call with
      | read fd' count =>
        cases hsource
        exact (h hrunning).read_current hrunning hf hread honKept hstep
      | pread fd' count offset =>
        cases hsource
        exact (h hrunning).pread_current hN hrunning (hstart offset rfl) hadm hf hread honKept hstep
      | read64 fd' count =>
        cases hsource
        rw [step_read64 hrunning] at hstep
        obtain rfl := Outcome.returned_of_step hstep
        exact current_realRead hf hread count
      | readv fd' iov =>
        cases hsource
        rw [step_readv hrunning] at hstep
        obtain rfl := Outcome.returned_of_step hstep
        exact current_realRead hf hread iov.sum
      | openFile | lseek | close | write => cases hsource
    · trivial
    · trivial
    · trivial

/-- **In every run, whatever is written, each read returns current bytes as long as what
    the server opened for its descriptor was the file itself, or a copy since whose
    beginning the file has not changed.** -/
theorem reads_current (hN : 1 ≤ N ∧ N < 2 ^ 31) (files : Files) {labels : List SysLabel}
    (hadm : (sysMachine env rl bbpath).Along
      (fun s label _ _ => Admissible env (fun _ => True) kept bbpath s label) (sysStart env N files)
      labels) :
    (sysMachine env rl bbpath).Along (fun s label _ o => ReadsCurrent env kept N s label o)
      (sysStart env N files) labels := by
  apply Machine.along_of_invariant
    (I := fun s => s.status = .running → SysInv env (fun _ => True) kept bbpath N s)
    _ (fun _ => sysInv_start (fun _ => True) kept bbpath N files) hadm
  intro s label s' o h hlabel hstep
  exact ⟨step_readsCurrent hN h hlabel hstep, step_sysInv hN h hlabel hstep⟩

/-- No file but `path` changes, and the ring leads to the only server. -/
def OnlyChanges (env : Env) (bbpath path : String) (s : Sys) : SysLabel → Prop
  | .call (.openFile name flags _) _ => ∀ file ∈ env.canonical name,
      openedContents flags (s.proc.files.find? file) = s.proc.files.find? file ∧
        ¬ underBB bbpath file
  | .call (.write fd data) _ =>
      ∀ x ∈ sysWrite s.proc.files.content s.proc.fds fd data, x.1 = path
  | .call (.close fd) _ => ∀ file ∈ s.proc.client.fdMap.find? fd,
      s.proc.client.hashRing.getNode env.hash file = some (serverName 1) ∧
        (env.hash file).val % s.proc.client.gHvacServerCount = 0
  | .call (.pread _ _ _) _ => False
  | .call (.lseek _ _ _) _ => False
  | .call (.read _ _) _ => True
  | .call (.read64 _ _) _ => True
  | .call (.readv _ _) _ => True
  | .deliver _ => True
  | .mover _ _ => True

instance (env : Env) (bbpath path : String) (s : Sys) :
    ∀ label, Decidable (OnlyChanges env bbpath path s label)
  | .call (.openFile _ _ _) _ => inferInstanceAs (Decidable (∀ _ ∈ _, _ ∧ _))
  | .call (.write _ _) _ => inferInstanceAs (Decidable (∀ _ ∈ _, _))
  | .call (.close _) _ => inferInstanceAs (Decidable (∀ _ ∈ _, _ ∧ _))
  | .call (.pread _ _ _) _ => isFalse id
  | .call (.lseek _ _ _) _ => isFalse id
  | .call (.read _ _) _ => isTrue trivial
  | .call (.read64 _ _) _ => isTrue trivial
  | .call (.readv _ _) _ => isTrue trivial
  | .deliver _ => isTrue trivial
  | .mover _ _ => isTrue trivial

/-- The copies of all other files are kept. -/
theorem OnlyChanges.admissible {path : String} {label : SysLabel}
    (h : OnlyChanges env bbpath path s label) :
    Admissible env (fun _ => True) (fun p _ => p ≠ path) bbpath s label := by
  cases label with
  | deliver | mover => trivial
  | call call remote =>
    cases call with
    | openFile name flags ret =>
      intro file hfile
      obtain ⟨hsame, hunder⟩ := h file hfile
      exact ⟨Or.inr (Or.inl hsame), fun _ => ⟨hunder, trivial⟩⟩
    | write fd data =>
      intro file contents fds hwrite
      exact Or.inr fun _ hne => absurd (h _ hwrite) hne
    | close fd =>
      intro file hfile i hnode
      obtain ⟨hring, hhash⟩ := h file hfile
      rw [hring, Option.some.injEq, serverName_inj] at hnode
      exact Or.inr (by omega)
    | pread | lseek => exact h.elim
    | read | read64 | readv => trivial

/-- Two files are read and closed.  The first is opened again before its copy is there,
    and written after both copies are; the second is opened again on its copy. -/
def rewrittenLabels : List SysLabel :=
  [.call (.openFile "/data/a" O_RDONLY 3) 5, .call (.openFile "/data/b" O_RDONLY 4) 6,
    .call (.close 3) 0, .call (.close 4) 0, .deliver 0, .deliver 0,
    .call (.openFile "/data/a" O_RDWR 3) 5, .mover 0 .drain,
    .mover 0 (.mkdtemp (some "aaaaaa")), .mover 0 .copyBegin, .mover 0 (.copyChunk 1),
    .mover 0 .copyEnd, .mover 0 .publish, .mover 0 .pop,
    .mover 0 (.mkdtemp (some "bbbbbb")), .mover 0 .copyBegin, .mover 0 (.copyChunk 1),
    .mover 0 .copyEnd, .mover 0 .publish, .mover 0 .pop,
    .call (.write 3 [9]) 0, .call (.read 3 1) 0,
    .call (.openFile "/data/b" O_RDONLY 4) 6, .call (.read 4 1) 0]

def twoDataFiles : Files := (OrdMap.empty.insert "/data/a" [1]).insert "/data/b" [2]

theorem reads_current_rewritten :
    (∃ t os, (sysMachine zeroHashEnv ReadLen.full "/bb").run (sysStart zeroHashEnv 1 twoDataFiles)
        rewrittenLabels = some (t, os) ∧
      some (.returned ⟨1, [9]⟩) ∈ os ∧ some (.returned ⟨1, [2]⟩) ∈ os) ∧
    (sysMachine zeroHashEnv ReadLen.full "/bb").Along
      (fun s label _ o => ReadsCurrent zeroHashEnv (fun p _ => p ≠ "/data/a") 1 s label o)
      (sysStart zeroHashEnv 1 twoDataFiles) rewrittenLabels := by
  constructor
  · have hrun : ((sysMachine zeroHashEnv ReadLen.full "/bb").run
        (sysStart zeroHashEnv 1 twoDataFiles) rewrittenLabels).any (fun x => decide
          (some (.returned ⟨1, [9]⟩) ∈ x.2 ∧ some (.returned ⟨1, [2]⟩) ∈ x.2)) = true := by
      decide +kernel
    obtain ⟨⟨t, os⟩, hrun, hreads⟩ := (Option.any_eq_true _ _).mp hrun
    exact ⟨t, os, hrun, of_decide_eq_true hreads⟩
  · have honly : (sysMachine zeroHashEnv ReadLen.full "/bb").Along
        (fun s label _ _ => OnlyChanges zeroHashEnv "/bb" "/data/a" s label)
        (sysStart zeroHashEnv 1 twoDataFiles) rewrittenLabels := by
      decide +kernel
    exact reads_current (by decide) twoDataFiles (honly.mono fun _ _ _ _ _ h => h.admissible)

/-- The file is read and closed, the server copies it, and it is rewritten. -/
def staleLabels : List SysLabel :=
  [.call (.openFile "/data/a" O_RDONLY 3) 5, .call (.close 3) 0, .deliver 0,
    .mover 0 .drain, .mover 0 (.mkdtemp (some "XXXXXX")), .mover 0 .copyBegin,
    .mover 0 (.copyChunk 1), .mover 0 .copyEnd, .mover 0 .publish, .mover 0 .pop,
    .call (.openFile "/data/a" O_WRONLY 3) 0, .call (.write 3 [2]) 0, .call (.close 3) 0,
    .call (.openFile "/data/a" O_RDONLY 3) 5, .call (.read 3 1) 0]

/-- The descriptor opened after the write still reads the copy. -/
theorem stale_read :
    ∃ s os, (sysMachine zeroHashEnv ReadLen.full "/bb").run
        (sysStart zeroHashEnv 1 (OrdMap.empty.insert "/data/a" [1])) staleLabels = some (s, os) ∧
      os.getLast? = some (some (.returned ⟨1, [1]⟩)) ∧
      ¬ CurrentBytes (s.proc.files.content "/data/a") none ⟨1, [1]⟩ := by
  have hrun : ((sysMachine zeroHashEnv ReadLen.full "/bb").run
      (sysStart zeroHashEnv 1 (OrdMap.empty.insert "/data/a" [1])) staleLabels).map
        (fun r => (r.2.getLast?, r.1.proc.files.content "/data/a")) =
      some (some (some (.returned ⟨1, [1]⟩)), [2]) := by decide +kernel
  obtain ⟨⟨s, os⟩, hrun, hlast⟩ := Option.map_eq_some_iff.mp hrun
  obtain ⟨hread, hfile⟩ := Prod.mk.inj hlast
  refine ⟨s, os, hrun, hread, ?_⟩
  rw [hfile]
  rintro ⟨pos, -, -, hdata⟩
  rcases pos with _ | pos
  · cases hdata
  · simp [slice] at hdata

end Steps

end Hvac
