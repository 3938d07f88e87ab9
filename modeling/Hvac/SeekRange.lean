/-
  Hvac/SeekRange.lean
  ===================
  **Which seeks survive the wire.**  The offset of a seek is an `int` in
  `hvac_remote_lseek` and in the request, and the position it leads to an `int`
  in the response.  `lseek_agrees_iff` compares a seek of a tracked descriptor,
  from the wrapper to the reply, with the same seek of a local descriptor that
  stands at the same position of a file of the same size: result and position
  agree exactly when offset and position fit (`SeekFits`).  The two other whences
  that exist ask for the holes of a file, which its copy need not share.
-/
import Hvac.SystemStep

namespace Hvac

open Cxx Posix

/-- The offset fits 32 bits and the seek leads below `2 ^ 31`; or the seek fails, and
    so does one by the narrowed offset.  (A seek by the narrowed offset that stays
    where it is can also answer `-1`, at a position of which 32 bits are all ones.) -/
def SeekFits (size pos : Nat) (offset whence : Int) : Prop :=
  match seekTarget size pos offset whence with
  | some x => IsInt32 offset ∧ x < 2 ^ 31
  | none =>
      ∀ y, seekTarget size pos (int32 offset) whence = some y → y = pos ∧ int32 pos = -1

/-- What a seek with this target returns. -/
def seekRet (target : Option Nat) : Int :=
  match target with
  | some x => x
  | none => -1

/-- Where it leaves a descriptor that stands at `pos`. -/
def seekPos (pos : Nat) (target : Option Nat) : Nat := target.getD pos

/-- Where a descriptor stands. -/
def posOf (t : FdTable String) (fd : Int) : Option Nat := (t.find? fd).map OpenFile.pos

/-! ### Narrowing -/

/-- A seek by the narrowed offset reaches the same position below `2 ^ 31` only if the
    offset was not changed. -/
theorem isInt32_of_seekTarget {size pos x : Nat} {offset whence : Int}
    (hwhence : PlainWhence whence) (h : seekTarget size pos offset whence = some x)
    (h' : seekTarget size pos (int32 offset) whence = some x) (hx : x < 2 ^ 31) :
    IsInt32 offset := by
  rw [seekTarget_eq_some_iff] at h h'
  have hfits := isInt32_int32 offset
  have hcodes : SEEK_SET = 0 ∧ SEEK_CUR = 1 ∧ SEEK_END = 2 := ⟨rfl, rfl, rfl⟩
  simp only [hwhence.1, hwhence.2, false_and, or_false] at h h'
  rw [IsInt32] at hfits ⊢
  -- both offsets lead to `x` the same way
  omega

/-- A response of `-1` that stands for a position is one whose low 32 bits are ones. -/
theorem seekFits_iff {size pos : Nat} {offset whence : Int} (hwhence : PlainWhence whence) :
    int32 (seekRet (seekTarget size pos (int32 offset) whence)) =
        seekRet (seekTarget size pos offset whence) ∧
      seekPos pos (seekTarget size pos (int32 offset) whence) =
        seekPos pos (seekTarget size pos offset whence) ↔
    SeekFits size pos offset whence := by
  have hneg : int32 (-1) = -1 := by decide
  unfold SeekFits
  rcases hlocal : seekTarget size pos offset whence with _ | x
  · rcases hremote : seekTarget size pos (int32 offset) whence with _ | y
    · simp [seekRet, hneg]
    · simp only [seekRet, seekPos, Option.getD_some, Option.getD_none, Option.some.injEq]
      constructor
      · rintro ⟨hret, hpos⟩ y' rfl
        exact ⟨hpos, by rw [← hpos, hret]⟩
      · intro h
        obtain ⟨rfl, hret⟩ := h y rfl
        exact ⟨hret, rfl⟩
  · rcases hremote : seekTarget size pos (int32 offset) whence with _ | y
    · simp only [seekRet, hneg]
      constructor
      · rintro ⟨hret, -⟩
        omega
      · rintro ⟨hfits, -⟩
        rw [int32_of_isInt32 hfits, hlocal] at hremote
        cases hremote
    · simp only [seekRet, seekPos, Option.getD_some]
      constructor
      · rintro ⟨hret, rfl⟩
        have hx : IsInt32 (y : Int) := int32_eq_self_iff.mp hret
        have hlt : y < 2 ^ 31 := by
          have := hx.2
          omega
        exact ⟨isInt32_of_seekTarget hwhence hlocal hremote hlt, hlt⟩
      · rintro ⟨hfits, hlt⟩
        rw [int32_of_isInt32 hfits, hlocal, Option.some.injEq] at hremote
        subst hremote
        exact ⟨int32_of_isInt32 ⟨by omega, by omega⟩, rfl⟩

/-! ### The seek on each side -/

theorem sysSeek_of_open (content : String → Contents) {t : FdTable String} {fd : Int}
    {f : OpenFile String} (h : t.find? fd = some f) (hseek : canSeek f.flags = true)
    (offset whence : Int) :
    (sysSeek content t fd offset whence).1 =
        seekRet (seekTarget (content f.file).length f.pos offset whence) ∧
      posOf (sysSeek content t fd offset whence).2 fd =
        some (seekPos f.pos (seekTarget (content f.file).length f.pos offset whence)) := by
  rcases hx : seekTarget (content f.file).length f.pos offset whence with _ | x
  · rw [sysSeek_of_no_target h hx]
    exact ⟨rfl, by rw [posOf, h]; rfl⟩
  · rw [sysSeek_of_target h hseek hx]
    exact ⟨rfl, by rw [posOf, OrdMap.find?_insert_self]; rfl⟩

theorem Server.handle_seekIn {rl : ReadLen} {bbpath : String} {files : Files} {server : Server}
    (halive : server.alive = true) (r offset whence remote : Int) :
    server.handle rl bbpath files remote (.seekIn r offset whence) =
      some ({ server with
          fds := (sysSeek (server.content bbpath files) server.fds r offset whence).2 },
        some ⟨int32 (sysSeek (server.content bbpath files) server.fds r offset whence).1, []⟩) := by
  simp only [Server.handle, halive, if_true, Server.seekRpcHandler]

variable {env : Env} {rl : ReadLen} {bbpath : String}

/-- **Seeks, exactly.**  `fd` is tracked, `r` is its descriptor at the server the ring
    names, and a local descriptor stands at the same position of a file as long: for
    every whence that looks at position and size only, the seek through the client and
    the server returns what the local one returns and leaves both positions equal if
    and only if offset and position fit. -/
theorem lseek_agrees_iff {s : Sys} {fd r host fd' : Int} {path hostname : String}
    {f g : OpenFile String} {t : FdTable String} {content : String → Contents}
    (hrunning : s.status = .running) (hpath : s.proc.client.fdMap.find? fd = some path)
    (hr : s.proc.client.fdRedirMap.find? fd = some r)
    (hhost : s.proc.client.ringHost env path = .ok (hostname, host))
    (halive : (s.net.servers host).alive = true)
    (hg : (s.net.servers host).fds.find? r = some g) (hg' : canSeek g.flags = true)
    (hf : t.find? fd' = some f) (hf' : canSeek f.flags = true) (hpos : f.pos = g.pos)
    (hsize : (content f.file).length =
      ((s.net.servers host).content bbpath s.proc.files g.file).length)
    (offset : Int) {whence : Int} (hwhence : PlainWhence whence) (remote : Int) :
    ∃ s' ret, (sysMachine env rl bbpath).step s (.call (.lseek fd offset whence) remote) =
        some (s', some (.returned ⟨ret, []⟩)) ∧
      (ret = (sysSeek content t fd' offset whence).1 ∧
          posOf (s'.net.servers host).fds r = posOf (sysSeek content t fd' offset whence).2 fd' ↔
        SeekFits (content f.file).length f.pos offset whence) := by
  refine ⟨_, _, step_lseek_of_ringHost hrunning hpath hr hhost
    (Server.handle_seekIn halive r (int32 offset) whence remote), ?_⟩
  have hlocal := sysSeek_of_open content hf hf' offset whence
  have hremote := sysSeek_of_open ((s.net.servers host).content bbpath s.proc.files) hg hg'
    (int32 offset) whence
  rw [Net.servers_setServer_self, hlocal.1, hlocal.2, hremote.1, hremote.2, Option.some.injEq,
    ← hpos, ← hsize, seekFits_iff hwhence]

/-! ### A system with one open file -/

/-- One server; descriptor 3 of the process is descriptor 5 there, both at the start of
    a file with these bytes. -/
def oneFileSys (data : Contents) : Sys where
  proc :=
    { client := { hvacClientInit zeroHashEnv 1 with
        fdMap := OrdMap.empty.insert 3 "/data/a"
        fdRedirMap := OrdMap.empty.insert 3 5 }
      fds := OrdMap.empty.insert 3 ⟨"/data/a", O_RDONLY, 0⟩
      files := OrdMap.empty.insert "/data/a" data }
  status := .running
  net := ⟨fun _ => { Server.init with
    fds := OrdMap.empty.insert 5 ⟨"/data/a", O_RDONLY, 0⟩ }, []⟩

theorem calm_oneFileSys (data : Contents) : Calm zeroHashEnv 1 (oneFileSys data).proc.client :=
  (calm_init zeroHashEnv 1).setMaps _ _

theorem ringHost_oneFileSys (data : Contents) :
    ∃ hostname, (oneFileSys data).proc.client.ringHost zeroHashEnv "/data/a" =
      .ok (hostname, 0) := by
  have hpath : (oneFileSys data).proc.client.fdMap.find? 3 = some "/data/a" := rfl
  exact (calm_oneFileSys data).ringHost_one hpath

section OneFile

variable (data : Contents)

theorem oneFileSys_fds :
    (oneFileSys data).proc.fds.find? 3 = some ⟨"/data/a", O_RDONLY, 0⟩ ∧
    ((oneFileSys data).net.servers 0).fds.find? 5 = some ⟨"/data/a", O_RDONLY, 0⟩ :=
  ⟨rfl, rfl⟩

theorem oneFileSys_content :
    (oneFileSys data).proc.files.content "/data/a" = data ∧
    ((oneFileSys data).net.servers 0).content "/bb" (oneFileSys data).proc.files "/data/a" =
      data := by
  have hfile : (oneFileSys data).proc.files.content "/data/a" = data := rfl
  exact ⟨hfile, (Server.content_of_not_underBB (by decide) _).trans hfile⟩

end OneFile

theorem lseek_agrees_iff_two :
    ∃ s' ret, (sysMachine zeroHashEnv ReadLen.full "/bb").step (oneFileSys [1, 2, 3])
        (.call (.lseek 3 2 SEEK_SET) 0) = some (s', some (.returned ⟨ret, []⟩)) ∧
      (ret = (sysSeek (oneFileSys [1, 2, 3]).proc.files.content (oneFileSys [1, 2, 3]).proc.fds
            3 2 SEEK_SET).1 ∧
          posOf (s'.net.servers 0).fds 5 =
            posOf (sysSeek (oneFileSys [1, 2, 3]).proc.files.content
              (oneFileSys [1, 2, 3]).proc.fds 3 2 SEEK_SET).2 3 ↔
        SeekFits 3 0 2 SEEK_SET) := by
  obtain ⟨hostname, hhost⟩ := ringHost_oneFileSys [1, 2, 3]
  obtain ⟨hf, hg⟩ := oneFileSys_fds [1, 2, 3]
  exact lseek_agrees_iff rfl rfl rfl hhost rfl hg rfl hf rfl rfl rfl 2 (by decide) 0

/-- `lseek(fd, 2^31, SEEK_SET)` moves a local descriptor there; through the client and
    the server it fails. -/
theorem lseek_two_gib :
    (∃ s', (sysMachine zeroHashEnv ReadLen.full "/bb").step (oneFileSys [1, 2, 3])
        (.call (.lseek 3 (2 ^ 31) SEEK_SET) 0) = some (s', some (.returned ⟨-1, []⟩))) ∧
    (sysSeek (oneFileSys [1, 2, 3]).proc.files.content (oneFileSys [1, 2, 3]).proc.fds
      3 (2 ^ 31) SEEK_SET).1 = 2 ^ 31 := by
  obtain ⟨hostname, hhost⟩ := ringHost_oneFileSys [1, 2, 3]
  obtain ⟨hf, hg⟩ := oneFileSys_fds [1, 2, 3]
  have hanswer : ((oneFileSys [1, 2, 3]).net.servers 0).handle ReadLen.full "/bb"
      (oneFileSys [1, 2, 3]).proc.files 0 (.seekIn 5 (int32 (2 ^ 31)) SEEK_SET) =
        some ((oneFileSys [1, 2, 3]).net.servers 0, some ⟨-1, []⟩) := by
    apply Server.handle_seek_failed rfl hg
    rw [(oneFileSys_content [1, 2, 3]).2]
    decide
  exact ⟨⟨_, step_lseek_of_ringHost rfl rfl rfl hhost hanswer⟩,
    (sysSeek_of_open _ hf rfl (2 ^ 31) SEEK_SET).1⟩

end Hvac
