/-
  Hvac/Wrappers.lean
  ==================
  **The intercepted calls** (`wrappers.c`) on a process: the client's tables, the
  process's descriptors, and the files by canonical path.

  A wrapper performs the real call, the remote one, or both.  A real call is a
  call of `Library/Posix.lean`; which free number the kernel returns is an
  argument, and `-1` stands for a failure.  `answer files` is the network's
  answer while the files are `files`: an open is sent after the real open, which
  may have created or truncated the file.

  The library is initialised and redirection is on; the messages of the wrappers
  are not modelled.
-/
import Hvac.Client

namespace Hvac

open Cxx Posix

abbrev Files := OrdMap String Contents

/-- The bytes of `path`, none if there is no such file. -/
def Files.content (files : Files) (path : String) : Contents := (files.find? path).getD []

structure Proc where
  client : Client
  fds : FdTable String
  files : Files
deriving DecidableEq

/-- Continue after a remote call that returned. -/
def Effect.andThen {α β : Type} (e : Effect Client α) (s : Proc) (k : Proc → α → Proc × β) :
    Effect Proc β :=
  match e.outcome with
  | .returned a =>
      let r := k { s with client := e.state } a
      ⟨r.1, e.sent, .returned r.2⟩
  | .blocked => ⟨{ s with client := e.state }, e.sent, .blocked⟩
  | .exited code => ⟨{ s with client := e.state }, e.sent, .exited code⟩
  | .threw what => ⟨{ s with client := e.state }, e.sent, .threw what⟩

variable (env : Env) (rl : ReadLen)

/-! ### Real calls -/

/-- What an open leaves of a file; `none` where there is none to open.  `O_TRUNC`
    truncates whatever the access mode is; `O_PATH` overrides both flags. -/
def openedContents (flags : OFlags) : Option Contents → Option Contents
  | none => if flags &&& O_CREAT ≠ 0#32 ∧ flags &&& O_PATH = 0#32 then some [] else none
  | some data => if flags &&& O_TRUNC ≠ 0#32 ∧ flags &&& O_PATH = 0#32 then some [] else some data

/-- `__real_open` returning `ret`; `none` when it cannot. -/
def realOpen (s : Proc) (path : String) (flags : OFlags) (ret : Int) : Option Proc :=
  if ret = -1 then some s
  else
    match env.canonical path with
    | none => none
    | some file =>
        match openedContents flags (s.files.find? file) with
        | none => none
        | some data =>
            match sysOpen s.fds ret file flags with
            | none => none
            | some fds => some { s with fds := fds, files := s.files.insert file data }

def realClose (s : Proc) (fd : Int) : Proc × Int :=
  let (ret, fds) := sysClose s.fds fd
  ({ s with fds := fds }, ret)

def realRead (s : Proc) (fd : Int) (count : Nat) : Proc × Reply :=
  let io := sysRead rl s.files.content s.fds fd count
  ({ s with fds := io.fds }, ⟨io.ret, io.data⟩)

def realPread (s : Proc) (fd : Int) (count : Nat) (offset : Int) : Proc × Reply :=
  let io := sysPread rl s.files.content s.fds fd count offset
  ({ s with fds := io.fds }, ⟨io.ret, io.data⟩)

def realLseek (s : Proc) (fd offset whence : Int) : Proc × Int :=
  let (ret, fds) := sysSeek s.files.content s.fds fd offset whence
  ({ s with fds := fds }, ret)

def realWrite (s : Proc) (fd : Int) (data : Contents) : Proc × Int :=
  match sysWrite s.files.content s.fds fd data with
  | none => (s, -1)
  | some (file, contents, fds) =>
      ({ s with fds := fds, files := s.files.insert file contents }, data.length)

/-! ### Wrappers -/

variable (answer : Files → Int → Request → Option Reply)

/-- The common part of `open` and `fopen`: the real call with `flags`, then tracking
    with `trackFlags`. -/
def openAndTrack (s : Proc) (path : String) (flags trackFlags : OFlags) (ret : Int) :
    Option (Effect Proc Int) :=
  match realOpen env s path flags ret with
  | none => none
  | some s =>
      if ret = -1 then some ⟨s, [], .returned ret⟩
      else
        some ((hvacTrackFile env (answer s.files) s.client path trackFlags ret).andThen s
          fun s _ => (s, ret))

def wrapOpen (s : Proc) (path : String) (flags : OFlags) (ret : Int) : Option (Effect Proc Int) :=
  openAndTrack env answer s path flags flags ret

/-- The flags `fopen` opens with. -/
def fopenFlags (mode : String) : Option OFlags :=
  let update (one both : OFlags) := if '+' ∈ mode.toList then both else one
  match mode.toList with
  | 'r' :: _ => some (update O_RDONLY O_RDWR)
  | 'w' :: _ => some (update O_WRONLY O_RDWR ||| O_CREAT ||| O_TRUNC)
  | 'a' :: _ => some (update O_WRONLY O_RDWR ||| O_CREAT ||| O_APPEND)
  | _ => none

/-- `fopen` and `fopen64`, returning `fileno` of the stream; the file is tracked as if
    opened with `O_RDONLY`, whatever the mode. -/
def wrapFopen (s : Proc) (path mode : String) (ret : Int) : Option (Effect Proc Int) :=
  match fopenFlags mode with
  | none => if ret = -1 then some ⟨s, [], .returned ret⟩ else none
  | some flags => openAndTrack env answer s path flags O_RDONLY ret

def wrapClose (s : Proc) (fd : Int) : Effect Proc Int :=
  match s.client.hvacGetPath fd with
  | some _ => (hvacRemoveFd env s.client fd).andThen s fun s _ => realClose s fd
  | none =>
      let (s, ret) := realClose s fd
      ⟨s, [], .returned ret⟩

/-- `read`, whose result passes through an `int`. -/
def wrapRead (s : Proc) (fd : Int) (count : Nat) : Effect Proc Reply :=
  (hvacRemoteRead env (answer s.files) s.client fd count).andThen s fun s out =>
    let ret := int32 out.ret
    if ret < 0 then
      let (s, out) := realRead rl s fd count
      (s, ⟨int32 out.ret, out.data⟩)
    else (s, ⟨ret, out.data⟩)

def wrapPread (s : Proc) (fd : Int) (count : Nat) (offset : Int) : Effect Proc Reply :=
  match s.client.hvacGetPath fd with
  | some _ =>
      (hvacRemotePread env (answer s.files) s.client fd count offset).andThen s fun s out =>
        if out.ret < 0 then realPread rl s fd count offset else (s, out)
  | none =>
      let (s, out) := realPread rl s fd count offset
      ⟨s, [], .returned out⟩

/-- `read64` only logs that the file is tracked. -/
def wrapRead64 (s : Proc) (fd : Int) (count : Nat) : Effect Proc Reply :=
  let (s, out) := realRead rl s fd count
  ⟨s, [], .returned out⟩

/-- `readv` into buffers of the given lengths. -/
def wrapReadv (s : Proc) (fd : Int) (iov : List Nat) : Effect Proc Reply :=
  let (s, out) := realRead rl s fd iov.sum
  ⟨s, [], .returned out⟩

/-- `write` returns the real call before anything else is looked at. -/
def wrapWrite (s : Proc) (fd : Int) (data : Contents) : Effect Proc Int :=
  let (s, ret) := realWrite s fd data
  ⟨s, [], .returned ret⟩

/-- `lseek` and `lseek64`. -/
def wrapLseek (s : Proc) (fd offset whence : Int) : Effect Proc Int :=
  if s.client.hvacFileTracked fd then
    (hvacRemoteLseek env (answer s.files) s.client fd offset whence).andThen s fun s ret => (s, ret)
  else
    let (s, ret) := realLseek s fd offset whence
    ⟨s, [], .returned ret⟩

/-! ### First facts -/

variable {env rl answer}

theorem realOpen_eq_some {s s' : Proc} {path : String} {flags : OFlags} {ret : Int}
    (h : realOpen env s path flags ret = some s') :
    (ret = -1 ∧ s' = s) ∨
      ∃ file data, ret ≠ -1 ∧ env.canonical path = some file ∧
        openedContents flags (s.files.find? file) = some data ∧
        0 ≤ ret ∧ s.fds.find? ret = none ∧
        s' = { s with
          fds := s.fds.insert ret ⟨file, flags, 0⟩, files := s.files.insert file data } := by
  unfold realOpen at h
  split at h
  · next hret => exact Or.inl ⟨hret, (Option.some.inj h).symm⟩
  · next hret =>
    right
    rcases hfile : env.canonical path with _ | file
    · rw [hfile] at h; cases h
    · rcases hdata : openedContents flags (s.files.find? file) with _ | data
      · simp only [hfile, hdata] at h; cases h
      · rcases hopen : sysOpen s.fds ret file flags with _ | fds
        · simp only [hfile, hdata, hopen] at h; cases h
        · simp only [hfile, hdata, hopen, Option.some.injEq] at h
          obtain ⟨hnonneg, hfree, rfl⟩ := sysOpen_eq_some_iff.mp hopen
          exact ⟨file, data, hret, rfl, hdata, hnonneg, hfree, h.symm⟩

theorem realOpen_client {s s' : Proc} {path : String} {flags : OFlags} {ret : Int}
    (h : realOpen env s path flags ret = some s') : s'.client = s.client := by
  rcases realOpen_eq_some h with ⟨-, rfl⟩ | ⟨_, _, -, -, -, -, -, rfl⟩ <;> rfl

/-- An open closes nothing. -/
theorem find?_realOpen_ne_none {s s' : Proc} {path : String} {flags : OFlags} {ret fd : Int}
    (h : realOpen env s path flags ret = some s') (hfd : s.fds.find? fd ≠ none) :
    s'.fds.find? fd ≠ none := by
  rcases realOpen_eq_some h with ⟨-, rfl⟩ | ⟨_, _, -, -, -, -, -, rfl⟩
  · exact hfd
  · rw [OrdMap.find?_insert]
    split
    · exact Option.some_ne_none _
    · exact hfd

theorem realOpen_of_free {s : Proc} {path file : String} {flags : OFlags} {ret : Int}
    {data : Contents} (hret : ret ≠ -1) (hfile : env.canonical path = some file)
    (hdata : openedContents flags (s.files.find? file) = some data) (hnonneg : 0 ≤ ret)
    (hfree : s.fds.find? ret = none) :
    realOpen env s path flags ret = some { s with
      fds := s.fds.insert ret ⟨file, flags, 0⟩, files := s.files.insert file data } := by
  simp only [realOpen, hret, if_false, hfile, hdata,
    sysOpen_eq_some_iff.mpr ⟨hnonneg, hfree, rfl⟩]

/-- The byte count of a read fits an `int`. -/
theorem int32_readLen (size pos count : Nat) :
    int32 (rl.len size pos count) = rl.len size pos count := by
  have hmax := rl.le_max size pos count
  apply int32_of_isInt32
  simp only [MAX_RW_COUNT] at hmax
  constructor <;> omega

theorem int32_realRead (s : Proc) (fd : Int) (count : Nat) :
    int32 (realRead rl s fd count).2.ret = (realRead rl s fd count).2.ret := by
  have hneg : int32 (-1) = -1 := by decide
  unfold realRead sysRead
  rcases s.fds.find? fd with _ | f
  · exact hneg
  · dsimp only
    split
    · exact int32_readLen ..
    · exact hneg

/-- A tracked path is the canonical one. -/
theorem trackPath_canonical {path file : String} {flags : OFlags}
    (h : trackPath env path flags = some file) : env.canonical path = some file := by
  unfold trackPath at h
  split at h
  · cases h
  · split at h
    · cases h
    · split at h
      · cases h
      · rcases hfile : env.canonical path with _ | canonicalPath
        · rw [hfile] at h; cases h
        · simp only [hfile] at h
          split at h
          · split at h
            · cases h
            · split at h
              · exact h
              · cases h
          · split at h
            · exact h
            · cases h

@[simp] theorem Effect.andThen_state_client {α β : Type} (e : Effect Client α) (s : Proc)
    (k : Proc → α → Proc × β) (hk : ∀ s a, (k s a).1.client = s.client) :
    (e.andThen s k).state.client = e.state := by
  unfold Effect.andThen
  cases e.outcome with
  | returned a => exact hk _ a
  | blocked | exited | threw => rfl

end Hvac
