/-
  Hvac/Server.lean
  ================
  **The server**: the four RPC handlers (`hvac_comm.cpp`) and the data mover
  (`hvac_data_mover.cpp`).

  A server sees the shared files, and under `BBPATH` the files of its own node; a
  file name is resolved accordingly (`view`).  A handler runs to its end before
  the next one starts; the mover's steps are separate, and its copy advances by
  chunks, so a handler or a write of a client can come between any two of them.

  A failed assertion aborts the server, which answers nothing from then on.  Two
  are reachable: `calloc` of a size that was negative, and the bulk transfer of
  `(hg_size_t) -1` bytes after a failed sequential read, which Mercury refuses.
  The address lookup for the log in the close handler is not modelled.

  What the server's kernel answers beyond its arguments comes with the request: the
  number of a new descriptor, and `-1` where an open or a read fails (a directory, an
  error of the device).
-/
import Hvac.Wrappers

namespace Hvac

open Cxx Posix

/-! ### State -/

/-- Where the mover's loop stands: in its wait, before the next file, with the
    directory made, inside `fs::copy`, behind it, and before the `pop`. -/
inductive MoverPc where
  | waiting
  | ready
  | made (dir : String)
  | copying (dest : String)
  | copied (dest : String)
  | finished
deriving DecidableEq

structure Server where
  alive : Bool
  fds : FdTable String
  store : Files
  dirs : List String
  fdToPath : OrdMap Int String
  pathCacheMap : OrdMap String String
  dataQueue : List String
  localList : List String
  mover : MoverPc
deriving DecidableEq

def Server.init : Server where
  alive := true
  fds := OrdMap.empty
  store := OrdMap.empty
  dirs := []
  fdToPath := OrdMap.empty
  pathCacheMap := OrdMap.empty
  dataQueue := []
  localList := []
  mover := .waiting

/-- The path lies under the node-local directory. -/
def underBB (bbpath path : String) : Prop := (bbpath.toList ++ ['/']) <+: path.toList

instance (bbpath path : String) : Decidable (underBB bbpath path) :=
  inferInstanceAs (Decidable (_ <+: _))

variable (rl : ReadLen) (bbpath : String) (files : Files)

namespace Server

/-- What the server's file system holds under a name. -/
def view (s : Server) (path : String) : Option Contents :=
  if underBB bbpath path then s.store.find? path else files.find? path

def content (s : Server) (path : String) : Contents := (s.view bbpath files path).getD []

/-! ### RPC handlers -/

/-- The name the open handler opens: the published copy, if there is one. -/
def redirPath (s : Server) (path : String) : String := (s.pathCacheMap.find? path).getD path

/-- `hvac_open_rpc_handler`, whose `open` returns `ret`; `none` when it cannot. -/
def openRpcHandler (s : Server) (path : String) (ret : Int) : Option (Server × Option Reply) :=
  let respond (s : Server) : Server × Option Reply :=
    ({ s with fdToPath := s.fdToPath.insert ret path }, some ⟨ret, []⟩)
  if ret = -1 then some (respond s)
  else
    match s.view bbpath files (s.redirPath path) with
    | none => none
    | some _ =>
        match sysOpen s.fds ret (s.redirPath path) O_RDONLY with
        | none => none
        | some fds => some (respond { s with fds := fds })

/-- The buffer of a read request, `calloc(1, in.input_val)`: no allocation has the size
    that a negative number converts to. -/
def rpcSize (inputVal : Int) : Option Nat :=
  if inputVal < 0 then none else some inputVal.toNat

/-- The `read` or `pread` into the buffer, which fails where `ret` is `-1`. -/
def rpcRead (s : Server) (size : Nat) (accessfd offset ret : Int) : Io String :=
  if ret = -1 then ⟨-1, [], s.fds⟩
  else if offset = -1 then sysRead rl (s.content bbpath files) s.fds accessfd size
  else sysPread rl (s.content bbpath files) s.fds accessfd size offset

/-- `hvac_rpc_handler` and `hvac_rpc_handler_bulk_cb`. -/
def rpcHandler (s : Server) (inputVal accessfd offset ret : Int) : Server × Option Reply :=
  match rpcSize inputVal with
  | none => ({ s with alive := false }, none)
  | some size =>
      let io := s.rpcRead rl bbpath files size accessfd offset ret
      -- the log line reads fd_to_path[accessfd]
      let s := { s with fds := io.fds, fdToPath := (s.fdToPath.index accessfd "").2 }
      if io.ret < 0 then
        if offset = -1 then ({ s with alive := false }, none) else (s, some ⟨-1, []⟩)
      else (s, some ⟨int32 io.ret, io.data⟩)

/-- `hvac_close_rpc_handler`. -/
def closeRpcHandler (s : Server) (fd : Int) : Server :=
  let fds := (sysClose s.fds fd).2
  let path := (s.fdToPath.index fd "").1
  { s with
    fds := fds
    dataQueue :=
      if (s.pathCacheMap.find? path).isNone then s.dataQueue ++ [path] else s.dataQueue
    fdToPath := (s.fdToPath.index fd "").2.erase fd }

/-- `hvac_seek_rpc_handler`; the response has room for 32 bits. -/
def seekRpcHandler (s : Server) (fd offset whence : Int) : Server × Option Reply :=
  let io := sysSeek (s.content bbpath files) s.fds fd offset whence
  ({ s with fds := io.2 }, some ⟨int32 io.1, []⟩)

/-- Handle one request; `remote` is the number the server's kernel gives a new
    descriptor, and `-1` where its open or its read fails. -/
def handle (s : Server) (remote : Int) (request : Request) : Option (Server × Option Reply) :=
  if s.alive then
    match request with
    | .openIn path _ => s.openRpcHandler bbpath files path remote
    | .rpcIn inputVal accessfd _ offset =>
        some (s.rpcHandler rl bbpath files inputVal accessfd offset remote)
    | .seekIn fd offset whence => some (s.seekRpcHandler bbpath files fd offset whence)
    | .closeIn fd => some (s.closeRpcHandler fd, none)
  else some (s, none)

end Server

namespace Server

/-- The request fails no assertion: it has no negative size, and a sequential read of it
    does not fail, for the number, for where it would end or for the kernel's reasons. -/
def Spared (s : Server) (ret : Int) : Request → Prop
  | .rpcIn inputVal accessfd _ offset =>
      0 ≤ inputVal ∧ (offset = -1 → ret ≠ -1 ∧
        ∃ g ∈ s.fds.find? accessfd, g.pos + inputVal.toNat ≤ LOFF_MAX)
  | .openIn _ _ => True
  | .seekIn _ _ _ => True
  | .closeIn _ => True

instance (s : Server) (ret : Int) : ∀ request : Request, Decidable (s.Spared ret request)
  | .rpcIn _ _ _ _ => inferInstanceAs (Decidable (_ ∧ (_ → _ ∧ ∃ g ∈ _, _)))
  | .openIn _ _ => isTrue trivial
  | .seekIn _ _ _ => isTrue trivial
  | .closeIn _ => isTrue trivial

end Server

/-! ### Data mover -/

/-- The steps of `hvac_data_mover_fn`.  `mkdtemp` fills the six characters in, or
    fails, in which case the copy goes into a directory that is not there. -/
inductive MoverStep where
  | drain
  | mkdtemp (suffix : Option String)
  | copyBegin
  | copyChunk (n : Nat)
  | copyEnd
  | copyFail
  | publish
  | pop
deriving DecidableEq

/-- `dirpath + "/" + fs::path(path).filename()`. -/
def copyName (dir path : String) : String := dir ++ "/" ++ filename path

def Server.moverStep (s : Server) : MoverStep → Option Server
  | .drain =>
      if s.mover = .waiting ∧ s.dataQueue ≠ [] then
        some { s with localList := s.localList ++ s.dataQueue, dataQueue := [], mover := .ready }
      else none
  | .mkdtemp suffix =>
      match s.mover, suffix with
      | .ready, none => some { s with mover := .finished }
      | .ready, some suffix =>
          let dir := bbpath ++ "/" ++ suffix
          if suffix.length = 6 ∧ '/' ∉ suffix.toList ∧ dir ∉ s.dirs then
            some { s with dirs := dir :: s.dirs, mover := .made dir }
          else none
      | _, _ => none
  | .copyBegin =>
      match s.mover, s.localList with
      | .made dir, path :: _ =>
          match s.view bbpath files path with
          | some _ =>
              some { s with
                store := s.store.insert (copyName dir path) []
                mover := .copying (copyName dir path) }
          | none => none
      | _, _ => none
  | .copyChunk n =>
      match s.mover, s.localList with
      | .copying dest, path :: _ =>
          let done := s.content bbpath files dest
          some { s with
            store := s.store.insert dest
              (done ++ slice (s.content bbpath files path) done.length n) }
      | _, _ => none
  | .copyEnd =>
      match s.mover, s.localList with
      | .copying dest, path :: _ =>
          if (s.content bbpath files path).length ≤ (s.content bbpath files dest).length then
            some { s with mover := .copied dest }
          else none
      | _, _ => none
  | .copyFail =>
      match s.mover with
      | .made _ => some { s with mover := .finished }
      | .copying _ => some { s with mover := .finished }
      | _ => none
  | .publish =>
      match s.mover, s.localList with
      | .copied dest, path :: _ =>
          some { s with pathCacheMap := s.pathCacheMap.insert path dest, mover := .finished }
      | _, _ => none
  | .pop =>
      match s.mover, s.localList with
      | .finished, _ :: rest =>
          some { s with localList := rest, mover := if rest = [] then .waiting else .ready }
      | _, _ => none

/-! ### First facts -/

/-- What each step of the mover needs, and what it leaves. -/
inductive MoverLeaves (s : Server) : MoverStep → Server → Prop where
  | drain (hmover : s.mover = .waiting) :
      MoverLeaves s .drain
        { s with localList := s.localList ++ s.dataQueue, dataQueue := [], mover := .ready }
  | mkdtempFailed (hmover : s.mover = .ready) :
      MoverLeaves s (.mkdtemp none) { s with mover := .finished }
  | mkdtemp {suffix : String} (hmover : s.mover = .ready)
      (hnew : bbpath ++ "/" ++ suffix ∉ s.dirs) :
      MoverLeaves s (.mkdtemp (some suffix))
        { s with
          dirs := (bbpath ++ "/" ++ suffix) :: s.dirs, mover := .made (bbpath ++ "/" ++ suffix) }
  | copyBegin {dir path : String} {rest : List String} {c : Contents} (hmover : s.mover = .made dir)
      (hlist : s.localList = path :: rest) (hview : s.view bbpath files path = some c) :
      MoverLeaves s .copyBegin
        { s with
          store := s.store.insert (copyName dir path) [], mover := .copying (copyName dir path) }
  | copyChunk {dest path : String} {rest : List String} (n : Nat)
      (hmover : s.mover = .copying dest) (hlist : s.localList = path :: rest) :
      MoverLeaves s (.copyChunk n)
        { s with
          store := s.store.insert dest (s.content bbpath files dest ++
            slice (s.content bbpath files path) (s.content bbpath files dest).length n) }
  | copyEnd {dest path : String} {rest : List String} (hmover : s.mover = .copying dest)
      (hlist : s.localList = path :: rest)
      (hlength : (s.content bbpath files path).length ≤ (s.content bbpath files dest).length) :
      MoverLeaves s .copyEnd { s with mover := .copied dest }
  | copyFail (hmover : (∃ dir, s.mover = .made dir) ∨ ∃ dest, s.mover = .copying dest) :
      MoverLeaves s .copyFail { s with mover := .finished }
  | publish {dest path : String} {rest : List String} (hmover : s.mover = .copied dest)
      (hlist : s.localList = path :: rest) :
      MoverLeaves s .publish
        { s with pathCacheMap := s.pathCacheMap.insert path dest, mover := .finished }
  | pop {path : String} {rest : List String} (hmover : s.mover = .finished)
      (hlist : s.localList = path :: rest) :
      MoverLeaves s .pop
        { s with localList := rest, mover := if rest = [] then .waiting else .ready }

variable {rl bbpath files}

theorem Server.moverStep_leaves {s s' : Server} {step : MoverStep}
    (hstep : s.moverStep bbpath files step = some s') : MoverLeaves bbpath files s step s' := by
  cases step with
  | drain =>
    simp only [Server.moverStep, Option.ite_none_right_eq_some, Option.some.injEq] at hstep
    obtain ⟨⟨hmover, -⟩, rfl⟩ := hstep
    exact .drain hmover
  | mkdtemp suffix =>
    simp only [Server.moverStep] at hstep
    split at hstep
    · next hmover =>
      cases hstep
      exact .mkdtempFailed hmover
    · next hmover =>
      simp only [Option.ite_none_right_eq_some, Option.some.injEq] at hstep
      obtain ⟨⟨-, -, hnew⟩, rfl⟩ := hstep
      exact .mkdtemp hmover hnew
    · cases hstep
  | copyBegin =>
    simp only [Server.moverStep] at hstep
    split at hstep
    · next hmover hlist =>
      split at hstep
      · next hview =>
        cases hstep
        exact .copyBegin hmover hlist hview
      · cases hstep
    · cases hstep
  | copyChunk n =>
    simp only [Server.moverStep] at hstep
    split at hstep
    · next hmover hlist =>
      cases hstep
      exact .copyChunk n hmover hlist
    · cases hstep
  | copyEnd =>
    simp only [Server.moverStep] at hstep
    split at hstep
    · next hmover hlist =>
      simp only [Option.ite_none_right_eq_some, Option.some.injEq] at hstep
      obtain ⟨hlength, rfl⟩ := hstep
      exact .copyEnd hmover hlist hlength
    · cases hstep
  | copyFail =>
    simp only [Server.moverStep] at hstep
    split at hstep
    · next hmover =>
      cases hstep
      exact .copyFail (Or.inl ⟨_, hmover⟩)
    · next hmover =>
      cases hstep
      exact .copyFail (Or.inr ⟨_, hmover⟩)
    · cases hstep
  | publish =>
    simp only [Server.moverStep] at hstep
    split at hstep
    · next hmover hlist =>
      cases hstep
      exact .publish hmover hlist
    · cases hstep
  | pop =>
    simp only [Server.moverStep] at hstep
    split at hstep
    · next hmover hlist =>
      cases hstep
      exact .pop hmover hlist
    · cases hstep

theorem underBB_copyName (bbpath suffix path : String) :
    underBB bbpath (copyName (bbpath ++ "/" ++ suffix) path) := by
  have hsep : "/".toList = ['/'] := rfl
  refine ⟨suffix.toList ++ '/' :: (filename path).toList, ?_⟩
  simp only [copyName, String.toList_append, hsep, List.append_assoc, List.cons_append,
    List.nil_append]

theorem parentPath_copyName {dir : String} (h : dir ≠ "") (path : String) :
    parentPath (copyName dir path) = dir :=
  parentPath_join h (separator_not_mem_filename path)

theorem Server.view_of_not_underBB {path : String} (h : ¬ underBB bbpath path) (s : Server) :
    s.view bbpath files path = files.find? path := by
  simp only [Server.view, h, if_false]

theorem Server.view_of_underBB {path : String} (h : underBB bbpath path) (s : Server) :
    s.view bbpath files path = s.store.find? path := by
  simp only [Server.view, h, if_true]

theorem Server.content_of_not_underBB {path : String} (h : ¬ underBB bbpath path) (s : Server) :
    s.content bbpath files path = files.content path := by
  simp only [Server.content, s.view_of_not_underBB h, Files.content]

/-! ### What the read and seek handlers answer -/

section Read

variable {s : Server} {r inputVal localfd offset : Int} {g : OpenFile String}

theorem Server.rpcSize_of_nonneg (h : 0 ≤ inputVal) :
    Server.rpcSize inputVal = some inputVal.toNat := if_neg (not_lt.mpr h)

theorem Server.rpcSize_of_neg (h : inputVal < 0) : Server.rpcSize inputVal = none := if_pos h

theorem Server.rpcRead_movesOnly (rl : ReadLen) (s : Server) (size : Nat)
    (accessfd offset ret : Int) :
    MovesOnly accessfd s.fds (s.rpcRead rl bbpath files size accessfd offset ret).fds := by
  unfold Server.rpcRead
  split
  · exact MovesOnly.refl _ _
  · split
    · exact sysRead_movesOnly ..
    · rw [sysPread_fds]
      exact MovesOnly.refl _ _

theorem Server.handle_read (halive : s.alive = true) (hinput : 0 ≤ inputVal)
    (hg : s.fds.find? r = some g) (hread : canRead g.flags = true)
    (hend : g.pos + inputVal.toNat ≤ LOFF_MAX) {remote : Int} (hremote : remote ≠ -1) :
    s.handle rl bbpath files remote (.rpcIn inputVal r localfd (-1)) =
      let n := rl.len (s.content bbpath files g.file).length g.pos inputVal.toNat
      some ({ s with
          fds := s.fds.insert r { g with pos := g.pos + n }
          fdToPath := (s.fdToPath.index r "").2 },
        some ⟨n, slice (s.content bbpath files g.file) g.pos n⟩) := by
  have hnonneg : ∀ n : Nat, ¬ (n : Int) < 0 := fun n => by omega
  simp only [Server.handle, halive, if_true, Server.rpcHandler, Server.rpcSize_of_nonneg hinput,
    Server.rpcRead, hremote, if_false, sysRead_of_find? hg hread hend, hnonneg, int32_readLen]

theorem Server.handle_pread (halive : s.alive = true) (hinput : 0 ≤ inputVal)
    (hg : s.fds.find? r = some g) (hread : canRead g.flags = true) (hoffset : 0 ≤ offset)
    (hend : offset.toNat + inputVal.toNat ≤ LOFF_MAX) {remote : Int} (hremote : remote ≠ -1) :
    s.handle rl bbpath files remote (.rpcIn inputVal r localfd offset) =
      let n := rl.len (s.content bbpath files g.file).length offset.toNat inputVal.toNat
      some ({ s with fdToPath := (s.fdToPath.index r "").2 },
        some ⟨n, slice (s.content bbpath files g.file) offset.toNat n⟩) := by
  have hnonneg : ∀ n : Nat, ¬ (n : Int) < 0 := fun n => by omega
  have hne : offset ≠ -1 := by omega
  simp only [Server.handle, halive, if_true, Server.rpcHandler, Server.rpcSize_of_nonneg hinput,
    Server.rpcRead, hremote, if_false, hne, sysPread_of_find? hg hread hoffset hend, hnonneg,
    int32_readLen]

theorem Server.spared_of_closed (hclosed : s.fds.find? r = none) (remote : Int) :
    s.Spared remote (.rpcIn inputVal r localfd offset) ↔ 0 ≤ inputVal ∧ offset ≠ -1 := by
  simp [Server.Spared, hclosed]

/-- A sequential read that is not spared fails. -/
theorem Server.rpcRead_of_not_spared {remote : Int} (hinput : 0 ≤ inputVal)
    (h : ¬ s.Spared remote (.rpcIn inputVal r localfd offset)) :
    offset = -1 ∧ (s.rpcRead rl bbpath files inputVal.toNat r offset remote).ret = -1 := by
  obtain ⟨rfl, hfails⟩ := Classical.not_imp.mp fun hspared => h ⟨hinput, hspared⟩
  refine ⟨rfl, ?_⟩
  unfold Server.rpcRead
  split
  · rfl
  · next hremote =>
    rw [if_pos rfl]
    rcases hg : s.fds.find? r with _ | g
    · rw [sysRead_of_closed hg]
    · rw [sysRead_of_past hg (not_le.mp fun hend => hfails ⟨hremote, g, hg, hend⟩)]

/-- A count that was negative aborts the server, and so does a sequential read that
    fails. -/
theorem Server.handle_rpcIn_none {remote : Int}
    (h : s.alive = true → ¬ s.Spared remote (.rpcIn inputVal r localfd offset)) :
    ∃ s', s.handle rl bbpath files remote (.rpcIn inputVal r localfd offset) = some (s', none) := by
  by_cases halive : s.alive = true
  · simp only [Server.handle, halive, if_true, Server.rpcHandler]
    by_cases hinput : inputVal < 0
    · simp only [Server.rpcSize_of_neg hinput]
      exact ⟨_, rfl⟩
    · obtain ⟨rfl, hret⟩ :=
        @Server.rpcRead_of_not_spared rl bbpath files s r inputVal localfd offset remote
          (not_lt.mp hinput) (h halive)
      simp only [Server.rpcSize_of_nonneg (not_lt.mp hinput), hret, Int.reduceNeg, Int.reduceLT,
        if_true]
      exact ⟨_, rfl⟩
  · exact ⟨s, by simp only [Server.handle, halive, Bool.false_eq_true, if_false]⟩

theorem Server.handle_pread_closed (halive : s.alive = true) (hinput : 0 ≤ inputVal)
    (hclosed : s.fds.find? r = none) (hoffset : offset ≠ -1) (remote : Int) :
    s.handle rl bbpath files remote (.rpcIn inputVal r localfd offset) =
      some ({ s with fdToPath := (s.fdToPath.index r "").2 }, some ⟨-1, []⟩) := by
  have hio : s.rpcRead rl bbpath files inputVal.toNat r offset remote = ⟨-1, [], s.fds⟩ := by
    rw [Server.rpcRead, if_neg hoffset, sysPread_of_closed hclosed, ite_self]
  simp only [Server.handle, halive, if_true, Server.rpcHandler, Server.rpcSize_of_nonneg hinput,
    hio, hoffset, if_false, Int.reduceNeg, Int.reduceLT]

/-- An answered read request: the positional read failed, or the answer is what was
    read. -/
theorem Server.handle_rpcIn_some {remote : Int} {s' : Server} {out : Reply}
    (hhandle : s.handle rl bbpath files remote (.rpcIn inputVal r localfd offset) =
      some (s', some out)) :
    (offset ≠ -1 ∧ out = ⟨-1, []⟩) ∨
      0 ≤ (s.rpcRead rl bbpath files inputVal.toNat r offset remote).ret ∧
        out = ⟨int32 (s.rpcRead rl bbpath files inputVal.toNat r offset remote).ret,
          (s.rpcRead rl bbpath files inputVal.toNat r offset remote).data⟩ := by
  unfold Server.handle at hhandle
  split at hhandle
  · have hreply := congrArg Prod.snd (Option.some.inj hhandle)
    by_cases hinput : inputVal < 0
    · simp only [Server.rpcHandler, Server.rpcSize_of_neg hinput] at hreply
      cases hreply
    · simp only [Server.rpcHandler, Server.rpcSize_of_nonneg (not_lt.mp hinput)] at hreply
      split at hreply
      · split at hreply
        · cases hreply
        · next hseq => exact Or.inl ⟨hseq, (Option.some.inj hreply).symm⟩
      · next hret => exact Or.inr ⟨not_lt.mp hret, (Option.some.inj hreply).symm⟩
  · cases hhandle

/-- A read that did not fail found its descriptor open and kept within the offsets. -/
theorem Server.rpcRead_of_nonneg {size : Nat} {remote : Int} (hoffset : offset = -1 ∨ 0 ≤ offset)
    (hret : 0 ≤ (s.rpcRead rl bbpath files size r offset remote).ret) :
    ∃ g pos n, s.fds.find? r = some g ∧ (offset ≠ -1 → ((pos : Nat) : Int) = offset) ∧
      n ≤ (s.content bbpath files g.file).length - pos ∧ int32 (n : Nat) = n ∧
      (s.rpcRead rl bbpath files size r offset remote).ret = n ∧
      (s.rpcRead rl bbpath files size r offset remote).data =
        slice (s.content bbpath files g.file) pos n := by
  unfold Server.rpcRead at hret ⊢
  split at hret
  · cases hret
  · next hremote =>
    rw [if_neg hremote]
    split at hret
    · next hseq =>
      obtain ⟨g, hg, hread, hend⟩ := sysRead_of_nonneg hret
      rw [if_pos hseq, sysRead_of_find? hg hread hend]
      exact ⟨g, g.pos, _, hg, fun hne => absurd hseq hne, rl.le_left .., int32_readLen .., rfl, rfl⟩
    · next hseq =>
      have hoffset := hoffset.resolve_left hseq
      obtain ⟨g, hg, hread, -, hend⟩ := sysPread_of_nonneg hret
      rw [if_neg hseq, sysPread_of_find? hg hread hoffset hend]
      exact ⟨g, offset.toNat, _, hg, fun _ => Int.toNat_of_nonneg hoffset, rl.le_left ..,
        int32_readLen .., rfl, rfl⟩

theorem Server.handle_seek (halive : s.alive = true) (hg : s.fds.find? r = some g)
    (hseek : canSeek g.flags = true) {whence : Int} {x : Nat}
    (hx : seekTarget (s.content bbpath files g.file).length g.pos offset whence = some x)
    (remote : Int) :
    s.handle rl bbpath files remote (.seekIn r offset whence) =
      some ({ s with fds := s.fds.insert r { g with pos := x } }, some ⟨int32 x, []⟩) := by
  simp only [Server.handle, halive, if_true, Server.seekRpcHandler, sysSeek_of_target hg hseek hx]

theorem Server.handle_seek_failed (halive : s.alive = true) (hg : s.fds.find? r = some g)
    {whence : Int}
    (hx : seekTarget (s.content bbpath files g.file).length g.pos offset whence = none)
    (remote : Int) :
    s.handle rl bbpath files remote (.seekIn r offset whence) = some (s, some ⟨-1, []⟩) := by
  have hneg : int32 (-1) = -1 := by decide
  simp only [Server.handle, if_pos halive, Server.seekRpcHandler, sysSeek_of_no_target hg hx, hneg]

theorem Server.handle_seek_closed (halive : s.alive = true) (hclosed : s.fds.find? r = none)
    (whence remote : Int) :
    s.handle rl bbpath files remote (.seekIn r offset whence) = some (s, some ⟨-1, []⟩) := by
  have hneg : int32 (-1) = -1 := by decide
  simp only [Server.handle, if_pos halive, Server.seekRpcHandler, sysSeek_of_closed hclosed, hneg]

theorem Server.handle_dead (hdead : s.alive = false) (remote : Int) (request : Request) :
    s.handle rl bbpath files remote request = some (s, none) := by
  simp only [Server.handle, hdead, Bool.false_eq_true, if_false]

end Read

end Hvac
