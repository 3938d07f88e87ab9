/-
  Hvac/Shared.lean
  ================
  **One server and the handles its clients hold on it.**

  Any number of clients make requests at one server, each on descriptors it was
  given and has not closed, between the steps of the data mover.  What a request
  does to the server is said once (`handle_leaves`): it touches the descriptor it
  names and no other, and a new descriptor was free.  So the handles of all
  clients name different open descriptors (`SharedInv`).
-/
import Hvac.ServerRun

namespace Hvac

open Cxx Posix

/-! ### Requests by a client's own descriptors -/

/-- A request, on the descriptor the client knows the file by. -/
inductive ClientOp where
  | openFile (fd : Int) (path : String)
  | read (fd : Int) (count : Nat) (offset : Int)
  | seek (fd offset whence : Int)
  | close (fd : Int)
deriving DecidableEq, Repr

/-- The request on the wire, with the server's descriptor from `fd_redir_map`. -/
def ClientOp.request (redir : Int → Option Int) : ClientOp → Option Request
  | .openFile fd path => some (.openIn path fd)
  | .read fd count offset => (redir fd).map fun r => .rpcIn (int32 count) r fd offset
  | .seek fd offset whence => (redir fd).map fun r => .seekIn r offset whence
  | .close fd => (redir fd).map .closeIn

/-- What the application learns: of an open, that it was answered. -/
def ClientOp.answer (reply : Option Reply) : ClientOp → Option Reply
  | .openFile _ _ => reply.map fun _ => ⟨0, []⟩
  | .read _ _ _ => reply
  | .seek _ _ _ => reply
  | .close _ => reply

/-! ### The shared server -/

structure Shared (K : Type) where
  server : Server
  redir : K × Int → Option Int

inductive SharedLabel (K : Type) where
  | client (k : K) (op : ClientOp) (remote : Int)
  | mover (step : MoverStep)
deriving DecidableEq

section Machine

variable {K : Type} [DecidableEq K]

def sharedStart : Shared K := ⟨Server.init, fun _ => none⟩

/-- The `fd_redir_map`s after client `k` made a request. -/
def ClientOp.redirect (redir : K × Int → Option Int) (k : K) (reply : Option Reply) :
    ClientOp → K × Int → Option Int
  | .openFile fd _ =>
      match reply with
      | some out => Function.update redir (k, fd) (some out.ret)
      | none => redir
  | .read _ _ _ => redir
  | .seek _ _ _ => redir
  | .close fd => Function.update redir (k, fd) none

/-- `remote` is the number the server's kernel gives a new descriptor, and `-1` where an
    open or a read fails.  A step of a client is observed by the client and what it
    learns. -/
def sharedMachine (rl : ReadLen) (bbpath : String) (files : Files) :
    Machine (Shared K) (SharedLabel K) (Option (K × Option Reply)) where
  step s l :=
    match l with
    | .client k op remote =>
        match op.request fun fd => s.redir (k, fd) with
        | none => none
        | some request =>
            match s.server.handle rl bbpath files remote request with
            | none => none
            | some (v, reply) =>
                some (⟨v, op.redirect s.redir k reply⟩, some (k, op.answer reply))
    | .mover step =>
        if s.server.alive then
          match s.server.moverStep bbpath files step with
          | none => none
          | some v => some ({ s with server := v }, none)
        else none

end Machine

/-! ### Reading and seeking at a position -/

/-- The answer to a read of a file at `pos`, after the position it leaves; none to a
    sequential read that fails.  `fails` is whether the kernel has a reason of its own. -/
def readAt (rl : ReadLen) (c : Contents) (pos : Nat) (inputVal offset : Int) (fails : Bool) :
    Option (Nat × Reply) :=
  if offset = -1 then
    if fails = false ∧ pos + inputVal.toNat ≤ LOFF_MAX then
      some (pos + rl.len c.length pos inputVal.toNat,
        ⟨rl.len c.length pos inputVal.toNat, slice c pos (rl.len c.length pos inputVal.toNat)⟩)
    else none
  else if fails = false ∧ 0 ≤ offset ∧ offset.toNat + inputVal.toNat ≤ LOFF_MAX then
    some (pos, ⟨rl.len c.length offset.toNat inputVal.toNat,
      slice c offset.toNat (rl.len c.length offset.toNat inputVal.toNat)⟩)
  else some (pos, ⟨-1, []⟩)

def seekAt (c : Contents) (pos : Nat) (offset whence : Int) : Nat × Reply :=
  match seekTarget c.length pos offset whence with
  | some x => (x, ⟨int32 x, []⟩)
  | none => (pos, ⟨-1, []⟩)

/-! ### What a request leaves -/

/-- What the server makes of a request on a descriptor that is open for reading. -/
inductive HandleLeaves (rl : ReadLen) (bbpath : String) (files : Files) (remote : Int)
    (v : Server) : Request → Server → Option Reply → Prop where
  | dead {request : Request} (h : v.alive = false) :
      HandleLeaves rl bbpath files remote v request v none
  | opened {path : String} {localfd : Int} {c : Contents} (m : OrdMap Int String)
      (halive : v.alive = true) (hfree : v.fds.find? remote = none)
      (hview : v.view bbpath files (v.redirPath path) = some c) :
      HandleLeaves rl bbpath files remote v (.openIn path localfd)
        { v with fds := v.fds.insert remote ⟨v.redirPath path, O_RDONLY, 0⟩, fdToPath := m }
        (some ⟨remote, []⟩)
  | aborted {inputVal r localfd offset : Int} {g : OpenFile String} (m : OrdMap Int String)
      (halive : v.alive = true) (hg : v.fds.find? r = some g)
      (hfails : inputVal < 0 ∨ readAt rl (v.content bbpath files g.file) g.pos inputVal offset
        (decide (remote = -1)) = none) :
      HandleLeaves rl bbpath files remote v (.rpcIn inputVal r localfd offset)
        { v with alive := false, fdToPath := m } none
  | read {inputVal r localfd offset : Int} {g : OpenFile String} {pos : Nat} {reply : Reply}
      (m : OrdMap Int String) (halive : v.alive = true) (hinput : 0 ≤ inputVal)
      (hg : v.fds.find? r = some g)
      (hread : readAt rl (v.content bbpath files g.file) g.pos inputVal offset
        (decide (remote = -1)) = some (pos, reply)) :
      HandleLeaves rl bbpath files remote v (.rpcIn inputVal r localfd offset)
        { v with fds := v.fds.insert r { g with pos := pos }, fdToPath := m } (some reply)
  | seek {r offset whence : Int} {g : OpenFile String}
      (halive : v.alive = true) (hg : v.fds.find? r = some g) :
      HandleLeaves rl bbpath files remote v (.seekIn r offset whence)
        { v with
          fds := v.fds.insert r { g with
            pos := (seekAt (v.content bbpath files g.file) g.pos offset whence).1 } }
        (some (seekAt (v.content bbpath files g.file) g.pos offset whence).2)
  | closed {r : Int} (halive : v.alive = true) (m : OrdMap Int String) (queue : List String) :
      HandleLeaves rl bbpath files remote v (.closeIn r)
        { v with fds := (sysClose v.fds r).2, fdToPath := m, dataQueue := queue } none

section Leaves

variable {rl : ReadLen} {bbpath : String} {files : Files} {v v' : Server} {r : Int}
  {g : OpenFile String}

/-- The read itself, with the table it leaves. -/
theorem rpcRead_open (hg : v.fds.find? r = some g) (hflags : g.flags = O_RDONLY)
    (inputVal offset remote : Int) :
    v.rpcRead rl bbpath files inputVal.toNat r offset remote =
      match readAt rl (v.content bbpath files g.file) g.pos inputVal offset
        (decide (remote = -1)) with
      | some (pos, reply) => ⟨reply.ret, reply.data, v.fds.insert r { g with pos := pos }⟩
      | none => ⟨-1, [], v.fds⟩ := by
  have hread : canRead g.flags = true := by
    rw [hflags]
    decide
  have hsame : v.fds.insert r { g with pos := g.pos } = v.fds := OrdMap.insert_of_find? hg
  unfold Server.rpcRead readAt
  by_cases hremote : remote = -1
  · rw [if_pos hremote]
    simp only [hremote, decide_true, Bool.true_eq_false, false_and, if_false]
    by_cases hseq : offset = -1
    · rw [if_pos hseq]
    · simp only [if_neg hseq, hsame]
  · rw [if_neg hremote]
    simp only [hremote, decide_false, true_and]
    by_cases hseq : offset = -1
    · rw [if_pos hseq, if_pos hseq]
      by_cases hend : g.pos + inputVal.toNat ≤ LOFF_MAX
      · rw [if_pos hend, sysRead_of_find? hg hread hend]
      · simp only [sysRead, hg, hend, and_false, if_false]
    · rw [if_neg hseq, if_neg hseq]
      by_cases hend : 0 ≤ offset ∧ offset.toNat + inputVal.toNat ≤ LOFF_MAX
      · simp only [if_pos hend, sysPread_of_find? hg hread hend.1 hend.2, hsame]
      · simp only [sysPread, hg, hend, and_false, if_false, hsame]

/-- What is read is a byte count, or the `-1` of a `pread`. -/
theorem ret_of_readAt {c : Contents} {pos pos' : Nat} {inputVal offset : Int} {fails : Bool}
    {reply : Reply} (h : readAt rl c pos inputVal offset fails = some (pos', reply)) :
    (0 ≤ reply.ret ∧ int32 reply.ret = reply.ret) ∨
      offset ≠ -1 ∧ pos' = pos ∧ reply = ⟨-1, []⟩ := by
  unfold readAt at h
  split at h
  · split at h
    · cases h
      exact Or.inl ⟨Int.natCast_nonneg _, int32_readLen ..⟩
    · cases h
  · next hseq =>
    split at h
    · cases h
      exact Or.inl ⟨Int.natCast_nonneg _, int32_readLen ..⟩
    · cases h
      exact Or.inr ⟨hseq, rfl, rfl⟩

theorem handle_rpcIn_open (halive : v.alive = true) {inputVal localfd offset : Int}
    (hinput : 0 ≤ inputVal) (hg : v.fds.find? r = some g) (hflags : g.flags = O_RDONLY)
    (remote : Int) :
    v.handle rl bbpath files remote (.rpcIn inputVal r localfd offset) =
      match readAt rl (v.content bbpath files g.file) g.pos inputVal offset
        (decide (remote = -1)) with
      | some (pos, reply) =>
          some ({ v with
            fds := v.fds.insert r { g with pos := pos }
            fdToPath := (v.fdToPath.index r "").2 }, some reply)
      | none => some ({ v with alive := false, fdToPath := (v.fdToPath.index r "").2 }, none) := by
  simp only [Server.handle, halive, if_true, Server.rpcHandler, Server.rpcSize_of_nonneg hinput,
    rpcRead_open hg hflags]
  rcases hread : readAt rl (v.content bbpath files g.file) g.pos inputVal offset
    (decide (remote = -1)) with _ | ⟨pos, reply⟩
  · have hseq : offset = -1 := by
      unfold readAt at hread
      split at hread
      · next hseq => exact hseq
      · split at hread <;> cases hread
    simp only [hseq, Int.reduceNeg, Int.reduceLT, if_true]
  · rcases ret_of_readAt hread with ⟨hnonneg, hint⟩ | ⟨hseq, rfl, rfl⟩
    · simp only [not_lt.mpr hnonneg, if_false, hint]
    · simp only [hseq, if_false, Int.reduceNeg, Int.reduceLT, if_true]

theorem handle_seekIn_open (halive : v.alive = true) {offset whence : Int}
    (hg : v.fds.find? r = some g) (hflags : g.flags = O_RDONLY) (remote : Int) :
    v.handle rl bbpath files remote (.seekIn r offset whence) =
      some ({ v with
          fds := v.fds.insert r { g with
            pos := (seekAt (v.content bbpath files g.file) g.pos offset whence).1 } },
        some (seekAt (v.content bbpath files g.file) g.pos offset whence).2) := by
  unfold seekAt
  rcases hx : seekTarget (v.content bbpath files g.file).length g.pos offset whence with _ | x
  · dsimp only
    have hsame : v.fds.insert r g = v.fds := OrdMap.insert_of_find? hg
    rw [hsame]
    exact v.handle_seek_failed halive hg hx remote
  · have hseek : canSeek g.flags = true := by
      rw [hflags]
      decide
    exact v.handle_seek halive hg hseek hx remote

/-- A descriptor a request names is open, and a new one is not refused. -/
def Request.Valid (v : Server) (remote : Int) : Request → Prop
  | .openIn _ _ => remote ≠ -1
  | .rpcIn _ r _ _ => v.fds.find? r ≠ none
  | .seekIn r _ _ => v.fds.find? r ≠ none
  | .closeIn r => v.fds.find? r ≠ none

theorem handle_leaves (hflags : ∀ r g, v.fds.find? r = some g → g.flags = O_RDONLY)
    {remote : Int} {request : Request} (hvalid : request.Valid v remote) {reply : Option Reply}
    (hhandle : v.handle rl bbpath files remote request = some (v', reply)) :
    HandleLeaves rl bbpath files remote v request v' reply := by
  by_cases halive : v.alive = true
  · cases request with
    | openIn path localfd =>
      simp only [Server.handle, halive, if_true] at hhandle
      obtain ⟨rfl, ⟨hret, -⟩ | ⟨c, -, -, hfree, hview, rfl⟩⟩ :=
        Server.openRpcHandler_eq_some hhandle
      · exact absurd hret hvalid
      · exact .opened _ halive hfree hview
    | rpcIn inputVal r localfd offset =>
      obtain ⟨g, hg⟩ := Option.ne_none_iff_exists'.mp hvalid
      by_cases hinput : 0 ≤ inputVal
      · rw [handle_rpcIn_open halive hinput hg (hflags r g hg)] at hhandle
        split at hhandle
        · next hread =>
          obtain ⟨rfl, rfl⟩ := Prod.mk.inj (Option.some.inj hhandle)
          exact .read _ halive hinput hg hread
        · next hfails =>
          obtain ⟨rfl, rfl⟩ := Prod.mk.inj (Option.some.inj hhandle)
          exact .aborted _ halive hg (Or.inr hfails)
      · have hneg : inputVal < 0 := not_le.mp hinput
        simp only [Server.handle, halive, if_true, Server.rpcHandler, Server.rpcSize_of_neg hneg]
          at hhandle
        obtain ⟨rfl, rfl⟩ := Prod.mk.inj (Option.some.inj hhandle)
        exact .aborted v.fdToPath halive hg (Or.inl hneg)
    | seekIn r offset whence =>
      obtain ⟨g, hg⟩ := Option.ne_none_iff_exists'.mp hvalid
      rw [handle_seekIn_open halive hg (hflags r g hg)] at hhandle
      obtain ⟨rfl, rfl⟩ := Prod.mk.inj (Option.some.inj hhandle)
      exact .seek halive hg
    | closeIn r =>
      simp only [Server.handle, halive, if_true] at hhandle
      obtain ⟨rfl, rfl⟩ := Prod.mk.inj (Option.some.inj hhandle)
      exact .closed halive _ _
  · rw [Bool.not_eq_true] at halive
    simp only [Server.handle, halive, Bool.false_eq_true, if_false] at hhandle
    obtain ⟨rfl, rfl⟩ := Prod.mk.inj (Option.some.inj hhandle)
    exact .dead halive

end Leaves

/-! ### Every handle has its own descriptor -/

section Shared

variable {K : Type} [DecidableEq K] {rl : ReadLen} {bbpath : String} {files : Files}
  {s s' : Shared K} {k : K}

/-- The handles name different open descriptors, which are open for reading. -/
structure SharedInv (bbpath : String) (files : Files) (s : Shared K) : Prop where
  copy : ∃ copies, CopyInv bbpath files s.server copies
  flags : ∀ r g, s.server.fds.find? r = some g → g.flags = O_RDONLY
  held : ∀ x r, s.redir x = some r → s.server.fds.find? r ≠ none
  apart : ∀ x y r, s.redir x = some r → s.redir y = some r → x = y

omit [DecidableEq K] in
theorem sharedInv_start : SharedInv bbpath files (sharedStart : Shared K) where
  copy := ⟨[], copyInv_init bbpath files⟩
  flags r g h := by cases h
  held x r h := by cases h
  apart x y r h := by cases h

/-- An open that succeeds. -/
def OpenSucceeds : SharedLabel K → Prop
  | .client _ (.openFile _ _) remote => remote ≠ -1
  | .client _ (.read _ _ _) _ => True
  | .client _ (.seek _ _ _) _ => True
  | .client _ (.close _) _ => True
  | .mover _ => True

theorem sharedMachine_step_client {op : ClientOp} {remote : Int}
    {out : Option (K × Option Reply)}
    (hstep : (sharedMachine rl bbpath files).step s (.client k op remote) = some (s', out)) :
    ∃ request reply, op.request (fun fd => s.redir (k, fd)) = some request ∧
      s.server.handle rl bbpath files remote request = some (s'.server, reply) ∧
      s'.redir = op.redirect s.redir k reply ∧ out = some (k, op.answer reply) := by
  simp only [sharedMachine] at hstep
  rcases hrequest : op.request (fun fd => s.redir (k, fd)) with _ | request
  · rw [hrequest] at hstep
    cases hstep
  · rcases hhandle : s.server.handle rl bbpath files remote request with _ | ⟨v, reply⟩
    · simp only [hrequest, hhandle] at hstep
      cases hstep
    · simp only [hrequest, hhandle, Option.some.injEq, Prod.mk.injEq] at hstep
      obtain ⟨rfl, rfl⟩ := hstep
      exact ⟨request, reply, rfl, hhandle, rfl, rfl⟩

theorem sharedMachine_step_mover {step : MoverStep} {out : Option (K × Option Reply)}
    (hstep : (sharedMachine rl bbpath files).step s (.mover step) = some (s', out)) :
    s.server.moverStep bbpath files step = some s'.server ∧ s'.redir = s.redir ∧ out = none := by
  simp only [sharedMachine, Option.ite_none_right_eq_some] at hstep
  obtain ⟨-, hstep⟩ := hstep
  rcases hmover : s.server.moverStep bbpath files step with _ | v
  · rw [hmover] at hstep
    cases hstep
  · simp only [hmover, Option.some.injEq, Prod.mk.injEq] at hstep
    obtain ⟨rfl, rfl⟩ := hstep
    exact ⟨rfl, rfl, rfl⟩

omit [DecidableEq K] in
/-- The request of a client is one on a descriptor that is open. -/
theorem SharedInv.valid (h : SharedInv bbpath files s) {op : ClientOp} {remote : Int}
    {request : Request} (hopen : OpenSucceeds (.client k op remote))
    (hrequest : op.request (fun fd => s.redir (k, fd)) = some request) :
    request.Valid s.server remote := by
  cases op with
  | openFile fd path =>
    cases hrequest
    exact hopen
  | read fd count offset =>
    obtain ⟨r, hr, rfl⟩ := Option.map_eq_some_iff.mp hrequest
    exact h.held _ r hr
  | seek fd offset whence =>
    obtain ⟨r, hr, rfl⟩ := Option.map_eq_some_iff.mp hrequest
    exact h.held _ r hr
  | close fd =>
    obtain ⟨r, hr, rfl⟩ := Option.map_eq_some_iff.mp hrequest
    exact h.held _ r hr

/-- A descriptor was open already or is the new one. -/
theorem HandleLeaves.flags {v v' : Server} {remote : Int} {request : Request}
    {reply : Option Reply} (hleaves : HandleLeaves rl bbpath files remote v request v' reply)
    (hflags : ∀ r g, v.fds.find? r = some g → g.flags = O_RDONLY) :
    ∀ r g, v'.fds.find? r = some g → g.flags = O_RDONLY := by
  intro r g hg
  cases hleaves with
  | dead => exact hflags r g hg
  | aborted => exact hflags r g hg
  | opened =>
    rw [OrdMap.find?_insert] at hg
    split at hg
    · cases hg
      rfl
    · exact hflags r g hg
  | read m halive hinput hg' =>
    rw [OrdMap.find?_insert] at hg
    split at hg
    · cases hg
      have hsame := hflags _ _ hg'
      exact hsame
    · exact hflags r g hg
  | seek halive hg' =>
    rw [OrdMap.find?_insert] at hg
    split at hg
    · cases hg
      have hsame := hflags _ _ hg'
      exact hsame
    · exact hflags r g hg
  | closed =>
    rw [find?_sysClose] at hg
    split at hg
    · cases hg
    · exact hflags r g hg

/-- Only a request that fails an assertion ends the server. -/
theorem HandleLeaves.alive {v v' : Server} {remote : Int} {request : Request}
    {reply : Option Reply} (hleaves : HandleLeaves rl bbpath files remote v request v' reply)
    (hspared : v.Spared remote request) : v'.alive = v.alive := by
  cases hleaves with
  | dead | opened | read | seek | closed => rfl
  | @aborted inputVal r localfd offset g m halive hg hfails =>
    obtain ⟨hinput, hseq⟩ := hspared
    have hnone := hfails.resolve_left (not_lt.mpr hinput)
    unfold readAt at hnone
    split at hnone
    · next hoffset =>
      obtain ⟨hremote, g', hg', hend⟩ := hseq hoffset
      cases Option.some.inj (hg.symm.trans hg')
      rw [if_pos ⟨decide_eq_false hremote, hend⟩] at hnone
      cases hnone
    · split at hnone <;> cases hnone

/-- The descriptor a request names. -/
def Request.descriptor? : Request → Option Int
  | .openIn _ _ => none
  | .rpcIn _ r _ _ => some r
  | .seekIn r _ _ => some r
  | .closeIn r => some r

/-- Another open descriptor is not touched. -/
theorem HandleLeaves.find?_of_ne {v v' : Server} {remote : Int} {request : Request}
    {reply : Option Reply} (hleaves : HandleLeaves rl bbpath files remote v request v' reply)
    {r : Int} (hopen : v.fds.find? r ≠ none) (hne : request.descriptor? ≠ some r) :
    v'.fds.find? r = v.fds.find? r := by
  cases hleaves with
  | dead => rfl
  | aborted => rfl
  | opened m halive hfree =>
    apply OrdMap.find?_insert_of_ne
    rintro rfl
    exact hopen hfree
  | read =>
    apply OrdMap.find?_insert_of_ne
    rintro rfl
    exact hne rfl
  | seek =>
    apply OrdMap.find?_insert_of_ne
    rintro rfl
    exact hne rfl
  | closed =>
    apply find?_sysClose_of_ne
    rintro rfl
    exact hne rfl

/-- Only a close of its own number closes a descriptor. -/
theorem HandleLeaves.still_open {v v' : Server} {remote : Int} {request : Request}
    {reply : Option Reply} (hleaves : HandleLeaves rl bbpath files remote v request v' reply)
    {r : Int} (hopen : v.fds.find? r ≠ none) (hne : request ≠ .closeIn r) :
    v'.fds.find? r ≠ none := by
  by_cases hown : request.descriptor? = some r
  · cases hleaves with
    | dead => exact hopen
    | aborted => exact hopen
    | opened => cases hown
    | read | seek =>
      cases hown
      rw [OrdMap.find?_insert_self]
      exact Option.some_ne_none _
    | closed =>
      cases hown
      exact absurd rfl hne
  · rw [hleaves.find?_of_ne hopen hown]
    exact hopen

/-- The client's descriptor. -/
def ClientOp.fd : ClientOp → Int
  | .openFile fd _ => fd
  | .read fd _ _ => fd
  | .seek fd _ _ => fd
  | .close fd => fd

omit [DecidableEq K] in
/-- A request names the server's descriptor for it. -/
theorem ClientOp.descriptor?_request {op : ClientOp} {request : Request} {r : Int}
    (hrequest : op.request (fun fd => s.redir (k, fd)) = some request)
    (hr : request.descriptor? = some r) : s.redir (k, op.fd) = some r := by
  cases op with
  | openFile fd path =>
    cases hrequest
    cases hr
  | read | seek | close =>
    obtain ⟨r', hr', rfl⟩ := Option.map_eq_some_iff.mp hrequest
    cases hr
    exact hr'

theorem ClientOp.redirect_of_ne (op : ClientOp) (redir : K × Int → Option Int)
    (reply : Option Reply) {x : K × Int} (hne : x ≠ (k, op.fd)) :
    op.redirect redir k reply x = redir x := by
  cases op with
  | openFile fd path =>
    cases reply with
    | none => rfl
    | some out => exact Function.update_of_ne hne ..
  | read | seek => rfl
  | close fd => exact Function.update_of_ne hne ..

section Redirect

variable {redir : K × Int → Option Int} {v v' : Server} {op : ClientOp} {remote : Int}
  {request : Request} {reply : Option Reply}

/-- The handles name open descriptors after a request too. -/
theorem HandleLeaves.held (hleaves : HandleLeaves rl bbpath files remote v request v' reply)
    (hrequest : op.request (fun fd => redir (k, fd)) = some request)
    (hheld : ∀ x r, redir x = some r → v.fds.find? r ≠ none)
    (hapart : ∀ x y r, redir x = some r → redir y = some r → x = y) (x : K × Int) (r : Int)
    (hr : op.redirect redir k reply x = some r) : v'.fds.find? r ≠ none := by
  cases op with
  | openFile fd path =>
    cases hrequest
    cases hleaves with
    | dead => exact hheld x r hr
    | opened m halive hfree =>
      simp only [ClientOp.redirect, Function.update_apply] at hr
      rw [OrdMap.find?_insert]
      split at hr
      · cases hr
        rw [if_pos rfl]
        exact Option.some_ne_none _
      · split
        · exact Option.some_ne_none _
        · exact hheld x r hr
  | read fd count offset =>
    obtain ⟨r', -, rfl⟩ := Option.map_eq_some_iff.mp hrequest
    exact hleaves.still_open (hheld x r hr) (by simp)
  | seek fd offset whence =>
    obtain ⟨r', -, rfl⟩ := Option.map_eq_some_iff.mp hrequest
    exact hleaves.still_open (hheld x r hr) (by simp)
  | close fd =>
    obtain ⟨r', hr', rfl⟩ := Option.map_eq_some_iff.mp hrequest
    simp only [ClientOp.redirect, Function.update_apply] at hr
    split at hr
    · cases hr
    · next hne =>
      refine hleaves.still_open (hheld x r hr) fun heq => hne ?_
      cases heq
      exact hapart x (k, fd) r hr hr'

/-- A new descriptor was free, so no other handle names it. -/
theorem HandleLeaves.apart (hleaves : HandleLeaves rl bbpath files remote v request v' reply)
    (hrequest : op.request (fun fd => redir (k, fd)) = some request)
    (hheld : ∀ x r, redir x = some r → v.fds.find? r ≠ none)
    (hapart : ∀ x y r, redir x = some r → redir y = some r → x = y) (x y : K × Int) (r : Int)
    (hx : op.redirect redir k reply x = some r) (hy : op.redirect redir k reply y = some r) :
    x = y := by
  cases op with
  | openFile fd path =>
    cases hrequest
    cases hleaves with
    | dead => exact hapart x y r hx hy
    | opened m halive hfree =>
      simp only [ClientOp.redirect, Function.update_apply] at hx hy
      split at hx
      · next hxk =>
        cases hx
        split at hy
        · next hyk => rw [hxk, hyk]
        · exact absurd hfree (hheld y _ hy)
      · split at hy
        · cases hy
          exact absurd hfree (hheld x _ hx)
        · exact hapart x y r hx hy
  | read fd count offset => exact hapart x y r hx hy
  | seek fd offset whence => exact hapart x y r hx hy
  | close fd =>
    simp only [ClientOp.redirect, Function.update_apply] at hx hy
    split at hx
    · cases hx
    · split at hy
      · cases hy
      · exact hapart x y r hx hy

end Redirect

theorem SharedInv.client (h : SharedInv bbpath files s) {op : ClientOp} {remote : Int}
    {out : Option (K × Option Reply)} (hopen : OpenSucceeds (.client k op remote))
    (hstep : (sharedMachine rl bbpath files).step s (.client k op remote) = some (s', out)) :
    SharedInv bbpath files s' := by
  obtain ⟨request, reply, hrequest, hhandle, hredir, -⟩ := sharedMachine_step_client hstep
  have hleaves := handle_leaves h.flags (h.valid hopen hrequest) hhandle
  obtain ⟨copies, hcopy⟩ := h.copy
  refine ⟨⟨copies, hcopy.handle hhandle⟩, hleaves.flags h.flags, ?_, ?_⟩
  · rw [hredir]
    exact hleaves.held hrequest h.held h.apart
  · rw [hredir]
    exact hleaves.apart hrequest h.held h.apart

omit [DecidableEq K] in
theorem SharedInv.mover (h : SharedInv bbpath files s) {step : MoverStep}
    (hstep : s.server.moverStep bbpath files step = some s'.server) (hredir : s'.redir = s.redir) :
    SharedInv bbpath files s' := by
  obtain ⟨copies, hcopy⟩ := h.copy
  obtain ⟨-, hfds, -⟩ := Server.moverStep_frame hstep
  refine ⟨⟨_, (hcopy.moverStep hstep).2⟩, ?_, ?_, ?_⟩
  · rw [hfds]
    exact h.flags
  · rw [hfds, hredir]
    exact h.held
  · rw [hredir]
    exact h.apart

end Shared

end Hvac
