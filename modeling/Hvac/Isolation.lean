/-
  Hvac/Isolation.lean
  ===================
  **What the clients of one server see of each other.**

  `Alone` is what one client should see: its own open files, each with a path and a
  position, over the originals.  A shared run shows every client what it would see
  alone (`run_alone`), so the descriptors of the others, the numbers the kernel
  hands out and the copies the others' closes cause make no difference, and a run of
  the client's requests by themselves, in which the kernel fails the same reads, gives
  the same results (`isolated`).

  What does make a difference is a read of another client that aborts the server for
  everyone: one whose count has become negative on the wire (`not_isolated`), or a
  sequential one that fails.
-/
import Hvac.Shared

namespace Hvac

open Cxx Posix

/-! ### One client alone -/

/-- The files a client has open, with path and position. -/
structure Alone where
  alive : Bool
  opened : Int → Option (String × Nat)

def Alone.start : Alone := ⟨true, fun _ => none⟩

/-- Whether the kernel fails the read for reasons of its own. -/
def ClientOp.fails (remote : Int) : ClientOp → Bool
  | .read _ _ _ => decide (remote = -1)
  | .openFile _ _ => false
  | .seek _ _ _ => false
  | .close _ => false

/-- The client's requests, and whether a read fails, served from the originals. -/
def Alone.serve (rl : ReadLen) (orig : String → Contents) (a : Alone) (op : ClientOp × Bool) :
    Alone × Option Reply :=
  if a.alive then
    match op.1 with
    | .openFile fd path =>
        ({ a with opened := Function.update a.opened fd (some (path, 0)) }, some ⟨0, []⟩)
    | .read fd count offset =>
        match a.opened fd with
        | none => (a, none)
        | some (path, pos) =>
            if int32 count < 0 then ({ a with alive := false }, none)
            else
              match readAt rl (orig path) pos (int32 count) offset op.2 with
              | none => ({ a with alive := false }, none)
              | some (pos, reply) =>
                  ({ a with opened := Function.update a.opened fd (some (path, pos)) }, some reply)
    | .seek fd offset whence =>
        match a.opened fd with
        | none => (a, none)
        | some (path, pos) =>
            let out := seekAt (orig path) pos offset whence
            ({ a with opened := Function.update a.opened fd (some (path, out.1)) }, some out.2)
    | .close fd => ({ a with opened := Function.update a.opened fd none }, none)
  else (a, none)

def aloneMachine (rl : ReadLen) (orig : String → Contents) :
    Machine Alone (ClientOp × Bool) (Option Reply) where
  step a op := some (a.serve rl orig op)

/-! ### A client of the shared server and one alone -/

section Isolation

variable {K : Type} [DecidableEq K] {rl : ReadLen} {bbpath : String} {files : Files}
  {s s' : Shared K} {k : K}

/-- The requests of client `k` in a schedule, with the reads the kernel fails. -/
def SharedLabel.by? (k : K) : SharedLabel K → Option (ClientOp × Bool)
  | .client j op remote => if j = k then some (op, op.fails remote) else none
  | .mover _ => none

theorem SharedLabel.by?_self (k : K) (op : ClientOp) (remote : Int) :
    SharedLabel.by? k (.client k op remote) = some (op, op.fails remote) := if_pos rfl

/-- What client `k` learns from a step. -/
def learns (k : K) : Option (K × Option Reply) → Option (Option Reply)
  | none => none
  | some (j, answer) => if j = k then some answer else none

/-- Reading the file is reading the original: it holds the same and is not written. -/
def ReadsOriginal (bbpath : String) (files : Files) (orig : String → Contents) (k : K)
    (s : Shared K) : SharedLabel K → Prop
  | .client j (.openFile _ path) _ => j = k → s.server.Settled bbpath files path (orig path)
  | .client _ (.read _ _ _) _ => True
  | .client _ (.seek _ _ _) _ => True
  | .client _ (.close _) _ => True
  | .mover _ => True

/-- No request of another client ends the server. -/
def SparesServer (k : K) (s : Shared K) : SharedLabel K → Prop
  | .client j op remote =>
      j = k ∨ ∀ request ∈ op.request fun fd => s.redir (j, fd), s.server.Spared remote request
  | .mover _ => True

/-- The client's own seeks are no matter of where a file and its copy have holes. -/
def SeeksPlainly (k : K) : SharedLabel K → Prop
  | .client j (.seek _ _ whence) _ => j = k → PlainWhence whence
  | .client _ (.openFile _ _) _ => True
  | .client _ (.read _ _ _) _ => True
  | .client _ (.close _) _ => True
  | .mover _ => True

instance {v : Server} {file : String} {c : Contents} :
    Decidable (v.Settled bbpath files file c) :=
  inferInstanceAs (Decidable (_ ∧ _))

instance : ∀ l : SharedLabel K, Decidable (OpenSucceeds l)
  | .client _ (.openFile _ _) _ => inferInstanceAs (Decidable (_ ≠ _))
  | .client _ (.read _ _ _) _ => isTrue trivial
  | .client _ (.seek _ _ _) _ => isTrue trivial
  | .client _ (.close _) _ => isTrue trivial
  | .mover _ => isTrue trivial

instance {orig : String → Contents} : ∀ l : SharedLabel K,
    Decidable (ReadsOriginal bbpath files orig k s l)
  | .client _ (.openFile _ _) _ => inferInstanceAs (Decidable (_ → _))
  | .client _ (.read _ _ _) _ => isTrue trivial
  | .client _ (.seek _ _ _) _ => isTrue trivial
  | .client _ (.close _) _ => isTrue trivial
  | .mover _ => isTrue trivial

instance : ∀ l : SharedLabel K, Decidable (SeeksPlainly k l)
  | .client _ (.seek _ _ _) _ => inferInstanceAs (Decidable (_ → _))
  | .client _ (.openFile _ _) _ => isTrue trivial
  | .client _ (.read _ _ _) _ => isTrue trivial
  | .client _ (.close _) _ => isTrue trivial
  | .mover _ => isTrue trivial

instance : ∀ l : SharedLabel K, Decidable (SparesServer k s l)
  | .client _ _ _ => inferInstanceAs (Decidable (_ ∨ ∀ _ ∈ _, _))
  | .mover _ => isTrue trivial

/-- The descriptor `r` stands at `pos` of a file that holds what `path` held. -/
def Server.StandsAt (bbpath : String) (files : Files) (orig : String → Contents) (v : Server)
    (r : Int) (path : String) (pos : Nat) : Prop :=
  ∃ g, v.fds.find? r = some g ∧ g.pos = pos ∧ v.Settled bbpath files g.file (orig path)

/-- Client `k` finds at the shared server what it finds alone. -/
structure Shows (bbpath : String) (files : Files) (orig : String → Contents) (k : K)
    (s : Shared K) (a : Alone) : Prop where
  alive : s.server.alive = a.alive
  closed : s.server.alive = true → ∀ fd, s.redir (k, fd) = none ↔ a.opened fd = none
  opened : s.server.alive = true → ∀ fd r path pos, s.redir (k, fd) = some r →
    a.opened fd = some (path, pos) → s.server.StandsAt bbpath files orig r path pos

/-! ### What keeps the two alike -/

section Frame

variable {orig : String → Contents} {a : Alone} {r : Int} {path : String} {pos : Nat}

theorem Server.StandsAt.congr {v v' : Server} (h : v.StandsAt bbpath files orig r path pos)
    (hfind : v'.fds.find? r = v.fds.find? r)
    (hsettled : ∀ file c, v.Settled bbpath files file c → v'.Settled bbpath files file c) :
    v'.StandsAt bbpath files orig r path pos := by
  obtain ⟨g, hg, hpos, hfile⟩ := h
  exact ⟨g, hfind.trans hg, hpos, hsettled _ _ hfile⟩

theorem Server.settled_of_handle {v v' : Server} {remote : Int} {request : Request}
    {reply : Option Reply} (hhandle : v.handle rl bbpath files remote request = some (v', reply))
    (file : String) (c : Contents) (h : v.Settled bbpath files file c) :
    v'.Settled bbpath files file c := by
  obtain ⟨hstore, -, -, -, hmover⟩ := Server.handle_frame hhandle
  apply h.congr hstore
  left
  rw [hmover]

omit [DecidableEq K] in
/-- A step of the mover shows the client nothing. -/
theorem Shows.mover (h : Shows bbpath files orig k s a) (hinv : SharedInv bbpath files s)
    {step : MoverStep} (hstep : s.server.moverStep bbpath files step = some s'.server)
    (hredir : s'.redir = s.redir) : Shows bbpath files orig k s' a := by
  obtain ⟨copies, hcopy⟩ := hinv.copy
  obtain ⟨halive, hfds, -⟩ := Server.moverStep_frame hstep
  constructor
  · rw [halive]
    exact h.alive
  · rw [halive, hredir]
    exact h.closed
  · intro hlive fd r path pos hr hopened
    rw [halive] at hlive
    rw [hredir] at hr
    apply (h.opened hlive fd r path pos hr hopened).congr
    · rw [hfds]
    · exact (hcopy.moverStep hstep).1

/-- Nor does a request of another client, on another descriptor. -/
theorem Shows.other (h : Shows bbpath files orig k s a) (hinv : SharedInv bbpath files s)
    {j : K} (hne : j ≠ k) {op : ClientOp} {remote : Int} {out : Option (K × Option Reply)}
    (hopen : OpenSucceeds (.client j op remote)) (hspare : SparesServer k s (.client j op remote))
    (hstep : (sharedMachine rl bbpath files).step s (.client j op remote) = some (s', out)) :
    Shows bbpath files orig k s' a := by
  obtain ⟨request, reply, hrequest, hhandle, hredir, -⟩ := sharedMachine_step_client hstep
  have hleaves := handle_leaves hinv.flags (hinv.valid hopen hrequest) hhandle
  have halive : s'.server.alive = s.server.alive :=
    hleaves.alive (hspare.resolve_left hne request hrequest)
  have hmine : ∀ fd, s'.redir (k, fd) = s.redir (k, fd) := by
    intro fd
    rw [hredir]
    apply op.redirect_of_ne
    intro heq
    exact hne (Prod.mk.inj heq).1.symm
  constructor
  · rw [halive]
    exact h.alive
  · intro hlive fd
    rw [halive] at hlive
    rw [hmine]
    exact h.closed hlive fd
  · intro hlive fd r path pos hr hopened
    rw [halive] at hlive
    rw [hmine] at hr
    apply (h.opened hlive fd r path pos hr hopened).congr
    · apply hleaves.find?_of_ne (hinv.held _ r hr)
      intro hown
      have hsame := hinv.apart _ _ r (ClientOp.descriptor?_request hrequest hown) hr
      exact hne (Prod.mk.inj hsame).1
    · exact Server.settled_of_handle hhandle

/-- The name an open is redirected to holds what the path holds. -/
theorem CopyInv.settled_redirPath {v : Server} {copies : List (String × String)}
    (h : CopyInv bbpath files v copies) {c : Contents} (hpath : v.Settled bbpath files path c) :
    v.Settled bbpath files (v.redirPath path) c := by
  unfold Server.redirPath
  rcases hcache : v.pathCacheMap.find? path with _ | q
  · exact hpath
  · obtain ⟨c', hp, hq⟩ := h.complete path q (h.cached path q hcache)
    obtain rfl : c' = c := Option.some.inj (hp.1.symm.trans hpath.1)
    exact hq

omit [DecidableEq K] in
/-- The client's own descriptor stands where it stands alone. -/
theorem Shows.standsAt (h : Shows bbpath files orig k s a) (hlive : s.server.alive = true)
    {fd : Int} (hr : s.redir (k, fd) = some r) :
    ∃ path pos, a.opened fd = some (path, pos) ∧
      s.server.StandsAt bbpath files orig r path pos := by
  rcases hopened : a.opened fd with _ | ⟨path, pos⟩
  · rw [(h.closed hlive fd).mpr hopened] at hr
    cases hr
  · exact ⟨path, pos, rfl, h.opened hlive fd r path pos hr hopened⟩

/-- A request of the client itself, and what the server makes of it. -/
structure OwnStep (rl : ReadLen) (bbpath : String) (files : Files) (k : K) (s s' : Shared K)
    (op : ClientOp) (remote : Int) (request : Request) (reply : Option Reply) : Prop where
  requested : op.request (fun fd => s.redir (k, fd)) = some request
  handle : s.server.handle rl bbpath files remote request = some (s'.server, reply)
  leaves : HandleLeaves rl bbpath files remote s.server request s'.server reply
  redir : s'.redir = op.redirect s.redir k reply

section Own

variable {op : ClientOp} {remote : Int} {request : Request} {reply : Option Reply}

/-- A request of its own moves one of the client's descriptors. -/
theorem Shows.own_entry (h : Shows bbpath files orig k s a) (hinv : SharedInv bbpath files s)
    (hown : OwnStep rl bbpath files k s s' op remote request reply)
    (hlive : s.server.alive = true) (hlive' : s'.server.alive = true)
    {entry : Option (String × Nat)} (hclosed : s'.redir (k, op.fd) = none ↔ entry = none)
    (hentry : ∀ r path pos, s'.redir (k, op.fd) = some r → entry = some (path, pos) →
      s'.server.StandsAt bbpath files orig r path pos) :
    Shows bbpath files orig k s' { a with opened := Function.update a.opened op.fd entry } := by
  have hkept : ∀ fd, fd ≠ op.fd → s'.redir (k, fd) = s.redir (k, fd) := by
    intro fd hne
    rw [hown.redir]
    apply op.redirect_of_ne
    intro heq
    exact hne (Prod.mk.inj heq).2
  constructor
  · rw [hlive', ← hlive]
    exact h.alive
  · intro _ fd
    by_cases hsame : fd = op.fd
    · subst hsame
      dsimp only
      rw [Function.update_self]
      exact hclosed
    · dsimp only
      rw [Function.update_of_ne hsame, hkept fd hsame]
      exact h.closed hlive fd
  · intro _ fd r path pos hr hopened
    dsimp only at hopened
    by_cases hsame : fd = op.fd
    · subst hsame
      rw [Function.update_self] at hopened
      exact hentry r path pos hr hopened
    · rw [hkept fd hsame] at hr
      rw [Function.update_of_ne hsame] at hopened
      apply (h.opened hlive fd r path pos hr hopened).congr
      · apply hown.leaves.find?_of_ne (hinv.held _ r hr)
        intro hdescriptor
        have heq := hinv.apart _ _ r (ClientOp.descriptor?_request hown.requested hdescriptor) hr
        exact hsame (Prod.mk.inj heq).2.symm
      · exact Server.settled_of_handle hown.handle

/-- A read or a seek moves the position. -/
theorem Shows.own_moved (h : Shows bbpath files orig k s a) (hinv : SharedInv bbpath files s)
    (hown : OwnStep rl bbpath files k s s' op remote request reply)
    (hlive : s.server.alive = true) (hlive' : s'.server.alive = true)
    (hsame : op.redirect s.redir k reply = s.redir) (hr : s.redir (k, op.fd) = some r)
    {g : OpenFile String} (hfile : s.server.Settled bbpath files g.file (orig path))
    (hfds : s'.server.fds = s.server.fds.insert r { g with pos := pos }) :
    Shows bbpath files orig k s'
      { a with opened := Function.update a.opened op.fd (some (path, pos)) } := by
  have hredir : s'.redir = s.redir := hown.redir.trans hsame
  apply h.own_entry hinv hown hlive hlive'
  · rw [hredir, hr]
    exact iff_of_false (Option.some_ne_none _) (Option.some_ne_none _)
  · intro r' path' pos' hr' hentry
    rw [hredir, hr] at hr'
    cases hr'
    cases hentry
    refine ⟨{ g with pos := pos }, ?_, rfl, Server.settled_of_handle hown.handle _ _ hfile⟩
    rw [hfds]
    exact OrdMap.find?_insert_self ..

omit [DecidableEq K] in
/-- Where the server is gone, it is gone for the client alone too. -/
theorem Shows.gone (hlive : s.server.alive = false) (ha : a.alive = false) :
    Shows bbpath files orig k s a := by
  constructor
  · rw [hlive, ha]
  · intro hlive'
    rw [hlive] at hlive'
    cases hlive'
  · intro hlive'
    rw [hlive] at hlive'
    cases hlive'

theorem HandleLeaves.of_dead {v v' : Server} {remote : Int} {request : Request}
    {reply : Option Reply} (hleaves : HandleLeaves rl bbpath files remote v request v' reply)
    (hdead : v.alive = false) : v'.alive = false ∧ reply = none := by
  cases hleaves with
  | dead => exact ⟨hdead, rfl⟩
  | aborted => exact ⟨rfl, rfl⟩
  | opened m halive | read m halive | seek halive | closed halive =>
    rw [hdead] at halive
    cases halive

/-- A request reaches a live server only. -/
theorem OwnStep.of_dead (hown : OwnStep rl bbpath files k s s' op remote request reply)
    (ha : a.alive = false) (hdead : s.server.alive = false) (fails : Bool) :
    op.answer reply = (a.serve rl orig (op, fails)).2 ∧
      Shows bbpath files orig k s' (a.serve rl orig (op, fails)).1 := by
  obtain ⟨hdead', rfl⟩ := hown.leaves.of_dead hdead
  unfold Alone.serve
  rw [if_neg (by rw [ha]; exact Bool.false_ne_true)]
  refine ⟨?_, Shows.gone hdead' ha⟩
  cases op with
  | openFile | read | seek | close => rfl

theorem Shows.ownOpen (h : Shows bbpath files orig k s a) (hinv : SharedInv bbpath files s)
    {fd : Int} (hown : OwnStep rl bbpath files k s s' (.openFile fd path) remote request reply)
    (hlive : s.server.alive = true)
    (hpath : s.server.Settled bbpath files path (orig path)) :
    (ClientOp.openFile fd path).answer reply = (a.serve rl orig (.openFile fd path, false)).2 ∧
      Shows bbpath files orig k s' (a.serve rl orig (.openFile fd path, false)).1 := by
  have hentry := h.own_entry hinv hown hlive
  unfold Alone.serve
  rw [if_pos (h.alive.symm.trans hlive)]
  obtain ⟨hrequest, hhandle, hleaves, hredir⟩ := hown
  obtain ⟨v', redir'⟩ := s'
  obtain ⟨copies, hcopy⟩ := hinv.copy
  dsimp only at hleaves hredir hhandle
  cases hrequest
  cases hleaves with
  | dead hdead =>
    rw [hdead] at hlive
    cases hlive
  | opened m _ hfree hview =>
    have hnew : redir' (k, fd) = some remote := by
      rw [hredir, ClientOp.redirect, Function.update_self]
    refine ⟨rfl, hentry hlive ?_ ?_⟩
    · apply iff_of_false
      · intro hnone
        cases hnew.symm.trans hnone
      · exact Option.some_ne_none _
    · intro r path' pos hr hsame
      cases hnew.symm.trans hr
      cases hsame
      refine ⟨_, OrdMap.find?_insert_self .., rfl, ?_⟩
      exact Server.settled_of_handle hhandle _ _ (hcopy.settled_redirPath hpath)

theorem Shows.ownRead (h : Shows bbpath files orig k s a) (hinv : SharedInv bbpath files s)
    {fd offset : Int} {count : Nat}
    (hown : OwnStep rl bbpath files k s s' (.read fd count offset) remote request reply)
    (hlive : s.server.alive = true) :
    (ClientOp.read fd count offset).answer reply =
        (a.serve rl orig (.read fd count offset, decide (remote = -1))).2 ∧
      Shows bbpath files orig k s'
        (a.serve rl orig (.read fd count offset, decide (remote = -1))).1 := by
  obtain ⟨r, hr, rfl⟩ := Option.map_eq_some_iff.mp hown.requested
  obtain ⟨path, pos, hopened, g, hg, rfl, hfile⟩ := h.standsAt hlive hr
  have hcontent : s.server.content bbpath files g.file = orig path := by
    rw [Server.content, hfile.1, Option.getD_some]
  unfold Alone.serve
  rw [if_pos (h.alive.symm.trans hlive)]
  have hleaves := hown.leaves
  obtain ⟨v', redir'⟩ := s'
  dsimp only at hleaves ⊢
  generalize int32 count = inputVal at hleaves ⊢
  cases hleaves with
  | dead hdead =>
    rw [hdead] at hlive
    cases hlive
  | aborted m _ hg' hfails =>
    cases Option.some.inj (hg.symm.trans hg')
    rw [hcontent] at hfails
    by_cases hneg : inputVal < 0
    · simp only [hopened, hneg, if_true]
      exact ⟨rfl, Shows.gone rfl rfl⟩
    · simp only [hopened, hneg, if_false, hfails.resolve_left hneg]
      exact ⟨rfl, Shows.gone rfl rfl⟩
  | read m _ hinput hg' hread =>
    cases Option.some.inj (hg.symm.trans hg')
    rw [hcontent] at hread
    simp only [hopened, not_lt.mpr hinput, if_false, hread]
    exact ⟨rfl, h.own_moved hinv hown hlive hlive rfl hr hfile rfl⟩

theorem Shows.ownSeek (h : Shows bbpath files orig k s a) (hinv : SharedInv bbpath files s)
    {fd offset whence : Int}
    (hown : OwnStep rl bbpath files k s s' (.seek fd offset whence) remote request reply)
    (hlive : s.server.alive = true) :
    (ClientOp.seek fd offset whence).answer reply =
        (a.serve rl orig (.seek fd offset whence, false)).2 ∧
      Shows bbpath files orig k s' (a.serve rl orig (.seek fd offset whence, false)).1 := by
  obtain ⟨r, hr, rfl⟩ := Option.map_eq_some_iff.mp hown.requested
  obtain ⟨path, pos, hopened, g, hg, rfl, hfile⟩ := h.standsAt hlive hr
  have hcontent : s.server.content bbpath files g.file = orig path := by
    rw [Server.content, hfile.1, Option.getD_some]
  unfold Alone.serve
  rw [if_pos (h.alive.symm.trans hlive)]
  have hleaves := hown.leaves
  obtain ⟨v', redir'⟩ := s'
  dsimp only at hleaves
  cases hleaves with
  | dead hdead =>
    rw [hdead] at hlive
    cases hlive
  | seek _ hg' =>
    cases Option.some.inj (hg.symm.trans hg')
    simp only [hopened, ← hcontent]
    exact ⟨rfl, h.own_moved hinv hown hlive hlive rfl hr hfile rfl⟩

theorem Shows.ownClose (h : Shows bbpath files orig k s a) (hinv : SharedInv bbpath files s)
    {fd : Int} (hown : OwnStep rl bbpath files k s s' (.close fd) remote request reply)
    (hlive : s.server.alive = true) :
    (ClientOp.close fd).answer reply = (a.serve rl orig (.close fd, false)).2 ∧
      Shows bbpath files orig k s' (a.serve rl orig (.close fd, false)).1 := by
  obtain ⟨r, hr, rfl⟩ := Option.map_eq_some_iff.mp hown.requested
  have hentry := h.own_entry hinv hown hlive
  unfold Alone.serve
  rw [if_pos (h.alive.symm.trans hlive)]
  obtain ⟨-, -, hleaves, hredir⟩ := hown
  obtain ⟨v', redir'⟩ := s'
  dsimp only at hleaves hredir
  cases hleaves with
  | dead hdead =>
    rw [hdead] at hlive
    cases hlive
  | closed _ m queue =>
    have hnone : redir' (k, fd) = none := by
      rw [hredir, ClientOp.redirect, Function.update_self]
    refine ⟨rfl, hentry hlive (iff_of_true hnone rfl) ?_⟩
    intro r' path pos hr'
    cases hnone.symm.trans hr'

end Own

/-- The client's own request is answered as alone. -/
theorem Shows.own (h : Shows bbpath files orig k s a) (hinv : SharedInv bbpath files s)
    {op : ClientOp} {remote : Int} {out : Option (K × Option Reply)}
    (hopen : OpenSucceeds (.client k op remote))
    (horiginal : ReadsOriginal bbpath files orig k s (.client k op remote))
    (hstep : (sharedMachine rl bbpath files).step s (.client k op remote) = some (s', out)) :
    out = some (k, (a.serve rl orig (op, op.fails remote)).2) ∧
      Shows bbpath files orig k s' (a.serve rl orig (op, op.fails remote)).1 := by
  obtain ⟨request, reply, hrequest, hhandle, hredir, rfl⟩ := sharedMachine_step_client hstep
  have hown : OwnStep rl bbpath files k s s' op remote request reply :=
    ⟨hrequest, hhandle, handle_leaves hinv.flags (hinv.valid hopen hrequest) hhandle, hredir⟩
  have hserved : op.answer reply = (a.serve rl orig (op, op.fails remote)).2 ∧
      Shows bbpath files orig k s' (a.serve rl orig (op, op.fails remote)).1 := by
    by_cases hlive : s.server.alive = true
    · cases op with
      | openFile fd path => exact h.ownOpen hinv hown hlive (horiginal rfl)
      | read fd count offset => exact h.ownRead hinv hown hlive
      | seek fd offset whence => exact h.ownSeek hinv hown hlive
      | close fd => exact h.ownClose hinv hown hlive
    · rw [Bool.not_eq_true] at hlive
      exact hown.of_dead (h.alive.symm.trans hlive) hlive _
  exact ⟨by rw [hserved.1], hserved.2⟩

end Frame

/-! ### Whole runs -/

/-- What isolation rests on: opens succeed, the client's files hold what
    their originals hold and it seeks in them by size and position, and no read of
    another client ends the server. -/
structure Undisturbed (bbpath : String) (files : Files) (orig : String → Contents) (k : K)
    (s : Shared K) (l : SharedLabel K) : Prop where
  succeeds : OpenSucceeds l
  original : ReadsOriginal bbpath files orig k s l
  seeks : SeeksPlainly k l
  spares : SparesServer k s l

instance {orig : String → Contents} {l : SharedLabel K} :
    Decidable (Undisturbed bbpath files orig k s l) :=
  decidable_of_iff
    (OpenSucceeds l ∧ ReadsOriginal bbpath files orig k s l ∧ SeeksPlainly k l ∧
      SparesServer k s l)
    ⟨fun h => ⟨h.1, h.2.1, h.2.2.1, h.2.2.2⟩, fun h => ⟨h.succeeds, h.original, h.seeks, h.spares⟩⟩

variable {orig : String → Contents}

omit [DecidableEq K] in
theorem shows_start : Shows bbpath files orig k sharedStart Alone.start where
  alive := rfl
  closed _ _ := iff_of_true rfl rfl
  opened _ fd r path pos hr := by cases hr

theorem shows_step {a : Alone} {l : SharedLabel K} {out : Option (K × Option Reply)}
    (h : SharedInv bbpath files s ∧ Shows bbpath files orig k s a)
    (hl : Undisturbed bbpath files orig k s l)
    (hstep : (sharedMachine rl bbpath files).step s l = some (s', out)) :
    (SharedLabel.by? k l = none ∧ learns k out = none ∧
        SharedInv bbpath files s' ∧ Shows bbpath files orig k s' a) ∨
      ∃ op answer a', SharedLabel.by? k l = some op ∧ learns k out = some answer ∧
        (aloneMachine rl orig).step a op = some (a', answer) ∧
        SharedInv bbpath files s' ∧ Shows bbpath files orig k s' a' := by
  obtain ⟨hinv, hshows⟩ := h
  cases l with
  | client j op remote =>
    have hinv' := hinv.client hl.succeeds hstep
    by_cases hj : j = k
    · subst hj
      obtain ⟨rfl, hshows'⟩ := hshows.own hinv hl.succeeds hl.original hstep
      exact Or.inr ⟨(op, op.fails remote), _, _, if_pos rfl, if_pos rfl, rfl, hinv', hshows'⟩
    · obtain ⟨_, _, -, -, -, rfl⟩ := sharedMachine_step_client hstep
      exact Or.inl ⟨if_neg hj, if_neg hj, hinv',
        hshows.other hinv hj hl.succeeds hl.spares hstep⟩
  | mover step =>
    obtain ⟨hmover, hredir, rfl⟩ := sharedMachine_step_mover hstep
    exact Or.inl ⟨rfl, rfl, hinv.mover hmover hredir, hshows.mover hinv hmover hredir⟩

/-- A client of the shared server learns what it learns alone. -/
theorem run_alone {labels : List (SharedLabel K)} {outs : List (Option (K × Option Reply))}
    (hrun : (sharedMachine rl bbpath files).run sharedStart labels = some (s, outs))
    (hlabels : (sharedMachine rl bbpath files).Along
      (fun s l _ _ => Undisturbed bbpath files orig k s l) sharedStart labels) :
    ∃ a, (aloneMachine rl orig).run Alone.start (labels.filterMap (SharedLabel.by? k)) =
      some (a, outs.filterMap (learns k)) := by
  obtain ⟨a, halone, -⟩ := Machine.run_projection
    (R := fun s a => SharedInv bbpath files s ∧ Shows bbpath files orig k s a)
    (fun _ _ _ _ _ h hl hstep => shows_step h hl hstep)
    ⟨sharedInv_start, shows_start⟩ hlabels hrun
  exact ⟨a, halone⟩

/-! ### The private run -/

/-- The step is one of client `k`'s requests or of the mover. -/
def SharedLabel.OnlyOf (k : K) : SharedLabel K → Prop
  | .client j _ _ => j = k
  | .mover _ => True

instance : ∀ l : SharedLabel K, Decidable (l.OnlyOf k)
  | .client _ _ _ => inferInstanceAs (Decidable (_ = _))
  | .mover _ => isTrue trivial

omit [DecidableEq K] in
theorem undisturbed_of_onlyOf {l : SharedLabel K} (honly : l.OnlyOf k)
    (hsucceeds : OpenSucceeds l) (horiginal : ReadsOriginal bbpath files orig k s l)
    (hseeks : SeeksPlainly k l) : Undisturbed bbpath files orig k s l := by
  refine ⟨hsucceeds, horiginal, hseeks, ?_⟩
  cases l with
  | mover step => trivial
  | client j op remote => exact Or.inl honly

/-- A shared file holds what it holds whatever the mover does. -/
theorem CopyInv.settled_iff {v : Server} {copies : List (String × String)}
    (h : CopyInv bbpath files v copies) {path : String} (hpath : ¬ underBB bbpath path)
    {c : Contents} : v.Settled bbpath files path c ↔ files.find? path = some c := by
  rw [Server.Settled, v.view_of_not_underBB hpath, and_iff_left]
  intro hwriting
  have hmover := h.mover
  rcases hpc : v.mover with _ | _ | dir | dest | dest | _
  all_goals simp only [hpc, MoverPc.writing?, Option.some.injEq, reduceCtorEq] at hwriting
  subst hwriting
  simp only [Server.CopyPc, hpc] at hmover
  exact hpath hmover.1

/-- The request opens no file under `BBPATH`. -/
def ClientOp.OffBB (bbpath : String) : ClientOp → Prop
  | .openFile _ path => ¬ underBB bbpath path
  | .read _ _ _ => True
  | .seek _ _ _ => True
  | .close _ => True

instance : ∀ op : ClientOp, Decidable (op.OffBB bbpath)
  | .openFile _ _ => inferInstanceAs (Decidable (¬ _))
  | .read _ _ _ => isTrue trivial
  | .seek _ _ _ => isTrue trivial
  | .close _ => isTrue trivial

/-- Two servers on which the client holds the same files. -/
structure Alike (bbpath : String) (files : Files) (orig : String → Contents) (k : K)
    (s t : Shared K) : Prop where
  left : SharedInv bbpath files s
  right : SharedInv bbpath files t
  handles : ∀ fd, s.redir (k, fd) = none ↔ t.redir (k, fd) = none
  shows : ∃ a, Shows bbpath files orig k s a ∧ Shows bbpath files orig k t a

variable {t : Shared K}

/-- The kernel has a number for a new descriptor. -/
theorem CopyInv.openIn_enabled {v : Server} {copies : List (String × String)}
    (h : CopyInv bbpath files v copies) (rl : ReadLen) {path : String} {c : Contents}
    (hpath : v.Settled bbpath files path c) (localfd : Int) :
    ∃ remote v' reply, remote ≠ -1 ∧
      v.handle rl bbpath files remote (.openIn path localfd) = some (v', reply) := by
  obtain ⟨n, hn⟩ := v.fds.exists_find?_eq_none
  have hne : (n : Int) ≠ -1 := by omega
  have hhandle : ∃ out, v.handle rl bbpath files n (.openIn path localfd) = some out := by
    by_cases halive : v.alive = true
    · have hview := (h.settled_redirPath hpath).1
      have hopen : sysOpen v.fds n (v.redirPath path) O_RDONLY =
          some (v.fds.insert n ⟨v.redirPath path, O_RDONLY, 0⟩) :=
        sysOpen_eq_some_iff.mpr ⟨Int.natCast_nonneg n, hn, rfl⟩
      simp only [Server.handle, halive, if_true, Server.openRpcHandler, hne, if_false, hview,
        hopen, Option.some.injEq, exists_eq']
    · simp only [Server.handle, halive, Bool.false_eq_true, if_false, Option.some.injEq,
        exists_eq']
  obtain ⟨⟨v', reply⟩, hhandle⟩ := hhandle
  exact ⟨n, v', reply, hne, hhandle⟩

/-- Any other request is handled, whatever the kernel answers. -/
theorem Server.handle_enabled (v : Server) (rl : ReadLen) (bbpath : String) (files : Files)
    (remote : Int) {request : Request} (hopen : ∀ path localfd, request ≠ .openIn path localfd) :
    ∃ v' reply, v.handle rl bbpath files remote request = some (v', reply) := by
  unfold Server.handle
  split
  · cases request with
    | openIn path localfd => exact absurd rfl (hopen path localfd)
    | rpcIn | seekIn | closeIn => exact ⟨_, _, rfl⟩
  · exact ⟨_, _, rfl⟩

/-- The request can be made, and the kernel fail its read or not. -/
theorem SharedInv.enabled (h : SharedInv bbpath files t) (rl : ReadLen) {op : ClientOp}
    {request : Request} (remote : Int)
    (hrequest : op.request (fun fd => t.redir (k, fd)) = some request)
    (hpath : ∀ fd path, op = .openFile fd path → ∃ c, t.server.Settled bbpath files path c) :
    ∃ remote' t' out, OpenSucceeds (.client k op remote') ∧ op.fails remote' = op.fails remote ∧
      (sharedMachine rl bbpath files).step t (.client k op remote') = some (t', out) := by
  have hstep : ∀ remote' v' reply, t.server.handle rl bbpath files remote' request =
      some (v', reply) → (sharedMachine rl bbpath files).step t (.client k op remote') =
        some (⟨v', op.redirect t.redir k reply⟩, some (k, op.answer reply)) := by
    intro remote' v' reply hhandle
    simp only [sharedMachine, hrequest, hhandle]
  obtain ⟨copies, hcopy⟩ := h.copy
  cases op with
  | openFile fd path =>
    cases hrequest
    obtain ⟨c, hsettled⟩ := hpath fd path rfl
    obtain ⟨remote', v', reply, hremote, hhandle⟩ := hcopy.openIn_enabled rl hsettled fd
    exact ⟨remote', _, _, hremote, rfl, hstep _ _ _ hhandle⟩
  | read | seek | close =>
    obtain ⟨r, -, heq⟩ := Option.map_eq_some_iff.mp hrequest
    have hopen : ∀ path localfd, request ≠ .openIn path localfd := by
      rintro path localfd rfl
      cases heq
    obtain ⟨v', reply, hhandle⟩ := t.server.handle_enabled rl bbpath files remote hopen
    exact ⟨remote, _, _, trivial, rfl, hstep _ _ _ hhandle⟩

omit [DecidableEq K] in
/-- The client has the same handles on both, so it can make the same requests. -/
theorem Alike.request (h : Alike bbpath files orig k s t) {op : ClientOp} {request : Request}
    (hrequest : op.request (fun fd => s.redir (k, fd)) = some request) :
    ∃ request', op.request (fun fd => t.redir (k, fd)) = some request' := by
  have hhandle : ∀ fd r, s.redir (k, fd) = some r → ∃ r', t.redir (k, fd) = some r' := by
    intro fd r hr
    apply Option.ne_none_iff_exists'.mp
    rw [Ne, ← h.handles, hr]
    exact Option.some_ne_none r
  cases op with
  | openFile fd path => exact ⟨_, rfl⟩
  | read fd _ _ | seek fd _ _ | close fd =>
    obtain ⟨r, hr, -⟩ := Option.map_eq_some_iff.mp hrequest
    obtain ⟨r', hr'⟩ := hhandle fd r hr
    exact ⟨_, Option.map_eq_some_iff.mpr ⟨r', hr', rfl⟩⟩

/-- Equal answers leave the client the same handles. -/
theorem Alike.redirect (h : Alike bbpath files orig k s t) {op : ClientOp}
    {reply reply' : Option Reply} (hanswer : op.answer reply = op.answer reply') (fd : Int) :
    op.redirect s.redir k reply (k, fd) = none ↔ op.redirect t.redir k reply' (k, fd) = none := by
  by_cases hfd : fd = op.fd
  · subst hfd
    cases op with
    | openFile fd path =>
      cases reply with
      | none =>
        cases reply' with
        | none => exact h.handles fd
        | some out => cases hanswer
      | some out =>
        cases reply' with
        | none => cases hanswer
        | some out' =>
          simp only [ClientOp.redirect, ClientOp.fd, Function.update_self, reduceCtorEq]
    | read fd _ _ | seek fd _ _ => exact h.handles fd
    | close fd => simp only [ClientOp.redirect, ClientOp.fd, Function.update_self]
  · have hne : (k, fd) ≠ (k, op.fd) := fun heq => hfd (Prod.mk.inj heq).2
    rw [op.redirect_of_ne s.redir reply hne, op.redirect_of_ne t.redir reply' hne]
    exact h.handles fd

/-- The other server answers the client's request alike. -/
theorem Alike.own (h : Alike bbpath files orig k s t) {op : ClientOp} {remote : Int}
    {out : Option (K × Option Reply)}
    (hl : Undisturbed bbpath files orig k s (.client k op remote))
    (hoff : op.OffBB bbpath)
    (hstep : (sharedMachine rl bbpath files).step s (.client k op remote) = some (s', out)) :
    ∃ remote' t' out', OpenSucceeds (.client k op remote') ∧ op.fails remote' = op.fails remote ∧
      ReadsOriginal bbpath files orig k t (.client k op remote') ∧
      (sharedMachine rl bbpath files).step t (.client k op remote') = some (t', out') ∧
      Alike bbpath files orig k s' t' := by
  obtain ⟨request, reply, hrequest, -, hredir, hout⟩ := sharedMachine_step_client hstep
  obtain ⟨request', hrequest'⟩ := h.request hrequest
  have hsettled : ∀ fd path, op = .openFile fd path →
      t.server.Settled bbpath files path (orig path) := by
    rintro fd path rfl
    obtain ⟨copies, hcopy⟩ := h.left.copy
    obtain ⟨copies', hcopy'⟩ := h.right.copy
    rw [hcopy'.settled_iff hoff, ← hcopy.settled_iff hoff]
    exact hl.original rfl
  obtain ⟨remote', t', out', hsucceeds, hfails, hstep'⟩ :=
    h.right.enabled rl remote hrequest' fun fd path hop => ⟨_, hsettled fd path hop⟩
  have horiginal : ReadsOriginal bbpath files orig k t (.client k op remote') := by
    cases op with
    | openFile fd path => exact fun _ => hsettled fd path rfl
    | read | seek | close => trivial
  obtain ⟨a, hs, ht⟩ := h.shows
  obtain ⟨houts, hs'⟩ := hs.own h.left hl.succeeds hl.original hstep
  obtain ⟨houtt, ht'⟩ := ht.own h.right hsucceeds horiginal hstep'
  rw [hfails] at houtt ht'
  obtain ⟨_, reply', -, -, hredir', hout'⟩ := sharedMachine_step_client hstep'
  have hanswer : op.answer reply = op.answer reply' := by
    have hsame : some (k, op.answer reply) = some (k, op.answer reply') := by
      rw [← hout, ← hout', houts, houtt]
    exact (Prod.mk.inj (Option.some.inj hsame)).2
  refine ⟨remote', t', out', hsucceeds, hfails, horiginal, hstep',
    h.left.client hl.succeeds hstep, h.right.client hsucceeds hstep', ?_, _, hs', ht'⟩
  intro fd
  rw [hredir, hredir']
  exact h.redirect hanswer fd

/-- What the client does not see leaves the servers alike. -/
theorem Alike.skip (h : Alike bbpath files orig k s t) {l : SharedLabel K}
    {out : Option (K × Option Reply)} (hl : Undisturbed bbpath files orig k s l)
    (hby : SharedLabel.by? k l = none)
    (hstep : (sharedMachine rl bbpath files).step s l = some (s', out)) :
    Alike bbpath files orig k s' t := by
  obtain ⟨a, hs, ht⟩ := h.shows
  cases l with
  | mover step =>
    obtain ⟨hmover, hredir, -⟩ := sharedMachine_step_mover hstep
    refine ⟨h.left.mover hmover hredir, h.right, ?_, a, hs.mover h.left hmover hredir, ht⟩
    rw [hredir]
    exact h.handles
  | client j op remote =>
    have hj : j ≠ k := by
      rintro rfl
      simp only [SharedLabel.by?, if_true, reduceCtorEq] at hby
    obtain ⟨_, _, -, -, hredir, -⟩ := sharedMachine_step_client hstep
    refine ⟨h.left.client hl.succeeds hstep, h.right, ?_, a,
      hs.other h.left hj hl.succeeds hl.spares hstep, ht⟩
    intro fd
    rw [hredir, op.redirect_of_ne _ _ fun heq => hj (Prod.mk.inj heq).1.symm]
    exact h.handles fd

/-- A step of a run of the client's requests alone. -/
structure Private (bbpath : String) (files : Files) (orig : String → Contents) (k : K)
    (s : Shared K) (l : SharedLabel K) : Prop where
  only : l.OnlyOf k
  succeeds : OpenSucceeds l
  original : ReadsOriginal bbpath files orig k s l
  seeks : SeeksPlainly k l

instance {l : SharedLabel K} : Decidable (Private bbpath files orig k s l) :=
  decidable_of_iff
    (l.OnlyOf k ∧ OpenSucceeds l ∧ ReadsOriginal bbpath files orig k s l ∧ SeeksPlainly k l)
    ⟨fun h => ⟨h.1, h.2.1, h.2.2.1, h.2.2.2⟩, fun h => ⟨h.only, h.succeeds, h.original, h.seeks⟩⟩

/-- The client's requests can be made alone, when its files are not under `BBPATH`. -/
theorem Alike.exists_private {labels : List (SharedLabel K)}
    {outs : List (Option (K × Option Reply))} (h : Alike bbpath files orig k s t)
    (hlabels : (sharedMachine rl bbpath files).Along
      (fun s l _ _ => Undisturbed bbpath files orig k s l) s labels)
    (hoff : ∀ op ∈ labels.filterMap (SharedLabel.by? k), op.1.OffBB bbpath)
    (hrun : (sharedMachine rl bbpath files).run s labels = some (s', outs)) :
    ∃ labels' t' outs',
      labels'.filterMap (SharedLabel.by? k) = labels.filterMap (SharedLabel.by? k) ∧
      (sharedMachine rl bbpath files).Along (fun s l _ _ => Private bbpath files orig k s l) t
        labels' ∧
      (sharedMachine rl bbpath files).run t labels' = some (t', outs') := by
  induction labels generalizing s t outs with
  | nil => exact ⟨[], t, [], rfl, trivial, rfl⟩
  | cons l labels ih =>
    obtain ⟨s₁, out, outs₁, hstep, hrest, -⟩ := Machine.run_cons_eq_some_iff.mp hrun
    obtain ⟨hl, hlabels₁⟩ := hlabels s₁ out hstep
    rcases hby : SharedLabel.by? k l with _ | op
    · rw [List.filterMap_cons_none hby] at hoff ⊢
      exact ih (h.skip hl hby hstep) hlabels₁ hoff hrest
    · rw [List.filterMap_cons_some hby] at hoff ⊢
      obtain ⟨hop, hrests⟩ := List.forall_mem_cons.mp hoff
      cases l with
      | mover step => cases hby
      | client j op' remote =>
        obtain ⟨rfl, rfl⟩ : j = k ∧ (op', op'.fails remote) = op := by
          simpa only [SharedLabel.by?, Option.ite_none_right_eq_some, Option.some.injEq] using hby
        have hseeks : ∀ remote', SeeksPlainly j (.client j op' remote') := by
          intro remote'
          have hmine := hl.seeks
          cases op' with
          | seek fd offset whence => exact hmine
          | openFile | read | close => trivial
        obtain ⟨remote', t₁, out', hsucceeds, hfails, horiginal, hstep', h₁⟩ := h.own hl hop hstep
        obtain ⟨labels', t', outs', hsame, hprivate, hrun'⟩ := ih h₁ hlabels₁ hrests hrest
        refine ⟨.client j op' remote' :: labels', t', out' :: outs', ?_, ?_, ?_⟩
        · rw [List.filterMap_cons_some (SharedLabel.by?_self ..), hsame, hfails]
        · intro t₂ out₂ hstep₂
          rw [hstep'] at hstep₂
          cases hstep₂
          exact ⟨⟨rfl, hsucceeds, horiginal, hseeks remote'⟩, hprivate⟩
        · exact Machine.run_cons_eq_some_iff.mpr ⟨t₁, out', outs', hstep', hrun', rfl⟩

/-- **As long as no read of another client ends the server, a client of it learns what
    it learns when only its requests are run.** -/
theorem isolated (orig : String → Contents) (k : K) {labels : List (SharedLabel K)}
    {outs : List (Option (K × Option Reply))}
    (hrun : (sharedMachine rl bbpath files).run sharedStart labels = some (s, outs))
    (hlabels : (sharedMachine rl bbpath files).Along
      (fun s l _ _ => Undisturbed bbpath files orig k s l) sharedStart labels) :
    (∀ labels' t outs', labels'.filterMap (SharedLabel.by? k) =
          labels.filterMap (SharedLabel.by? k) →
        (sharedMachine rl bbpath files).Along (fun s l _ _ => Private bbpath files orig k s l)
          sharedStart labels' →
        (sharedMachine rl bbpath files).run sharedStart labels' = some (t, outs') →
        outs'.filterMap (learns k) = outs.filterMap (learns k)) ∧
      ((∀ op ∈ labels.filterMap (SharedLabel.by? k), op.1.OffBB bbpath) →
        ∃ labels' t outs', labels'.filterMap (SharedLabel.by? k) =
            labels.filterMap (SharedLabel.by? k) ∧
          (sharedMachine rl bbpath files).Along (fun s l _ _ => Private bbpath files orig k s l)
            sharedStart labels' ∧
          (sharedMachine rl bbpath files).run sharedStart labels' = some (t, outs')) := by
  refine ⟨fun labels' t outs' hsame hprivate hrun' => ?_, fun hoff => ?_⟩
  · obtain ⟨a, halone⟩ := run_alone hrun hlabels
    have hlabels' := hprivate.mono fun _ _ _ _ _ h =>
      undisturbed_of_onlyOf h.only h.succeeds h.original h.seeks
    obtain ⟨a', halone'⟩ := run_alone hrun' hlabels'
    rw [hsame, halone] at halone'
    exact (Prod.mk.inj (Option.some.inj halone')).2.symm
  · refine Alike.exists_private ?_ hlabels hoff hrun
    exact ⟨sharedInv_start, sharedInv_start, fun _ => Iff.rfl, _, shows_start, shows_start⟩

end Isolation

/-! ### Two clients -/

/-- One file of two bytes. -/
def twoBytes : Files := OrdMap.empty.insert "/data/a" [7, 8]

/-- Both clients read the file, and the kernel fails a `pread` of each; the close of the
    one has it copied, and the other opens the copy. -/
def twoLabels : List (SharedLabel Bool) :=
  [.client true (.openFile 5 "/data/a") 3, .client false (.openFile 5 "/data/a") 4,
    .client false (.read 5 1 (-1)) 0, .client true (.read 5 2 (-1)) 0,
    .client true (.read 5 1 0) (-1), .client false (.read 5 1 0) (-1),
    .client true (.close 5) 0, .mover .drain, .mover (.mkdtemp (some "aaaaaa")),
    .mover .copyBegin, .mover (.copyChunk 2), .mover .copyEnd, .mover .publish,
    .client false (.read 5 1 (-1)) 0, .client false (.openFile 6 "/data/a") 3,
    .client false (.read 6 2 (-1)) 0, .client false (.close 5) 0]

theorem isolated_two :
    ∃ labels t outs, labels.filterMap (SharedLabel.by? false) =
        [(.openFile 5 "/data/a", false), (.read 5 1 (-1), false), (.read 5 1 0, true),
          (.read 5 1 (-1), false), (.openFile 6 "/data/a", false), (.read 6 2 (-1), false),
          (.close 5, false)] ∧
      (sharedMachine ReadLen.full "/bb" twoBytes).Along
        (fun s l _ _ => Private "/bb" twoBytes twoBytes.content false s l) sharedStart labels ∧
      (sharedMachine ReadLen.full "/bb" twoBytes).run sharedStart labels = some (t, outs) ∧
      outs.filterMap (learns false) =
        [some ⟨0, []⟩, some ⟨1, [7]⟩, some ⟨-1, []⟩, some ⟨1, [8]⟩, some ⟨0, []⟩,
          some ⟨2, [7, 8]⟩, none] := by
  have hvalue : ((sharedMachine ReadLen.full "/bb" twoBytes).run sharedStart twoLabels).map
      (fun r => r.2.filterMap (learns false)) =
      some [some ⟨0, []⟩, some ⟨1, [7]⟩, some ⟨-1, []⟩, some ⟨1, [8]⟩, some ⟨0, []⟩,
        some ⟨2, [7, 8]⟩, none] := by
    decide +kernel
  obtain ⟨⟨s, outs⟩, hrun, houts⟩ := Option.map_eq_some_iff.mp hvalue
  obtain ⟨hsame, hexists⟩ := isolated twoBytes.content false hrun (by decide +kernel)
  obtain ⟨labels, t, outs', hlabels, hprivate, hrun'⟩ := hexists (by decide +kernel)
  exact ⟨labels, t, outs', hlabels, hprivate, hrun',
    (hsame labels t outs' hlabels hprivate hrun').trans houts⟩

/-- The other client reads `2 ^ 31` bytes. -/
def abortLabels : List (SharedLabel Bool) :=
  [.client false (.openFile 5 "/data/a") 3, .client true (.openFile 5 "/data/a") 4,
    .client true (.read 5 (2 ^ 31) (-1)) 0, .client false (.read 5 1 (-1)) 0]

def abortPrivate : List (SharedLabel Bool) :=
  [.client false (.openFile 5 "/data/a") 3, .client false (.read 5 1 (-1)) 0]

/-- The server is gone for the client that reads one byte. -/
theorem not_isolated :
    abortPrivate.filterMap (SharedLabel.by? false) =
        abortLabels.filterMap (SharedLabel.by? false) ∧
      (sharedMachine ReadLen.full "/bb" twoBytes).Along
        (fun s l _ _ => OpenSucceeds l ∧
          ReadsOriginal "/bb" twoBytes twoBytes.content false s l ∧
          ReadsOriginal "/bb" twoBytes twoBytes.content true s l) sharedStart abortLabels ∧
      (sharedMachine ReadLen.full "/bb" twoBytes).Along
        (fun s l _ _ => Private "/bb" twoBytes twoBytes.content false s l) sharedStart
        abortPrivate ∧
      ((sharedMachine ReadLen.full "/bb" twoBytes).run sharedStart abortLabels).map
        (fun r => r.2.filterMap (learns false)) = some [some ⟨0, []⟩, none] ∧
      ((sharedMachine ReadLen.full "/bb" twoBytes).run sharedStart abortPrivate).map
        (fun r => r.2.filterMap (learns false)) = some [some ⟨0, []⟩, some ⟨1, [7]⟩] := by
  refine ⟨by decide, ?_, ?_, ?_, ?_⟩
  all_goals decide +kernel

end Hvac
