/-
  Hvac/Leaks.lean
  ===============
  **Are the descriptors opened for a client closed again?**

  One client and one server.  The calls of `System.lean` are joined by `fopen` and
  by `fclose`, which is not intercepted, and the response to a read or a `pread` is
  any, so that each can succeed or fail.

  A descriptor at the server is accounted for when a close request for it is on its
  way or a tracked descriptor that is open locally still names it (`LeakInv`).  A
  read answered with -1 untracks its descriptor, and an `fclose` closes it behind
  the client's back: in both cases no close request is ever sent
  (`descriptor_leaks`).  No other step loses a descriptor (`noLeak_run`).
-/
import Hvac.SystemInv
import Hvac.ServerRun

namespace Hvac

open Cxx Posix

variable (env : Env) (rl : ReadLen) (bbpath : String)

/-! ### State and steps -/

inductive FileCall where
  | app (call : AppCall)
  | fopen (path mode : String) (ret : Int)
  | fclose (fd : Int)
deriving DecidableEq

/-- `response` is what a read or `pread` in the call is answered with. -/
inductive LeakLabel where
  | call (call : FileCall) (remote : Int) (response : Option Reply)
  | deliver (i : Nat)
  | mover (host : Int) (step : MoverStep)
deriving DecidableEq

def FileCall.perform (answer : Files → Int → Request → Option Reply) (p : Proc) :
    FileCall → Option (Effect Proc Reply)
  | .app call => call.perform env rl answer p
  | .fopen path mode ret => (wrapFopen env answer p path mode ret).map Effect.ofRet
  | .fclose fd =>
      let (p, ret) := realClose p fd
      some (⟨p, [], .returned ret⟩ : Effect Proc Int).ofRet

/-- A read is answered with `response`, every other request by the server. -/
def Net.respond (net : Net) (remote : Int) (response : Option Reply) (files : Files)
    (host : Int) : Request → Option Reply
  | .rpcIn _ _ _ _ => response
  | .openIn path localfd => net.answer rl bbpath remote files host (.openIn path localfd)
  | .seekIn fd offset whence => net.answer rl bbpath remote files host (.seekIn fd offset whence)
  | .closeIn fd => net.answer rl bbpath remote files host (.closeIn fd)

def leakMachine : Machine Sys LeakLabel (Option (Outcome Reply)) where
  step s l :=
    match l with
    | .call call remote response =>
        if s.status = .running then
          match call.perform env rl (s.net.respond rl bbpath remote response) s.proc with
          | none => none
          | some e =>
              match s.net.serve rl bbpath remote e.state.files e.sent with
              | none => none
              | some net => some (⟨e.state, e.outcome.status, net⟩, some e.outcome)
        else none
    | .deliver i => (sysMachine env rl bbpath).step s (.deliver i)
    | .mover host step => (sysMachine env rl bbpath).step s (.mover host step)

/-! ### Statements -/

/-- When the application has closed its files and every close request was handled, a
    live server holds no open descriptor. -/
def NoLeak (s : Sys) : Prop :=
  (∀ fd, s.proc.fds.find? fd = none) → s.net.inFlight = [] → (s.net.servers 0).alive = true →
    ∀ r, (s.net.servers 0).fds.find? r = none

/-- `fd` is tracked, and the server opened its file. -/
def Client.RemotelyOpen (c : Client) (fd : Int) : Prop :=
  ∃ path r, c.fdMap.find? fd = some path ∧ c.fdRedirMap.find? fd = some r ∧ r ≠ -1

/-- A tracked descriptor has a remote number. -/
def Client.Paired (c : Client) : Prop :=
  ∀ fd path, c.fdMap.find? fd = some path → ∃ r, c.fdRedirMap.find? fd = some r

/-- The response is not the -1 that untracks a file. -/
def NotFailed (response : Option Reply) : Prop := ∀ out, response = some out → out.ret ≠ -1

/-- No read of a descriptor that the server opened fails, and none is closed by
    `fclose`. -/
def Accounted (s : Sys) : LeakLabel → Prop
  | .call (.app (.read fd _)) _ response =>
      s.proc.client.RemotelyOpen fd → NotFailed response
  | .call (.app (.pread fd _ _)) _ response =>
      s.proc.client.RemotelyOpen fd → NotFailed response
  | .call (.app (.openFile _ _ _)) _ _ => True
  | .call (.app (.lseek _ _ _)) _ _ => True
  | .call (.app (.close _)) _ _ => True
  | .call (.app (.read64 _ _)) _ _ => True
  | .call (.app (.readv _ _)) _ _ => True
  | .call (.app (.write _ _)) _ _ => True
  | .call (.fopen _ _ _) _ _ => True
  | .call (.fclose fd) _ _ => ¬ s.proc.client.RemotelyOpen fd
  | .deliver _ => True
  | .mover _ _ => True

/-! ### The invariant -/

/-- The close of `fd` will close `r`. -/
def Proc.Owns (p : Proc) (fd r : Int) : Prop :=
  (∃ path, p.client.fdMap.find? fd = some path) ∧ p.client.fdRedirMap.find? fd = some r ∧
    p.fds.find? fd ≠ none

structure LeakInv (s : Sys) : Prop where
  calm : s.status = .running → Calm env 1 s.proc.client
  paired : s.status = .running → s.proc.client.Paired
  held : (s.net.servers 0).alive = true → ∀ r, (s.net.servers 0).fds.find? r ≠ none →
    (0, r) ∈ s.net.inFlight ∨ ∃ fd, s.proc.Owns fd r
  numbers : (s.net.servers 0).fds.find? (-1) = none

variable {env rl bbpath} {s s' : Sys}

theorem LeakInv.noLeak (h : LeakInv env s) : NoLeak s := by
  intro hclosed hflight halive r
  by_contra hopen
  rcases h.held halive r hopen with hmem | ⟨fd, -, -, hfd⟩
  · rw [hflight] at hmem
    cases hmem
  · exact hfd (hclosed fd)

theorem leakInv_start (env : Env) (files : Files) : LeakInv env (sysStart env 1 files) where
  calm _ := calm_init env 1
  paired _ fd path h := by cases h
  held _ r hr := absurd rfl hr
  numbers := rfl

/-- What a step may do: open at the server what it gives an owner or sends a close
    for, and take an owner away where it sends one. -/
theorem LeakInv.next (h : LeakInv env s)
    (hcalm : s'.status = .running → Calm env 1 s'.proc.client)
    (hpaired : s'.status = .running → s'.proc.client.Paired)
    (halive : (s'.net.servers 0).alive = true → (s.net.servers 0).alive = true)
    (hopen : ∀ r, (s'.net.servers 0).fds.find? r ≠ none →
      r ≠ -1 ∧ ((s.net.servers 0).fds.find? r ≠ none ∨ ∃ fd, s'.proc.Owns fd r))
    (hflight : ∀ r, (0, r) ∈ s.net.inFlight → (s'.net.servers 0).fds.find? r ≠ none →
      (s'.net.servers 0).alive = true → (0, r) ∈ s'.net.inFlight)
    (howns : ∀ fd r, r ≠ -1 → s.proc.Owns fd r → s'.proc.Owns fd r ∨ (0, r) ∈ s'.net.inFlight) :
    LeakInv env s' where
  calm := hcalm
  paired := hpaired
  held hlive r hr := by
    obtain ⟨hne, hbefore | hnew⟩ := hopen r hr
    · rcases h.held (halive hlive) r hbefore with hmem | ⟨fd, hfd⟩
      · exact Or.inl (hflight r hmem hr hlive)
      · rcases howns fd r hne hfd with hstill | hsent
        · exact Or.inr ⟨fd, hstill⟩
        · exact Or.inl hsent
    · exact Or.inr hnew
  numbers := by
    by_contra hneg
    exact (hopen (-1) hneg).1 rfl

/-! ### Steps at the server -/

section Server

variable {files : Files} {v v' : Server} {remote : Int} {request : Request}
  {reply : Option Reply}

theorem Server.alive_of_handle
    (hhandle : v.handle rl bbpath files remote request = some (v', reply))
    (halive : v'.alive = true) : v.alive = true := by
  by_contra hdead
  rw [Bool.not_eq_true] at hdead
  simp only [Server.handle, hdead, Bool.false_eq_true, if_false, Option.some.injEq,
    Prod.mk.injEq] at hhandle
  rw [← hhandle.1, hdead] at halive
  cases halive

/-- A read or a seek opens and closes nothing. -/
theorem Server.transfer_fds (htransfers : request.Transfers)
    (hhandle : v.handle rl bbpath files remote request = some (v', reply)) (r : Int) :
    v'.fds.find? r = none ↔ v.fds.find? r = none := by
  by_cases halive : v.alive = true
  · cases request with
    | openIn path localfd => exact absurd rfl (htransfers.ne_openIn path localfd)
    | closeIn fd => exact absurd rfl (htransfers.ne_closeIn fd)
    | rpcIn inputVal accessfd localfd offset =>
      simp only [Server.handle, halive, if_true] at hhandle
      have hv' : (v.rpcHandler rl bbpath files inputVal accessfd offset remote).1 = v' :=
        congrArg Prod.fst (Option.some.inj hhandle)
      obtain ⟨alive, fds, hmoves, heq | heq⟩ :=
        @Server.rpcHandler_shape bbpath files rl v inputVal accessfd offset remote
      · rw [← hv', heq]
      · rw [← hv', heq]
        exact hmoves.find?_eq_none_iff r
    | seekIn fd offset whence =>
      simp only [Server.handle, halive, if_true] at hhandle
      have hv' : (v.seekRpcHandler bbpath files fd offset whence).1 = v' :=
        congrArg Prod.fst (Option.some.inj hhandle)
      rw [← hv']
      exact (sysSeek_movesOnly v.fds fd offset whence).find?_eq_none_iff r
  · simp only [Server.handle, halive, Bool.false_eq_true, if_false, Option.some.injEq,
      Prod.mk.injEq] at hhandle
    rw [← hhandle.1]

/-- An open that is answered opens the number it answers with, or -1. -/
theorem Server.openIn_fds {path : String} {localfd : Int}
    (hhandle : v.handle rl bbpath files remote (.openIn path localfd) = some (v', reply)) (r : Int)
    (hr : v'.fds.find? r ≠ none) :
    v.fds.find? r ≠ none ∨ r ≠ -1 ∧ ∃ out, reply = some out ∧ out.ret = r := by
  by_cases halive : v.alive = true
  · simp only [Server.handle, halive, if_true] at hhandle
    obtain ⟨rfl, ⟨-, rfl⟩ | ⟨c, hne, -, -, -, rfl⟩⟩ := Server.openRpcHandler_eq_some hhandle
    · exact Or.inl hr
    · by_cases hsame : r = remote
      · subst hsame
        exact Or.inr ⟨hne, _, rfl, rfl⟩
      · rw [OrdMap.find?_insert_of_ne hsame] at hr
        exact Or.inl hr
  · simp only [Server.handle, halive, Bool.false_eq_true, if_false, Option.some.injEq,
      Prod.mk.injEq] at hhandle
    rw [← hhandle.1] at hr
    exact Or.inl hr

/-- A close that a live server handled leaves its number closed. -/
theorem Server.closeIn_fds {fd : Int}
    (hhandle : v.handle rl bbpath files remote (.closeIn fd) = some (v', reply)) :
    (∀ r, v'.fds.find? r ≠ none → v.fds.find? r ≠ none) ∧
      (v'.alive = true → v'.fds.find? fd = none) := by
  unfold Server.handle at hhandle
  split at hhandle
  · cases hhandle
    constructor
    · intro r hr
      simp only [Server.closeRpcHandler, find?_sysClose] at hr
      split at hr
      · exact absurd rfl hr
      · exact hr
    · intro _
      simp only [Server.closeRpcHandler, find?_sysClose, if_true]
  · next hdead =>
    cases hhandle
    exact ⟨fun _ => id, fun halive => absurd halive hdead⟩

end Server

/-- One request that is no close is handled by the server. -/
theorem Net.serve_one {net net' : Net} {remote : Int} {files : Files} {request : Request}
    (hclose : ∀ fd, request ≠ .closeIn fd)
    (hserve : net.serve rl bbpath remote files [(0, request)] = some net') :
    ∃ server reply, (net.servers 0).handle rl bbpath files remote request = some (server, reply) ∧
      net' = net.setServer 0 server := by
  cases request with
  | closeIn fd => exact absurd rfl (hclose fd)
  | openIn | rpcIn | seekIn =>
    simp only [Net.serve] at hserve
    split at hserve
    · cases hserve
    · next server reply hhandle =>
      cases hserve
      exact ⟨server, reply, hhandle, rfl⟩

/-! ### What a call does to the tables -/

/-- What a call of a calm client leaves, and the request it sends. -/
inductive TableEffect (env : Env) (p : Proc) (answer : Files → Int → Request → Option Reply)
    {α : Type} (e : Effect Proc α) : Prop where
  | locally (hsent : e.sent = []) (hclient : e.state.client = p.client)
      (hfds : ∀ fd r, r ≠ -1 → p.Owns fd r → e.state.fds.find? fd ≠ none)
  | transfer {request : Request} {fdMap : OrdMap Int String} (htransfers : request.Transfers)
      (hsent : e.sent = [(0, request)])
      (hclient : e.state.client = { p.client with fdMap := fdMap })
      (hmap : ∀ fd path, fdMap.find? fd = some path → p.client.fdMap.find? fd = some path)
      (hkept : ∀ fd, p.client.RemotelyOpen fd → ∃ path, fdMap.find? fd = some path)
      (hfds : ∀ fd, p.fds.find? fd ≠ none → e.state.fds.find? fd ≠ none)
  | close {fd r : Int} (hr : p.client.fdRedirMap.find? fd = some r)
      (hsent : e.sent = [(0, .closeIn r)])
      (hclient : e.state.client = { p.client with
        fdMap := p.client.fdMap.erase fd, fdRedirMap := p.client.fdRedirMap.erase fd })
      (hfds : e.state.fds = (sysClose p.fds fd).2)
  | opens {fd : Int} {file : String} {f : OpenFile String} (hfree : p.fds.find? fd = none)
      (hsent : e.sent = [(0, .openIn file fd)])
      (hcalm : e.outcome.status = .running → Calm env 1 e.state.client)
      (hmap : e.state.client.fdMap = p.client.fdMap.insert fd file)
      (hredir : ∀ fd', fd' ≠ fd →
        e.state.client.fdRedirMap.find? fd' = p.client.fdRedirMap.find? fd')
      (hanswer : ∀ out, answer e.state.files 0 (.openIn file fd) = some out →
        e.state.client.fdRedirMap.find? fd = some out.ret)
      (hlinked : e.outcome.status = .running → ∃ r, e.state.client.fdRedirMap.find? fd = some r)
      (hfds : e.state.fds = p.fds.insert fd f)

section Effects

variable {p p' : Proc} {answer : Files → Int → Request → Option Reply} {fd r : Int}

theorem Outcome.status_map {α β : Type} (f : α → β) (o : Outcome α) :
    (o.map f).status = o.status := by
  cases o <;> rfl

theorem TableEffect.ofRet {e : Effect Proc Int} (h : TableEffect env p answer e) :
    TableEffect env p answer e.ofRet := by
  cases h with
  | locally hsent hclient hfds => exact .locally hsent hclient hfds
  | transfer htransfers hsent hclient hmap hkept hfds =>
    exact .transfer htransfers hsent hclient hmap hkept hfds
  | close hr hsent hclient hfds => exact .close hr hsent hclient hfds
  | opens hfree hsent hcalm hmap hredir hanswer hlinked hfds =>
    refine TableEffect.opens hfree hsent ?_ hmap hredir hanswer ?_ hfds
    · rw [Effect.ofRet, Outcome.status_map]
      exact hcalm
    · rw [Effect.ofRet, Outcome.status_map]
      exact hlinked

/-- A call that moves a position at most. -/
theorem TableEffect.localMove {α : Type} {fds : FdTable String} (hmoves : MovesOnly fd p.fds fds)
    (files : Files) (outcome : Outcome α) :
    TableEffect env p answer (⟨⟨p.client, fds, files⟩, [], outcome⟩ : Effect Proc α) := by
  refine TableEffect.locally rfl rfl ?_
  intro fd' r _ howns hclosed
  exact howns.2.2 ((hmoves.find?_eq_none_iff fd').mp hclosed)

/-- A request that transfers, and a position that moves at most. -/
theorem TableEffect.request {α : Type} {request : Request} (htransfers : request.Transfers)
    {fdMap : OrdMap Int String}
    (hmap : ∀ fd path, fdMap.find? fd = some path → p.client.fdMap.find? fd = some path)
    (hkept : ∀ fd, p.client.RemotelyOpen fd → ∃ path, fdMap.find? fd = some path)
    {fds : FdTable String} (hmoves : MovesOnly fd p.fds fds) (outcome : Outcome α) :
    TableEffect env p answer
      (⟨⟨{ p.client with fdMap := fdMap }, fds, p.files⟩, [(0, request)], outcome⟩ :
        Effect Proc α) := by
  refine TableEffect.transfer htransfers rfl rfl hmap hkept ?_
  intro fd' hopen hclosed
  exact hopen ((hmoves.find?_eq_none_iff fd').mp hclosed)

theorem Client.RemotelyOpen.tracked {c : Client} (h : c.RemotelyOpen fd) :
    ∃ path, c.fdMap.find? fd = some path := by
  obtain ⟨path, -, hpath, -⟩ := h
  exact ⟨path, hpath⟩

/-- A response that is not -1 keeps what the server opened. -/
theorem finishRead_keeps {c : Client} {out : Reply} (h : c.RemotelyOpen fd → out.ret ≠ -1) :
    ∃ fdMap, finishRead c fd out = { c with fdMap := fdMap } ∧
      (∀ fd' path, fdMap.find? fd' = some path → c.fdMap.find? fd' = some path) ∧
      ∀ fd', c.RemotelyOpen fd' → ∃ path, fdMap.find? fd' = some path := by
  obtain ⟨fdMap, hfinish, hmap⟩ := finishRead_map c fd out
  refine ⟨fdMap, hfinish, hmap, ?_⟩
  intro fd' hopen
  obtain ⟨path, hpath⟩ := hopen.tracked
  refine ⟨path, ?_⟩
  have hfdMap : fdMap = (finishRead c fd out).fdMap := by rw [hfinish]
  rw [hfdMap, finishRead]
  split
  · next hneg =>
    have hne : fd' ≠ fd := by
      rintro rfl
      exact h hopen hneg
    rw [OrdMap.find?_erase_of_ne hne, hpath]
  · exact hpath

/-- A read that was answered. -/
theorem TableEffect.readReply {α : Type} {request : Request} (htransfers : request.Transfers)
    {out : Reply} (hkeeps : p.client.RemotelyOpen fd → out.ret ≠ -1) {fds : FdTable String}
    (hmoves : MovesOnly fd p.fds fds) (outcome : Outcome α) :
    TableEffect env p answer
      (⟨⟨finishRead p.client fd out, fds, p.files⟩, [(0, request)], outcome⟩ : Effect Proc α) := by
  obtain ⟨fdMap, hfinish, hmap, hkept⟩ := finishRead_keeps hkeeps
  rw [hfinish]
  exact .request htransfers hmap hkept hmoves outcome

/-- A request that leaves the process as it was. -/
theorem TableEffect.asked {α : Type} {request : Request} (htransfers : request.Transfers)
    (outcome : Outcome α) :
    TableEffect env p answer (⟨p, [(0, request)], outcome⟩ : Effect Proc α) :=
  .request htransfers (fun _ _ hp => hp) (fun _ hopen => hopen.tracked) (MovesOnly.refl 0 p.fds)
    outcome

theorem tableEffect_read (hcalm : Calm env 1 p.client) (hpaired : p.client.Paired)
    {count : Nat} (hanswer : ∀ r out, answer p.files 0 (.rpcIn (int32 count) r fd (-1)) = some out →
      p.client.RemotelyOpen fd → out.ret ≠ -1) :
    TableEffect env p answer (wrapRead env rl answer p fd count) := by
  have hneg : int32 (-1) < 0 := by decide
  have hmoves := @sysRead_movesOnly _ rl p.files.content p.fds fd count
  rcases hpath : p.client.fdMap.find? fd with _ | path
  · simp only [wrapRead, hvacRemoteRead, Client.hvacGetPath_eq, hpath, Effect.andThen, hneg,
      if_true]
    exact .localMove hmoves _ _
  · obtain ⟨r, hr⟩ := hpaired fd path hpath
    have hhost := hcalm.hashHost_one path
    have htransfers : (Request.rpcIn (int32 count) r fd (-1)).Transfers := trivial
    simp only [wrapRead, hvacRemoteRead_eq hpath hr, hhost]
    rcases hout : answer p.files 0 (.rpcIn (int32 count) r fd (-1)) with _ | out
    · exact .asked htransfers _
    · simp only [Effect.andThen]
      split
      · exact .readReply htransfers (hanswer r out hout) hmoves _
      · exact .readReply htransfers (hanswer r out hout) (MovesOnly.refl fd p.fds) _

theorem tableEffect_pread (hcalm : Calm env 1 p.client) (hpaired : p.client.Paired)
    {count : Nat} {offset : Int}
    (hanswer : ∀ r out, answer p.files 0 (.rpcIn (int32 count) r fd offset) = some out →
      p.client.RemotelyOpen fd → out.ret ≠ -1) :
    TableEffect env p answer (wrapPread env rl answer p fd count offset) := by
  have hmoves : MovesOnly fd p.fds (sysPread rl p.files.content p.fds fd count offset).fds := by
    rw [sysPread_fds]
    exact MovesOnly.refl fd p.fds
  rcases hpath : p.client.fdMap.find? fd with _ | path
  · simp only [wrapPread, Client.hvacGetPath_eq, hpath]
    exact .localMove hmoves _ _
  · obtain ⟨r, hr⟩ := hpaired fd path hpath
    have hhost := hcalm.hashHost_one path
    have htransfers : (Request.rpcIn (int32 count) r fd offset).Transfers := trivial
    simp only [wrapPread, Client.hvacGetPath_eq, hpath,
      hvacRemotePread_eq (by decide) hcalm hpath hr (hcalm.ringAgrees_one true fd), hhost]
    rcases hout : answer p.files 0 (.rpcIn (int32 count) r fd offset) with _ | out
    · exact .asked htransfers _
    · simp only [Effect.andThen]
      split
      · exact .readReply htransfers (hanswer r out hout) hmoves _
      · exact .readReply htransfers (hanswer r out hout) (MovesOnly.refl fd p.fds) _

theorem tableEffect_lseek (hcalm : Calm env 1 p.client) (hpaired : p.client.Paired)
    (offset whence : Int) :
    TableEffect env p answer (wrapLseek env answer p fd offset whence) := by
  rcases hpath : p.client.fdMap.find? fd with _ | path
  · simp only [wrapLseek, Client.hvacFileTracked_eq, hpath, Option.isSome_none,
      Bool.false_eq_true, if_false]
    exact .localMove (sysSeek_movesOnly p.fds fd offset whence) _ _
  · obtain ⟨r, hr⟩ := hpaired fd path hpath
    have hhost := hcalm.hashHost_one path
    have htransfers : (Request.seekIn r (int32 offset) whence).Transfers := trivial
    simp only [wrapLseek, Client.hvacFileTracked_eq, hpath, Option.isSome_some, if_true,
      hvacRemoteLseek_eq (by decide) hcalm hpath hr (hcalm.ringAgrees_one false fd), hhost]
    rcases answer p.files 0 (.seekIn r (int32 offset) whence) with _ | out
    · exact .asked htransfers _
    · exact .asked htransfers _

/-- A close that sends no request closes no owner. -/
theorem tableEffect_realClose (hopen : ¬ p.client.RemotelyOpen fd) :
    TableEffect env p answer
      (⟨(realClose p fd).1, [], .returned (realClose p fd).2⟩ : Effect Proc Int) := by
  refine TableEffect.locally rfl rfl ?_
  rintro fd' r hne ⟨⟨path, hpath⟩, hr, hfd⟩
  have hfd' : fd' ≠ fd := by
    rintro rfl
    exact hopen ⟨path, r, hpath, hr, hne⟩
  simp only [realClose, find?_sysClose_of_ne hfd']
  exact hfd

theorem tableEffect_close (hcalm : Calm env 1 p.client) (hpaired : p.client.Paired) :
    TableEffect env p answer (wrapClose env p fd) := by
  rcases hpath : p.client.fdMap.find? fd with _ | path
  · simp only [wrapClose, Client.hvacGetPath_eq, hpath]
    apply tableEffect_realClose
    rintro ⟨path, r, hpath', -⟩
    rw [hpath] at hpath'
    cases hpath'
  · obtain ⟨r, hr⟩ := hpaired fd path hpath
    have hhost := hcalm.hashHost_one path
    simp only [wrapClose, Client.hvacGetPath_eq, hpath,
      hvacRemoveFd_eq (by decide) hcalm hpath hr (hcalm.ringAgrees_one true fd), hhost]
    exact .close hr rfl rfl rfl

theorem tableEffect_open (hcalm : Calm env 1 p.client) {path : String} {flags trackFlags : OFlags}
    {ret : Int} {e : Effect Proc Int}
    (hopen : openAndTrack env answer p path flags trackFlags ret = some e) :
    TableEffect env p answer e := by
  unfold openAndTrack at hopen
  split at hopen
  · cases hopen
  · next p' hreal =>
    have hclient := realOpen_client hreal
    have hkeeps : ∀ fd r, r ≠ -1 → p.Owns fd r → p'.fds.find? fd ≠ none :=
      fun fd r _ howns => find?_realOpen_ne_none hreal howns.2.2
    split at hopen
    · cases hopen
      exact .locally rfl hclient hkeeps
    · next hret =>
      cases hopen
      rcases htrack : trackPath env path trackFlags with _ | file
      · simp only [hvacTrackFile, htrack, Effect.andThen]
        exact .locally rfl hclient hkeeps
      · have hhost := hcalm.hashHost_one file
        rcases realOpen_eq_some hreal with ⟨hneg, -⟩ | ⟨file', data, -, -, -, -, hfree, rfl⟩
        · exact absurd hneg hret
        · simp only [hvacTrackFile_eq htrack, hhost]
          rcases hout : answer (p.files.insert file' data) 0 (.openIn file ret) with _ | out
          · -- the process ends
            refine TableEffect.opens hfree rfl ?_ rfl ?_ ?_ ?_ rfl
            · intro hrunning
              cases hrunning
            · intro fd' _
              exact congrArg (OrdMap.find? · fd') p.client.initMercury_fdRedirMap
            · intro out hout'
              cases hout.symm.trans hout'
            · intro hrunning
              cases hrunning
          · refine TableEffect.opens hfree rfl ?_ rfl ?_ ?_ ?_ rfl
            · intro _
              exact hcalm.initMercury _ _
            · intro fd' hne
              exact OrdMap.find?_insert_of_ne hne _ _
            · intro out' hout'
              cases hout.symm.trans hout'
              exact OrdMap.find?_insert_self _ _ _
            · intro _
              exact ⟨out.ret, OrdMap.find?_insert_self _ _ _⟩

theorem tableEffect_fopen (hcalm : Calm env 1 p.client) {path mode : String} {ret : Int}
    {e : Effect Proc Int} (hopen : wrapFopen env answer p path mode ret = some e) :
    TableEffect env p answer e := by
  unfold wrapFopen at hopen
  split at hopen
  · split at hopen
    · cases hopen
      exact .locally rfl rfl fun _ _ _ howns => howns.2.2
    · cases hopen
  · exact tableEffect_open hcalm hopen

theorem tableEffect_write (fd : Int) (data : Contents) :
    TableEffect env p answer (wrapWrite p fd data) := by
  simp only [wrapWrite, realWrite]
  rcases hwrite : sysWrite p.files.content p.fds fd data with _ | ⟨file, contents, fds⟩
  · exact .localMove (MovesOnly.refl fd p.fds) _ _
  · obtain ⟨f, pos, hfd, -, -, -, rfl⟩ := sysWrite_eq_some hwrite
    exact .localMove (MovesOnly.insert hfd _) _ _

end Effects

/-! ### Steps of the application -/

section Calls

variable {e : Effect Proc Reply} {answer : Files → Int → Request → Option Reply} {net : Net}
  {remote fd r : Int} {files : Files} {request : Request}

theorem Proc.Owns.congr {p p' : Proc} (h : p.Owns fd r) (hclient : p'.client = p.client)
    (hfds : p'.fds.find? fd ≠ none) : p'.Owns fd r := by
  obtain ⟨hpath, hr, -⟩ := h
  rw [Proc.Owns, hclient]
  exact ⟨hpath, hr, hfds⟩

/-- What was open at the server is not the number -1. -/
theorem LeakInv.ne_neg_one (h : LeakInv env s) (hr : (s.net.servers 0).fds.find? r ≠ none) :
    r ≠ -1 := by
  rintro rfl
  exact hr h.numbers

theorem LeakInv.locally (h : LeakInv env s) (hrunning : s.status = .running)
    (hclient : e.state.client = s.proc.client)
    (hfds : ∀ fd r, r ≠ -1 → s.proc.Owns fd r → e.state.fds.find? fd ≠ none) :
    LeakInv env ⟨e.state, e.outcome.status, s.net⟩ := by
  apply h.next
  · intro _
    rw [hclient]
    exact h.calm hrunning
  · intro _
    rw [hclient]
    exact h.paired hrunning
  · exact id
  · intro r hr
    exact ⟨h.ne_neg_one hr, Or.inl hr⟩
  · intro r hr _ _
    exact hr
  · intro fd r hne howns
    exact Or.inl (howns.congr hclient (hfds fd r hne howns))

theorem LeakInv.transfer (h : LeakInv env s) (hrunning : s.status = .running)
    (htransfers : request.Transfers)
    (hserve : s.net.serve rl bbpath remote files [(0, request)] = some net)
    {fdMap : OrdMap Int String} (hclient : e.state.client = { s.proc.client with fdMap := fdMap })
    (hmap : ∀ fd path, fdMap.find? fd = some path → s.proc.client.fdMap.find? fd = some path)
    (hkept : ∀ fd, s.proc.client.RemotelyOpen fd → ∃ path, fdMap.find? fd = some path)
    (hfds : ∀ fd, s.proc.fds.find? fd ≠ none → e.state.fds.find? fd ≠ none) :
    LeakInv env ⟨e.state, e.outcome.status, net⟩ := by
  obtain ⟨server, reply, hhandle, rfl⟩ := Net.serve_one htransfers.ne_closeIn hserve
  have hserver := s.net.servers_setServer_self 0 server
  apply h.next
  · intro _
    rw [hclient]
    exact (h.calm hrunning).setMaps fdMap s.proc.client.fdRedirMap
  · intro _ fd path hpath
    rw [hclient] at hpath ⊢
    exact h.paired hrunning fd path (hmap fd path hpath)
  · rw [hserver]
    exact Server.alive_of_handle hhandle
  · intro r hr
    rw [hserver, Ne, Server.transfer_fds htransfers hhandle] at hr
    exact ⟨h.ne_neg_one hr, Or.inl hr⟩
  · intro r hr _ _
    exact hr
  · rintro fd r hne ⟨⟨path, hpath⟩, hr, hfd⟩
    refine Or.inl ⟨?_, ?_, hfds fd hfd⟩
    · rw [hclient]
      exact hkept fd ⟨path, r, hpath, hr, hne⟩
    · rw [hclient]
      exact hr

/-- A close of a tracked descriptor puts its remote number on the way. -/
theorem LeakInv.close (h : LeakInv env s) (hrunning : s.status = .running)
    (hr : s.proc.client.fdRedirMap.find? fd = some r)
    (hserve : s.net.serve rl bbpath remote files [(0, .closeIn r)] = some net)
    (hclient : e.state.client = { s.proc.client with
      fdMap := s.proc.client.fdMap.erase fd, fdRedirMap := s.proc.client.fdRedirMap.erase fd })
    (hfds : e.state.fds = (sysClose s.proc.fds fd).2) :
    LeakInv env ⟨e.state, e.outcome.status, net⟩ := by
  cases hserve
  apply h.next
  · intro _
    rw [hclient]
    exact (h.calm hrunning).setMaps _ _
  · intro _ fd' path hpath
    rw [hclient] at hpath ⊢
    simp only [OrdMap.find?_erase, Option.ite_none_left_eq_some] at hpath ⊢
    obtain ⟨hne, hpath⟩ := hpath
    obtain ⟨r', hr'⟩ := h.paired hrunning fd' path hpath
    exact ⟨r', hne, hr'⟩
  · exact id
  · intro r' hr'
    exact ⟨h.ne_neg_one hr', Or.inl hr'⟩
  · intro r' hmem _ _
    exact List.mem_append_left _ hmem
  · rintro fd' r' - ⟨hpath, hr', hfd⟩
    by_cases hsame : fd' = fd
    · subst hsame
      cases hr.symm.trans hr'
      exact Or.inr (List.mem_append_right _ (List.mem_singleton_self _))
    · left
      rw [Proc.Owns, hclient, hfds, OrdMap.find?_erase_of_ne hsame, OrdMap.find?_erase_of_ne hsame,
        find?_sysClose_of_ne hsame]
      exact ⟨hpath, hr', hfd⟩

/-- An open whose request the server handled. -/
theorem LeakInv.opens (h : LeakInv env s) (hrunning : s.status = .running) {file : String}
    {f : OpenFile String} (hfree : s.proc.fds.find? fd = none)
    (hserve : s.net.serve rl bbpath remote files [(0, .openIn file fd)] = some net)
    (hcalm : e.outcome.status = .running → Calm env 1 e.state.client)
    (hmap : e.state.client.fdMap = s.proc.client.fdMap.insert fd file)
    (hredir : ∀ fd', fd' ≠ fd →
      e.state.client.fdRedirMap.find? fd' = s.proc.client.fdRedirMap.find? fd')
    (hanswer : ∀ out, s.net.answer rl bbpath remote files 0 (.openIn file fd) = some out →
      e.state.client.fdRedirMap.find? fd = some out.ret)
    (hpaired : e.outcome.status = .running → ∃ r, e.state.client.fdRedirMap.find? fd = some r)
    (hfds : e.state.fds = s.proc.fds.insert fd f) :
    LeakInv env ⟨e.state, e.outcome.status, net⟩ := by
  obtain ⟨server, reply, hhandle, rfl⟩ := Net.serve_one (by rintro _ ⟨⟩) hserve
  have hserver := s.net.servers_setServer_self 0 server
  apply h.next
  · exact hcalm
  · intro hstill fd' path hpath
    dsimp only at hstill hpath ⊢
    rw [hmap, OrdMap.find?_insert] at hpath
    by_cases hsame : fd' = fd
    · rw [hsame]
      exact hpaired hstill
    · rw [if_neg hsame] at hpath
      rw [hredir fd' hsame]
      exact h.paired hrunning fd' path hpath
  · rw [hserver]
    exact Server.alive_of_handle hhandle
  · intro r hr
    rw [hserver] at hr
    rcases Server.openIn_fds hhandle r hr with hbefore | ⟨hne, out, rfl, rfl⟩
    · exact ⟨h.ne_neg_one hbefore, Or.inl hbefore⟩
    · refine ⟨hne, Or.inr ⟨fd, ⟨file, ?_⟩, ?_, ?_⟩⟩
      · rw [hmap, OrdMap.find?_insert_self]
      · apply hanswer
        simp only [Net.answer, hhandle]
      · rw [hfds, OrdMap.find?_insert_self]
        exact Option.some_ne_none f
  · intro r hmem _ _
    exact hmem
  · rintro fd' r - ⟨hpath, hr, hfd⟩
    have hne : fd' ≠ fd := by
      rintro rfl
      exact hfd hfree
    left
    rw [Proc.Owns, hmap, hredir fd' hne, hfds, OrdMap.find?_insert_of_ne hne,
      OrdMap.find?_insert_of_ne hne]
    exact ⟨hpath, hr, hfd⟩

theorem LeakInv.call (h : LeakInv env s) (hrunning : s.status = .running)
    (heffect : TableEffect env s.proc answer e)
    (hanswer : ∀ files file fd, answer files 0 (.openIn file fd) =
      s.net.answer rl bbpath remote files 0 (.openIn file fd))
    (hserve : s.net.serve rl bbpath remote e.state.files e.sent = some net) :
    LeakInv env ⟨e.state, e.outcome.status, net⟩ := by
  cases heffect with
  | locally hsent hclient hfds =>
    rw [hsent] at hserve
    cases hserve
    exact h.locally hrunning hclient hfds
  | transfer htransfers hsent hclient hmap hkept hfds =>
    rw [hsent] at hserve
    exact h.transfer hrunning htransfers hserve hclient hmap hkept hfds
  | close hr hsent hclient hfds =>
    rw [hsent] at hserve
    exact h.close hrunning hr hserve hclient hfds
  | opens hfree hsent hcalm hmap hredir hout hpaired hfds =>
    rw [hsent] at hserve
    simp only [hanswer] at hout
    exact h.opens hrunning hfree hserve hcalm hmap hredir hout hpaired hfds

end Calls

/-! ### Deliveries and the mover -/

/-- A server other than the first is none of the client's. -/
theorem LeakInv.setOther (h : LeakInv env s) {k : Int} (hk : k ≠ 0) (server : Server)
    {inFlight : List (Int × Int)} (hflight : ∀ r, (0, r) ∈ s.net.inFlight → (0, r) ∈ inFlight) :
    LeakInv env ⟨s.proc, s.status, { s.net.setServer k server with inFlight := inFlight }⟩ := by
  have hserver : (s.net.setServer k server).servers 0 = s.net.servers 0 := by
    rw [Net.servers_setServer, if_neg hk.symm]
  apply h.next
  · exact h.calm
  · exact h.paired
  · rw [hserver]
    exact id
  · intro r hr
    rw [hserver] at hr
    exact ⟨h.ne_neg_one hr, Or.inl hr⟩
  · intro r hmem _ _
    exact hflight r hmem
  · intro fd r _ howns
    exact Or.inl howns

theorem LeakInv.deliver (h : LeakInv env s) {i : Nat} {net : Net}
    (hdeliver : s.net.deliver i = some net) : LeakInv env ⟨s.proc, s.status, net⟩ := by
  obtain ⟨k, r₀, server, hi, hhandle, rfl⟩ :=
    @Net.deliver_eq_some ReadLen.full "" OrdMap.empty s.net i net hdeliver
  have hstill : ∀ r, (0, r) ∈ s.net.inFlight → (0, r) ≠ (k, r₀) →
      (0, r) ∈ s.net.inFlight.eraseIdx i := by
    intro r hmem hne
    obtain ⟨j, hj, hget⟩ := List.mem_iff_getElem.mp hmem
    refine List.mem_eraseIdx_iff_getElem.mpr ⟨j, hj, ?_, hget⟩
    rintro rfl
    rw [List.getElem?_eq_getElem hj, Option.some.injEq, hget] at hi
    exact hne hi
  by_cases hk : k = 0
  · subst hk
    obtain ⟨hfds, hclosed⟩ := Server.closeIn_fds hhandle
    have hserver := s.net.servers_setServer_self 0 server
    apply h.next
    · exact h.calm
    · exact h.paired
    · rw [hserver]
      exact Server.alive_of_handle hhandle
    · intro r hr
      rw [hserver] at hr
      exact ⟨h.ne_neg_one (hfds r hr), Or.inl (hfds r hr)⟩
    · intro r hmem hr halive
      rw [hserver] at hr halive
      apply hstill r hmem
      intro hsame
      cases hsame
      exact hr (hclosed halive)
    · intro fd r _ howns
      exact Or.inl howns
  · apply h.setOther hk
    intro r hmem
    apply hstill r hmem
    rintro ⟨⟩
    exact hk rfl

theorem LeakInv.mover (h : LeakInv env s) {k : Int} {server : Server} {files : Files}
    {step : MoverStep} (hmove : (s.net.servers k).moverStep bbpath files step = some server) :
    LeakInv env ⟨s.proc, s.status, s.net.setServer k server⟩ := by
  by_cases hk : k = 0
  · subst hk
    obtain ⟨halive, hfds, -⟩ := Server.moverStep_frame hmove
    have hserver := s.net.servers_setServer_self 0 server
    apply h.next
    · exact h.calm
    · exact h.paired
    · rw [hserver, halive]
      exact id
    · intro r hr
      rw [hserver, hfds] at hr
      exact ⟨h.ne_neg_one hr, Or.inl hr⟩
    · intro r hmem _ _
      exact hmem
    · intro fd r _ howns
      exact Or.inl howns
  · exact h.setOther hk server fun _ => id

/-! ### Runs -/

theorem LeakInv.tableEffect (h : LeakInv env s) (hrunning : s.status = .running)
    {call : FileCall} {remote : Int} {response : Option Reply} {e : Effect Proc Reply}
    (hl : Accounted s (.call call remote response))
    (hperform : call.perform env rl (s.net.respond rl bbpath remote response) s.proc = some e) :
    TableEffect env s.proc (s.net.respond rl bbpath remote response) e := by
  have hcalm := h.calm hrunning
  have hpaired := h.paired hrunning
  cases call with
  | app call =>
    cases call with
    | openFile path flags ret =>
      obtain ⟨e', hopen, rfl⟩ := Option.map_eq_some_iff.mp hperform
      exact (tableEffect_open hcalm hopen).ofRet
    | read fd count =>
      cases hperform
      exact tableEffect_read hcalm hpaired fun _ out hout hopen => hl hopen out hout
    | pread fd count offset =>
      cases hperform
      exact tableEffect_pread hcalm hpaired fun _ out hout hopen => hl hopen out hout
    | lseek fd offset whence =>
      cases hperform
      exact (tableEffect_lseek hcalm hpaired offset whence).ofRet
    | close fd =>
      cases hperform
      exact (tableEffect_close hcalm hpaired).ofRet
    | read64 fd count =>
      cases hperform
      exact .localMove (sysRead_movesOnly s.proc.fds fd count) _ _
    | readv fd iov =>
      cases hperform
      exact .localMove (sysRead_movesOnly s.proc.fds fd iov.sum) _ _
    | write fd data =>
      cases hperform
      exact (tableEffect_write fd data).ofRet
  | fopen path mode ret =>
    obtain ⟨e', hopen, rfl⟩ := Option.map_eq_some_iff.mp hperform
    exact (tableEffect_fopen hcalm hopen).ofRet
  | fclose fd =>
    cases hperform
    exact (tableEffect_realClose hl).ofRet

theorem LeakInv.step (h : LeakInv env s) {l : LeakLabel} {o : Option (Outcome Reply)}
    (hl : Accounted s l) (hstep : (leakMachine env rl bbpath).step s l = some (s', o)) :
    LeakInv env s' := by
  cases l with
  | call call remote response =>
    simp only [leakMachine] at hstep
    split at hstep
    · next hrunning =>
      split at hstep
      · cases hstep
      · next e hperform =>
        split at hstep
        · cases hstep
        · next net hserve =>
          cases hstep
          exact h.call hrunning (h.tableEffect hrunning hl hperform) (fun _ _ _ => rfl) hserve
    · cases hstep
  | deliver i =>
    have hsys : (sysMachine env rl bbpath).step s (.deliver i) = some (s', o) := hstep
    obtain ⟨net, hdeliver, rfl, -⟩ := step_deliver_eq_some hsys
    exact h.deliver hdeliver
  | mover host step =>
    have hsys : (sysMachine env rl bbpath).step s (.mover host step) = some (s', o) := hstep
    obtain ⟨server, -, hmove, rfl, -⟩ := step_mover_eq_some hsys
    exact h.mover hmove

/-- **No descriptor leaks along a run in which no read of a file that the server opened
    fails and none is closed by `fclose`.** -/
theorem noLeak_run (files : Files) (labels : List LeakLabel)
    (haccounted : (leakMachine env rl bbpath).Along (fun s l _ _ => Accounted s l)
      (sysStart env 1 files) labels) :
    (leakMachine env rl bbpath).Along (fun _ _ s' _ => NoLeak s') (sysStart env 1 files)
      labels := by
  apply Machine.along_of_invariant (I := LeakInv env) _ (leakInv_start env files) haccounted
  intro s l s' o h hl hstep
  have hnext := h.step hl hstep
  exact ⟨hnext.noLeak, hnext⟩

def closedLabels : List LeakLabel :=
  [.call (.app (.openFile "/data/a" O_RDONLY 3)) 5 none,
    .call (.app (.read 3 1)) 0 (some ⟨1, [1]⟩), .call (.app (.close 3)) 0 none, .deliver 0]

theorem noLeak_closed :
    ((leakMachine zeroHashEnv ReadLen.full "/bb").run
        (sysStart zeroHashEnv 1 (OrdMap.empty.insert "/data/a" [1])) closedLabels).isSome = true ∧
      (leakMachine zeroHashEnv ReadLen.full "/bb").Along (fun _ _ s' _ => NoLeak s')
        (sysStart zeroHashEnv 1 (OrdMap.empty.insert "/data/a" [1])) closedLabels := by
  refine ⟨by decide +kernel, noLeak_run _ _ ?_⟩
  intro s₁ _ _
  refine ⟨trivial, fun s₂ _ _ => ⟨fun _ out hout => ?_, fun _ _ _ => ⟨trivial, ?_⟩⟩⟩
  · cases hout
    decide
  · exact fun _ _ _ => ⟨trivial, trivial⟩

/-- A run that ends with nothing open at the client and `r` open at the server. -/
theorem exists_leak {labels : List LeakLabel} {r : Int}
    (hend : ((leakMachine env rl bbpath).run s labels).map (fun x =>
      (x.1.proc.fds.isEmpty, x.1.net.inFlight, (x.1.net.servers 0).alive,
        ((x.1.net.servers 0).fds.find? r).isSome)) = some (true, [], true, true)) :
    ∃ t os, (leakMachine env rl bbpath).run s labels = some (t, os) ∧ ¬ NoLeak t := by
  obtain ⟨⟨t, os⟩, hrun, hend⟩ := Option.map_eq_some_iff.mp hend
  simp only [Prod.mk.injEq] at hend
  obtain ⟨hclosed, hflight, halive, hopen⟩ := hend
  refine ⟨t, os, hrun, fun h => ?_⟩
  rw [h (OrdMap.isEmpty_iff.mp hclosed) hflight halive r] at hopen
  cases hopen

/-- A `pread` at a negative offset, answered as the server answers it. -/
def failedLabels : List LeakLabel :=
  [.call (.app (.openFile "/data/a" O_RDONLY 3)) 5 none,
    .call (.app (.pread 3 1 (-5))) 0 (some ⟨-1, []⟩), .call (.app (.close 3)) 0 none]

def fcloseLabels : List LeakLabel :=
  [.call (.fopen "/data/a" "r" 3) 5 none, .call (.fclose 3) 0 none]

/-- Both leave the server's descriptor 5 open. -/
theorem descriptor_leaks :
    (∃ t os, (leakMachine zeroHashEnv ReadLen.full "/bb").run
        (sysStart zeroHashEnv 1 (OrdMap.empty.insert "/data/a" [1])) failedLabels = some (t, os) ∧
      ¬ NoLeak t) ∧
    ∃ t os, (leakMachine zeroHashEnv ReadLen.full "/bb").run
        (sysStart zeroHashEnv 1 (OrdMap.empty.insert "/data/a" [1])) fcloseLabels = some (t, os) ∧
      ¬ NoLeak t := by
  constructor
  · exact exists_leak (r := 5) (by decide +kernel)
  · exact exists_leak (r := 5) (by decide +kernel)

end Hvac
