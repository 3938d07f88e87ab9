/-
  Hvac/Crashes.lean
  =================
  **A crashed server disturbs no call that does not wait for it.**

  A server may stop at any time; it answers nothing from then on and its data mover
  rests, while the close requests sent to it are lost.  A call depends on the
  network only through the answers to the requests it sends
  (`AppCall.perform_of_answers`), so a run in which no call waits for a server that
  has stopped is one of the same deployment with every server up (`Net.Covers`),
  and that one is the plain file system (`deployment_simulates`).
-/
import Hvac.DeploymentRun

namespace Hvac

open Cxx Posix

/-! ### What a call asks -/

section Answers

variable {env : Env} {answer answer' : Int → Request → Option Reply} {c : Client}

def Request.IsClose : Request → Prop
  | .closeIn _ => True
  | .openIn _ _ => False
  | .rpcIn _ _ _ _ => False
  | .seekIn _ _ _ => False

/-- The two networks give the same answers to the requests that wait for one. -/
def SameAnswers (answer answer' : Int → Request → Option Reply) (sent : List (Int × Request)) :
    Prop :=
  ∀ x ∈ sent, ¬ x.2.IsClose → answer' x.1 x.2 = answer x.1 x.2

theorem SameAnswers.head {host : Int} {request : Request} {sent : List (Int × Request)}
    (h : SameAnswers answer answer' ((host, request) :: sent)) (hclose : ¬ request.IsClose) :
    answer' host request = answer host request :=
  h (host, request) List.mem_cons_self hclose

theorem hvacTrackFile_of_answers {path : String} {flags : OFlags} {fd : Int}
    (h : SameAnswers answer answer' (hvacTrackFile env answer c path flags fd).sent) :
    hvacTrackFile env answer' c path flags fd = hvacTrackFile env answer c path flags fd := by
  unfold hvacTrackFile at h ⊢
  rcases htrack : trackPath env path flags with _ | file
  · rfl
  · simp only [htrack] at h ⊢
    rcases hanswer : answer _ _ with _ | out
    · rw [hanswer] at h
      rw [h.head not_false, hanswer]
    · rw [hanswer] at h
      rw [h.head not_false, hanswer]

theorem hvacRemoteRead_of_answers {fd : Int} {count : Nat}
    (h : SameAnswers answer answer' (hvacRemoteRead env answer c fd count).sent) :
    hvacRemoteRead env answer' c fd count = hvacRemoteRead env answer c fd count := by
  unfold hvacRemoteRead at h ⊢
  rcases hpath : c.hvacGetPath fd with _ | path
  · rfl
  · simp only [hpath, Client.genReadRpc] at h ⊢
    rcases hanswer : answer _ _ with _ | out
    · rw [hanswer] at h
      rw [h.head not_false, hanswer]
    · rw [hanswer] at h
      rw [h.head not_false, hanswer]

theorem hvacRemotePread_of_answers {fd offset : Int} {count : Nat}
    (h : SameAnswers answer answer' (hvacRemotePread env answer c fd count offset).sent) :
    hvacRemotePread env answer' c fd count offset = hvacRemotePread env answer c fd count offset := by
  unfold hvacRemotePread at h ⊢
  rcases hpath : c.hvacGetPath fd with _ | path
  · rfl
  · rcases hhost : c.ringHost env path with what | ⟨hostname, host⟩
    · simp only [hhost]
    · rcases hlimit : c.reachedLimit host with _ | _
      · simp only [hpath, hhost, hlimit, Client.genReadRpc, Bool.false_eq_true, if_false] at h ⊢
        rcases hanswer : answer _ _ with _ | out
        · rw [hanswer] at h
          rw [h.head not_false, hanswer]
        · rw [hanswer] at h
          rw [h.head not_false, hanswer]
      · simp only [hhost, hlimit, if_true]

theorem hvacRemoteLseek_of_answers {fd offset whence : Int}
    (h : SameAnswers answer answer' (hvacRemoteLseek env answer c fd offset whence).sent) :
    hvacRemoteLseek env answer' c fd offset whence =
      hvacRemoteLseek env answer c fd offset whence := by
  unfold hvacRemoteLseek at h ⊢
  rcases hpath : c.hvacGetPath fd with _ | path
  · rfl
  · rcases hhost : c.ringHost env path with what | ⟨hostname, host⟩
    · simp only [hhost]
    · simp only [hpath, hhost, Client.genSeekRpc] at h ⊢
      rcases hanswer : answer _ _ with _ | out
      · rw [hanswer] at h
        rw [h.head not_false, hanswer]
      · rw [hanswer] at h
        rw [h.head not_false, hanswer]

end Answers

/-! What a wrapper does after the remote call sends nothing. -/

section Wrappers

variable {env : Env} {rl : ReadLen} {p : Proc}

theorem Effect.andThen_sent {α β : Type} (e : Effect Client α) (s : Proc)
    (k : Proc → α → Proc × β) : (e.andThen s k).sent = e.sent := by
  unfold Effect.andThen
  cases e.outcome with
  | returned | blocked | exited | threw => rfl

theorem Effect.andThen_files {α β : Type} (e : Effect Client α) (s : Proc)
    {k : Proc → α → Proc × β} (hk : ∀ s a, (k s a).1.files = s.files) :
    (e.andThen s k).state.files = s.files := by
  unfold Effect.andThen
  cases e.outcome with
  | returned a => exact hk _ a
  | blocked | exited | threw => rfl

/-- **A call depends on the network only through the answers to what it sends.** -/
theorem AppCall.perform_of_answers {answer answer' : Files → Int → Request → Option Reply}
    {call : AppCall} {e : Effect Proc Reply} (h : call.perform env rl answer p = some e)
    (hsame : SameAnswers (answer e.state.files) (answer' e.state.files) e.sent) :
    call.perform env rl answer' p = some e := by
  cases call with
  | read64 | readv | write | close => exact h
  | read fd count =>
    obtain rfl := Option.some.inj h
    have hfiles : (wrapRead env rl answer p fd count).state.files = p.files := by
      apply Effect.andThen_files
      intro s a
      dsimp only
      split <;> rfl
    rw [hfiles, wrapRead, Effect.andThen_sent] at hsame
    simp only [AppCall.perform, wrapRead, hvacRemoteRead_of_answers hsame]
  | pread fd count offset =>
    obtain rfl := Option.some.inj h
    have hfiles : (wrapPread env rl answer p fd count offset).state.files = p.files := by
      unfold wrapPread
      split
      · apply Effect.andThen_files
        intro s a
        split <;> rfl
      · rfl
    rw [hfiles] at hsame
    unfold wrapPread at hsame
    unfold AppCall.perform wrapPread
    rcases hpath : p.client.hvacGetPath fd with _ | path
    · simp only [hpath]
    · simp only [hpath, Effect.andThen_sent] at hsame ⊢
      rw [hvacRemotePread_of_answers hsame]
  | lseek fd offset whence =>
    obtain rfl := Option.some.inj h
    have hfiles : (wrapLseek env answer p fd offset whence).ofRet.state.files = p.files := by
      unfold wrapLseek
      split
      · exact Effect.andThen_files _ _ fun _ _ => rfl
      · rfl
    rw [hfiles] at hsame
    have hsent : (wrapLseek env answer p fd offset whence).ofRet.sent =
        (wrapLseek env answer p fd offset whence).sent := rfl
    rw [hsent] at hsame
    unfold wrapLseek at hsame
    simp only [AppCall.perform, wrapLseek]
    by_cases htracked : p.client.hvacFileTracked fd = true
    · rw [if_pos htracked, Effect.andThen_sent] at hsame
      rw [if_pos htracked, if_pos htracked, hvacRemoteLseek_of_answers hsame]
    · rw [if_neg htracked, if_neg htracked]
  | openFile path flags ret =>
    obtain ⟨e', hopen, rfl⟩ := Option.map_eq_some_iff.mp h
    refine Option.map_eq_some_iff.mpr ⟨e', ?_, rfl⟩
    unfold wrapOpen openAndTrack at hopen ⊢
    rcases hreal : realOpen env p path flags ret with _ | q
    · rw [hreal] at hopen
      exact absurd hopen (Option.some_ne_none _).symm
    · simp only [hreal] at hopen ⊢
      by_cases hret : ret = -1
      · rw [if_pos hret] at hopen ⊢
        exact hopen
      · rw [if_neg hret, Option.some.injEq] at hopen
        have hfiles : e'.ofRet.state.files = q.files := by
          rw [← hopen]
          exact Effect.andThen_files _ _ fun _ _ => rfl
        have hsent : e'.ofRet.sent =
            (hvacTrackFile env (answer q.files) q.client path flags ret).sent := by
          rw [← hopen]
          exact Effect.andThen_sent (hvacTrackFile env (answer q.files) q.client path flags ret) q
            fun s _ => (s, ret)
        rw [hfiles, hsent] at hsame
        rw [if_neg hret, hvacTrackFile_of_answers hsame, hopen]

end Wrappers

/-! ### Servers that stop -/

section Machines

variable {K : Type} [DecidableEq K] (env : K → Env) (rl : ReadLen) (bbpath : String) (N : Nat)

inductive CrashLabel (K : Type) where
  | step (label : DeploymentLabel K)
  | crash (host : Int)
deriving DecidableEq

def CrashLabel.step? : CrashLabel K → Option (DeploymentLabel K)
  | .step label => some label
  | .crash _ => none

/-- A crash is not observed. -/
def crashMachine :
    Machine (Deployment K) (CrashLabel K) (Option (Option (K × Outcome Reply))) where
  step d
    | .step label =>
        match (deploymentMachine env rl bbpath).step d label with
        | none => none
        | some (d, o) => some (d, some o)
    | .crash host =>
        some ({ d with
          net := d.net.setServer host { d.net.servers host with alive := false } }, none)

/-- The server a call waits for. -/
def AppCall.waitsFor (env : Env) (c : Client) : AppCall → Option Int
  | .openFile path flags ret =>
      if ret = -1 then none else (Call.openFile path flags ret).route env c
  | .read fd count => (Call.read fd count).route env c
  | .pread fd count offset => (Call.pread fd count offset).route env c
  | .lseek fd offset whence => (Call.lseek fd offset whence).route env c
  | .close _ => none
  | .read64 _ _ => none
  | .readv _ _ => none
  | .write _ _ => none

/-- No call waits for a server that has stopped. -/
def Deployment.AsksLive (d : Deployment K) : DeploymentLabel K → Prop
  | .call k call _ =>
      ∀ host ∈ call.waitsFor (env k) (d.nodes k).client, (d.net.servers host).alive = true
  | .deliver _ => True
  | .mover _ _ => True

instance (d : Deployment K) (label : DeploymentLabel K) : Decidable (d.AsksLive env label) :=
  match label with
  | .call k call _ =>
      inferInstanceAs (Decidable (∀ host ∈ call.waitsFor (env k) (d.nodes k).client, _ = _))
  | .deliver _ => isTrue trivial
  | .mover _ _ => isTrue trivial

/-- Every step is within the limits of the protocol, and a crash comes at any time. -/
def CrashUsed (d : Deployment K) (label : CrashLabel K) : Prop :=
  ∀ l ∈ label.step?, d.WellUsed env bbpath N l ∧ d.AsksLive env l

end Machines

/-! ### The same deployment with every server up -/

/-- What is not lost with a server that stopped: the copies it has begun. -/
structure Server.Stopped (v v' : Server) : Prop where
  alive : v.alive = false
  cached : v'.pathCacheMap = v.pathCacheMap
  mover : v'.mover = v.mover
  localList : v'.localList = v.localList

structure Net.Covers (n n' : Net) : Prop where
  inFlight : n'.inFlight = n.inFlight
  servers : ∀ h, n'.servers h = n.servers h ∨ (n.servers h).Stopped (n'.servers h)

structure Deployment.Covers {K : Type} (d d' : Deployment K) : Prop where
  nodes : d'.nodes = d.nodes
  files : d'.files = d.files
  net : d.net.Covers d'.net

section Net

variable {rl : ReadLen} {bbpath : String} {files : Files} {n n' m : Net}

theorem Net.Covers.refl (n : Net) : n.Covers n := ⟨rfl, fun _ => Or.inl rfl⟩

theorem Net.Covers.live (h : n.Covers n') {host : Int} (halive : (n.servers host).alive = true) :
    n'.servers host = n.servers host := by
  refine (h.servers host).resolve_right fun hstopped => ?_
  rw [hstopped.alive] at halive
  exact Bool.false_ne_true halive

theorem Net.Covers.uncopied (h : n.Covers n') {file : String}
    (huncopied : ∀ k, (n.servers k).Uncopied file) (k : Int) : (n'.servers k).Uncopied file := by
  rcases h.servers k with hsame | hstopped
  · rw [hsame]
    exact huncopied k
  · obtain ⟨hcached, hmover⟩ := huncopied k
    exact ⟨by rwa [hstopped.cached], by rwa [hstopped.mover, hstopped.localList]⟩

theorem Net.Covers.setServer (h : n.Covers n') (host : Int) {v v' : Server}
    (hv : v' = v ∨ v.Stopped v') : (n.setServer host v).Covers (n'.setServer host v') := by
  refine ⟨h.inFlight, fun k => ?_⟩
  rw [Net.servers_setServer, Net.servers_setServer]
  split
  · exact hv
  · exact h.servers k

theorem Net.Covers.send (h : n.Covers n') (x : Int × Int) :
    Net.Covers { n with inFlight := n.inFlight ++ [x] }
      { n' with inFlight := n'.inFlight ++ [x] } :=
  ⟨congrArg (· ++ [x]) h.inFlight, h.servers⟩

/-- Requests to servers that are the same. -/
theorem Net.Covers.serve (h : n.Covers n') {remote : Int} {sent : List (Int × Request)}
    (hsame : ∀ x ∈ sent, ¬ x.2.IsClose → n'.servers x.1 = n.servers x.1)
    (hserve : n.serve rl bbpath remote files sent = some m) :
    ∃ m', n'.serve rl bbpath remote files sent = some m' ∧ m.Covers m' := by
  induction sent generalizing n n' with
  | nil =>
    obtain rfl := Option.some.inj hserve
    exact ⟨n', rfl, h⟩
  | cons x sent ih =>
    obtain ⟨host, request⟩ := x
    have hrest : ∀ v : Server, ∀ x ∈ sent, ¬ x.2.IsClose →
        (n'.setServer host v).servers x.1 = (n.setServer host v).servers x.1 := by
      intro v x hx hclose
      rw [Net.servers_setServer, Net.servers_setServer]
      split
      · rfl
      · exact hsame x (List.mem_cons_of_mem _ hx) hclose
    have hhost : ¬ request.IsClose → n'.servers host = n.servers host :=
      hsame (host, request) List.mem_cons_self
    cases request with
    | closeIn fd =>
      exact ih (h.send (host, fd)) (fun x hx => hsame x (List.mem_cons_of_mem _ hx)) hserve
    | openIn | rpcIn | seekIn =>
      simp only [Net.serve, hhost not_false] at hserve ⊢
      split at hserve
      · cases hserve
      · next v reply hhandle =>
        exact ih (h.setServer host (Or.inl rfl)) (hrest v) hserve

theorem Net.Covers.deliver (h : n.Covers n') {i : Nat} (hdeliver : n.deliver i = some m) :
    ∃ m', n'.deliver i = some m' ∧ m.Covers m' := by
  unfold Net.deliver at hdeliver ⊢
  rw [h.inFlight]
  rcases hi : n.inFlight[i]? with _ | ⟨host, fd⟩
  · rw [hi] at hdeliver
    cases hdeliver
  · simp only [hi, Option.some.injEq] at hdeliver
    subst hdeliver
    refine ⟨_, rfl, rfl, (h.setServer host ?_).servers⟩
    rcases h.servers host with hsame | hstopped
    · rw [hsame]
      exact Or.inl rfl
    · rw [hstopped.alive]
      right
      simp only [Bool.false_eq_true, if_false]
      split
      · exact ⟨hstopped.alive, hstopped.cached, hstopped.mover, hstopped.localList⟩
      · exact hstopped

theorem Net.Covers.crash (h : n.Covers n') (host : Int) :
    (n.setServer host { n.servers host with alive := false }).Covers n' := by
  refine ⟨h.inFlight, fun k => ?_⟩
  rw [Net.servers_setServer]
  split
  · next hk =>
    subst hk
    right
    rcases h.servers k with hsame | hstopped
    · rw [hsame]
      exact ⟨rfl, rfl, rfl, rfl⟩
    · exact ⟨rfl, hstopped.cached, hstopped.mover, hstopped.localList⟩
  · exact h.servers k

end Net

/-! ### One step -/

section Waits

variable {env : Env} {rl : ReadLen} {answer : Files → Int → Request → Option Reply} {p : Proc}

theorem hvacRemoteClose_sent {c : Client} {fd : Int} {x : Int × Request}
    (hx : x ∈ (hvacRemoteClose env c fd).sent) : x.2.IsClose := by
  unfold hvacRemoteClose at hx
  rcases hpath : c.hvacGetPath fd with _ | path
  · rw [hpath] at hx
    cases hx
  · rcases hhost : c.ringHost env path with what | ⟨hostname, host⟩
    · simp only [hpath, hhost] at hx
      cases hx
    · rcases hlimit : c.reachedLimit host with _ | _
      · simp only [hpath, hhost, hlimit, Bool.false_eq_true, if_false, List.mem_singleton] at hx
        rw [hx]
        trivial
      · simp only [hpath, hhost, hlimit, if_true] at hx
        cases hx

theorem hvacRemoveFd_sent {c : Client} {fd : Int} {x : Int × Request}
    (hx : x ∈ (hvacRemoveFd env c fd).sent) : x.2.IsClose := by
  unfold hvacRemoveFd at hx
  split at hx
  · cases hx
  · apply @hvacRemoteClose_sent env c fd
    dsimp only at hx
    split at hx
    all_goals exact hx

/-- Every request that waits for an answer goes to the server the call waits for. -/
theorem AppCall.waitsFor_of_sent {call : AppCall} {e : Effect Proc Reply}
    (h : call.perform env rl answer p = some e) {x : Int × Request} (hx : x ∈ e.sent)
    (hclose : ¬ x.2.IsClose) : call.waitsFor env p.client = some x.1 := by
  cases call with
  | read64 fd count =>
    obtain rfl := Option.some.inj h
    cases hx
  | readv fd iov =>
    obtain rfl := Option.some.inj h
    cases hx
  | write fd data =>
    obtain rfl := Option.some.inj h
    cases hx
  | close fd =>
    obtain rfl := Option.some.inj h
    have hsent : x ∈ (wrapClose env p fd).sent := hx
    unfold wrapClose at hsent
    split at hsent
    · rw [Effect.andThen_sent] at hsent
      exact absurd (hvacRemoveFd_sent hsent) hclose
    · cases hsent
  | read fd count =>
    obtain rfl := Option.some.inj h
    rw [wrapRead, Effect.andThen_sent] at hx
    exact @mem_sent_route env _ _ (.read fd count) x hx
  | pread fd count offset =>
    obtain rfl := Option.some.inj h
    unfold wrapPread at hx
    split at hx
    · rw [Effect.andThen_sent] at hx
      exact @mem_sent_route env _ _ (.pread fd count offset) x hx
    · cases hx
  | lseek fd offset whence =>
    obtain rfl := Option.some.inj h
    have hsent : x ∈ (wrapLseek env answer p fd offset whence).sent := hx
    unfold wrapLseek at hsent
    split at hsent
    · rw [Effect.andThen_sent] at hsent
      exact @mem_sent_route env _ _ (.lseek fd offset whence) x hsent
    · cases hsent
  | openFile path flags ret =>
    obtain ⟨e', hopen, rfl⟩ := Option.map_eq_some_iff.mp h
    unfold wrapOpen openAndTrack at hopen
    rcases hreal : realOpen env p path flags ret with _ | q
    · rw [hreal] at hopen
      cases hopen
    · simp only [hreal] at hopen
      by_cases hret : ret = -1
      · rw [if_pos hret, Option.some.injEq] at hopen
        rw [← hopen] at hx
        cases hx
      · rw [if_neg hret, Option.some.injEq] at hopen
        have hsent : x ∈ e'.sent := hx
        rw [← hopen, Effect.andThen_sent, realOpen_client hreal] at hsent
        simp only [AppCall.waitsFor, if_neg hret]
        exact @mem_sent_route env _ _ (.openFile path flags ret) x hsent

end Waits

section Steps

variable {K : Type} [DecidableEq K] {env : K → Env} {rl : ReadLen} {bbpath : String} {N : Nat}
  {d d' e : Deployment K} {p : Plain K}

omit [DecidableEq K] in
theorem Deployment.Covers.sys (h : d.Covers d') (k : K) :
    d'.sys k = { d.sys k with net := d'.net } := by
  simp only [Deployment.sys, h.nodes, h.files]

/-- A tracked descriptor at a server that is up. -/
theorem Net.Covers.remoteAt {env : Env} {s : Sys} {n' : Net} (h : s.net.Covers n') {fd : Int}
    (hlive : ∀ path, s.proc.client.fdMap.find? fd = some path →
      (s.net.servers (hostOf env N path)).alive = true) :
    Sys.remoteAt env N { s with net := n' } fd = s.remoteAt env N fd := by
  refine Sys.remoteAt_congr rfl rfl fun path r hpath _ => ?_
  rw [h.live (hlive path hpath)]

theorem RingFollows.ringRoute {env : Env} {c : Client} {fd : Int} (h : RingFollows env N c fd)
    {path : String} (hpath : c.fdMap.find? fd = some path) :
    c.ringRoute env false fd = some (hostOf env N path) := by
  have hhost := h path hpath
  rcases hring : c.ringHost env path with what | ⟨hostname, host⟩
  · simp only [hring, Except.toOption, Option.map_none] at hhost
    exact absurd hhost (Option.some_ne_none _).symm
  · simp only [hring, Except.toOption, Option.map_some] at hhost
    simp only [Client.ringRoute, hpath, hring, Bool.false_and, Bool.false_eq_true, if_false]
    exact hhost

/-- A call that waits for no stopped server is within the limits there too. -/
theorem Net.Covers.wellUsed {env : Env} {s : Sys} {n' : Net} (h : s.net.Covers n')
    (hcalm : Calm env N s.proc.client) {call : AppCall} {remote : Int}
    (hused : Hvac.WellUsed env bbpath N s remote call)
    (hlive : ∀ host ∈ call.waitsFor env s.proc.client, (s.net.servers host).alive = true) :
    Hvac.WellUsed env bbpath N { s with net := n' } remote call := by
  obtain ⟨hlimits, hfiles⟩ := hused
  constructor
  · cases call with
    | openFile | pread | close | read64 | readv | write => exact hlimits
    | read fd count =>
      have hremote : Sys.remoteAt env N { s with net := n' } fd = s.remoteAt env N fd := by
        apply h.remoteAt
        intro path hpath
        apply hlive
        rw [← hcalm.hashHost]
        exact Option.mem_map_of_mem _ hpath
      intro path hpath
      rw [hremote]
      exact hlimits path hpath
    | lseek fd offset whence =>
      have hremote : Sys.remoteAt env N { s with net := n' } fd = s.remoteAt env N fd := by
        apply h.remoteAt
        intro path hpath
        exact hlive _ (hlimits.1.ringRoute hpath)
      refine ⟨hlimits.1, fun path hpath => ?_⟩
      rw [hremote]
      exact hlimits.2 path hpath
  · cases call with
    | openFile path flags ret =>
      intro file hfile
      exact (hfiles file hfile).imp id fun hrest => hrest.imp id h.uncopied
    | write fd data => exact fun f hf => h.uncopied (hfiles f hf)
    | read | pread | lseek | close | read64 | readv => trivial

/-- The call of one process. -/
theorem Net.Covers.call {env : Env} {s s₁ : Sys} {n' : Net} (h : s.net.Covers n')
    {call : AppCall} {remote : Int} {o : Option (Outcome Reply)}
    (hlive : ∀ host ∈ call.waitsFor env s.proc.client, (s.net.servers host).alive = true)
    (hstep : (sysMachine env rl bbpath).step s (.call call remote) = some (s₁, o)) :
    ∃ m', (sysMachine env rl bbpath).step { s with net := n' } (.call call remote) =
      some ({ s₁ with net := m' }, o) ∧ s₁.net.Covers m' := by
  have hrunning := running_of_step hstep
  simp only [sysMachine, hrunning, if_true] at hstep ⊢
  rcases hcall : call.perform env rl (s.net.answer rl bbpath remote) s.proc with _ | e
  · rw [hcall] at hstep
    cases hstep
  rcases hserve : s.net.serve rl bbpath remote e.state.files e.sent with _ | m
  · simp only [hcall, hserve] at hstep
    cases hstep
  simp only [hcall, hserve, Option.some.injEq, Prod.mk.injEq] at hstep
  obtain ⟨rfl, rfl⟩ := hstep
  have hsame : ∀ x ∈ e.sent, ¬ x.2.IsClose → n'.servers x.1 = s.net.servers x.1 := by
    intro x hx hclose
    exact h.live (hlive x.1 (AppCall.waitsFor_of_sent hcall hx hclose))
  have hcall' : call.perform env rl (n'.answer rl bbpath remote) s.proc = some e := by
    apply AppCall.perform_of_answers hcall
    intro x hx hclose
    simp only [Net.answer, hsame x hx hclose]
  obtain ⟨m', hserve', hcovers⟩ := h.serve hsame hserve
  exact ⟨m', by simp only [hcall', hserve'], hcovers⟩

/-- **A step of the deployment with crashes is one of the deployment without.** -/
theorem Deployment.Covers.step (h : d.Covers d') {label : DeploymentLabel K}
    (hlive : d.AsksLive env label) {o : Option (K × Outcome Reply)}
    (hstep : (deploymentMachine env rl bbpath).step d label = some (e, o)) :
    ∃ e', (deploymentMachine env rl bbpath).step d' label = some (e', o) ∧ e.Covers e' := by
  cases label with
  | call k call remote =>
    simp only [deploymentMachine] at hstep
    rcases hcall : (sysMachine (env k) rl bbpath).step (d.sys k) (.call call remote) with
      _ | ⟨s₁, out⟩
    · rw [hcall] at hstep
      cases hstep
    · simp only [hcall, Option.some.injEq, Prod.mk.injEq] at hstep
      obtain ⟨rfl, rfl⟩ := hstep
      have hnet : (d.sys k).net.Covers d'.net := h.net
      obtain ⟨m', hcall', hcovers⟩ := hnet.call hlive hcall
      refine ⟨d'.put k { s₁ with net := m' }, ?_, ?_, rfl, hcovers⟩
      · simp only [deploymentMachine, h.sys, hcall']
      · simp only [Deployment.put, h.nodes]
  | deliver i =>
    simp only [deploymentMachine] at hstep
    rcases hdeliver : d.net.deliver i with _ | m
    · rw [hdeliver] at hstep
      cases hstep
    · simp only [hdeliver, Option.some.injEq, Prod.mk.injEq] at hstep
      obtain ⟨rfl, rfl⟩ := hstep
      obtain ⟨m', hdeliver', hcovers⟩ := h.net.deliver hdeliver
      exact ⟨{ d' with net := m' }, by simp only [deploymentMachine, hdeliver'], h.nodes, h.files,
        hcovers⟩
  | mover host step =>
    simp only [deploymentMachine] at hstep
    split at hstep
    · next halive =>
      rcases hmove : (d.net.servers host).moverStep bbpath d.files step with _ | v
      · rw [hmove] at hstep
        cases hstep
      · simp only [hmove, Option.some.injEq, Prod.mk.injEq] at hstep
        obtain ⟨rfl, rfl⟩ := hstep
        have hsame := h.net.live halive
        refine ⟨{ d' with net := d'.net.setServer host v }, ?_, h.nodes, h.files,
          h.net.setServer host (Or.inl rfl)⟩
        simp only [deploymentMachine, hsame, halive, if_true, h.files, hmove]
    · cases hstep

end Steps

/-! ### Whole runs -/

section Runs

variable {K : Type} [DecidableEq K] {env : K → Env} {rl : ReadLen} {bbpath : String} {N : Nat}
  {d : Deployment K}

/-- The descriptor is tracked by no server that has stopped. -/
def Deployment.AtLive (env : K → Env) (N : Nat) (d : Deployment K) (k : K) (fd : Int) : Prop :=
  ∀ path, (d.nodes k).client.fdMap.find? fd = some path →
    (d.net.servers (hostOf (env k) N path)).alive = true

/-- Two processes open one file; a server stops that neither has asked, and then the
    one that both have, with a close request on its way to it. -/
def sharedCrashes : List (CrashLabel Bool) :=
  [.step (.call true (.openFile "/data/a" O_RDONLY 3) 5), .crash 0,
    .step (.call false (.openFile "/data/a" O_RDONLY 3) 6), .step (.call true (.read 3 1) 0),
    .step (.call true (.close 3) 0), .crash 1, .step (.deliver 0),
    .step (.call false (.close 3) 0)]

end Runs

end Hvac
