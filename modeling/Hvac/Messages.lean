/-
  Hvac/Messages.lean
  ==================
  **Requests and replies on their way**: a call that waits for a server takes effect
  at one moment between its beginning and its end.

  In `Deployment.lean` a call is one step.  Here it is three: the process sends its
  request (`AppCall.start`), the server handles it, and the process gets the reply
  (`AppCall.rest`); the other processes, the close requests and the data movers
  go on in between.  What the halves of a call do together is the call
  (`AppCall.perform_eq`), and what a process waits for depends on nothing that the
  others change meanwhile (`AppCall.rest_setFiles`).  So the moment at which the
  server handles the request is the one at which the call takes effect
  (`Refines.serve`), and each process is answered as on one plain file system
  (`messages_linearizable`).
-/
import Hvac.Crashes

namespace Hvac

open Cxx Posix

/-! ### The halves of a call -/

section Halves

variable (env : Env) (rl : ReadLen)

/-- What a call does before its request. -/
def AppCall.start (p : Proc) : AppCall → Option Proc
  | .openFile path flags ret => realOpen env p path flags ret
  | .read _ _ => some p
  | .pread _ _ _ => some p
  | .lseek _ _ _ => some p
  | .close _ => some p
  | .read64 _ _ => some p
  | .readv _ _ => some p
  | .write _ _ => some p

/-- The request of a call, and what the call does with the reply. -/
def AppCall.rest (answer : Int → Request → Option Reply) (p : Proc) :
    AppCall → Effect Proc Reply
  | .openFile path flags ret =>
      if ret = -1 then ⟨p, [], .returned ⟨ret, []⟩⟩
      else
        ((hvacTrackFile env answer p.client path flags ret).andThen p fun p _ => (p, ret)).ofRet
  | .read fd count => wrapRead env rl (fun _ => answer) p fd count
  | .pread fd count offset => wrapPread env rl (fun _ => answer) p fd count offset
  | .lseek fd offset whence => (wrapLseek env (fun _ => answer) p fd offset whence).ofRet
  | .close fd => (wrapClose env p fd).ofRet
  | .read64 fd count => wrapRead64 rl p fd count
  | .readv fd iov => wrapReadv rl p fd iov
  | .write fd data => (wrapWrite p fd data).ofRet

/-- The request a call waits for; it is sent whatever the answer will be. -/
def AppCall.asks (p : Proc) (call : AppCall) : Option (Int × Request) :=
  match (call.rest env rl (fun _ _ => none) p).sent with
  | [(_, .closeIn _)] => none
  | [(host, request)] => some (host, request)
  | _ => none

/-- The descriptor a call may read locally once it has its reply. -/
def AppCall.fallback? : AppCall → Option Int
  | .read fd _ => some fd
  | .pread fd _ _ => some fd
  | .openFile _ _ _ => none
  | .lseek _ _ _ => none
  | .close _ => none
  | .read64 _ _ => none
  | .readv _ _ => none
  | .write _ _ => none

def Effect.setFiles (e : Effect Proc Reply) (files : Files) : Effect Proc Reply :=
  ⟨{ e.state with files := files }, e.sent, e.outcome⟩

variable {env rl} {answer answer' : Int → Request → Option Reply} {p : Proc} {call : AppCall}

/-- **A call is its two halves.** -/
theorem AppCall.perform_eq (answer : Files → Int → Request → Option Reply) (p : Proc)
    (call : AppCall) :
    call.perform env rl answer p =
      (call.start env p).map fun p' => call.rest env rl (answer p'.files) p' := by
  cases call with
  | openFile path flags ret =>
    simp only [AppCall.perform, AppCall.start, AppCall.rest, wrapOpen, openAndTrack]
    rcases realOpen env p path flags ret with _ | q
    · rfl
    · dsimp only [Option.map_some]
      split <;> rfl
  | read | pread | lseek | close | read64 | readv | write => rfl

/-- A call that starts without a change is all rest. -/
theorem AppCall.rest_of_start (hstart : call.start env p = some p)
    (h : SameAnswers answer answer' (call.rest env rl answer p).sent) :
    call.rest env rl answer' p = call.rest env rl answer p := by
  have hperform (answer : Int → Request → Option Reply) :
      call.perform env rl (fun _ => answer) p = some (call.rest env rl answer p) := by
    rw [AppCall.perform_eq, hstart]
    rfl
  have hsame : call.perform env rl (fun _ => answer') p = some (call.rest env rl answer p) :=
    AppCall.perform_of_answers (hperform answer) h
  rw [hperform answer'] at hsame
  exact Option.some.inj hsame

/-- The rest of a call depends on the answers to what it sends. -/
theorem AppCall.rest_of_answers
    (h : SameAnswers answer answer' (call.rest env rl answer p).sent) :
    call.rest env rl answer' p = call.rest env rl answer p := by
  cases call with
  | openFile path flags ret =>
    simp only [AppCall.rest] at h ⊢
    by_cases hret : ret = -1
    · rw [if_pos hret, if_pos hret]
    · rw [if_neg hret] at h
      have hsent : SameAnswers answer answer' (hvacTrackFile env answer p.client path flags ret).sent := by
        rw [← Effect.andThen_sent _ p fun p _ => (p, ret)]
        exact h
      rw [if_neg hret, if_neg hret, hvacTrackFile_of_answers hsent]
  | read64 | readv | write | close => rfl
  | read fd count => exact AppCall.rest_of_start rfl h
  | pread fd count offset => exact AppCall.rest_of_start rfl h
  | lseek fd offset whence => exact AppCall.rest_of_start rfl h

/-! A request is sent before its answer is looked at. -/

theorem hvacTrackFile_sent (answer answer' : Int → Request → Option Reply) (c : Client)
    (path : String) (flags : OFlags) (fd : Int) :
    (hvacTrackFile env answer c path flags fd).sent =
      (hvacTrackFile env answer' c path flags fd).sent := by
  unfold hvacTrackFile
  rcases trackPath env path flags with _ | file
  · rfl
  · dsimp only
    rcases answer _ _ with _ | out <;> rcases answer' _ _ with _ | out' <;> rfl

theorem hvacRemoteRead_sent (answer answer' : Int → Request → Option Reply) (c : Client)
    (fd : Int) (count : Nat) :
    (hvacRemoteRead env answer c fd count).sent = (hvacRemoteRead env answer' c fd count).sent := by
  unfold hvacRemoteRead
  rcases c.hvacGetPath fd with _ | path
  · rfl
  · dsimp only
    rcases answer _ _ with _ | out <;> rcases answer' _ _ with _ | out' <;> rfl

theorem hvacRemotePread_sent (answer answer' : Int → Request → Option Reply) (c : Client)
    (fd : Int) (count : Nat) (offset : Int) :
    (hvacRemotePread env answer c fd count offset).sent =
      (hvacRemotePread env answer' c fd count offset).sent := by
  unfold hvacRemotePread
  rcases c.hvacGetPath fd with _ | path
  · rfl
  · dsimp only
    rcases c.ringHost env path with what | ⟨hostname, host⟩
    · rfl
    · dsimp only
      split
      · rfl
      · rcases answer _ _ with _ | out <;> rcases answer' _ _ with _ | out' <;> rfl

theorem hvacRemoteLseek_sent (answer answer' : Int → Request → Option Reply) (c : Client)
    (fd offset whence : Int) :
    (hvacRemoteLseek env answer c fd offset whence).sent =
      (hvacRemoteLseek env answer' c fd offset whence).sent := by
  unfold hvacRemoteLseek
  rcases c.hvacGetPath fd with _ | path
  · rfl
  · dsimp only
    rcases c.ringHost env path with what | ⟨hostname, host⟩
    · rfl
    · dsimp only
      rcases answer _ _ with _ | out <;> rcases answer' _ _ with _ | out' <;> rfl

theorem AppCall.rest_sent (answer answer' : Int → Request → Option Reply) (p : Proc)
    (call : AppCall) :
    (call.rest env rl answer p).sent = (call.rest env rl answer' p).sent := by
  cases call with
  | openFile path flags ret =>
    simp only [AppCall.rest]
    split
    · rfl
    · simp only [Effect.ofRet, Effect.andThen_sent]
      exact hvacTrackFile_sent answer answer' p.client path flags ret
  | read fd count =>
    simp only [AppCall.rest, wrapRead, Effect.andThen_sent]
    exact hvacRemoteRead_sent answer answer' p.client fd count
  | pread fd count offset =>
    simp only [AppCall.rest, wrapPread]
    split
    · simp only [Effect.andThen_sent]
      exact hvacRemotePread_sent answer answer' p.client fd count offset
    · rfl
  | lseek fd offset whence =>
    simp only [AppCall.rest, wrapLseek, Effect.ofRet]
    split
    · simp only [Effect.andThen_sent]
      exact hvacRemoteLseek_sent answer answer' p.client fd offset whence
    · rfl
  | close | read64 | readv | write => rfl

variable {host : Int} {request : Request}

/-- What a call asks is all that it sends. -/
theorem AppCall.sent_of_asks (h : call.asks env rl p = some (host, request))
    (answer : Int → Request → Option Reply) :
    (call.rest env rl answer p).sent = [(host, request)] ∧ ¬ request.IsClose := by
  rw [AppCall.rest_sent answer (fun _ _ => none)]
  unfold AppCall.asks at h
  split at h
  · cases h
  · next hclose hsent =>
    cases h
    refine ⟨hsent, fun hrequest => ?_⟩
    cases request with
    | closeIn fd => exact hclose fd rfl
    | openIn | rpcIn | seekIn => exact hrequest
  · cases h

theorem AppCall.rest_of_reply (h : call.asks env rl p = some (host, request)) :
    call.rest env rl answer p = call.rest env rl (fun _ _ => answer host request) p := by
  apply AppCall.rest_of_answers
  rw [(AppCall.sent_of_asks h _).1]
  intro x hx _
  rw [List.mem_singleton.mp hx]

/-- A close waits for no reply. -/
theorem AppCall.asks_close (p : Proc) (fd : Int) : (AppCall.close fd).asks env rl p = none := by
  rcases h : (AppCall.close fd).asks env rl p with _ | ⟨host, request⟩
  · rfl
  · obtain ⟨hsent, hclose⟩ := AppCall.sent_of_asks h fun _ _ => none
    have hmem : (host, request) ∈ (wrapClose env p fd).sent := by
      have hsent' : (wrapClose env p fd).sent = [(host, request)] := hsent
      rw [hsent']
      exact List.mem_singleton_self _
    unfold wrapClose at hmem
    split at hmem
    · rw [Effect.andThen_sent] at hmem
      exact absurd (hvacRemoveFd_sent hmem) hclose
    · cases hmem

/-- A call that waits for a reply changes no file. -/
theorem AppCall.rest_files (h : call.asks env rl p = some (host, request)) :
    (call.rest env rl answer p).state.files = p.files := by
  have hsent := (AppCall.sent_of_asks h answer).1
  cases call with
  | openFile path flags ret =>
    simp only [AppCall.rest]
    split
    · rfl
    · exact Effect.andThen_files _ _ fun _ _ => rfl
  | read fd count =>
    apply Effect.andThen_files
    intro s a
    dsimp only
    split <;> rfl
  | pread fd count offset =>
    simp only [AppCall.rest, wrapPread]
    split
    · apply Effect.andThen_files
      intro s a
      split <;> rfl
    · rfl
  | lseek fd offset whence =>
    simp only [AppCall.rest, wrapLseek]
    split
    · exact Effect.andThen_files _ _ fun _ _ => rfl
    · rfl
  | close fd =>
    rw [AppCall.asks_close] at h
    cases h
  | read64 | readv | write => cases hsent

theorem realRead_setFiles {files : Files} {fd : Int}
    (hsame : ∀ f, p.fds.find? fd = some f → files.content f.file = p.files.content f.file)
    (count : Nat) :
    realRead rl { p with files := files } fd count =
      ({ (realRead rl p fd count).1 with files := files }, (realRead rl p fd count).2) := by
  simp only [realRead, sysRead_content hsame]

theorem realPread_setFiles {files : Files} {fd : Int}
    (hsame : ∀ f, p.fds.find? fd = some f → files.content f.file = p.files.content f.file)
    (count : Nat) (offset : Int) :
    realPread rl { p with files := files } fd count offset =
      ({ (realPread rl p fd count offset).1 with files := files },
        (realPread rl p fd count offset).2) := by
  simp only [realPread, sysPread_content hsame]

/-- Nor does it see a change to a file other than that of the descriptor it may read
    locally. -/
theorem AppCall.rest_setFiles (h : call.asks env rl p = some (host, request)) {files : Files}
    (hsame : ∀ fd ∈ call.fallback?, ∀ f, p.fds.find? fd = some f →
      files.content f.file = p.files.content f.file) :
    call.rest env rl answer { p with files := files } =
      (call.rest env rl answer p).setFiles files := by
  have hsent := (AppCall.sent_of_asks h answer).1
  cases call with
  | openFile path flags ret =>
    simp only [AppCall.rest]
    split
    · rfl
    · simp only [Effect.andThen]
      rcases (hvacTrackFile env answer p.client path flags ret).outcome with _ | _ | _ | _ <;> rfl
  | read fd count =>
    simp only [AppCall.rest, wrapRead, Effect.andThen]
    rcases (hvacRemoteRead env answer p.client fd count).outcome with out | _ | _ | _
    · dsimp only
      split
      · have hread := @realRead_setFiles rl
          { p with client := (hvacRemoteRead env answer p.client fd count).state } files fd
          (hsame fd rfl) count
        rw [hread]
        rfl
      · rfl
    all_goals rfl
  | pread fd count offset =>
    simp only [AppCall.rest, wrapPread]
    split
    · simp only [Effect.andThen]
      rcases (hvacRemotePread env answer p.client fd count offset).outcome with out | _ | _ | _
      · dsimp only
        split
        · have hread := @realPread_setFiles rl
            { p with client := (hvacRemotePread env answer p.client fd count offset).state } files
            fd (hsame fd rfl) count offset
          rw [hread]
          rfl
        · rfl
      all_goals rfl
    · next hpath =>
      simp only [AppCall.rest, wrapPread, hpath] at hsent
      cases hsent
  | lseek fd offset whence =>
    simp only [AppCall.rest, wrapLseek]
    split
    · simp only [Effect.andThen]
      rcases (hvacRemoteLseek env answer p.client fd offset whence).outcome with _ | _ | _ | _ <;> rfl
    · next huntracked =>
      simp only [AppCall.rest, wrapLseek, huntracked] at hsent
      cases hsent
  | close fd =>
    rw [AppCall.asks_close] at h
    cases h
  | read64 | readv | write => cases hsent

end Halves

/-! ### State and steps -/

/-- A call that waits for the reply to its request.  `handled` is `none` until the
    server has handled the request, and then its reply, if it makes one. -/
structure Waiting where
  call : AppCall
  host : Int
  request : Request
  handled : Option (Option Reply)
deriving DecidableEq

structure Messages (K : Type) where
  base : Deployment K
  waiting : K → Option Waiting

/-- `step` is a call that waits for no server, the arrival of a close request or a
    step of a data mover. -/
inductive MessageLabel (K : Type) where
  | send (k : K) (call : AppCall)
  | serve (k : K) (call : AppCall) (remote : Int)
  | receive (k : K)
  | step (label : DeploymentLabel K)
deriving DecidableEq

/-- Where a call takes effect. -/
def MessageLabel.point? {K : Type} : MessageLabel K → Option (DeploymentLabel K)
  | .send _ _ => none
  | .serve k call remote => some (.call k call remote)
  | .receive _ => none
  | .step label => some label

section Machines

variable {K : Type} [DecidableEq K] (env : K → Env) (rl : ReadLen) (bbpath : String) (N : Nat)

/-- A call of a process that waits for nothing, and that asks no server. -/
def Messages.Alone (m : Messages K) : DeploymentLabel K → Prop
  | .call k call _ =>
      m.waiting k = none ∧
        ∀ p ∈ call.start (env k) (m.base.sys k).proc, call.asks (env k) rl p = none
  | .deliver _ => True
  | .mover _ _ => True

instance (m : Messages K) (label : DeploymentLabel K) : Decidable (m.Alone env rl label) :=
  match label with
  | .call k call _ => inferInstanceAs (Decidable (_ = _ ∧
      ∀ p ∈ call.start (env k) (m.base.sys k).proc, _ = _))
  | .deliver _ => isTrue trivial
  | .mover _ _ => isTrue trivial

/-- A call is observed when it returns. -/
def messageMachine :
    Machine (Messages K) (MessageLabel K) (Option (K × Outcome Reply)) where
  step m
    | .send k call =>
        if m.waiting k = none ∧ (m.base.nodes k).status = .running then
          match call.start (env k) (m.base.sys k).proc with
          | none => none
          | some p =>
              match call.asks (env k) rl p with
              | none => none
              | some (host, request) =>
                  some (⟨m.base.put k ⟨p, .running, m.base.net⟩,
                    Function.update m.waiting k (some ⟨call, host, request, none⟩)⟩, none)
        else none
    | .serve k call remote =>
        match m.waiting k with
        | some ⟨call', host, request, none⟩ =>
            if call' = call then
              match (m.base.net.servers host).handle rl bbpath m.base.files remote request with
              | none => none
              | some (server, reply) =>
                  some (⟨{ m.base with net := m.base.net.setServer host server },
                    Function.update m.waiting k (some ⟨call, host, request, some reply⟩)⟩, none)
            else none
        | _ => none
    | .receive k =>
        match m.waiting k with
        | some ⟨call, _, _, some reply⟩ =>
            let e := call.rest (env k) rl (fun _ _ => reply) (m.base.sys k).proc
            some (⟨m.base.put k ⟨e.state, e.outcome.status, m.base.net⟩,
              Function.update m.waiting k none⟩, some (k, e.outcome))
        | _ => none
    | .step label =>
        if m.Alone env rl label then
          match (deploymentMachine env rl bbpath).step m.base label with
          | none => none
          | some (d, o) => some (⟨d, m.waiting⟩, o)
        else none

def messagesStart (files : Files) : Messages K := ⟨deploymentStart env N files, fun _ => none⟩

/-! ### Statements -/

/-- No file of which a process may still read locally, once it has its reply, becomes
    another. -/
def Messages.Spares (m m' : Messages K) : Prop :=
  ∀ k, ∀ w ∈ m.waiting k, ∀ fd ∈ w.call.fallback?, ∀ f ∈ (m.base.nodes k).fds.find? fd,
    m'.base.files.content f.file = m.base.files.content f.file

/-- A call that asks a server is within the limits of the protocol when it is handled,
    and opens only to read; the others are as in `Deployment.WellUsed`. -/
def MessageUsed (m : Messages K) (label : MessageLabel K) (m' : Messages K) : Prop :=
  match label with
  | .send _ (.openFile _ flags _) => flags = O_RDONLY
  | .send _ _ => True
  | .serve k call remote => Hvac.WithinLimits (env k) bbpath N (m.base.sys k) remote call
  | .receive _ => True
  | .step label => m.base.WellUsed env bbpath N label ∧ m.Spares m'

/-- Where files are only read, the limits of the protocol are all there is to keep. -/
def MessageLimits (m : Messages K) (label : MessageLabel K) (m' : Messages K) : Prop :=
  match label with
  | .send _ _ => True
  | .serve k call remote => Hvac.WithinLimits (env k) bbpath N (m.base.sys k) remote call
  | .receive _ => True
  | .step label => m.base.WithinLimits env bbpath N label ∧ m.Spares m'

instance [Fintype K] (m m' : Messages K) : Decidable (m.Spares m') :=
  inferInstanceAs (Decidable (∀ k, ∀ w ∈ m.waiting k, ∀ fd ∈ w.call.fallback?,
    ∀ f ∈ (m.base.nodes k).fds.find? fd, _ = _))

instance [Fintype K] (m : Messages K) (label : MessageLabel K) (m' : Messages K) :
    Decidable (MessageLimits env bbpath N m label m') :=
  match label with
  | .send _ _ => isTrue trivial
  | .serve k call remote =>
      inferInstanceAs (Decidable (Hvac.WithinLimits (env k) bbpath N (m.base.sys k) remote call))
  | .receive _ => isTrue trivial
  | .step label => inferInstanceAs (Decidable (m.base.WithinLimits env bbpath N label ∧ _))

def MessageLabel.ReadsOnly : MessageLabel K → Prop
  | .send _ (.openFile _ flags _) => flags = O_RDONLY
  | .send _ _ => True
  | .serve _ _ _ => True
  | .receive _ => True
  | .step label => label.ReadsOnly

variable {env bbpath N} in
omit [DecidableEq K] in
theorem MessageLabel.ReadsOnly.messageUsed {m m' : Messages K} {label : MessageLabel K}
    (h : label.ReadsOnly) (hlimits : MessageLimits env bbpath N m label m') :
    MessageUsed env bbpath N m label m' := by
  cases label with
  | send k call =>
    cases call with
    | openFile path flags ret => exact h
    | read | pread | lseek | close | read64 | readv | write => trivial
  | serve | receive => exact hlimits
  | step label => exact ⟨DeploymentLabel.ReadsOnly.wellUsed h hlimits.1, hlimits.2⟩

/-- The result of a call that took effect and has not returned. -/
def Messages.owed (m : Messages K) (k : K) : List (Outcome Reply) :=
  match m.waiting k with
  | some ⟨call, _, _, some reply⟩ =>
      [(call.rest (env k) rl (fun _ _ => reply) (m.base.sys k).proc).outcome]
  | _ => []

/-- What process `k` observes of a step. -/
def heardBy (o : Option (K × Outcome Reply)) (k : K) : List (Outcome Reply) :=
  match o with
  | some (k', out) => if k' = k then [out] else []
  | none => []

end Machines

/-! ### The call that takes effect -/

section Stands

variable {env : Env} {rl : ReadLen} {files : Files} {n n' : Node}

/-- Process `n'` has done the first half of the call, process `n` has not. -/
inductive Begun (env : Env) (files : Files) : AppCall → Node → Node → Prop where
  | same {call : AppCall} (n : Node) (hopen : ∀ path flags ret, call ≠ .openFile path flags ret) :
      Begun env files call n n
  | opened {path file : String} {ret : Int} (n : Node) (hret : ret ≠ -1)
      (hfile : env.canonical path = some file) (hthere : files.find? file ≠ none)
      (hnonneg : 0 ≤ ret) (hfree : n.fds.find? ret = none) :
      Begun env files (.openFile path O_RDONLY ret) n
        { n with fds := n.fds.insert ret ⟨file, O_RDONLY, 0⟩ }

/-- Process `n` has done the call that process `n'` is in, if the server has handled
    it. -/
inductive Stands (env : Env) (rl : ReadLen) (files : Files) : Option Waiting → Node → Node → Prop
    where
  | idle (n : Node) : Stands env rl files none n n
  | sent {call : AppCall} {host : Int} {request : Request} {n n' : Node}
      (hbegun : Begun env files call n n') (hrunning : n.status = .running)
      (hasks : call.asks env rl ⟨n'.client, n'.fds, files⟩ = some (host, request)) :
      Stands env rl files (some ⟨call, host, request, none⟩) n n'
  | handled {call : AppCall} {host : Int} {request : Request} {reply : Option Reply} {n' : Node}
      {e : Effect Proc Reply}
      (hasks : call.asks env rl ⟨n'.client, n'.fds, files⟩ = some (host, request))
      (hrest : call.rest env rl (fun _ _ => reply) ⟨n'.client, n'.fds, files⟩ = e) :
      Stands env rl files (some ⟨call, host, request, some reply⟩)
        ⟨e.state.client, e.state.fds, e.outcome.status⟩ n'

theorem openedContents_rdonly (data : Option Contents) : openedContents O_RDONLY data = data := by
  cases data <;> rfl

/-- Both have done it then. -/
theorem Begun.start {call : AppCall} (h : Begun env files call n n') :
    call.start env ⟨n.client, n.fds, files⟩ = some ⟨n'.client, n'.fds, files⟩ := by
  cases h with
  | same _ hopen =>
    cases call with
    | openFile path flags ret => exact absurd rfl (hopen path flags ret)
    | read | pread | lseek | close | read64 | readv | write => rfl
  | @opened path file ret _ hret hfile hthere hnonneg hfree =>
    obtain ⟨data, hdata⟩ := Option.ne_none_iff_exists'.mp hthere
    have hopened : openedContents O_RDONLY (files.find? file) = some data := by
      rw [openedContents_rdonly]
      exact hdata
    refine (realOpen_of_free hret hfile hopened hnonneg hfree).trans ?_
    rw [OrdMap.insert_of_find? hdata]

theorem Begun.status {call : AppCall} (h : Begun env files call n n') : n'.status = n.status := by
  cases h with
  | same => rfl
  | opened => rfl

theorem Begun.mono {call : AppCall} {files' : Files} (h : Begun env files call n n')
    (hfiles : ∀ file, files.find? file ≠ none → files'.find? file ≠ none) :
    Begun env files' call n n' := by
  cases h with
  | same _ hopen => exact .same _ hopen
  | opened _ hret hfile hthere hnonneg hfree =>
    exact .opened _ hret hfile (hfiles _ hthere) hnonneg hfree

/-- A process that begins a call. -/
theorem begun_of_start {call : AppCall} {p : Proc}
    (hstart : call.start env ⟨n.client, n.fds, files⟩ = some p)
    (hread : ∀ path flags ret, call = .openFile path flags ret → flags = O_RDONLY)
    (hasks : call.asks env rl p ≠ none) :
    Begun env files call n ⟨p.client, p.fds, n.status⟩ ∧ p.files = files := by
  cases call with
  | read | pread | lseek | close | read64 | readv | write =>
    obtain rfl := Option.some.inj hstart
    exact ⟨.same n fun _ _ _ => AppCall.noConfusion, rfl⟩
  | openFile path flags ret =>
    obtain rfl := hread path flags ret rfl
    rcases realOpen_eq_some hstart with ⟨rfl, rfl⟩ | ⟨file, data, hret, hfile, hdata, hnonneg, hfree, rfl⟩
    · exact absurd rfl hasks
    · rw [openedContents_rdonly] at hdata
      exact ⟨.opened n hret hfile (Option.ne_none_iff_exists'.mpr ⟨data, hdata⟩) hnonneg hfree,
        OrdMap.insert_of_find? hdata⟩

theorem Stands.eq_of_idle (h : Stands env rl files none n n') : n = n' := by
  cases h with
  | idle => rfl

theorem Stands.of_sent {call : AppCall} {host : Int} {request : Request}
    (h : Stands env rl files (some ⟨call, host, request, none⟩) n n') :
    Begun env files call n n' ∧ n.status = .running ∧
      call.asks env rl ⟨n'.client, n'.fds, files⟩ = some (host, request) := by
  cases h with
  | sent hbegun hrunning hasks => exact ⟨hbegun, hrunning, hasks⟩

theorem Stands.of_handled {call : AppCall} {host : Int} {request : Request}
    {reply : Option Reply}
    (h : Stands env rl files (some ⟨call, host, request, some reply⟩) n n') :
    call.asks env rl ⟨n'.client, n'.fds, files⟩ = some (host, request) ∧
      n = ⟨(call.rest env rl (fun _ _ => reply) ⟨n'.client, n'.fds, files⟩).state.client,
        (call.rest env rl (fun _ _ => reply) ⟨n'.client, n'.fds, files⟩).state.fds,
        (call.rest env rl (fun _ _ => reply) ⟨n'.client, n'.fds, files⟩).outcome.status⟩ := by
  cases h with
  | handled hasks hrest =>
    subst hrest
    exact ⟨hasks, rfl⟩

/-- The others may change the files meanwhile. -/
theorem Stands.setFiles {w : Option Waiting} {files' : Files} (h : Stands env rl files w n n')
    (hfiles : ∀ file, files.find? file ≠ none → files'.find? file ≠ none)
    (hspares : ∀ x ∈ w, ∀ fd ∈ x.call.fallback?, ∀ f ∈ n'.fds.find? fd,
      files'.content f.file = files.content f.file) : Stands env rl files' w n n' := by
  have hasks : ∀ {call : AppCall} {host : Int} {request : Request},
      (∀ fd ∈ call.fallback?, ∀ f ∈ n'.fds.find? fd,
        files'.content f.file = files.content f.file) →
      call.asks env rl ⟨n'.client, n'.fds, files⟩ = some (host, request) →
      call.asks env rl ⟨n'.client, n'.fds, files'⟩ = some (host, request) := by
    intro call host request hsame hasks
    rw [← hasks]
    unfold AppCall.asks
    rw [AppCall.rest_setFiles hasks hsame]
    rfl
  cases h with
  | idle => exact .idle n
  | sent hbegun hrunning hask =>
    exact .sent (hbegun.mono hfiles) hrunning (hasks (hspares _ rfl) hask)
  | @handled call host request reply _ e hask hrest =>
    have hsame := hspares _ rfl
    have hrest' : call.rest env rl (fun _ _ => reply) ⟨n'.client, n'.fds, files'⟩ =
        e.setFiles files' := by
      rw [← hrest]
      exact AppCall.rest_setFiles hask hsame
    exact @Stands.handled env rl files' call host request reply n' (e.setFiles files')
      (hasks hsame hask) hrest'

/-- A handled call has its result, whatever the others do. -/
theorem Stands.outcome_setFiles {call : AppCall} {host : Int} {request : Request}
    {reply : Option Reply} {files' : Files}
    (h : Stands env rl files (some ⟨call, host, request, some reply⟩) n n')
    (hsame : ∀ fd ∈ call.fallback?, ∀ f ∈ n'.fds.find? fd,
      files'.content f.file = files.content f.file) :
    (call.rest env rl (fun _ _ => reply) ⟨n'.client, n'.fds, files'⟩).outcome =
      (call.rest env rl (fun _ _ => reply) ⟨n'.client, n'.fds, files⟩).outcome := by
  cases h with
  | handled hask _ =>
    have hrest : call.rest env rl (fun _ _ => reply) ⟨n'.client, n'.fds, files'⟩ =
        (call.rest env rl (fun _ _ => reply) ⟨n'.client, n'.fds, files⟩).setFiles files' :=
      AppCall.rest_setFiles hask hsame
    rw [hrest]
    rfl

end Stands

/-! ### One step -/

section Steps

variable {K : Type} [DecidableEq K] {env : K → Env} {rl : ReadLen} {bbpath : String} {N : Nat}
  {m m' : Messages K} {d : Deployment K} {k : K} {call : AppCall}

/-- The deployment in which every call that took effect is over. -/
structure Refines (env : K → Env) (rl : ReadLen) (m : Messages K) (d : Deployment K) : Prop where
  files : d.files = m.base.files
  net : d.net = m.base.net
  nodes : ∀ k, Stands (env k) rl m.base.files (m.waiting k) (d.nodes k) (m.base.nodes k)

omit [DecidableEq K] in
/-- A process that waits for nothing. -/
theorem Refines.idle (h : Refines env rl m d) (hidle : m.waiting k = none) :
    d.nodes k = m.base.nodes k := by
  have hstands := h.nodes k
  rw [hidle] at hstands
  exact hstands.eq_of_idle

omit [DecidableEq K] in
theorem Refines.sys (h : Refines env rl m d) (hidle : m.waiting k = none) :
    d.sys k = m.base.sys k := by
  simp only [Deployment.sys, h.idle hidle, h.files, h.net]

/-- One process goes on. -/
theorem Refines.put (h : Refines env rl m d) {s : Sys} (hsame : s.proc.files = m.base.files)
    {w : Option Waiting} {d' : Deployment K} (hfiles : d'.files = m.base.files)
    (hnet : d'.net = s.net)
    (hnode : Stands (env k) rl m.base.files w (d'.nodes k) ⟨s.proc.client, s.proc.fds, s.status⟩)
    (hothers : ∀ x, x ≠ k → d'.nodes x = d.nodes x) :
    Refines env rl ⟨m.base.put k s, Function.update m.waiting k w⟩ d' where
  files := hfiles.trans hsame.symm
  net := hnet
  nodes x := by
    simp only [Deployment.put, hsame, Function.update_apply]
    by_cases hx : x = k
    · subst hx
      rw [if_pos rfl, if_pos rfl]
      exact hnode
    · rw [if_neg hx, if_neg hx, hothers x hx]
      exact h.nodes x

/-- The other processes are owed what they were owed. -/
theorem Messages.owed_put {s : Sys} (hsame : s.proc.files = m.base.files) (w : Option Waiting)
    {x : K} (hx : x ≠ k) :
    Messages.owed env rl ⟨m.base.put k s, Function.update m.waiting k w⟩ x = m.owed env rl x := by
  simp only [Messages.owed, Function.update_of_ne hx, (m.base.sys_put_of_ne hx s), hsame]
  rfl

omit [DecidableEq K] in
theorem Messages.owed_of_idle (hidle : m.waiting k = none) : m.owed env rl k = [] := by
  simp only [Messages.owed, hidle]

theorem heardBy_of_ne {out : Outcome Reply} {x : K} (hx : x ≠ k) : heardBy (some (k, out)) x = [] :=
  if_neg hx.symm

/-- The request goes out; nothing has happened yet. -/
theorem Refines.send (h : Refines env rl m d)
    (hused : MessageUsed env bbpath N m (.send k call) m') {o : Option (K × Outcome Reply)}
    (hstep : (messageMachine env rl bbpath).step m (.send k call) = some (m', o)) :
    Refines env rl m' d ∧ ∀ x, m.owed env rl x = heardBy o x ++ m'.owed env rl x := by
  simp only [messageMachine, Option.ite_none_right_eq_some] at hstep
  obtain ⟨⟨hidle, hrunning⟩, hstep⟩ := hstep
  rcases hstart : call.start (env k) (m.base.sys k).proc with _ | p
  · rw [hstart] at hstep
    cases hstep
  rcases hasks : call.asks (env k) rl p with _ | ⟨host, request⟩
  · simp only [hstart, hasks] at hstep
    cases hstep
  simp only [hstart, hasks, Option.some.injEq, Prod.mk.injEq] at hstep
  obtain ⟨rfl, rfl⟩ := hstep
  have hread : ∀ path flags ret, call = .openFile path flags ret → flags = O_RDONLY := by
    rintro path flags ret rfl
    exact hused
  obtain ⟨hbegun, hfiles⟩ :=
    begun_of_start hstart hread (by rw [hasks]; exact Option.some_ne_none _)
  constructor
  · refine h.put hfiles h.files h.net ?_ fun _ _ => rfl
    rw [h.idle hidle]
    rw [hrunning] at hbegun
    refine .sent hbegun hrunning ?_
    rw [← hasks, ← hfiles]
  · intro x
    by_cases hx : x = k
    · subst hx
      rw [Messages.owed_of_idle hidle]
      simp only [Messages.owed, Function.update_self]
      rfl
    · rw [Messages.owed_put hfiles _ hx]
      rfl

/-- The reply comes in; the call has taken effect before. -/
theorem Refines.receive (h : Refines env rl m d) {o : Option (K × Outcome Reply)}
    (hstep : (messageMachine env rl bbpath).step m (.receive k) = some (m', o)) :
    Refines env rl m' d ∧ ∀ x, m.owed env rl x = heardBy o x ++ m'.owed env rl x := by
  simp only [messageMachine] at hstep
  split at hstep
  · next call host request reply hwaiting =>
    simp only [Option.some.injEq, Prod.mk.injEq] at hstep
    obtain ⟨rfl, rfl⟩ := hstep
    have hstands := h.nodes k
    rw [hwaiting] at hstands
    obtain ⟨hasks, hnode⟩ := hstands.of_handled
    have hfiles : (call.rest (env k) rl (fun _ _ => reply) (m.base.sys k).proc).state.files =
        m.base.files := AppCall.rest_files hasks
    constructor
    · refine h.put hfiles h.files h.net ?_ fun _ _ => rfl
      rw [hnode]
      exact .idle _
    · intro x
      by_cases hx : x = k
      · subst hx
        simp only [Messages.owed, hwaiting, Function.update_self, heardBy, if_true,
          List.append_nil]
      · rw [Messages.owed_put hfiles _ hx, heardBy_of_ne hx, List.nil_append]
  · cases hstep

theorem Net.serve_waiting {net : Net} {remote host : Int} {files : Files} {request : Request}
    {server : Server} {reply : Option Reply} (hclose : ¬ request.IsClose)
    (hhandle : (net.servers host).handle rl bbpath files remote request = some (server, reply)) :
    net.serve rl bbpath remote files [(host, request)] = some (net.setServer host server) := by
  cases request with
  | closeIn fd => exact absurd trivial hclose
  | openIn | rpcIn | seekIn => simp only [Net.serve, hhandle]

omit [DecidableEq K] in
/-- A call within the limits when it is handled. -/
theorem Refines.wellUsed (h : Refines env rl m d) {host : Int} {request : Request}
    (hwaiting : m.waiting k = some ⟨call, host, request, none⟩)
    (hlimits : Hvac.WithinLimits (env k) bbpath N (m.base.sys k) remote call) :
    Hvac.WellUsed (env k) bbpath N (d.sys k) remote call := by
  have hstands := h.nodes k
  rw [hwaiting] at hstands
  obtain ⟨hbegun, -, hasks⟩ := hstands.of_sent
  generalize hn : d.nodes k = n at hbegun
  generalize hn' : m.base.nodes k = n' at hbegun
  cases hbegun with
  | opened => exact ⟨hlimits, fun file _ => Or.inr (Or.inl (openedContents_rdonly _))⟩
  | same _ hopen =>
    have hsys : d.sys k = m.base.sys k := by
      simp only [Deployment.sys, hn, hn', h.files, h.net]
    rw [hsys]
    cases call with
    | openFile path flags ret => exact absurd rfl (hopen path flags ret)
    | write fd data => cases hasks
    | read | pread | lseek | close | read64 | readv => exact ⟨hlimits, trivial⟩

/-- **The call takes effect when the server handles its request.** -/
theorem Refines.serve (h : Refines env rl m d) {remote : Int} {o : Option (K × Outcome Reply)}
    (hstep : (messageMachine env rl bbpath).step m (.serve k call remote) = some (m', o)) :
    (∃ host request, m.waiting k = some ⟨call, host, request, none⟩) ∧
    ∃ d' out, (deploymentMachine env rl bbpath).step d (.call k call remote) =
        some (d', some (k, out)) ∧ Refines env rl m' d' ∧
      ∀ x, m.owed env rl x ++ heardBy (some (k, out)) x = heardBy o x ++ m'.owed env rl x := by
  simp only [messageMachine] at hstep
  split at hstep
  · next call' host request hwaiting =>
    obtain ⟨rfl, hstep⟩ := Option.ite_none_right_eq_some.mp hstep
    rcases hhandle : (m.base.net.servers host).handle rl bbpath m.base.files remote request with
      _ | ⟨server, reply⟩
    · rw [hhandle] at hstep
      cases hstep
    simp only [hhandle, Option.some.injEq, Prod.mk.injEq] at hstep
    obtain ⟨rfl, rfl⟩ := hstep
    have hstands := h.nodes k
    rw [hwaiting] at hstands
    obtain ⟨hbegun, hrunning, hasks⟩ := hstands.of_sent
    change call'.asks (env k) rl (m.base.sys k).proc = some (host, request) at hasks
    -- the second half of the call, with the reply the server makes
    generalize he : call'.rest (env k) rl (fun _ _ => reply) (m.base.sys k).proc = e
    have hfiles : e.state.files = m.base.files := by
      rw [← he]
      exact AppCall.rest_files hasks
    have hperform : call'.perform (env k) rl (d.net.answer rl bbpath remote) (d.sys k).proc =
        some e := by
      have hstart : call'.start (env k) (d.sys k).proc = some (m.base.sys k).proc := by
        rw [Deployment.sys, h.files]
        exact hbegun.start
      have hreply : d.net.answer rl bbpath remote m.base.files host request = reply := by
        simp only [Net.answer, h.net, hhandle]
      rw [AppCall.perform_eq, hstart, Option.map_some, ← he, AppCall.rest_of_reply hasks]
      exact congrArg (fun r => some (call'.rest (env k) rl (fun _ _ => r) (m.base.sys k).proc))
        hreply
    have hserve : d.net.serve rl bbpath remote e.state.files e.sent =
        some (m.base.net.setServer host server) := by
      have hsent := AppCall.sent_of_asks hasks fun _ _ => reply
      have hsent' : e.sent = [(host, request)] := by
        rw [← he]
        exact hsent.1
      rw [hfiles, hsent', h.net]
      exact Net.serve_waiting hsent.2 hhandle
    refine ⟨⟨host, request, hwaiting⟩,
      d.put k ⟨e.state, e.outcome.status, m.base.net.setServer host server⟩, e.outcome, ?_, ⟨hfiles, rfl, fun x => ?_⟩, fun x => ?_⟩
    · have hstatus : (d.sys k).status = .running := hrunning
      have hnet : (d.sys k).net = d.net := rfl
      simp only [deploymentMachine, sysMachine, hstatus, if_true, hnet, hperform, hserve,
        Option.map_some]
    · simp only [Deployment.put, Function.update_apply]
      by_cases hx : x = k
      · subst hx
        rw [if_pos rfl, if_pos rfl]
        exact .handled hasks he
      · rw [if_neg hx, if_neg hx]
        exact h.nodes x
    · by_cases hx : x = k
      · subst hx
        simp only [Messages.owed, hwaiting, Function.update_self, heardBy, if_true,
          List.nil_append]
        exact congrArg (fun e => [Effect.outcome e]) he.symm
      · rw [heardBy_of_ne hx, List.append_nil]
        simp only [Messages.owed, Function.update_of_ne hx]
        rfl
  · cases hstep

omit [DecidableEq K] in
/-- What a process that goes on with its call is owed does not depend on the others. -/
theorem Refines.owed_files (h : Refines env rl m d) {d' : Deployment K} {x : K}
    (hnode : d'.nodes x = m.base.nodes x)
    (hspares : ∀ w ∈ m.waiting x, ∀ fd ∈ w.call.fallback?, ∀ f ∈ (m.base.nodes x).fds.find? fd,
      d'.files.content f.file = m.base.files.content f.file) :
    Messages.owed env rl ⟨d', m.waiting⟩ x = m.owed env rl x := by
  have hstands := h.nodes x
  simp only [Messages.owed, Deployment.sys, hnode]
  rcases hwaiting : m.waiting x with _ | ⟨call, host, request, _ | reply⟩
  · rfl
  · rfl
  · rw [hwaiting] at hstands
    exact congrArg (fun out => [out]) (hstands.outcome_setFiles (hspares _ hwaiting))

/-- A call of one process leaves the others where they stand. -/
theorem Refines.callAlone (h : Refines env rl m d) {p : Plain K} (hmirrors : Mirrors env bbpath N d p)
    (hN : 1 ≤ N ∧ N < 2 ^ 31) (hidle : m.waiting k = none) {remote : Int} {s' : Sys}
    {out : Option (Outcome Reply)}
    (hused : Hvac.WellUsed (env k) bbpath N (m.base.sys k) remote call)
    (hspares : m.Spares ⟨m.base.put k s', m.waiting⟩)
    (hstep : (sysMachine (env k) rl bbpath).step (m.base.sys k) (.call call remote) =
      some (s', out)) :
    Refines env rl ⟨m.base.put k s', m.waiting⟩ (d.put k s') := by
  have hfiles : ∀ file, m.base.files.find? file ≠ none → s'.proc.files.find? file ≠ none := by
    rw [← h.sys hidle] at hused hstep
    have hanswered := (hmirrors.serviceable k).answered hN (hmirrors.fds k) hused hstep
    have hsame : (d.sys k).proc.files = m.base.files := h.files
    intro file hfile
    rcases hanswered.files with heq | ⟨changed, data, heq, -⟩
    · rw [heq, hsame]
      exact hfile
    · rw [heq, hsame, OrdMap.find?_insert]
      split
      · exact Option.some_ne_none _
      · exact hfile
  refine ⟨rfl, rfl, fun x => ?_⟩
  simp only [Deployment.put, Function.update_apply]
  by_cases hx : x = k
  · subst hx
    rw [if_pos rfl, if_pos rfl, hidle]
    exact .idle _
  · rw [if_neg hx, if_neg hx]
    exact (h.nodes x).setFiles hfiles (hspares x)

theorem Refines.step (h : Refines env rl m d) {p : Plain K} (hmirrors : Mirrors env bbpath N d p)
    (hN : 1 ≤ N ∧ N < 2 ^ 31) {label : DeploymentLabel K} {o : Option (K × Outcome Reply)}
    (hused : MessageUsed env bbpath N m (.step label) m')
    (hstep : (messageMachine env rl bbpath).step m (.step label) = some (m', o)) :
    d.WellUsed env bbpath N label ∧
      ∃ d', (deploymentMachine env rl bbpath).step d label = some (d', o) ∧ Refines env rl m' d' ∧
        ∀ x, m.owed env rl x ++ heardBy o x = heardBy o x ++ m'.owed env rl x := by
  simp only [messageMachine, Option.ite_none_right_eq_some] at hstep
  obtain ⟨halone, hstep⟩ := hstep
  obtain ⟨hwell, hspares⟩ := hused
  rcases hbase : (deploymentMachine env rl bbpath).step m.base label with _ | ⟨d₁, o₁⟩
  · rw [hbase] at hstep
    cases hstep
  simp only [hbase, Option.some.injEq, Prod.mk.injEq] at hstep
  obtain ⟨rfl, rfl⟩ := hstep
  cases label with
  | call k call remote =>
    have hidle := halone.1
    simp only [deploymentMachine] at hbase ⊢
    rcases hcall : (sysMachine (env k) rl bbpath).step (m.base.sys k) (.call call remote) with
      _ | ⟨s', out⟩
    · rw [hcall] at hbase
      cases hbase
    simp only [hcall, Option.some.injEq, Prod.mk.injEq] at hbase
    obtain ⟨rfl, rfl⟩ := hbase
    rw [← h.sys hidle] at hcall
    refine ⟨?_, d.put k s', by simp only [hcall], ?_, fun x => ?_⟩
    · have hwell' : Hvac.WellUsed (env k) bbpath N (m.base.sys k) remote call := hwell
      rw [← h.sys hidle] at hwell'
      exact hwell'
    · rw [h.sys hidle] at hcall
      exact h.callAlone hmirrors hN hidle hwell hspares hcall
    · by_cases hx : x = k
      · subst hx
        have hnone : Messages.owed env rl ⟨m.base.put x s', m.waiting⟩ x = [] :=
          Messages.owed_of_idle hidle
        rw [hnone, Messages.owed_of_idle hidle, List.append_nil, List.nil_append]
      · have hother : heardBy (out.map fun out => (k, out)) x = [] := by
          rcases out with _ | out
          · rfl
          · exact heardBy_of_ne hx
        rw [hother, List.append_nil, List.nil_append]
        exact (h.owed_files (Function.update_of_ne hx ..) (hspares x)).symm
  | deliver i =>
    simp only [deploymentMachine] at hbase ⊢
    rcases hdeliver : m.base.net.deliver i with _ | net
    · rw [hdeliver] at hbase
      cases hbase
    simp only [hdeliver, Option.some.injEq, Prod.mk.injEq] at hbase
    obtain ⟨rfl, rfl⟩ := hbase
    refine ⟨trivial, { d with net := net }, by simp only [h.net, hdeliver],
      ⟨h.files, rfl, h.nodes⟩, fun x => ?_⟩
    exact List.append_nil _
  | mover host step =>
    simp only [deploymentMachine] at hbase ⊢
    rw [h.net, h.files]
    split at hbase
    · next halive =>
      rcases hmove : (m.base.net.servers host).moverStep bbpath m.base.files step with _ | server
      · rw [hmove] at hbase
        cases hbase
      simp only [hmove, Option.some.injEq, Prod.mk.injEq] at hbase
      obtain ⟨rfl, rfl⟩ := hbase
      refine ⟨trivial, { d with net := m.base.net.setServer host server }, ?_,
        ⟨h.files, rfl, h.nodes⟩, fun x => List.append_nil _⟩
      simp only [halive, if_true, h.files]
    · cases hbase

end Steps

/-! ### Whole runs -/

section Runs

variable {K : Type} [DecidableEq K] {env : K → Env} {rl : ReadLen} {bbpath : String} {N : Nat}
  {m : Messages K}

omit [DecidableEq K] in
theorem refines_start (env : K → Env) (rl : ReadLen) (N : Nat) (files : Files) :
    Refines env rl (messagesStart env N files) (deploymentStart env N files) :=
  ⟨rfl, rfl, fun _ => .idle _⟩

/-- Two processes whose requests cross: the first to send is the second to be served,
    one closes while the other waits, and the last reply has not come in. -/
def crossingReads : List (MessageLabel Bool) :=
  [.send true (.openFile "/data/a" O_RDONLY 3), .send false (.openFile "/data/a" O_RDONLY 3),
    .serve false (.openFile "/data/a" O_RDONLY 3) 5, .serve true (.openFile "/data/a" O_RDONLY 3) 6,
    .receive true, .send true (.read 3 1), .receive false, .serve true (.read 3 1) 0,
    .send false (.pread 3 2 1), .receive true, .step (.call true (.close 3) 0), .step (.deliver 0),
    .serve false (.pread 3 2 1) 0]

end Runs

end Hvac
