/-
  Hvac/Placement.lean
  ===================
  **Where a file can be opened, queued and cached.**

  `open` chooses a server by the hash of the path, `close` by the ring, and a
  misrouted close reaches a server that has nothing to do with the file.  A handler
  takes the names it works with from the tables of its own server, though, and only
  an open enters one (`Server.HoldsOnly.handle`).  So whatever the processes call and
  whichever servers crash, no file is at a server other than the one its path hashes
  to (`placed_run`): the caches of two servers are disjoint.

  The empty name is apart: it is what `fd_to_path` has for a descriptor it does not
  know.
-/
import Hvac.Crashes

namespace Hvac

open Cxx Posix

/-! ### Statements -/

/-- `std::hash<std::string>{}(path) % serverCount`, for processes that agree on the hash. -/
def placeOf (hash : String → SizeT) (serverCount : Nat) (path : String) : Int :=
  ((hash path).val % serverCount : Nat)

/-- The server has the file behind a descriptor, in the mover's queues or in its
    cache, or has it open itself and not a copy of its own node. -/
inductive Server.WorksOn (bbpath : String) (s : Server) (path : String) : Prop where
  | named {fd : Int} (h : s.fdToPath.find? fd = some path)
  | queued (h : path ∈ s.localList ++ s.dataQueue)
  | cached {copy : String} (h : s.pathCacheMap.find? path = some copy)
  | opened {r : Int} {g : OpenFile String} (h : s.fds.find? r = some g) (hfile : g.file = path)
      (hshared : ¬ underBB bbpath path)

/-- The directory the mover has made, or the copy it writes, is of its own node. -/
def MoverPc.OnNode (bbpath : String) : MoverPc → Prop
  | .made dir => ∃ suffix, dir = bbpath ++ "/" ++ suffix
  | .copying dest => underBB bbpath dest
  | .copied dest => underBB bbpath dest
  | .waiting => True
  | .ready => True
  | .finished => True

/-- Every shared file the server works on is `mine`. -/
structure Server.HoldsOnly (bbpath : String) (mine : String → Prop) (s : Server) : Prop where
  named : ∀ fd path, s.fdToPath.find? fd = some path → mine path
  queued : ∀ path ∈ s.localList ++ s.dataQueue, mine path
  cached : ∀ path copy, s.pathCacheMap.find? path = some copy → mine path ∧ underBB bbpath copy
  opened : ∀ r g, s.fds.find? r = some g → mine g.file ∨ underBB bbpath g.file
  mover : s.mover.OnNode bbpath

variable {bbpath : String} {mine : String → Prop}

theorem Server.HoldsOnly.of_worksOn {s : Server} (h : s.HoldsOnly bbpath mine) {path : String}
    (hworks : s.WorksOn bbpath path) : mine path := by
  cases hworks with
  | named hfd => exact h.named _ path hfd
  | queued hmem => exact h.queued path hmem
  | cached hcopy => exact (h.cached path _ hcopy).1
  | opened hfd hfile hshared =>
    subst hfile
    exact (h.opened _ _ hfd).resolve_right hshared

theorem Server.holdsOnly_init (bbpath : String) (mine : String → Prop) :
    Server.init.HoldsOnly bbpath mine where
  named fd path h := by cases h
  queued path h := by cases h
  cached path copy h := by cases h
  opened r g h := by cases h
  mover := trivial

/-! ### One server -/

section Server

variable {rl : ReadLen} {files : Files} {s s' : Server}

namespace Server.HoldsOnly

/-- What a handler leaves: the cache and the mover are not its own. -/
theorem setTables (h : s.HoldsOnly bbpath mine) {alive : Bool} {fds : FdTable String}
    {fdToPath : OrdMap Int String} {dataQueue : List String}
    (hopened : ∀ r g, fds.find? r = some g → mine g.file ∨ underBB bbpath g.file)
    (hnamed : ∀ fd path, fdToPath.find? fd = some path → mine path)
    (hqueued : ∀ path ∈ dataQueue, mine path) :
    Server.HoldsOnly bbpath mine
      { s with alive := alive, fds := fds, fdToPath := fdToPath, dataQueue := dataQueue } where
  named := hnamed
  queued path hmem := by
    rcases List.mem_append.mp hmem with hlocal | hdata
    · exact h.queued path (List.mem_append_left _ hlocal)
    · exact hqueued path hdata
  cached := h.cached
  opened := hopened
  mover := h.mover

theorem data (h : s.HoldsOnly bbpath mine) : ∀ path ∈ s.dataQueue, mine path :=
  fun path hmem => h.queued path (List.mem_append_right _ hmem)

theorem moved (h : s.HoldsOnly bbpath mine) {fd : Int} {fds : FdTable String}
    (hmoves : MovesOnly fd s.fds fds) :
    ∀ r g, fds.find? r = some g → mine g.file ∨ underBB bbpath g.file := by
  intro r g hg
  obtain ⟨f, hf, hfile, -⟩ := hmoves.exists_before hg
  rw [hfile]
  exact h.opened r f hf

/-- A log line that asks for an unknown descriptor enters the empty name. -/
theorem named_index (h : s.HoldsOnly bbpath mine) (hempty : mine "") (fd : Int) :
    ∀ fd' path, (s.fdToPath.index fd "").2.find? fd' = some path → mine path := by
  intro fd' path hpath
  rcases OrdMap.of_find?_index hpath with hbefore | rfl
  · exact h.named fd' path hbefore
  · exact hempty

theorem openRpcHandler (h : s.HoldsOnly bbpath mine) {path : String} {ret : Int}
    {reply : Option Reply} (hpath : mine path)
    (hopen : s.openRpcHandler bbpath files path ret = some (s', reply)) :
    s'.HoldsOnly bbpath mine := by
  have hnamed : ∀ fd p, (s.fdToPath.insert ret path).find? fd = some p → mine p := by
    intro fd p hp
    rw [OrdMap.find?_insert] at hp
    split at hp
    · cases hp
      exact hpath
    · exact h.named fd p hp
  obtain ⟨-, ⟨-, rfl⟩ | ⟨c, -, -, -, -, rfl⟩⟩ := Server.openRpcHandler_eq_some hopen
  · exact h.setTables h.opened hnamed h.data
  · refine h.setTables ?_ hnamed h.data
    intro r g hg
    rw [OrdMap.find?_insert] at hg
    split at hg
    · cases hg
      -- the name that is opened is the path or a copy from the cache
      dsimp only [Server.redirPath]
      rcases hcache : s.pathCacheMap.find? path with _ | copy
      · exact Or.inl hpath
      · exact Or.inr (h.cached path copy hcache).2
    · exact h.opened r g hg

theorem closeRpcHandler (h : s.HoldsOnly bbpath mine) (hempty : mine "") (fd : Int) :
    (s.closeRpcHandler fd).HoldsOnly bbpath mine := by
  have hpath : mine (s.fdToPath.index fd "").1 := by
    rcases OrdMap.index_fst s.fdToPath fd "" with hfind | hdefault
    · exact h.named fd _ hfind
    · rw [hdefault]
      exact hempty
  apply h.setTables
  · intro r g hg
    rw [find?_sysClose] at hg
    split at hg
    · cases hg
    · exact h.opened r g hg
  · exact fun fd' path hpath' =>
      h.named_index hempty fd fd' path (OrdMap.find?_of_find?_erase hpath')
  · intro path hmem
    split at hmem
    · rcases List.mem_append.mp hmem with hmem | hmem
      · exact h.data path hmem
      · rw [List.mem_singleton.mp hmem]
        exact hpath
    · exact h.data path hmem

/-- Only an open brings a name with it. -/
theorem handle (h : s.HoldsOnly bbpath mine) (hempty : mine "") {remote : Int} {request : Request}
    {reply : Option Reply} (hpath : ∀ path localfd, request = .openIn path localfd → mine path)
    (hhandle : s.handle rl bbpath files remote request = some (s', reply)) :
    s'.HoldsOnly bbpath mine := by
  unfold Server.handle at hhandle
  split at hhandle
  · cases request with
    | openIn path localfd => exact h.openRpcHandler (hpath path localfd rfl) hhandle
    | rpcIn inputVal accessfd localfd offset =>
      have hs' : (s.rpcHandler rl bbpath files inputVal accessfd offset remote).1 = s' :=
        congrArg Prod.fst (Option.some.inj hhandle)
      rw [← hs']
      obtain ⟨alive, fds, hmoves, heq | heq⟩ :=
        @Server.rpcHandler_shape bbpath files rl s inputVal accessfd offset remote
      · rw [heq]
        exact h.setTables h.opened h.named h.data
      · rw [heq]
        exact h.setTables (h.moved hmoves) (h.named_index hempty accessfd) h.data
    | seekIn fd offset whence =>
      cases hhandle
      exact h.setTables (h.moved (sysSeek_movesOnly ..)) h.named h.data
    | closeIn fd =>
      cases hhandle
      exact h.closeRpcHandler hempty fd
  · cases hhandle
    exact h

/-- The mover caches what was queued, under a name of its own node. -/
theorem moverStep (h : s.HoldsOnly bbpath mine) {step : MoverStep}
    (hstep : s.moverStep bbpath files step = some s') : s'.HoldsOnly bbpath mine := by
  have hmover := h.mover
  cases Server.moverStep_leaves hstep with
  | drain =>
    refine ⟨h.named, fun path hmem => h.queued path ?_, h.cached, h.opened, trivial⟩
    simpa only [List.append_nil] using hmem
  | mkdtempFailed => exact ⟨h.named, h.queued, h.cached, h.opened, trivial⟩
  | mkdtemp => exact ⟨h.named, h.queued, h.cached, h.opened, _, rfl⟩
  | @copyBegin dir path rest c hmade =>
    rw [hmade] at hmover
    obtain ⟨suffix, rfl⟩ := hmover
    exact ⟨h.named, h.queued, h.cached, h.opened, underBB_copyName bbpath suffix path⟩
  | copyChunk => exact ⟨h.named, h.queued, h.cached, h.opened, h.mover⟩
  | copyEnd hcopying =>
    rw [hcopying] at hmover
    exact ⟨h.named, h.queued, h.cached, h.opened, hmover⟩
  | copyFail => exact ⟨h.named, h.queued, h.cached, h.opened, trivial⟩
  | @publish dest path rest hcopied hlist =>
    rw [hcopied] at hmover
    refine ⟨h.named, h.queued, fun p q hp => ?_, h.opened, trivial⟩
    rw [OrdMap.find?_insert] at hp
    split at hp
    · next hsame =>
      cases hp
      have hhead : path ∈ s.localList ++ s.dataQueue := by
        rw [hlist]
        exact List.mem_append_left _ List.mem_cons_self
      rw [hsame]
      exact ⟨h.queued path hhead, hmover⟩
    · exact h.cached p q hp
  | @pop path rest hfinished hlist =>
    refine ⟨h.named, fun p hmem => h.queued p ?_, h.cached, h.opened, ?_⟩
    · rw [hlist]
      exact List.mem_cons_of_mem path hmem
    · dsimp only
      split <;> trivial

end Server.HoldsOnly

end Server

/-! ### What the processes send -/

section Sends

variable {env : Env} {rl : ReadLen} {c : Client}

/-- An open goes where the path hashes to; nothing else carries a path. -/
theorem Call.host_of_openIn {answer : Int → Request → Option Reply} {call : Call} {host : Int}
    {path : String} {localfd : Int}
    (h : (host, .openIn path localfd) ∈ (call.perform env answer c).sent) :
    host = c.hashHost env path := by
  cases call with
  | openFile name flags fd =>
    simp only [Call.perform, Effect.toStep, hvacTrackFile] at h
    rcases htrack : trackPath env name flags with _ | file
    · rw [htrack] at h
      cases h
    · simp only [htrack, Client.initMercury_setMaps] at h
      have hsame : ({ c.initMercury env with fdMap := c.fdMap.insert fd file }).hashHost env file =
          c.hashHost env file := c.hashHost_initMercury file
      split at h
      all_goals
        simp only [List.mem_singleton, Prod.mk.injEq, Request.openIn.injEq] at h
        obtain ⟨rfl, rfl, -⟩ := h
        exact hsame
  | read fd count =>
    simp only [Call.perform, Effect.toStep, hvacRemoteRead, Client.genReadRpc] at h
    split at h
    · cases h
    · split at h <;> simp at h
  | pread fd count offset =>
    simp only [Call.perform, Effect.toStep, hvacRemotePread, Client.genReadRpc] at h
    split at h
    · cases h
    · split at h
      · cases h
      · split at h
        · cases h
        · split at h <;> simp at h
  | lseek fd offset whence =>
    simp only [Call.perform, Effect.toStep, hvacRemoteLseek, Client.genSeekRpc] at h
    split at h
    · cases h
    · split at h
      · cases h
      · split at h <;> simp at h
  | close fd => exact absurd (hvacRemoveFd_sent h) id

theorem CallLeaves.serverCount_eq {c' : Client} (h : CallLeaves env c c') :
    c'.gHvacServerCount = c.gHvacServerCount := by
  cases h with
  | maps => rfl
  | failed => rfl

theorem OpenLeaves.serverCount_eq {c' : Client} (h : OpenLeaves env c c') :
    c'.gHvacServerCount = c.gHvacServerCount := by
  have hinit : (c.initMercury env).gHvacServerCount = c.gHvacServerCount := by
    unfold Client.initMercury
    split <;> rfl
  cases h with
  | untracked => rfl
  | answered => exact hinit
  | unanswered => exact hinit

theorem Call.perform_serverCount (answer : Int → Request → Option Reply) (c : Client)
    (call : Call) : (call.perform env answer c).client.gHvacServerCount = c.gHvacServerCount := by
  rcases hcall : call.descriptor with _ | fd
  · cases call with
    | openFile path flags fd => exact (hvacTrackFile_leaves answer c path flags fd).serverCount_eq
    | read | pread | lseek | close => cases hcall
  · exact (perform_leaves answer c hcall).serverCount_eq

/-- An intercepted call leaves the client to the remote one, if there is one. -/
theorem AppCall.perform_client {answer : Files → Int → Request → Option Reply} {p : Proc}
    {call : AppCall} {e : Effect Proc Reply} (h : call.perform env rl answer p = some e) :
    (e.state.client = p.client ∧ e.sent = []) ∨
      ∃ (remote : Call) (answer' : Int → Request → Option Reply),
        e.state.client = (remote.perform env answer' p.client).client ∧
        e.sent = (remote.perform env answer' p.client).sent := by
  cases call with
  | read64 fd count =>
    obtain rfl := Option.some.inj h
    exact Or.inl ⟨rfl, rfl⟩
  | readv fd iov =>
    obtain rfl := Option.some.inj h
    exact Or.inl ⟨rfl, rfl⟩
  | write fd data =>
    obtain rfl := Option.some.inj h
    left
    dsimp only [Effect.ofRet, wrapWrite, realWrite]
    split <;> exact ⟨rfl, rfl⟩
  | read fd count =>
    obtain rfl := Option.some.inj h
    refine Or.inr ⟨.read fd count, answer p.files, ?_, Effect.andThen_sent ..⟩
    apply Effect.andThen_state_client
    intro s a
    dsimp only
    split <;> rfl
  | pread fd count offset =>
    obtain rfl := Option.some.inj h
    unfold wrapPread
    split
    · refine Or.inr ⟨.pread fd count offset, answer p.files, ?_, Effect.andThen_sent ..⟩
      apply Effect.andThen_state_client
      intro s a
      split <;> rfl
    · exact Or.inl ⟨rfl, rfl⟩
  | lseek fd offset whence =>
    obtain rfl := Option.some.inj h
    dsimp only [Effect.ofRet]
    unfold wrapLseek
    split
    · refine Or.inr ⟨.lseek fd offset whence, answer p.files, ?_, Effect.andThen_sent ..⟩
      exact Effect.andThen_state_client _ _ _ fun _ _ => rfl
    · exact Or.inl ⟨rfl, rfl⟩
  | close fd =>
    obtain rfl := Option.some.inj h
    dsimp only [Effect.ofRet]
    unfold wrapClose
    split
    · refine Or.inr ⟨.close fd, answer p.files, ?_, Effect.andThen_sent ..⟩
      exact Effect.andThen_state_client _ _ _ fun _ _ => rfl
    · exact Or.inl ⟨rfl, rfl⟩
  | openFile path flags ret =>
    obtain ⟨e', hopen, rfl⟩ := Option.map_eq_some_iff.mp h
    unfold wrapOpen openAndTrack at hopen
    rcases hreal : realOpen env p path flags ret with _ | q
    · rw [hreal] at hopen
      cases hopen
    · have hclient := realOpen_client hreal
      simp only [hreal] at hopen
      split at hopen
      · obtain rfl := Option.some.inj hopen
        exact Or.inl ⟨hclient, rfl⟩
      · obtain rfl := Option.some.inj hopen
        rw [← hclient]
        refine Or.inr ⟨.openFile path flags ret, answer q.files, ?_, ?_⟩
        · exact Effect.andThen_state_client _ _ _ fun _ _ => rfl
        · exact Effect.andThen_sent (hvacTrackFile env (answer q.files) q.client path flags ret) q
            fun s _ => (s, ret)

end Sends

/-! ### The deployment -/

section Runs

variable {K : Type} [DecidableEq K] {env : K → Env} {rl : ReadLen} {hash : String → SizeT} {N : Nat}
  {net net' : Net} {files : Files} {d d' : Deployment K}

/-- What may be at server `host`. -/
def AtHome (hash : String → SizeT) (N : Nat) (host : Int) (path : String) : Prop :=
  path = "" ∨ host = placeOf hash N path

/-- Each server has what hashes to it. -/
def Net.Placed (bbpath : String) (hash : String → SizeT) (N : Nat) (net : Net) : Prop :=
  ∀ host, (net.servers host).HoldsOnly bbpath (AtHome hash N host)

theorem Net.Placed.setServer (h : net.Placed bbpath hash N) {host : Int} {server : Server}
    (hserver : server.HoldsOnly bbpath (AtHome hash N host)) :
    (net.setServer host server).Placed bbpath hash N := by
  intro host'
  rw [Net.servers_setServer]
  split
  · next hsame =>
    rw [hsame]
    exact hserver
  · exact h host'

/-- The requests of one call. -/
theorem Net.Placed.serve (h : net.Placed bbpath hash N) {remote : Int} {sent : List (Int × Request)}
    (hsent : ∀ host path localfd, (host, .openIn path localfd) ∈ sent → host = placeOf hash N path)
    (hserve : net.serve rl bbpath remote files sent = some net') : net'.Placed bbpath hash N := by
  induction sent generalizing net with
  | nil =>
    obtain rfl := Option.some.inj hserve
    exact h
  | cons x sent ih =>
    obtain ⟨host, request⟩ := x
    have hrest : ∀ host path localfd, (host, .openIn path localfd) ∈ sent →
        host = placeOf hash N path :=
      fun host path localfd hmem => hsent host path localfd (List.mem_cons_of_mem _ hmem)
    have hpath : ∀ path localfd, request = .openIn path localfd → AtHome hash N host path := by
      rintro path localfd rfl
      exact Or.inr (hsent host path localfd List.mem_cons_self)
    cases request with
    | closeIn fd =>
      have hsame : Net.Placed bbpath hash N
          { net with inFlight := net.inFlight ++ [(host, fd)] } := h
      exact ih hsame hrest hserve
    | openIn | rpcIn | seekIn =>
      simp only [Net.serve] at hserve
      split at hserve
      · cases hserve
      · next server reply hhandle =>
        exact ih (h.setServer ((h host).handle (Or.inl rfl) hpath hhandle)) hrest hserve

/-- A close request can reach any server; it finds a name of that server's own. -/
theorem Net.Placed.deliver (h : net.Placed bbpath hash N) {i : Nat}
    (hdeliver : net.deliver i = some net') : net'.Placed bbpath hash N := by
  unfold Net.deliver at hdeliver
  rcases hi : net.inFlight[i]? with _ | ⟨host, fd⟩
  · rw [hi] at hdeliver
    cases hdeliver
  · simp only [hi, Option.some.injEq] at hdeliver
    subst hdeliver
    apply h.setServer
    split
    · exact (h host).closeRpcHandler (Or.inl rfl) fd
    · exact h host

/-- Every process counts the same servers. -/
structure Deployment.Placed (bbpath : String) (hash : String → SizeT) (N : Nat)
    (d : Deployment K) : Prop where
  count : ∀ k, (d.nodes k).client.gHvacServerCount = N
  net : d.net.Placed bbpath hash N

omit [DecidableEq K] in
theorem placed_start (env : K → Env) (bbpath : String) (hash : String → SizeT) (N : Nat)
    (files : Files) : (deploymentStart env N files).Placed bbpath hash N where
  count _ := rfl
  net host := Server.holdsOnly_init bbpath (AtHome hash N host)

/-- One call of one process. -/
theorem Deployment.Placed.call (h : d.Placed bbpath hash N) (hhash : ∀ k, (env k).hash = hash)
    {k : K} {call : AppCall} {remote : Int} {s : Sys} {o : Option (Outcome Reply)}
    (hstep : (sysMachine (env k) rl bbpath).step (d.sys k) (.call call remote) = some (s, o)) :
    (d.put k s).Placed bbpath hash N := by
  simp only [sysMachine, running_of_step hstep, if_true] at hstep
  rcases hcall : call.perform (env k) rl ((d.sys k).net.answer rl bbpath remote) (d.sys k).proc with
    _ | e
  · rw [hcall] at hstep
    cases hstep
  · rcases hserve : (d.sys k).net.serve rl bbpath remote e.state.files e.sent with _ | net
    · simp only [hcall, hserve] at hstep
      cases hstep
    · simp only [hcall, hserve, Option.some.injEq, Prod.mk.injEq] at hstep
      obtain ⟨rfl, -⟩ := hstep
      have hclient : e.state.client.gHvacServerCount = N ∧
          ∀ host path localfd, (host, .openIn path localfd) ∈ e.sent →
            host = placeOf hash N path := by
        obtain ⟨hsame, hnone⟩ | ⟨remote, answer, hclient, hsent⟩ := AppCall.perform_client hcall
        · rw [hsame, hnone]
          exact ⟨h.count k, fun _ _ _ hmem => absurd hmem List.not_mem_nil⟩
        · rw [hclient, hsent, Call.perform_serverCount]
          refine ⟨h.count k, fun host path localfd hmem => ?_⟩
          rw [Call.host_of_openIn hmem, Client.hashHost, hhash]
          exact congrArg (fun n => placeOf hash n path) (h.count k)
      refine ⟨fun k' => ?_, h.net.serve hclient.2 hserve⟩
      simp only [Deployment.put]
      by_cases hk : k' = k
      · rw [hk, Function.update_self]
        exact hclient.1
      · rw [Function.update_of_ne hk]
        exact h.count k'

theorem Deployment.Placed.step (h : d.Placed bbpath hash N) (hhash : ∀ k, (env k).hash = hash)
    {label : CrashLabel K} {o : Option (Option (K × Outcome Reply))}
    (hstep : (crashMachine env rl bbpath).step d label = some (d', o)) :
    d'.Placed bbpath hash N := by
  cases label with
  | crash host =>
    cases hstep
    have hdown : Server.HoldsOnly bbpath (AtHome hash N host)
        { d.net.servers host with alive := false } :=
      (h.net host).setTables (h.net host).opened (h.net host).named (h.net host).data
    exact ⟨h.count, h.net.setServer hdown⟩
  | step label =>
    simp only [crashMachine] at hstep
    rcases hplain : (deploymentMachine env rl bbpath).step d label with _ | ⟨d₁, out⟩
    · rw [hplain] at hstep
      cases hstep
    · simp only [hplain, Option.some.injEq, Prod.mk.injEq] at hstep
      obtain ⟨rfl, -⟩ := hstep
      cases label with
      | call k call remote =>
        simp only [deploymentMachine] at hplain
        rcases hcall : (sysMachine (env k) rl bbpath).step (d.sys k) (.call call remote) with
          _ | ⟨s, o₁⟩
        · rw [hcall] at hplain
          cases hplain
        · simp only [hcall, Option.some.injEq, Prod.mk.injEq] at hplain
          obtain ⟨rfl, -⟩ := hplain
          exact h.call hhash hcall
      | deliver i =>
        simp only [deploymentMachine] at hplain
        rcases hdeliver : d.net.deliver i with _ | net
        · rw [hdeliver] at hplain
          cases hplain
        · simp only [hdeliver, Option.some.injEq, Prod.mk.injEq] at hplain
          obtain ⟨rfl, -⟩ := hplain
          exact ⟨h.count, h.net.deliver hdeliver⟩
      | mover host step =>
        simp only [deploymentMachine] at hplain
        split at hplain
        · rcases hmove : (d.net.servers host).moverStep bbpath d.files step with _ | server
          · rw [hmove] at hplain
            cases hplain
          · simp only [hmove, Option.some.injEq, Prod.mk.injEq] at hplain
            obtain ⟨rfl, -⟩ := hplain
            exact ⟨h.count, h.net.setServer ((h.net host).moverStep hmove)⟩
        · cases hplain

/-- **A file is at one server at most.**  Whatever the processes call, however their
    requests are routed and delivered, and whichever servers crash: a server has only
    such files open, queued or cached as hash to it. -/
theorem placed_run (hhash : ∀ k, (env k).hash = hash) (files : Files)
    {labels : List (CrashLabel K)} {os : List (Option (Option (K × Outcome Reply)))}
    (hrun : (crashMachine env rl bbpath).run (deploymentStart env N files) labels = some (d, os))
    {host : Int} {path : String} (hne : path ≠ "")
    (hworks : (d.net.servers host).WorksOn bbpath path) : host = placeOf hash N path := by
  have hstep : ∀ (d : Deployment K) (label : CrashLabel K) (d' : Deployment K)
      (o : Option (Option (K × Outcome Reply))), d.Placed bbpath hash N →
      (crashMachine env rl bbpath).step d label = some (d', o) → d'.Placed bbpath hash N :=
    fun _ _ _ _ h hstep => h.step hhash hstep
  have hplaced : d.Placed bbpath hash N :=
    Machine.run_of_step hstep (placed_start env bbpath hash N files) hrun
  exact ((hplaced.net host).of_worksOn hworks).resolve_left hne

/-- The ring leads both closes to server `1`, which has opened nothing; one of them
    stays on its way. -/
def misrouted : List (CrashLabel Bool) :=
  [.step (.call true (.openFile "/data/a" O_RDONLY 3) 5),
    .step (.call false (.openFile "/data/a" O_RDONLY 3) 6), .step (.call true (.close 3) 0),
    .step (.deliver 0), .step (.mover 1 .drain), .step (.call false (.close 3) 0)]

theorem placed_run_misrouted :
    ∃ d os, (crashMachine (fun _ : Bool => zeroHashEnv) ReadLen.full "/bb").run
        (deploymentStart (fun _ => zeroHashEnv) 2 threeBytes) misrouted = some (d, os) ∧
      (d.net.servers 1).localList = [""] ∧
      (d.net.servers 0).WorksOn "/bb" "/data/a" ∧ 0 = placeOf zeroHashEnv.hash 2 "/data/a" := by
  have hsome : ((crashMachine (fun _ : Bool => zeroHashEnv) ReadLen.full "/bb").run
      (deploymentStart (fun _ => zeroHashEnv) 2 threeBytes) misrouted).isSome = true := by
    decide +kernel
  have hqueue : ((crashMachine (fun _ : Bool => zeroHashEnv) ReadLen.full "/bb").run
      (deploymentStart (fun _ => zeroHashEnv) 2 threeBytes) misrouted).map (fun r =>
        ((r.1.net.servers 1).localList, (r.1.net.servers 0).fdToPath.find? 5)) =
      some ([""], some "/data/a") := by
    decide +kernel
  obtain ⟨⟨d, os⟩, hrun⟩ := Option.isSome_iff_exists.mp hsome
  rw [hrun, Option.map_some, Option.some.injEq, Prod.mk.injEq] at hqueue
  have hworks : (d.net.servers 0).WorksOn "/bb" "/data/a" := .named hqueue.2
  exact ⟨d, os, hrun, hqueue.1, hworks, placed_run (fun _ => rfl) threeBytes hrun (by decide) hworks⟩

end Runs

end Hvac
