/-
  Hvac/System.lean
  ================
  **One application and its servers**: the intercepted calls of a process, the
  close requests on their way, and the steps of the data movers.

  A call that waits for an answer gets it from the server it asked, in the state
  the server is in; a close request has no response and is handled whenever it is
  delivered.  Descriptor numbers, on both sides, are in the labels.

  `Linked` relates the client's tables to the servers: a tracked descriptor has a
  remote one, open at the server its path hashes to and reading that path, unless
  the remote open was refused; no two tracked descriptors share one, and none of
  them is in a close request that is still on its way.
-/
import Hvac.ServerInv
import Hvac.Calm

namespace Hvac

open Cxx Posix

/-! ### State and steps -/

structure Net where
  servers : Int → Server
  inFlight : List (Int × Int)

structure Sys where
  proc : Proc
  status : Status
  net : Net

inductive AppCall where
  | openFile (path : String) (flags : OFlags) (ret : Int)
  | read (fd : Int) (count : Nat)
  | pread (fd : Int) (count : Nat) (offset : Int)
  | lseek (fd offset whence : Int)
  | close (fd : Int)
  | read64 (fd : Int) (count : Nat)
  | readv (fd : Int) (iov : List Nat)
  | write (fd : Int) (data : Contents)
deriving DecidableEq

/-- `remote` is the number a server's kernel gives to a new descriptor (`-1` when
    its open fails); `deliver` names a close request by its place. -/
inductive SysLabel where
  | call (call : AppCall) (remote : Int)
  | deliver (i : Nat)
  | mover (host : Int) (step : MoverStep)
deriving DecidableEq

def Outcome.map {α β : Type} (f : α → β) : Outcome α → Outcome β
  | .returned a => .returned (f a)
  | .blocked => .blocked
  | .exited code => .exited code
  | .threw what => .threw what

theorem Outcome.returned_of_step {σ α : Type} {s s' : σ} {a b : α}
    (h : some (s, some (Outcome.returned a)) = some (s', some (.returned b))) : a = b := by
  have houtcome := congrArg Prod.snd (Option.some.inj h)
  exact Outcome.returned.inj (Option.some.inj houtcome)

/-- A call that returns a number only. -/
def Effect.ofRet (e : Effect Proc Int) : Effect Proc Reply :=
  ⟨e.state, e.sent, e.outcome.map fun ret => ⟨ret, []⟩⟩

variable (env : Env) (rl : ReadLen) (kept : String → String → Prop) (bbpath : String)

def AppCall.perform (answer : Files → Int → Request → Option Reply) (p : Proc) :
    AppCall → Option (Effect Proc Reply)
  | .openFile path flags ret => (wrapOpen env answer p path flags ret).map Effect.ofRet
  | .read fd count => some (wrapRead env rl answer p fd count)
  | .pread fd count offset => some (wrapPread env rl answer p fd count offset)
  | .lseek fd offset whence => some (wrapLseek env answer p fd offset whence).ofRet
  | .close fd => some (wrapClose env p fd).ofRet
  | .read64 fd count => some (wrapRead64 rl p fd count)
  | .readv fd iov => some (wrapReadv rl p fd iov)
  | .write fd data => some (wrapWrite p fd data).ofRet

namespace Net

/-- The reply of the server that is asked. -/
def answer (net : Net) (remote : Int) (files : Files) (host : Int) (request : Request) :
    Option Reply :=
  match (net.servers host).handle rl bbpath files remote request with
  | none => none
  | some (_, reply) => reply

def setServer (net : Net) (host : Int) (server : Server) : Net :=
  { net with servers := Function.update net.servers host server }

/-- The requests a call sent take effect; `none` when a server cannot give out the
    number `remote`. -/
def serve (remote : Int) (files : Files) : Net → List (Int × Request) → Option Net
  | net, [] => some net
  | net, (host, .closeIn fd) :: rest =>
      serve remote files { net with inFlight := net.inFlight ++ [(host, fd)] } rest
  | net, (host, request) :: rest =>
      match (net.servers host).handle rl bbpath files remote request with
      | none => none
      | some (server, _) => serve remote files (net.setServer host server) rest

/-- A close request reaches its server. -/
def deliver (net : Net) (i : Nat) : Option Net :=
  match net.inFlight[i]? with
  | none => none
  | some (host, fd) =>
      let server := net.servers host
      some { net.setServer host (if server.alive then server.closeRpcHandler fd else server) with
        inFlight := net.inFlight.eraseIdx i }

end Net

/-- The observation of a call is its outcome. -/
def sysMachine : Machine Sys SysLabel (Option (Outcome Reply)) where
  step s
    | .call call remote =>
        if s.status = .running then
          match call.perform env rl (s.net.answer rl bbpath remote) s.proc with
          | none => none
          | some e =>
              match s.net.serve rl bbpath remote e.state.files e.sent with
              | none => none
              | some net => some (⟨e.state, e.outcome.status, net⟩, some e.outcome)
        else none
    | .deliver i =>
        match s.net.deliver i with
        | none => none
        | some net => some ({ s with net := net }, none)
    | .mover host step =>
        if (s.net.servers host).alive then
          match (s.net.servers host).moverStep bbpath s.proc.files step with
          | none => none
          | some server => some ({ s with net := s.net.setServer host server }, none)
        else none

def sysStart (serverCount : Nat) (files : Files) : Sys where
  proc := ⟨hvacClientInit env serverCount, OrdMap.empty, files⟩
  status := .running
  net := ⟨fun _ => Server.init, []⟩

/-- `std::hash<std::string>{}(path) % serverCount`. -/
def hostOf (serverCount : Nat) (path : String) : Int := ((env.hash path).val % serverCount : Nat)

/-! ### Client and servers -/

/-- A descriptor for `path` with remote number `r`. -/
def RemoteOpen (host : String → Int) (files : Files) (net : Net) (path : String) (r : Int) : Prop :=
  (net.servers (host path)).Serves kept bbpath files r path ∧ (host path, r) ∉ net.inFlight

structure Linked (host : String → Int) (fdMap : OrdMap Int String) (fdRedirMap : OrdMap Int Int)
    (files : Files) (net : Net) : Prop where
  entries : ∀ fd path, fdMap.find? fd = some path →
    ¬ underBB bbpath path ∧ ∃ r, fdRedirMap.find? fd = some r ∧
      (r = -1 ∨ RemoteOpen kept bbpath host files net path r)
  distinct : ∀ fd fd' path path' r, fdMap.find? fd = some path → fdMap.find? fd' = some path' →
    fdRedirMap.find? fd = some r → fdRedirMap.find? fd' = some r → r ≠ -1 →
    host path = host path' → fd = fd'
  flight : ∀ h r, (h, r) ∈ net.inFlight → r ≠ -1 → (net.servers h).fds.find? r ≠ none
  nodup : net.inFlight.Pairwise fun x y => x = y → x.2 = -1
  servers : ∀ h, ServerInv kept bbpath files (net.servers h)

variable {env rl bbpath kept}

section Linked

variable {host : String → Int} {fdMap fdMap' : OrdMap Int String}
  {fdRedirMap fdRedirMap' : OrdMap Int Int} {files : Files} {net : Net}

theorem linked_init (kept : String → String → Prop) (bbpath : String) (host : String → Int)
    (files : Files) :
    Linked kept bbpath host OrdMap.empty OrdMap.empty files ⟨fun _ => Server.init, []⟩ where
  entries fd path h := by cases h
  distinct fd fd' path path' r h := by cases h
  flight h r hr := by cases hr
  nodup := List.Pairwise.nil
  servers _ := serverInv_init kept bbpath files

/-- Fewer tracked descriptors. -/
theorem Linked.untrack (h : Linked kept bbpath host fdMap fdRedirMap files net)
    (hmap : ∀ fd path, fdMap'.find? fd = some path → fdMap.find? fd = some path)
    (hredir : ∀ fd path, fdMap'.find? fd = some path →
      fdRedirMap'.find? fd = fdRedirMap.find? fd) :
    Linked kept bbpath host fdMap' fdRedirMap' files net where
  entries fd path hpath := by
    rw [hredir fd path hpath]
    exact h.entries fd path (hmap fd path hpath)
  distinct fd fd' path path' r hpath hpath' hr hr' := by
    rw [hredir fd path hpath] at hr
    rw [hredir fd' path' hpath'] at hr'
    exact h.distinct fd fd' path path' r (hmap _ _ hpath) (hmap _ _ hpath') hr hr'
  flight := h.flight
  nodup := h.nodup
  servers := h.servers

theorem Net.servers_setServer (net : Net) (k h : Int) (server : Server) :
    (net.setServer k server).servers h = if h = k then server else net.servers h := by
  simp only [Net.setServer, Function.update_apply]

@[simp] theorem Net.servers_setServer_self (net : Net) (k : Int) (server : Server) :
    (net.setServer k server).servers k = server := by
  rw [Net.servers_setServer, if_pos rfl]

/-- One server moves on without losing a descriptor that is in use. -/
theorem Linked.setServer (h : Linked kept bbpath host fdMap fdRedirMap files net) {k : Int}
    {server : Server} (hinv : ServerInv kept bbpath files server)
    (hserves : ∀ r p, (net.servers k).Serves kept bbpath files r p →
      server.Serves kept bbpath files r p)
    (hopen : ∀ r, (net.servers k).fds.find? r ≠ none → server.fds.find? r ≠ none) :
    Linked kept bbpath host fdMap fdRedirMap files (net.setServer k server) where
  entries fd path hpath := by
    obtain ⟨hunder, r, hr, hlink⟩ := h.entries fd path hpath
    refine ⟨hunder, r, hr, hlink.imp id fun hlink => ⟨?_, hlink.2⟩⟩
    rw [Net.servers_setServer]
    split
    · next hk =>
      have hbefore := hlink.1
      rw [hk] at hbefore
      exact hserves r path hbefore
    · exact hlink.1
  distinct := h.distinct
  flight h' r hmem hr := by
    have hbefore := h.flight h' r hmem hr
    rw [Net.servers_setServer]
    split
    · next hk => rw [hk] at hbefore; exact hopen r hbefore
    · exact hbefore
  nodup := h.nodup
  servers h' := by
    rw [Net.servers_setServer]
    split
    · exact hinv
    · exact h.servers h'

/-- A request other than a close, and an open of no node-local name. -/
theorem Linked.handle (h : Linked kept bbpath host fdMap fdRedirMap files net) {k remote : Int}
    {request : Request} {server : Server} {reply : Option Reply}
    (hpath : ∀ path localfd, request = .openIn path localfd → ¬ underBB bbpath path)
    (hclose : ∀ fd, request ≠ .closeIn fd)
    (hhandle : (net.servers k).handle rl bbpath files remote request = some (server, reply)) :
    Linked kept bbpath host fdMap fdRedirMap files (net.setServer k server) := by
  refine h.setServer ((h.servers k).handle hpath hhandle)
    (fun r p hserves => hserves.handle (hclose r) hhandle) ?_
  intro r hr
  obtain ⟨g, hg⟩ := Option.ne_none_iff_exists'.mp hr
  obtain ⟨alive, fds, fdToPath, dataQueue, rfl, hfds⟩ := Server.handle_shape hhandle
  obtain ⟨g', hg', -⟩ := hfds r g (hclose r) hg
  exact Option.ne_none_iff_exists'.mpr ⟨g', hg'⟩

theorem Linked.moverStep (h : Linked kept bbpath host fdMap fdRedirMap files net) {k : Int}
    {step : MoverStep} {server : Server}
    (hstep : (net.servers k).moverStep bbpath files step = some server) :
    Linked kept bbpath host fdMap fdRedirMap files (net.setServer k server) := by
  have hkeeps := (h.servers k).moverStep hstep
  apply h.setServer hkeeps.inv (fun r p hserves => hkeeps.serves hserves)
  intro r hr
  rw [hkeeps.fds]
  exact hr

theorem RemoteOpen.ne_neg_one (h : Linked kept bbpath host fdMap fdRedirMap files net)
    {path : String} {r : Int} (hopen : RemoteOpen kept bbpath host files net path r) : r ≠ -1 := by
  obtain ⟨⟨g, hg, -⟩, -⟩ := hopen
  have hnonneg := ((h.servers (host path)).descriptors r g hg).1
  omega

/-- A new descriptor, whose remote number no tracked descriptor of the same server
    has. -/
theorem Linked.track (h : Linked kept bbpath host fdMap fdRedirMap files net) (fd : Int)
    {path : String} {r : Int} (hunder : ¬ underBB bbpath path)
    (hr : r = -1 ∨ RemoteOpen kept bbpath host files net path r)
    (hfresh : r ≠ -1 → ∀ fd' path', fdMap.find? fd' = some path' →
      fdRedirMap.find? fd' = some r → host path' ≠ host path) :
    Linked kept bbpath host (fdMap.insert fd path) (fdRedirMap.insert fd r) files net where
  entries fd' path' hpath' := by
    rw [OrdMap.find?_insert] at hpath' ⊢
    by_cases hfd : fd' = fd
    · rw [if_pos hfd] at hpath' ⊢
      cases hpath'
      exact ⟨hunder, r, rfl, hr⟩
    · rw [if_neg hfd] at hpath' ⊢
      exact h.entries fd' path' hpath'
  distinct fd₁ fd₂ path₁ path₂ r' h₁ h₂ hr₁ hr₂ hne hhost := by
    rw [OrdMap.find?_insert] at h₁ h₂ hr₁ hr₂
    by_cases hfd₁ : fd₁ = fd
    · by_cases hfd₂ : fd₂ = fd
      · rw [hfd₁, hfd₂]
      · rw [if_pos hfd₁] at h₁ hr₁
        rw [if_neg hfd₂] at h₂ hr₂
        cases h₁
        cases hr₁
        exact absurd hhost.symm (hfresh hne fd₂ path₂ h₂ hr₂)
    · rw [if_neg hfd₁] at h₁ hr₁
      by_cases hfd₂ : fd₂ = fd
      · rw [if_pos hfd₂] at h₂ hr₂
        cases h₂
        cases hr₂
        exact absurd hhost (hfresh hne fd₁ path₁ h₁ hr₁)
      · rw [if_neg hfd₂] at h₂ hr₂
        exact h.distinct fd₁ fd₂ path₁ path₂ r' h₁ h₂ hr₁ hr₂ hne hhost
  flight := h.flight
  nodup := h.nodup
  servers := h.servers

/-- An open that the server answered. -/
theorem Linked.openIn (h : Linked kept bbpath host fdMap fdRedirMap files net) {fd remote : Int}
    {path : String} {server : Server} {out : Reply} (hunder : ¬ underBB bbpath path)
    (hhandle : (net.servers (host path)).handle rl bbpath files remote (.openIn path fd) =
      some (server, some out)) :
    Linked kept bbpath host (fdMap.insert fd path) (fdRedirMap.insert fd out.ret) files
      (net.setServer (host path) server) := by
  have hopen : (net.servers (host path)).openRpcHandler bbpath files path remote =
      some (server, some out) := by
    unfold Server.handle at hhandle
    split at hhandle
    · exact hhandle
    · cases hhandle
  obtain ⟨hreply, hcases⟩ := Server.openRpcHandler_eq_some hopen
  cases hreply
  have hlinked : Linked kept bbpath host fdMap fdRedirMap files
      (net.setServer (host path) server) := by
    apply h.handle _ _ hhandle
    · intro path' localfd heq
      obtain ⟨rfl, -⟩ := Request.openIn.inj heq
      exact hunder
    · intro fd' heq
      cases heq
  have hfree : remote ≠ -1 → (net.servers (host path)).fds.find? remote = none := by
    intro hne
    rcases hcases with ⟨hneg, -⟩ | ⟨_, -, -, hfree, -⟩
    · exact absurd hneg hne
    · exact hfree
  apply hlinked.track fd hunder
  · by_cases hne : remote = -1
    · exact Or.inl hne
    · refine Or.inr ⟨?_, fun hmem => h.flight _ _ hmem hne (hfree hne)⟩
      rw [Net.servers_setServer_self]
      exact (h.servers (host path)).serves_openRpcHandler hne hopen
  · intro hne fd' path' hpath' hr' hhost
    -- the kernel of the server gave a number that was free
    obtain ⟨-, r, hr, hlink⟩ := h.entries fd' path' hpath'
    obtain rfl := Option.some.inj (hr'.symm.trans hr)
    obtain ⟨⟨g, hg, -⟩, -⟩ := hlink.resolve_left hne
    rw [hhost, hfree hne] at hg
    cases hg

/-- A descriptor that is no longer tracked. -/
theorem Linked.erase (h : Linked kept bbpath host fdMap fdRedirMap files net) (fd : Int) :
    Linked kept bbpath host (fdMap.erase fd) (fdRedirMap.erase fd) files net := by
  apply h.untrack
  · exact fun _ _ hpath' => OrdMap.find?_of_find?_erase hpath'
  · intro fd' path' hpath'
    rw [OrdMap.find?_erase] at hpath'
    split at hpath'
    · cases hpath'
    · next hne => exact OrdMap.find?_erase_of_ne hne _

/-- The remote number of one tracked descriptor is that of no other at its server. -/
theorem Linked.ne_of_erase (h : Linked kept bbpath host fdMap fdRedirMap files net)
    {fd fd' r r' : Int} {path path' : String} (hpath : fdMap.find? fd = some path)
    (hr : fdRedirMap.find? fd = some r) (hpath' : (fdMap.erase fd).find? fd' = some path')
    (hr' : (fdRedirMap.erase fd).find? fd' = some r') (hne : r' ≠ -1) :
    (host path', r') ≠ (host path, r) := by
  intro heq
  obtain ⟨hhost, rfl⟩ := Prod.mk.inj heq
  rw [OrdMap.find?_erase] at hpath' hr'
  split at hpath'
  · cases hpath'
  · next hfd =>
    rw [if_neg hfd] at hr'
    exact hfd (h.distinct fd' fd path' path r' hpath' hpath hr' hr hne hhost)

/-- Closing a descriptor puts its remote number on the way. -/
theorem Linked.sendClose (h : Linked kept bbpath host fdMap fdRedirMap files net) {fd r : Int}
    {path : String} (hpath : fdMap.find? fd = some path) (hr : fdRedirMap.find? fd = some r) :
    Linked kept bbpath host (fdMap.erase fd) (fdRedirMap.erase fd) files
      { net with inFlight := net.inFlight ++ [(host path, r)] } := by
  obtain ⟨-, r', hr', hlink⟩ := h.entries fd path hpath
  obtain rfl : r = r' := Option.some.inj (hr.symm.trans hr')
  have hrest := h.erase fd
  refine ⟨?_, hrest.distinct, ?_, ?_, hrest.servers⟩
  · intro fd' path' hpath'
    obtain ⟨hunder, q, hq, hlink'⟩ := hrest.entries fd' path' hpath'
    refine ⟨hunder, q, hq, hlink'.imp id fun hopen => ⟨hopen.1, ?_⟩⟩
    intro hmem
    rcases List.mem_append.mp hmem with hmem | hmem
    · exact hopen.2 hmem
    · exact h.ne_of_erase hpath hr hpath' hq (hopen.ne_neg_one h) (List.mem_singleton.mp hmem)
  · intro k r' hmem hne
    rcases List.mem_append.mp hmem with hmem | hmem
    · exact h.flight k r' hmem hne
    · obtain ⟨rfl, rfl⟩ := Prod.mk.inj (List.mem_singleton.mp hmem)
      rcases hlink with hneg | ⟨⟨g, hg, -⟩, -⟩
      · exact absurd hneg hne
      · rw [hg]
        exact Option.some_ne_none g
  · rw [List.pairwise_append]
    refine ⟨h.nodup, List.pairwise_singleton _ _, ?_⟩
    intro x hx y hy hxy
    obtain rfl := List.mem_singleton.mp hy
    subst hxy
    rcases hlink with hneg | hopen
    · exact hneg
    · exact absurd hx hopen.2

/-- What a delivered request finds at its server. -/
theorem Net.deliver_eq_some {i : Nat} {net' : Net} (h : net.deliver i = some net') :
    ∃ k r server, net.inFlight[i]? = some (k, r) ∧
      (net.servers k).handle rl bbpath files (-1) (.closeIn r) = some (server, none) ∧
      net' = { net.setServer k server with inFlight := net.inFlight.eraseIdx i } := by
  unfold Net.deliver at h
  rcases hi : net.inFlight[i]? with _ | ⟨k, r⟩
  · rw [hi] at h
    cases h
  · simp only [hi, Option.some.injEq] at h
    refine ⟨k, r, _, rfl, ?_, h.symm⟩
    unfold Server.handle
    split <;> rfl

/-- Only the number of a refused open can be on the way twice. -/
theorem Linked.eq_neg_one_of_twice (h : Linked kept bbpath host fdMap fdRedirMap files net)
    {i : Nat} {k r : Int} (hi : net.inFlight[i]? = some (k, r))
    (hmem : (k, r) ∈ net.inFlight.eraseIdx i) : r = -1 := by
  obtain ⟨hlt, hget⟩ := List.getElem?_eq_some_iff.mp hi
  obtain ⟨j, hj, hji, hgetj⟩ := List.mem_eraseIdx_iff_getElem.mp hmem
  have hpair := List.pairwise_iff_getElem.mp h.nodup
  rcases Nat.lt_or_gt_of_ne hji with hlt' | hgt
  · have hneg := hpair j i hj hlt hlt' (hgetj.trans hget.symm)
    rwa [hgetj] at hneg
  · have hneg := hpair i j hlt hj hgt (hget.trans hgetj.symm)
    rwa [hget] at hneg

theorem Linked.deliver (h : Linked kept bbpath host fdMap fdRedirMap files net) {i : Nat}
    {net' : Net} (hdeliver : net.deliver i = some net') :
    Linked kept bbpath host fdMap fdRedirMap files net' := by
  obtain ⟨k, r₀, server, hi, hhandle, rfl⟩ :=
    @Net.deliver_eq_some ReadLen.full bbpath files net i net' hdeliver
  have hsub : ∀ {x}, x ∈ net.inFlight.eraseIdx i → x ∈ net.inFlight :=
    fun hx => List.mem_of_mem_eraseIdx hx
  refine ⟨?_, h.distinct, ?_, h.nodup.sublist (List.eraseIdx_sublist ..), ?_⟩
  · intro fd path hpath
    obtain ⟨hunder, r, hr, hlink⟩ := h.entries fd path hpath
    refine ⟨hunder, r, hr, hlink.imp id fun hopen => ⟨?_, fun hmem => hopen.2 (hsub hmem)⟩⟩
    have hserves := hopen.1
    simp only [Net.servers_setServer]
    split
    · next hk =>
      rw [hk] at hserves
      refine hserves.handle ?_ hhandle
      intro hsame
      obtain rfl := Request.closeIn.inj hsame
      apply hopen.2
      rw [hk]
      exact List.mem_of_getElem? hi
    · exact hserves
  · intro k' r hmem hne
    have hbefore := h.flight k' r (hsub hmem) hne
    simp only [Net.servers_setServer]
    split
    · next hk =>
      subst hk
      obtain ⟨g, hg⟩ := Option.ne_none_iff_exists'.mp hbefore
      have hdiff : Request.closeIn r₀ ≠ .closeIn r := by
        intro hsame
        obtain rfl := Request.closeIn.inj hsame
        exact hne (h.eq_neg_one_of_twice hi hmem)
      obtain ⟨alive, fds, fdToPath, dataQueue, rfl, hfds⟩ := Server.handle_shape hhandle
      obtain ⟨g', hg', -⟩ := hfds r g hdiff hg
      exact Option.ne_none_iff_exists'.mpr ⟨g', hg'⟩
    · exact hbefore
  · intro k'
    simp only [Net.servers_setServer]
    split
    · exact (h.servers k).handle (fun _ _ hopen => by cases hopen) hhandle
    · exact h.servers k'

/-- A file can change as long as no server has begun a copy of it that is kept. -/
theorem Linked.setFile (h : Linked kept bbpath host fdMap fdRedirMap files net) {p₀ : String}
    (hp₀ : ∀ q, kept p₀ q → ∀ k, (net.servers k).Unbegun p₀ q) (data : Contents) :
    Linked kept bbpath host fdMap fdRedirMap (files.insert p₀ data) net where
  entries fd path hpath := by
    obtain ⟨hunder, r, hr, hlink⟩ := h.entries fd path hpath
    exact ⟨hunder, r, hr, hlink.imp id fun hopen =>
      ⟨hopen.1.setFile (fun q hq => hp₀ q hq (host path)) data, hopen.2⟩⟩
  distinct := h.distinct
  flight := h.flight
  nodup := h.nodup
  servers k := (h.servers k).setFile (fun q hq => hp₀ q hq k) data

end Linked

end Hvac
