/-
  Hvac/Deployment.lean
  ====================
  **Any number of processes on any number of servers**, and the plain file system
  they are to be compared with.

  The processes share the files and the servers; each has its own client, its own
  descriptors and its own environment.  A call of a process is the call of
  `System.lean` on what that process sees (`Deployment.sys`), so nothing of the
  client or the server is stated again here.

    * `plainMachine`  — the same processes without the library: the calls act on
      the descriptors of the process and on the shared files;
    * `Sys.seen`      — the descriptor the application has, read off the local
      table and the server's: the local entry, at the server's position where the
      server has one open for it;
    * `WellUsed`      — the calls within the limits of the protocol, that change no
      file of which a copy was begun;
    * `NetLeaves`     — all that a call does to the servers and to the close
      requests on their way, as the other processes notice it;
    * `Sys.Accounts`  — every descriptor of a server that a call opens or gives up is
      accounted for.
-/
import Hvac.Simulation

namespace Hvac

open Cxx Posix

/-! ### State and steps -/

structure Node where
  client : Client
  fds : FdTable String
  status : Status

structure Deployment (K : Type) where
  nodes : K → Node
  files : Files
  net : Net

/-- `remote`, `i`, `host` and `step` as in `SysLabel`. -/
inductive DeploymentLabel (K : Type) where
  | call (k : K) (call : AppCall) (remote : Int)
  | deliver (i : Nat)
  | mover (host : Int) (step : MoverStep)
deriving DecidableEq

section Machines

variable {K : Type} [DecidableEq K] (env : K → Env) (rl : ReadLen) (bbpath : String)

/-- The system as process `k` sees it. -/
def Deployment.sys (d : Deployment K) (k : K) : Sys :=
  ⟨⟨(d.nodes k).client, (d.nodes k).fds, d.files⟩, (d.nodes k).status, d.net⟩

/-- What process `k` leaves. -/
def Deployment.put (d : Deployment K) (k : K) (s : Sys) : Deployment K where
  nodes := Function.update d.nodes k ⟨s.proc.client, s.proc.fds, s.status⟩
  files := s.proc.files
  net := s.net

/-- A call is observed by the process that makes it. -/
def deploymentMachine :
    Machine (Deployment K) (DeploymentLabel K) (Option (K × Outcome Reply)) where
  step d
    | .call k call remote =>
        match (sysMachine (env k) rl bbpath).step (d.sys k) (.call call remote) with
        | none => none
        | some (s, o) => some (d.put k s, o.map fun out => (k, out))
    | .deliver i =>
        match d.net.deliver i with
        | none => none
        | some net => some ({ d with net := net }, none)
    | .mover host step =>
        if (d.net.servers host).alive then
          match (d.net.servers host).moverStep bbpath d.files step with
          | none => none
          | some server => some ({ d with net := d.net.setServer host server }, none)
        else none

def deploymentStart (N : Nat) (files : Files) : Deployment K where
  nodes k := ⟨hvacClientInit (env k) N, OrdMap.empty, .running⟩
  files := files
  net := ⟨fun _ => Server.init, []⟩

/-! ### The plain file system -/

structure Plain (K : Type) where
  fds : K → FdTable String
  files : Files

/-- A process without the library: `AppCall.direct` looks at no client. -/
def Plain.proc (p : Plain K) (k : K) : Proc := ⟨hvacClientInit (env k) 0, p.fds k, p.files⟩

def plainMachine : Machine (Plain K) (DeploymentLabel K) (Option (K × Outcome Reply)) where
  step p
    | .call k call _ =>
        match call.direct (env k) rl (p.proc env k) with
        | none => none
        | some (q, out) =>
            some (⟨Function.update p.fds k q.fds, q.files⟩, some (k, .returned out))
    | .deliver _ => some (p, none)
    | .mover _ _ => some (p, none)

def plainStart (files : Files) : Plain K := ⟨fun _ => OrdMap.empty, files⟩

end Machines

/-! ### What one process sees -/

section Views

variable (env : Env) (rl : ReadLen) (bbpath : String) (N : Nat) (s : Sys)

/-- The server's descriptor behind a tracked one. -/
def Sys.remoteAt (fd : Int) : Option (OpenFile String) :=
  match s.proc.client.fdMap.find? fd, s.proc.client.fdRedirMap.find? fd with
  | some path, some r => (s.net.servers (hostOf env N path)).fds.find? r
  | _, _ => none

/-- The local descriptor, at the server's position if the server has one. -/
def Sys.seen (fd : Int) : Option (OpenFile String) :=
  (s.proc.fds.find? fd).map fun f =>
    match s.remoteAt env N fd with
    | some g => { f with pos := g.pos }
    | none => f

/-- A tracked descriptor of the process stands for `r` of server `h`. -/
def Sys.Holds (h r : Int) : Prop :=
  ∃ fd path, s.proc.client.fdMap.find? fd = some path ∧
    s.proc.client.fdRedirMap.find? fd = some r ∧ hostOf env N path = h

/-- The ring leads to the server the path hashes to. -/
def RingFollows (c : Client) (fd : Int) : Prop :=
  ∀ path ∈ c.fdMap.find? fd,
    ((c.ringHost env path).toOption.map Prod.snd) = some (hostOf env N path)

/-- The calls within the limits of the protocol: no node-local name is tracked, and
    nothing with flags that are not plain; on a tracked descriptor a count, an offset
    and the position a seek leads to fit in 32 bits, a positional read names an offset,
    no read passes the largest offset or fails at the server, a whence is a matter of
    position and size, the calls that are not redirected are not made, and the ring
    agrees with the hash.  A descriptor that no server has opened is read by position
    or closed. -/
def WithinLimits (remote : Int) : AppCall → Prop
  | .openFile path flags _ =>
      ∀ file ∈ trackPath env path flags, ¬ underBB bbpath file ∧ PlainFlags flags
  | .read fd count =>
      ∀ _path ∈ s.proc.client.fdMap.find? fd, (count < 2 ^ 31 ∧ remote ≠ -1) ∧
        ∃ g ∈ s.remoteAt env N fd, g.pos + count ≤ LOFF_MAX
  | .pread fd count offset =>
      RingFollows env N s.proc.client fd ∧
        ∀ _path ∈ s.proc.client.fdMap.find? fd, (count < 2 ^ 31 ∧ remote ≠ -1) ∧
          0 ≤ offset ∧ offset.toNat + count ≤ LOFF_MAX
  | .lseek fd offset whence =>
      RingFollows env N s.proc.client fd ∧
        ∀ path ∈ s.proc.client.fdMap.find? fd, (PlainWhence whence ∧ IsInt32 offset) ∧
          ∃ g ∈ s.remoteAt env N fd,
            ∀ x ∈ seekTarget (s.proc.files.content path).length g.pos offset whence, x < 2 ^ 31
  | .close fd => RingFollows env N s.proc.client fd
  | .read64 fd _ => s.proc.client.fdMap.find? fd = none
  | .readv fd _ => s.proc.client.fdMap.find? fd = none
  | .write fd _ => s.proc.client.fdMap.find? fd = none

instance (c : Client) (fd : Int) : Decidable (RingFollows env N c fd) :=
  inferInstanceAs (Decidable (∀ path ∈ c.fdMap.find? fd, _))

instance (remote : Int) (call : AppCall) : Decidable (WithinLimits env bbpath N s remote call) :=
  match call with
  | .openFile path flags _ => inferInstanceAs (Decidable (∀ file ∈ trackPath env path flags, _))
  | .read _ _ => inferInstanceAs (Decidable (∀ _ ∈ _, _ ∧ ∃ _ ∈ _, _))
  | .pread _ _ _ => inferInstanceAs (Decidable (_ ∧ ∀ _ ∈ _, _ ∧ _ ∧ _))
  | .lseek _ _ _ =>
      inferInstanceAs (Decidable (_ ∧ ∀ _ ∈ _, _ ∧ ∃ g ∈ _, ∀ x ∈ seekTarget _ _ _ _, _))
  | .close fd => inferInstanceAs (Decidable (RingFollows env N s.proc.client fd))
  | .read64 _ _ => inferInstanceAs (Decidable (_ = none))
  | .readv _ _ => inferInstanceAs (Decidable (_ = none))
  | .write _ _ => inferInstanceAs (Decidable (_ = none))

/-- No server has begun a copy of the file. -/
def Sys.Uncopied (file : String) : Prop := ∀ k, (s.net.servers k).Uncopied file

/-- A call changes a file as long as no server has begun to copy it. -/
def ChangesUncopied : AppCall → Prop
  | .openFile path flags ret =>
      ∀ file, env.canonical path = some file →
        ret = -1 ∨ openedContents flags (s.proc.files.find? file) = s.proc.files.find? file ∨
          s.Uncopied file
  | .write fd _ => ∀ f, s.proc.fds.find? fd = some f → s.Uncopied f.file
  | .read _ _ => True
  | .pread _ _ _ => True
  | .lseek _ _ _ => True
  | .close _ => True
  | .read64 _ _ => True
  | .readv _ _ => True

def WellUsed (remote : Int) (call : AppCall) : Prop :=
  WithinLimits env bbpath N s remote call ∧ ChangesUncopied env s call

/-- What a call does to the servers and to the requests on their way: one request to
    one server that moves or opens no descriptor of another process, or a close
    request for a descriptor of its own. -/
inductive NetLeaves (files : Files) : Net → Prop where
  | same : NetLeaves files s.net
  | handled {k remote : Int} {request : Request} {server : Server} {reply : Option Reply}
      (hpath : ∀ path localfd, request = .openIn path localfd → ¬ underBB bbpath path)
      (hclose : ∀ fd, request ≠ .closeIn fd)
      (hhandle : (s.net.servers k).handle rl bbpath files remote request = some (server, reply))
      (halive : server.alive = (s.net.servers k).alive)
      (hspares : ∀ r, (s.net.servers k).fds.find? r ≠ none → ¬ s.Holds env N k r →
        server.fds.find? r = (s.net.servers k).fds.find? r) :
      NetLeaves files (s.net.setServer k server)
  | sent {fd r : Int} {path : String} (hpath : s.proc.client.fdMap.find? fd = some path)
      (hr : s.proc.client.fdRedirMap.find? fd = some r) :
      NetLeaves files { s.net with inFlight := s.net.inFlight ++ [(hostOf env N path, r)] }

/-- What a call opens at a server the process holds, and what it no longer holds it
    has sent a close request for. -/
structure Sys.Accounts (s' : Sys) : Prop where
  opened : ∀ h r, (s'.net.servers h).fds.find? r ≠ none →
    (s.net.servers h).fds.find? r ≠ none ∨ s'.Holds env N h r
  held : ∀ h r, r ≠ -1 → s.Holds env N h r → s'.Holds env N h r ∨ (h, r) ∈ s'.net.inFlight
  flight : ∀ x ∈ s.net.inFlight, x ∈ s'.net.inFlight

/-- A call that the process's descriptors `fds`, on the shared files, answer alike:
    they stay what the process sees. -/
structure Answered (call : AppCall) (fds : FdTable String) (s' : Sys)
    (o : Option (Outcome Reply)) : Prop where
  running : s'.status = .running
  direct : ∃ out fds', o = some (.returned out) ∧
    (∀ c, call.direct env rl ⟨c, fds, s.proc.files⟩ = some (⟨c, fds', s'.proc.files⟩, out)) ∧
    ∀ fd, fds'.find? fd = s'.seen env N fd
  files : s'.proc.files = s.proc.files ∨
    ∃ file data, s'.proc.files = s.proc.files.insert file data ∧ s.Uncopied file
  net : NetLeaves env rl bbpath N s s'.proc.files s'.net
  holds : ∀ h r, r ≠ -1 → s'.Holds env N h r →
    s.Holds env N h r ∨ (s.net.servers h).fds.find? r = none
  accounts : s.Accounts env N s'

end Views

/-! ### Reading it off -/

section Seen

variable {env : Env} {rl : ReadLen} {bbpath : String} {N : Nat} {s s' : Sys} {fd : Int}

/-- Such a ring chooses no server but the one the path hashes to. -/
theorem RingFollows.agrees {c : Client} (h : RingFollows env N c fd) (hcalm : Calm env N c)
    (hN : 1 ≤ N ∧ N < 2 ^ 31) (limit : Bool) : RingAgrees env limit c fd := by
  intro path hpath i hnode
  obtain ⟨j, hj, hnode'⟩ := hcalm.exists_node hN.1 path
  rw [hnode, Option.some.injEq, serverName_inj] at hnode'
  have hhost := h path hpath
  simp only [Client.ringHost, hnode, convertHostToNumber_serverName (i := i + 1) (by omega),
    Except.toOption, Option.map_some, Option.some.injEq, hostOf] at hhost
  right
  rw [hcalm.count]
  push_cast at hhost
  omega

theorem Sys.remoteAt_of_untracked (h : s.proc.client.fdMap.find? fd = none) :
    s.remoteAt env N fd = none := by
  simp only [Sys.remoteAt, h]

theorem Sys.remoteAt_of_tracked {path : String} {r : Int}
    (hpath : s.proc.client.fdMap.find? fd = some path)
    (hr : s.proc.client.fdRedirMap.find? fd = some r) :
    s.remoteAt env N fd = (s.net.servers (hostOf env N path)).fds.find? r := by
  simp only [Sys.remoteAt, hpath, hr]

theorem Sys.seen_of_remoteAt_none (h : s.remoteAt env N fd = none) :
    s.seen env N fd = s.proc.fds.find? fd := by
  simp only [Sys.seen, h, Option.map_id']

theorem Sys.seen_of_untracked (h : s.proc.client.fdMap.find? fd = none) :
    s.seen env N fd = s.proc.fds.find? fd :=
  Sys.seen_of_remoteAt_none (Sys.remoteAt_of_untracked h)

theorem Sys.seen_of_remoteAt {f g : OpenFile String} (hf : s.proc.fds.find? fd = some f)
    (hg : s.remoteAt env N fd = some g) : s.seen env N fd = some { f with pos := g.pos } := by
  simp only [Sys.seen, hf, hg, Option.map_some]

theorem Sys.seen_of_closed (h : s.proc.fds.find? fd = none) : s.seen env N fd = none := by
  simp only [Sys.seen, h, Option.map_none]

/-- A descriptor that was just opened. -/
theorem Sys.seen_of_opened {file : String} {flags : OFlags}
    (hf : s.proc.fds.find? fd = some ⟨file, flags, 0⟩)
    (hzero : ∀ g, s.remoteAt env N fd = some g → g.pos = 0) :
    s.seen env N fd = some ⟨file, flags, 0⟩ := by
  rcases hg : s.remoteAt env N fd with _ | g
  · rw [Sys.seen_of_remoteAt_none hg, hf]
  · rw [Sys.seen_of_remoteAt hf hg, hzero g hg]

theorem Sys.seen_eq_none_iff : s.seen env N fd = none ↔ s.proc.fds.find? fd = none := by
  simp only [Sys.seen, Option.map_eq_none_iff]

/-- What a step leaves alone is seen as before. -/
theorem Sys.seen_congr (hfds : s'.proc.fds.find? fd = s.proc.fds.find? fd)
    (hremote : s'.remoteAt env N fd = s.remoteAt env N fd) :
    s'.seen env N fd = s.seen env N fd := by
  simp only [Sys.seen, hfds, hremote]

theorem Sys.remoteAt_congr
    (hmap : s'.proc.client.fdMap.find? fd = s.proc.client.fdMap.find? fd)
    (hredir : s'.proc.client.fdRedirMap.find? fd = s.proc.client.fdRedirMap.find? fd)
    (hserver : ∀ path r, s.proc.client.fdMap.find? fd = some path →
      s.proc.client.fdRedirMap.find? fd = some r →
      (s'.net.servers (hostOf env N path)).fds.find? r =
        (s.net.servers (hostOf env N path)).fds.find? r) :
    s'.remoteAt env N fd = s.remoteAt env N fd := by
  unfold Sys.remoteAt
  rw [hmap, hredir]
  rcases hpath : s.proc.client.fdMap.find? fd with _ | path
  · rfl
  · rcases hr : s.proc.client.fdRedirMap.find? fd with _ | r
    · rfl
    · exact hserver path r hpath hr

/-- A server has no descriptor with the number of a failure. -/
theorem ServerInv.not_open_neg_one {kept : String → String → Prop} {files : Files} {v : Server}
    (h : ServerInv kept bbpath files v) : v.fds.find? (-1) = none := by
  rcases hg : v.fds.find? (-1) with _ | g
  · rfl
  · have hnonneg := (h.descriptors (-1) g hg).1
    omega

/-- A tracked descriptor that a server has open. -/
structure OpenAt (env : Env) (bbpath : String) (N : Nat) (s : Sys) (fd : Int) (path : String)
    (r : Int) (f g : OpenFile String) : Prop where
  redir : s.proc.client.fdRedirMap.find? fd = some r
  here : s.proc.fds.find? fd = some f
  canRead : canRead f.flags = true
  file : f.file = path
  there : (s.net.servers (hostOf env N path)).fds.find? r = some g
  nonneg : 0 ≤ r
  canReadThere : Posix.canRead g.flags = true
  content : (s.net.servers (hostOf env N path)).content bbpath s.proc.files g.file =
    s.proc.files.content path
  seen : s.seen env N fd = some { f with pos := g.pos }

/-- A tracked descriptor is open at the server, or its open was refused there. -/
theorem SysInv.openAt (h : SysInv env PlainFlags (fun _ _ => True) bbpath N s) {path : String}
    (hpath : s.proc.client.fdMap.find? fd = some path) :
    (s.proc.client.fdRedirMap.find? fd = some (-1) ∧ s.remoteAt env N fd = none) ∨
      ∃ r f g, OpenAt env bbpath N s fd path r f g := by
  obtain ⟨hunder, r, hr, hlink⟩ := h.tracked hpath
  rcases hlink with rfl | ⟨⟨g, hg, hreads⟩, -⟩
  · refine Or.inl ⟨hr, ?_⟩
    rw [Sys.remoteAt_of_tracked hpath hr]
    exact (h.linked.servers _).not_open_neg_one
  · obtain ⟨f, hf, hfile, hread⟩ := h.locally.canRead hpath
    obtain ⟨hnonneg, hflags⟩ := (h.linked.servers _).descriptors r g hg
    refine Or.inr ⟨r, f, g, hr, hf, hread, hfile, hg, hnonneg, by rw [hflags]; rfl,
      (hreads trivial).content_eq hunder, ?_⟩
    exact Sys.seen_of_remoteAt hf (by rw [Sys.remoteAt_of_tracked hpath hr, hg])

theorem OpenAt.holds {path : String} {r : Int} {f g : OpenFile String}
    (h : OpenAt env bbpath N s fd path r f g) (hpath : s.proc.client.fdMap.find? fd = some path) :
    s.Holds env N (hostOf env N path) r :=
  ⟨fd, path, hpath, h.redir, rfl⟩

theorem OpenAt.remote_eq {path : String} {r : Int} {f g g' : OpenFile String}
    (h : OpenAt env bbpath N s fd path r f g) (hpath : s.proc.client.fdMap.find? fd = some path)
    (hg' : g' ∈ s.remoteAt env N fd) : g = g' := by
  rw [Sys.remoteAt_of_tracked hpath h.redir, h.there] at hg'
  exact Option.some.inj hg'

/-- One server moved the descriptor behind `fd`; the other descriptors do not notice. -/
theorem SysInv.seen_moved (h : SysInv env PlainFlags (fun _ _ => True) bbpath N s)
    {path : String} {r : Int}
    {f g g' : OpenFile String} (hpath : s.proc.client.fdMap.find? fd = some path)
    (ht : OpenAt env bbpath N s fd path r f g) {server : Server}
    (hserver : server.fds = (s.net.servers (hostOf env N path)).fds.insert r g')
    {status : Status} (k : Int) :
    (Sys.mk s.proc status (s.net.setServer (hostOf env N path) server)).seen env N k =
      if k = fd then some { f with pos := g'.pos } else s.seen env N k := by
  by_cases hk : k = fd
  · subst hk
    rw [if_pos rfl]
    refine @Sys.seen_of_remoteAt env N _ k f g' ht.here ?_
    refine (@Sys.remoteAt_of_tracked env N ⟨s.proc, status, _⟩ k path r hpath ht.redir).trans ?_
    rw [Net.servers_setServer_self, hserver, OrdMap.find?_insert_self]
  · rw [if_neg hk]
    refine Sys.seen_congr rfl (Sys.remoteAt_congr rfl rfl fun path' r' hpath' hr' => ?_)
    rw [Net.servers_setServer]
    split
    · next hhost =>
      have hne : r' ≠ r := by
        rintro rfl
        have hnonneg := ht.nonneg
        exact hk (h.linked.distinct k fd path' path r' hpath' hpath hr' ht.redir (by omega) hhost)
      rw [hserver, OrdMap.find?_insert_of_ne hne, hhost]
    · rfl

/-- One server moved no descriptor. -/
theorem Sys.seen_unmoved {server : Server} {host : Int}
    (hserver : server.fds = (s.net.servers host).fds) {status : Status} (k : Int) :
    (Sys.mk s.proc status (s.net.setServer host server)).seen env N k = s.seen env N k := by
  refine Sys.seen_congr rfl (Sys.remoteAt_congr rfl rfl fun path' r' _ _ => ?_)
  rw [Net.servers_setServer]
  split
  · next hhost => rw [hserver, hhost]
  · rfl

end Seen

end Hvac
