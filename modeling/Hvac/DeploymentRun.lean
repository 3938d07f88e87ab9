/-
  Hvac/DeploymentRun.lean
  =======================
  **Processes that share servers are answered as processes that share a file
  system.**

  `Mirrors` says that every process sees, through its client and the servers, what
  the plain file system has for it, and that no two processes hold one descriptor
  of a server.  A step of one process keeps this for itself because its call is
  `Answered`, and for every other because the call touches no descriptor that
  another holds (`Mirrors.other`); a close request and a step of a data mover
  touch none that anybody holds.
-/
import Hvac.DeploymentCalls

namespace Hvac

open Cxx Posix

variable {K : Type} [DecidableEq K]

/-- The plain processes have the descriptors the applications see. -/
structure Mirrors (env : K → Env) (bbpath : String) (N : Nat) (d : Deployment K) (p : Plain K) :
    Prop where
  serviceable : ∀ k, Serviceable (env k) bbpath N (d.sys k)
  apart : ∀ k k', k ≠ k' → ∀ h r, r ≠ -1 → (d.sys k).Holds (env k) N h r →
    ¬ (d.sys k').Holds (env k') N h r
  files : p.files = d.files
  fds : ∀ k fd, (p.fds k).find? fd = (d.sys k).seen (env k) N fd

/-- Every call is within the limits of the protocol and changes no file of which a
    copy was begun. -/
def Deployment.WellUsed (env : K → Env) (bbpath : String) (N : Nat) (d : Deployment K) :
    DeploymentLabel K → Prop
  | .call k call remote => Hvac.WellUsed (env k) bbpath N (d.sys k) remote call
  | .deliver _ => True
  | .mover _ _ => True

def Deployment.WithinLimits (env : K → Env) (bbpath : String) (N : Nat) (d : Deployment K) :
    DeploymentLabel K → Prop
  | .call k call remote => Hvac.WithinLimits (env k) bbpath N (d.sys k) remote call
  | .deliver _ => True
  | .mover _ _ => True

instance (env : K → Env) (bbpath : String) (N : Nat) (d : Deployment K)
    (label : DeploymentLabel K) : Decidable (d.WithinLimits env bbpath N label) :=
  match label with
  | .call k call remote =>
      inferInstanceAs (Decidable (Hvac.WithinLimits (env k) bbpath N (d.sys k) remote call))
  | .deliver _ => isTrue trivial
  | .mover _ _ => isTrue trivial

/-- Files are opened to be read, and none is written. -/
def DeploymentLabel.ReadsOnly : DeploymentLabel K → Prop
  | .call _ (.openFile _ flags _) _ => flags = O_RDONLY
  | .call _ (.write _ _) _ => False
  | .call _ (.read _ _) _ => True
  | .call _ (.pread _ _ _) _ => True
  | .call _ (.lseek _ _ _) _ => True
  | .call _ (.close _) _ => True
  | .call _ (.read64 _ _) _ => True
  | .call _ (.readv _ _) _ => True
  | .deliver _ => True
  | .mover _ _ => True

variable {env : K → Env} {rl : ReadLen} {bbpath : String} {N : Nat} {d : Deployment K}
  {p : Plain K}

omit [DecidableEq K] in
/-- Where files are only read, the limits of the protocol are all there is to keep. -/
theorem DeploymentLabel.ReadsOnly.wellUsed {label : DeploymentLabel K} (h : label.ReadsOnly)
    (hlimits : d.WithinLimits env bbpath N label) : d.WellUsed env bbpath N label := by
  cases label with
  | deliver | mover => trivial
  | call k call remote =>
    refine ⟨hlimits, ?_⟩
    cases call with
    | openFile path flags ret =>
      intro file _
      have hflags : flags = O_RDONLY := h
      subst hflags
      right; left
      rcases (d.sys k).proc.files.find? file with _ | data <;> rfl
    | write => cases h
    | read | pread | lseek | close | read64 | readv => trivial

omit [DecidableEq K] in
theorem mirrors_start (env : K → Env) (bbpath : String) (N : Nat) (files : Files) :
    Mirrors env bbpath N (deploymentStart env N files) (plainStart files) where
  serviceable k := ⟨rfl, sysInv_start PlainFlags (fun _ _ => True) bbpath N files, fun _ => rfl⟩
  apart k k' _ h r _ hholds := by
    obtain ⟨fd, path, hpath, -⟩ := hholds
    cases hpath
  files := rfl
  fds _ _ := rfl

@[simp] theorem Deployment.sys_put_self (d : Deployment K) (k : K) (s : Sys) :
    (d.put k s).sys k = s := by
  simp only [Deployment.sys, Deployment.put, Function.update_self]

theorem Deployment.sys_put_of_ne (d : Deployment K) {k k' : K} (h : k' ≠ k) (s : Sys) :
    (d.put k s).sys k' =
      ⟨⟨(d.nodes k').client, (d.nodes k').fds, s.proc.files⟩, (d.nodes k').status, s.net⟩ := by
  simp only [Deployment.sys, Deployment.put, Function.update_of_ne h]

/-! ### The other processes -/

section Other

variable {kept : String → String → Prop} {host : String → Int} {fdMap : OrdMap Int String}
  {fdRedirMap : OrdMap Int Int} {files : Files} {net : Net}

/-- Another process closes a descriptor of its own. -/
theorem Linked.sendOther (h : Linked kept bbpath host fdMap fdRedirMap files net) {k r : Int}
    (hopen : r ≠ -1 → (net.servers k).fds.find? r ≠ none)
    (hnew : (k, r) ∈ net.inFlight → r = -1)
    (hother : r ≠ -1 → ∀ fd path, fdMap.find? fd = some path → fdRedirMap.find? fd = some r →
      host path ≠ k) :
    Linked kept bbpath host fdMap fdRedirMap files
      { net with inFlight := net.inFlight ++ [(k, r)] } where
  entries fd path hpath := by
    obtain ⟨hunder, r', hr', hlink⟩ := h.entries fd path hpath
    refine ⟨hunder, r', hr', hlink.imp id fun hremote => ⟨hremote.1, fun hmem => ?_⟩⟩
    rcases List.mem_append.mp hmem with hmem | hmem
    · exact hremote.2 hmem
    · obtain ⟨hhost, rfl⟩ := Prod.mk.inj (List.mem_singleton.mp hmem)
      exact hother (hremote.ne_neg_one h) fd path hpath hr' hhost
  distinct := h.distinct
  flight k' r' hmem hne := by
    rcases List.mem_append.mp hmem with hmem | hmem
    · exact h.flight k' r' hmem hne
    · obtain ⟨rfl, rfl⟩ := Prod.mk.inj (List.mem_singleton.mp hmem)
      exact hopen hne
  nodup := by
    rw [List.pairwise_append]
    refine ⟨h.nodup, List.pairwise_singleton _ _, ?_⟩
    intro x hx y hy hxy
    obtain rfl := List.mem_singleton.mp hy
    subst hxy
    exact hnew hx
  servers := h.servers

end Other

/-- A closed descriptor was open at its server, and no request for it was on its
    way. -/
theorem Serviceable.closing {env : Env} {s : Sys} (h : Serviceable env bbpath N s) {fd r : Int}
    {path : String} (hpath : s.proc.client.fdMap.find? fd = some path)
    (hr : s.proc.client.fdRedirMap.find? fd = some r) :
    (r ≠ -1 → (s.net.servers (hostOf env N path)).fds.find? r ≠ none) ∧
      ((hostOf env N path, r) ∈ s.net.inFlight → r = -1) := by
  refine ⟨fun hne => (h.remote_open hpath hr).resolve_right hne, fun hmem => ?_⟩
  obtain ⟨-, r', hr', hneg | hremote⟩ := h.inv.tracked hpath
  · exact Option.some.inj (hr.symm.trans hr') ▸ hneg
  · obtain rfl := Option.some.inj (hr.symm.trans hr')
    exact absurd hmem hremote.2

theorem NetLeaves.alive {env : Env} {s : Sys} {files : Files} {net : Net}
    (hleaves : NetLeaves env rl bbpath N s files net)
    (halive : ∀ h, (s.net.servers h).alive = true) (h : Int) : (net.servers h).alive = true := by
  cases hleaves with
  | same => exact halive h
  | sent hpath hr => exact halive h
  | @handled k remote request server reply hpath hclose hhandle hsame hspares =>
    rw [Net.servers_setServer]
    split
    · exact hsame.trans (halive k)
    · exact halive h

/-- What a call of one process leaves, for another one that holds none of its
    descriptors: nothing that it would notice. -/
theorem NetLeaves.other {env env' : Env} {s s₂ : Sys} {files : Files} {net : Net}
    (hleaves : NetLeaves env rl bbpath N s files net) (hmine : Serviceable env bbpath N s)
    (hother : Serviceable env' bbpath N s₂) (hsame : s₂.net = s.net)
    (hlinked : Linked (fun _ _ => True) bbpath (hostOf env' N) s₂.proc.client.fdMap
      s₂.proc.client.fdRedirMap files s.net)
    (hapart : ∀ h r, r ≠ -1 → s.Holds env N h r → ¬ s₂.Holds env' N h r) :
    Linked (fun _ _ => True) bbpath (hostOf env' N) s₂.proc.client.fdMap
        s₂.proc.client.fdRedirMap files net ∧
      ∀ fd path r, s₂.proc.client.fdMap.find? fd = some path →
        s₂.proc.client.fdRedirMap.find? fd = some r →
        (net.servers (hostOf env' N path)).fds.find? r =
          (s.net.servers (hostOf env' N path)).fds.find? r := by
  cases hleaves with
  | same => exact ⟨hlinked, fun _ _ _ _ _ => rfl⟩
  | @handled k remote request server reply hpath hclose hhandle halive hspares =>
    have hafter := hlinked.handle hpath hclose hhandle
    refine ⟨hafter, fun fd path r hfd hr => ?_⟩
    have hopen := hother.remote_open hfd hr
    rw [hsame] at hopen
    rw [Net.servers_setServer]
    split
    · next hhost =>
      rw [hhost] at hopen ⊢
      rcases hopen with hopen | rfl
      · apply hspares r hopen
        have hne : r ≠ -1 := by
          rintro rfl
          exact hopen (hmine.not_open_neg_one k)
        exact fun hholds => hapart k r hne hholds ⟨fd, path, hfd, hr, hhost⟩
      · -- a failed open's number is open nowhere
        have hnew := (hafter.servers k).not_open_neg_one
        rw [Net.servers_setServer_self] at hnew
        rw [hnew, hmine.not_open_neg_one k]
    · rfl
  | @sent fd₀ r₀ path₀ hpath hr =>
    obtain ⟨hopen, hnew⟩ := hmine.closing hpath hr
    refine ⟨hlinked.sendOther hopen hnew fun hne fd path hfd hr' hhost => ?_,
      fun _ _ _ _ _ => rfl⟩
    exact hapart _ r₀ hne ⟨fd₀, path₀, hpath, hr, rfl⟩ ⟨fd, path, hfd, hr', hhost⟩

/-- After a call of process `k`, another process `k'` has its invariant and sees what
    it saw. -/
theorem Mirrors.other (h : Mirrors env bbpath N d p) {k k' : K} (hk : k' ≠ k) {call : AppCall}
    {fds : FdTable String} {s' : Sys} {o : Option (Outcome Reply)}
    (hcall : Answered (env k) rl bbpath N (d.sys k) call fds s' o) :
    Serviceable (env k') bbpath N ((d.put k s').sys k') ∧
      ∀ fd, ((d.put k s').sys k').seen (env k') N fd = (d.sys k').seen (env k') N fd := by
  have hother := h.serviceable k'
  have hfiles : Linked (fun _ _ => True) bbpath (hostOf (env k') N) (d.nodes k').client.fdMap
      (d.nodes k').client.fdRedirMap s'.proc.files d.net := by
    rcases hcall.files with hsame | ⟨file, data, hchange, huncopied⟩
    · rw [hsame]
      exact hother.inv.linked
    · rw [hchange]
      exact hother.inv.linked.setFile (fun _ _ k => Or.inl (huncopied k)) data
  obtain ⟨hlinked, hsame⟩ :=
    hcall.net.other (h.serviceable k) hother rfl hfiles (h.apart k k' hk.symm)
  rw [d.sys_put_of_ne hk]
  refine ⟨⟨hother.running, ⟨hother.inv.calm, hlinked, hother.inv.locally⟩,
    hcall.net.alive hother.alive⟩, fun fd => ?_⟩
  exact Sys.seen_congr rfl (Sys.remoteAt_congr rfl rfl fun path r hpath hr => hsame fd path r hpath hr)

/-! ### One step -/

theorem WellUsed.admissible {env : Env} {s : Sys}
    (hinv : SysInv env PlainFlags (fun _ _ => True) bbpath N s) (hN : 1 ≤ N ∧ N < 2 ^ 31)
    {call : AppCall} {remote : Int} (hused : WellUsed env bbpath N s remote call) :
    Admissible env PlainFlags (fun _ _ => True) bbpath s (.call call remote) := by
  obtain ⟨hlimits, hfiles⟩ := hused
  cases call with
  | openFile path flags ret =>
    intro file hfile
    exact ⟨(hfiles file hfile).imp id fun h => h.imp id fun huncopied _ _ k =>
      Or.inl (huncopied k), fun htrack => hlimits file htrack⟩
  | pread fd count offset => exact hlimits.1.agrees hinv.calm hN true
  | lseek fd offset whence => exact hlimits.1.agrees hinv.calm hN false
  | close fd => exact RingFollows.agrees hlimits hinv.calm hN true
  | write fd data =>
    intro file contents fds hwrite
    obtain ⟨f, pos, hf, -, rfl, -⟩ := sysWrite_eq_some hwrite
    exact Or.inr fun _ _ k => Or.inl (hfiles f hf k)
  | read | read64 | readv => trivial

/-- No two processes come to hold one descriptor of a server: a new one was free
    there. -/
theorem Mirrors.apart_call (h : Mirrors env bbpath N d p) {k : K} {call : AppCall}
    {fds : FdTable String} {s' : Sys} {o : Option (Outcome Reply)}
    (hcall : Answered (env k) rl bbpath N (d.sys k) call fds s' o) :
    ∀ k₁ k₂, k₁ ≠ k₂ → ∀ h r, r ≠ -1 → ((d.put k s').sys k₁).Holds (env k₁) N h r →
      ¬ ((d.put k s').sys k₂).Holds (env k₂) N h r := by
  have hother : ∀ k', k' ≠ k → ∀ h r, ((d.put k s').sys k').Holds (env k') N h r →
      (d.sys k').Holds (env k') N h r := by
    intro k' hk h r hholds
    rw [d.sys_put_of_ne hk] at hholds
    exact hholds
  have hmine : ∀ k', k' ≠ k → ∀ h r, r ≠ -1 → s'.Holds (env k) N h r →
      ¬ (d.sys k').Holds (env k') N h r := by
    intro k' hk host r hr hholds
    rcases hcall.holds host r hr hholds with hbefore | hfree
    · exact h.apart k k' hk.symm host r hr hbefore
    · rintro ⟨fd, path, hpath, hredir, rfl⟩
      exact ((h.serviceable k').remote_open hpath hredir).elim (fun hopen => hopen hfree) hr
  intro k₁ k₂ hne host r hr h₁ h₂
  by_cases hk₁ : k₁ = k
  · subst hk₁
    rw [d.sys_put_self] at h₁
    exact hmine k₂ hne.symm host r hr h₁ (hother k₂ hne.symm host r h₂)
  · by_cases hk₂ : k₂ = k
    · subst hk₂
      rw [d.sys_put_self] at h₂
      exact hmine k₁ hne host r hr h₂ (hother k₁ hne host r h₁)
    · exact h.apart k₁ k₂ hne host r hr (hother k₁ hk₁ host r h₁) (hother k₂ hk₂ host r h₂)

/-- A call of one process. -/
theorem Mirrors.call (h : Mirrors env bbpath N d p) (hN : 1 ≤ N ∧ N < 2 ^ 31) {k : K}
    {call : AppCall} {remote : Int} (hused : WellUsed (env k) bbpath N (d.sys k) remote call)
    {s' : Sys} {o : Option (Outcome Reply)}
    (hstep : (sysMachine (env k) rl bbpath).step (d.sys k) (.call call remote) = some (s', o)) :
    ∃ p', (plainMachine env rl).step p (.call k call remote) =
        some (p', o.map fun out => (k, out)) ∧ Mirrors env bbpath N (d.put k s') p' := by
  have hmine := h.serviceable k
  have hcall := hmine.answered hN (h.fds k) hused hstep
  obtain ⟨out, fds', rfl, hdirect, hsees⟩ := hcall.direct
  have hinv : SysInv (env k) PlainFlags (fun _ _ => True) bbpath N s' :=
    step_sysInv hN (fun _ => hmine.inv) (hused.admissible hmine.inv hN) hstep hcall.running
  refine ⟨⟨Function.update p.fds k fds', s'.proc.files⟩, ?_, ⟨fun k' => ?_, ?_, rfl, ?_⟩⟩
  · have hplain := hdirect (hvacClientInit (env k) 0)
    have hproc : p.proc env k = ⟨hvacClientInit (env k) 0, p.fds k, (d.sys k).proc.files⟩ := by
      rw [Plain.proc, h.files]
      rfl
    simp only [plainMachine, hproc, hplain, Option.map_some]
  · by_cases hk : k' = k
    · subst hk
      rw [d.sys_put_self]
      exact ⟨hcall.running, hinv, hcall.net.alive hmine.alive⟩
    · exact (h.other hk hcall).1
  · exact h.apart_call hcall
  · intro k' fd
    by_cases hk : k' = k
    · subst hk
      rw [d.sys_put_self]
      show ((Function.update p.fds k' fds') k').find? fd = _
      rw [Function.update_self]
      exact hsees fd
    · rw [(h.other hk hcall).2 fd]
      show ((Function.update p.fds k fds') k').find? fd = _
      rw [Function.update_of_ne hk]
      exact h.fds k' fd

/-- A close request that arrives touches no descriptor that is held. -/
theorem SysInv.seen_deliver {env : Env} {s : Sys}
    (h : SysInv env PlainFlags (fun _ _ => True) bbpath N s)
    {i : Nat} {net : Net} (hdeliver : s.net.deliver i = some net) (fd : Int) :
    (Sys.mk s.proc s.status net).seen env N fd = s.seen env N fd := by
  simp only [Net.deliver] at hdeliver
  rcases hi : s.net.inFlight[i]? with _ | ⟨host, r₀⟩
  · rw [hi] at hdeliver
    cases hdeliver
  · simp only [hi, Option.some.injEq] at hdeliver
    subst hdeliver
    refine Sys.seen_congr rfl (Sys.remoteAt_congr rfl rfl fun path r hpath hr => ?_)
    have hopen : r ≠ -1 → (hostOf env N path, r) ∉ s.net.inFlight := by
      obtain ⟨-, r', hr', hlink⟩ := h.tracked hpath
      obtain rfl := Option.some.inj (hr.symm.trans hr')
      exact fun hne => (hlink.resolve_left hne).2
    dsimp only
    rw [Net.servers_setServer]
    split
    · next hhost =>
      split
      · rw [hhost] at hopen ⊢
        simp only [Server.closeRpcHandler, find?_sysClose]
        split
        · next hsame =>
          -- only the number of a failed open can be named, and it is open nowhere
          subst hsame
          by_cases hne : r = -1
          · rw [hne, (h.linked.servers host).not_open_neg_one]
          · exact absurd (List.mem_of_getElem? hi) (hopen hne)
        · rfl
      · rw [hhost]
    · rfl

omit [DecidableEq K] in
theorem Mirrors.deliver (h : Mirrors env bbpath N d p) {i : Nat} {net : Net}
    (hdeliver : d.net.deliver i = some net) : Mirrors env bbpath N { d with net := net } p where
  serviceable k := by
    have hmine := h.serviceable k
    have halive : ∀ host, (d.net.servers host).alive = true := hmine.alive
    refine ⟨hmine.running, ⟨hmine.inv.calm, hmine.inv.linked.deliver hdeliver, hmine.inv.locally⟩,
      fun host => ?_⟩
    simp only [Net.deliver] at hdeliver
    split at hdeliver
    · cases hdeliver
    · next host' r _ =>
      cases hdeliver
      show ((d.net.setServer _ _).servers host).alive = true
      rw [Net.servers_setServer, if_pos (halive host')]
      split
      · exact halive host'
      · exact halive host
  apart := h.apart
  files := h.files
  fds k fd := (h.fds k fd).trans ((h.serviceable k).inv.seen_deliver hdeliver fd).symm

omit [DecidableEq K] in
theorem Mirrors.mover (h : Mirrors env bbpath N d p) {host : Int} {step : MoverStep}
    {server : Server} (hmove : (d.net.servers host).moverStep bbpath d.files step = some server) :
    Mirrors env bbpath N { d with net := d.net.setServer host server } p where
  serviceable k := by
    have hmine := h.serviceable k
    have hkeeps := (hmine.inv.linked.servers host).moverStep hmove
    refine ⟨hmine.running, ⟨hmine.inv.calm, hmine.inv.linked.moverStep hmove, hmine.inv.locally⟩,
      fun host' => ?_⟩
    show ((d.net.setServer host server).servers host').alive = true
    rw [Net.servers_setServer]
    split
    · exact hkeeps.alive.trans (hmine.alive host)
    · exact hmine.alive host'
  apart := h.apart
  files := h.files
  fds k fd := by
    have hkeeps := ((h.serviceable k).inv.linked.servers host).moverStep hmove
    exact (h.fds k fd).trans (Sys.seen_unmoved hkeeps.fds fd).symm

/-- **One step of the deployment is one step of the plain file system.** -/
theorem Mirrors.step (h : Mirrors env bbpath N d p) (hN : 1 ≤ N ∧ N < 2 ^ 31)
    {label : DeploymentLabel K} (hused : d.WellUsed env bbpath N label) {d' : Deployment K}
    {o : Option (K × Outcome Reply)}
    (hstep : (deploymentMachine env rl bbpath).step d label = some (d', o)) :
    ∃ p', (plainMachine env rl).step p label = some (p', o) ∧ Mirrors env bbpath N d' p' := by
  cases label with
  | call k call remote =>
    simp only [deploymentMachine] at hstep
    rcases hcall : (sysMachine (env k) rl bbpath).step (d.sys k) (.call call remote) with
      _ | ⟨s', out⟩
    · rw [hcall] at hstep
      cases hstep
    · simp only [hcall, Option.some.injEq, Prod.mk.injEq] at hstep
      obtain ⟨rfl, rfl⟩ := hstep
      exact h.call hN hused hcall
  | deliver i =>
    simp only [deploymentMachine] at hstep
    rcases hdeliver : d.net.deliver i with _ | net
    · rw [hdeliver] at hstep
      cases hstep
    · simp only [hdeliver, Option.some.injEq, Prod.mk.injEq] at hstep
      obtain ⟨rfl, rfl⟩ := hstep
      exact ⟨p, rfl, h.deliver hdeliver⟩
  | mover host step =>
    simp only [deploymentMachine] at hstep
    split at hstep
    · rcases hmove : (d.net.servers host).moverStep bbpath d.files step with _ | server
      · rw [hmove] at hstep
        cases hstep
      · simp only [hmove, Option.some.injEq, Prod.mk.injEq] at hstep
        obtain ⟨rfl, rfl⟩ := hstep
        exact ⟨p, rfl, h.mover hmove⟩
    · cases hstep

/-! ### Whole runs -/

/-- A hash for which the ring of two servers agrees with the hash itself: both lead
    to the second one. -/
def oneHashEnv : Env :=
  { zeroHashEnv with hash := fun _ => ⟨1, Nat.one_lt_two_pow (Nat.succ_ne_zero 63)⟩ }

/-- Two processes read one file; the open of the second is refused at the server. -/
def sharedReads : List (DeploymentLabel Bool) :=
  [.call true (.openFile "/data/a" O_RDONLY 3) 5, .call false (.openFile "/data/a" O_RDONLY 3) (-1),
    .call true (.read 3 1) 0, .call false (.pread 3 2 0) 0, .call true (.close 3) 0, .deliver 0,
    .mover 1 .drain, .call false (.read 3 2) 0]

/-- The number a server's kernel gives a new descriptor is free there, or it gives
    none. -/
def AppCall.FreeAt (env : Env) (N : Nat) (net : Net) (remote : Int) : AppCall → Prop
  | .openFile path flags _ =>
      ∀ file ∈ trackPath env path flags, remote = -1 ∨
        0 ≤ remote ∧ (net.servers (hostOf env N file)).fds.find? remote = none
  | .read _ _ => True
  | .pread _ _ _ => True
  | .lseek _ _ _ => True
  | .close _ => True
  | .read64 _ _ => True
  | .readv _ _ => True
  | .write _ _ => True

instance (env : Env) (N : Nat) (net : Net) (remote : Int) (call : AppCall) :
    Decidable (call.FreeAt env N net remote) :=
  match call with
  | .openFile path flags _ => inferInstanceAs (Decidable (∀ file ∈ trackPath env path flags, _ ∨ _))
  | .read _ _ => isTrue trivial
  | .pread _ _ _ => isTrue trivial
  | .lseek _ _ _ => isTrue trivial
  | .close _ => isTrue trivial
  | .read64 _ _ => isTrue trivial
  | .readv _ _ => isTrue trivial
  | .write _ _ => isTrue trivial

/-- Where there is a file, the name a server opens for it has one too: a published
    name is that of a completed copy. -/
theorem ServerInv.view_redirPath {files : Files} {v : Server} {path : String}
    (h : ServerInv (fun _ _ => True) bbpath files v) (hunder : ¬ underBB bbpath path)
    {data : Contents} (hfile : files.find? path = some data) :
    ∃ c, v.view bbpath files (v.redirPath path) = some c := by
  rcases hcache : v.pathCacheMap.find? path with _ | cached
  · refine ⟨data, ?_⟩
    rw [Server.redirPath, hcache, Option.getD_none, Server.view_of_not_underBB hunder, hfile]
  · obtain ⟨hcopy, -, c, -, hstore⟩ := h.cached path cached trivial hcache
    exact ⟨c, by
      rw [Server.redirPath, hcache, Option.getD_some, Server.view_of_underBB hcopy, hstore]⟩

variable (rl) in
theorem ServerInv.open_enabled {files : Files} {v : Server} {path : String} (localfd : Int)
    {remote : Int} (h : ServerInv (fun _ _ => True) bbpath files v) (halive : v.alive = true)
    (hunder : ¬ underBB bbpath path) {data : Contents} (hfile : files.find? path = some data)
    (hfree : remote = -1 ∨ 0 ≤ remote ∧ v.fds.find? remote = none) :
    ∃ v', v.handle rl bbpath files remote (.openIn path localfd) = some (v', some ⟨remote, []⟩) := by
  simp only [Server.handle, halive, if_true, Server.openRpcHandler]
  by_cases hremote : remote = -1
  · rw [if_pos hremote]
    exact ⟨_, rfl⟩
  · obtain ⟨c, hview⟩ := h.view_redirPath hunder hfile
    have hopen : sysOpen v.fds remote (v.redirPath path) O_RDONLY =
        some (v.fds.insert remote ⟨v.redirPath path, O_RDONLY, 0⟩) :=
      sysOpen_eq_some_iff.mpr ⟨(hfree.resolve_left hremote).1, (hfree.resolve_left hremote).2, rfl⟩
    rw [if_neg hremote, hview, hopen]
    exact ⟨_, rfl⟩

/-- An open that the plain file system performs. -/
theorem Serviceable.open_enabled {env : Env} {s : Sys} (h : Serviceable env bbpath N s)
    {fds : FdTable String} (hfds : ∀ k, fds.find? k = s.seen env N k) {path : String}
    {flags : OFlags} {ret remote : Int} {c : Client}
    (hused : Hvac.WellUsed env bbpath N s remote (.openFile path flags ret))
    (hadm : Admissible env PlainFlags (fun _ _ => True) bbpath s
      (.call (.openFile path flags ret) remote))
    (hfree : (AppCall.openFile path flags ret).FreeAt env N s.net remote)
    (hplain : (AppCall.openFile path flags ret).direct env rl ⟨c, fds, s.proc.files⟩ ≠ none) :
    (sysMachine env rl bbpath).step s (.call (.openFile path flags ret) remote) ≠ none := by
  rcases hopen : realOpen env ⟨c, fds, s.proc.files⟩ path flags ret with _ | q
  · simp only [AppCall.direct, hopen, Option.map_none, ne_eq, not_true_eq_false] at hplain
  rcases realOpen_eq_some hopen with ⟨hret, -⟩ | ⟨file, data, hret, hfile, hdata, hnonneg, hnew, -⟩
  · have hmine : realOpen env s.proc path flags ret = some s.proc := by
      simp only [realOpen, hret, if_true]
    rw [step_open_untracked h.running hmine (Or.inl hret)]
    exact Option.some_ne_none _
  · have hnew : s.proc.fds.find? ret = none := by
      rw [hfds ret] at hnew
      exact Sys.seen_eq_none_iff.mp hnew
    have hmine := @realOpen_of_free env s.proc path file flags ret data hret hfile hdata hnonneg
      hnew
    rcases htrack : trackPath env path flags with _ | file'
    · rw [step_open_untracked h.running hmine (Or.inr htrack)]
      exact Option.some_ne_none _
    · obtain rfl := Option.some.inj (hfile.symm.trans (trackPath_canonical htrack))
      obtain ⟨-, hlinked, -⟩ := h.inv.realOpen hadm hmine
      obtain ⟨v', hhandle⟩ := ServerInv.open_enabled rl ret
        (hlinked.servers (hostOf env N file)) (h.alive _) (hused.1 _ htrack).1
        (OrdMap.find?_insert_self ..) (hfree _ htrack)
      rw [step_open h.running h.inv.calm hmine hret htrack]
      simp only [hhandle, ne_eq, reduceCtorEq, not_false_eq_true]

/-- A call that the plain file system performs is performed. -/
theorem Serviceable.enabled {env : Env} {s : Sys} (h : Serviceable env bbpath N s)
    (hN : 1 ≤ N ∧ N < 2 ^ 31) {fds : FdTable String} (hfds : ∀ k, fds.find? k = s.seen env N k)
    {call : AppCall} {remote : Int} {c : Client} (hused : Hvac.WellUsed env bbpath N s remote call)
    (hfree : call.FreeAt env N s.net remote)
    (hplain : call.direct env rl ⟨c, fds, s.proc.files⟩ ≠ none) :
    (sysMachine env rl bbpath).step s (.call call remote) ≠ none := by
  have hadm := hused.admissible h.inv hN
  cases call with
  | openFile path flags ret => exact h.open_enabled hfds hused hadm hfree hplain
  | read64 fd count =>
    rw [step_read64 h.running]
    exact Option.some_ne_none _
  | readv fd iov =>
    rw [step_readv h.running]
    exact Option.some_ne_none _
  | write fd data =>
    rw [step_write h.running]
    exact Option.some_ne_none _
  | read fd count =>
    rcases hpath : s.proc.client.fdMap.find? fd with _ | path
    · rw [step_read_untracked h.running hpath]
      exact Option.some_ne_none _
    · obtain ⟨-, r, hr, -⟩ := h.inv.tracked hpath
      obtain ⟨server, reply, hhandle⟩ := @Server.handle_ne_none rl bbpath
        (s.net.servers (hostOf env N path)) s.proc.files remote
        (.rpcIn (int32 count) r fd (-1)) trivial
      rw [step_read h.running h.inv.calm hpath hr hhandle]
      exact Option.some_ne_none _
  | pread fd count offset =>
    rcases hpath : s.proc.client.fdMap.find? fd with _ | path
    · rw [step_pread_untracked h.running hpath]
      exact Option.some_ne_none _
    · obtain ⟨-, r, hr, -⟩ := h.inv.tracked hpath
      obtain ⟨server, reply, hhandle⟩ := @Server.handle_ne_none rl bbpath
        (s.net.servers (hostOf env N path)) s.proc.files remote
        (.rpcIn (int32 count) r fd offset) trivial
      rw [step_pread hN h.running h.inv.calm hpath hr hadm hhandle]
      exact Option.some_ne_none _
  | lseek fd offset whence =>
    rcases hpath : s.proc.client.fdMap.find? fd with _ | path
    · rw [step_lseek_untracked h.running hpath]
      exact Option.some_ne_none _
    · obtain ⟨-, r, hr, -⟩ := h.inv.tracked hpath
      obtain ⟨server, reply, hhandle⟩ := @Server.handle_ne_none rl bbpath
        (s.net.servers (hostOf env N path)) s.proc.files remote
        (.seekIn r (int32 offset) whence) trivial
      rw [step_lseek hN h.running h.inv.calm hpath hr hadm hhandle]
      exact Option.some_ne_none _
  | close fd =>
    rcases hpath : s.proc.client.fdMap.find? fd with _ | path
    · rw [step_close_untracked h.running hpath]
      exact Option.some_ne_none _
    · obtain ⟨-, r, hr, -⟩ := h.inv.tracked hpath
      rw [step_close hN h.running h.inv.calm hpath hr hadm]
      exact Option.some_ne_none _

/-- After the reads of the two processes, the first one opens the file again. -/
def openAgain : AppCall := .openFile "/data/a" O_RDONLY 3

end Hvac
