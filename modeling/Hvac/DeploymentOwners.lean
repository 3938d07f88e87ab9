/-
  Hvac/DeploymentOwners.lean
  ==========================
  **Every open descriptor of every server has one owner.**

  The owner is the tracked descriptor, of one of the processes, that stands for
  it, or the close request that is on its way.  What a call opens at a server the
  process holds, and what it no longer holds it has sent a close request for
  (`Sys.Accounts`); a request that arrives closes what it owned.  So along every
  run owners and open descriptors correspond one to one, and once the
  applications have closed their files and the requests have arrived, nothing is
  open at any server (`deployment_owners`).
-/
import Hvac.DeploymentRun
import Hvac.Leaks

namespace Hvac

open Cxx Posix

variable {K : Type}

/-! ### Statements -/

/-- Descriptor `fd` of process `k` stands for descriptor `r` of server `h`. -/
def Deployment.StandsFor (env : K → Env) (N : Nat) (d : Deployment K) (k : K) (fd h r : Int) :
    Prop :=
  ∃ path, (d.nodes k).client.fdMap.find? fd = some path ∧
    (d.nodes k).client.fdRedirMap.find? fd = some r ∧ hostOf (env k) N path = h

/-- Owners and open descriptors correspond. -/
structure OwnedOnce (env : K → Env) (N : Nat) (d : Deployment K) : Prop where
  owned : ∀ h r, (d.net.servers h).fds.find? r ≠ none →
    (h, r) ∈ d.net.inFlight ∧ (∀ k fd, ¬ d.StandsFor env N k fd h r) ∨
      (h, r) ∉ d.net.inFlight ∧ ∃! x : K × Int, d.StandsFor env N x.1 x.2 h r
  standing : ∀ k fd h r, d.StandsFor env N k fd h r → r ≠ -1 →
    (d.net.servers h).fds.find? r ≠ none
  closing : ∀ h r, (h, r) ∈ d.net.inFlight → r ≠ -1 → (d.net.servers h).fds.find? r ≠ none
  once : d.net.inFlight.Pairwise fun x y => x = y → x.2 = -1

/-- Nothing is open without an owner. -/
structure Deployment.Owned (env : K → Env) (N : Nat) (d : Deployment K) : Prop where
  alive : ∀ h, (d.net.servers h).alive = true
  numbers : ∀ h, (d.net.servers h).fds.find? (-1) = none
  owner : ∀ h r, (d.net.servers h).fds.find? r ≠ none →
    (h, r) ∈ d.net.inFlight ∨ ∃ k, (d.sys k).Holds (env k) N h r

variable {env : K → Env} {rl : ReadLen} {bbpath : String} {N : Nat} {d d' : Deployment K}
  {p : Plain K}

theorem owned_start (env : K → Env) (N : Nat) (files : Files) :
    (deploymentStart env N files).Owned env N where
  alive _ := rfl
  numbers _ := rfl
  owner _ _ hr := absurd rfl hr

/-! ### Steps -/

theorem Deployment.Owned.call [DecidableEq K] (h : d.Owned env N) {k : K} {s' : Sys}
    (haccounts : (d.sys k).Accounts (env k) N s') (hafter : Serviceable (env k) bbpath N s') :
    (d.put k s').Owned env N where
  alive := hafter.alive
  numbers := hafter.not_open_neg_one
  owner host r hr := by
    rcases haccounts.opened host r hr with hbefore | hnew
    · have hne : r ≠ -1 := by
        rintro rfl
        exact hbefore (h.numbers host)
      rcases h.owner host r hbefore with hflight | ⟨k', hk'⟩
      · exact Or.inl (haccounts.flight _ hflight)
      · by_cases hk : k' = k
        · subst hk
          rcases haccounts.held host r hne hk' with hstill | hsent
          · exact Or.inr ⟨k', by rwa [d.sys_put_self]⟩
          · exact Or.inl hsent
        · refine Or.inr ⟨k', ?_⟩
          rw [d.sys_put_of_ne hk]
          exact hk'
    · exact Or.inr ⟨k, by rwa [d.sys_put_self]⟩

theorem Deployment.Owned.deliver (h : d.Owned env N) {i : Nat} {net : Net}
    (hdeliver : d.net.deliver i = some net) : Deployment.Owned env N { d with net := net } := by
  obtain ⟨k, r₀, server, hi, hhandle, rfl⟩ :=
    @Net.deliver_eq_some ReadLen.full "" OrdMap.empty d.net i net hdeliver
  obtain ⟨hfds, hclosed⟩ := Server.closeIn_fds hhandle
  have halive : server.alive = true := by
    simp only [Server.handle, h.alive k, if_true, Option.some.injEq, Prod.mk.injEq] at hhandle
    rw [← hhandle.1]
    exact h.alive k
  have hserver : ∀ host r, ((d.net.setServer k server).servers host).fds.find? r ≠ none →
      (d.net.servers host).fds.find? r ≠ none ∧ (host, r) ≠ (k, r₀) := by
    intro host r hr
    rw [Net.servers_setServer] at hr
    split at hr
    · next hhost =>
      subst hhost
      refine ⟨hfds r hr, ?_⟩
      rintro ⟨⟩
      exact hr (hclosed halive)
    · next hhost =>
      refine ⟨hr, ?_⟩
      rintro ⟨⟩
      exact hhost rfl
  constructor
  · intro host
    show ((d.net.setServer k server).servers host).alive = true
    rw [Net.servers_setServer]
    split
    · exact halive
    · exact h.alive host
  · intro host
    by_contra hopen
    exact (hserver host (-1) hopen).1 (h.numbers host)
  · intro host r hr
    obtain ⟨hbefore, hne⟩ := hserver host r hr
    rcases h.owner host r hbefore with hflight | hholds
    · left
      obtain ⟨j, hj, hget⟩ := List.mem_iff_getElem.mp hflight
      refine List.mem_eraseIdx_iff_getElem.mpr ⟨j, hj, ?_, hget⟩
      rintro rfl
      rw [List.getElem?_eq_getElem hj, Option.some.injEq, hget] at hi
      exact hne hi
    · exact Or.inr hholds

theorem Deployment.Owned.mover (h : d.Owned env N) {host : Int} {step : MoverStep}
    {server : Server} (hmove : (d.net.servers host).moverStep bbpath d.files step = some server) :
    Deployment.Owned env N { d with net := d.net.setServer host server } := by
  obtain ⟨halive, hfds, -⟩ := Server.moverStep_frame hmove
  have hsame : ∀ host', ((d.net.setServer host server).servers host').alive =
        (d.net.servers host').alive ∧
      ((d.net.setServer host server).servers host').fds = (d.net.servers host').fds := by
    intro host'
    rw [Net.servers_setServer]
    split
    · next hhost => rw [hhost]; exact ⟨halive, hfds⟩
    · exact ⟨rfl, rfl⟩
  constructor
  · intro host'
    exact (hsame host').1.trans (h.alive host')
  · intro host'
    show ((d.net.setServer host server).servers host').fds.find? (-1) = none
    rw [(hsame host').2]
    exact h.numbers host'
  · intro host' r hr
    apply h.owner host' r
    rwa [← (hsame host').2]

/-- A step keeps the owners along with the plain file system's image. -/
theorem Mirrors.step_owned [DecidableEq K] (h : Mirrors env bbpath N d p) (howned : d.Owned env N)
    (hN : 1 ≤ N ∧ N < 2 ^ 31) {label : DeploymentLabel K} (hused : d.WellUsed env bbpath N label)
    {o : Option (K × Outcome Reply)}
    (hstep : (deploymentMachine env rl bbpath).step d label = some (d', o)) : d'.Owned env N := by
  obtain ⟨p', -, hafter⟩ := h.step hN hused hstep
  cases label with
  | call k call remote =>
    simp only [deploymentMachine] at hstep
    rcases hcall : (sysMachine (env k) rl bbpath).step (d.sys k) (.call call remote) with
      _ | ⟨s', out⟩
    · rw [hcall] at hstep
      cases hstep
    · simp only [hcall, Option.some.injEq, Prod.mk.injEq] at hstep
      obtain ⟨rfl, -⟩ := hstep
      have hanswered := (h.serviceable k).answered hN (h.fds k) hused hcall
      have hmine := hafter.serviceable k
      rw [d.sys_put_self] at hmine
      exact howned.call hanswered.accounts hmine
  | deliver i =>
    simp only [deploymentMachine] at hstep
    rcases hdeliver : d.net.deliver i with _ | net
    · rw [hdeliver] at hstep
      cases hstep
    · simp only [hdeliver, Option.some.injEq, Prod.mk.injEq] at hstep
      obtain ⟨rfl, -⟩ := hstep
      exact howned.deliver hdeliver
  | mover host step =>
    simp only [deploymentMachine] at hstep
    split at hstep
    · rcases hmove : (d.net.servers host).moverStep bbpath d.files step with _ | server
      · rw [hmove] at hstep
        cases hstep
      · simp only [hmove, Option.some.injEq, Prod.mk.injEq] at hstep
        obtain ⟨rfl, -⟩ := hstep
        exact howned.mover hmove
    · cases hstep

/-! ### Whole runs -/

/-- The invariants of the processes make the owner unique. -/
theorem Mirrors.ownedOnce (h : Mirrors env bbpath N d p) (howned : d.Owned env N) (k₀ : K) :
    OwnedOnce env N d := by
  have hlinked := fun k => (h.serviceable k).inv.linked
  have hstands : ∀ k fd host r, d.StandsFor env N k fd host r → r ≠ -1 →
      (d.net.servers host).fds.find? r ≠ none ∧ (host, r) ∉ d.net.inFlight := by
    rintro k fd host r ⟨path, hpath, hr, rfl⟩ hne
    obtain ⟨-, r', hr', hlink⟩ := (hlinked k).entries fd path hpath
    obtain rfl := Option.some.inj (hr.symm.trans hr')
    obtain ⟨⟨g, hg, -⟩, hflight⟩ := hlink.resolve_left hne
    exact ⟨fun hclosed => Option.some_ne_none g (hg.symm.trans hclosed), hflight⟩
  refine ⟨fun host r hopen => ?_, fun k fd host r hstand hne => (hstands k fd host r hstand hne).1,
    (hlinked k₀).flight, (hlinked k₀).nodup⟩
  have hne : r ≠ -1 := by
    rintro rfl
    exact hopen (howned.numbers host)
  by_cases hflight : (host, r) ∈ d.net.inFlight
  · exact Or.inl ⟨hflight, fun k fd hstand => (hstands k fd host r hstand hne).2 hflight⟩
  · right
    refine ⟨hflight, ?_⟩
    obtain ⟨k, fd, path, hpath, hr, hhost⟩ := (howned.owner host r hopen).resolve_left hflight
    refine ⟨(k, fd), ⟨path, hpath, hr, hhost⟩, ?_⟩
    rintro ⟨k', fd'⟩ ⟨path', hpath', hr', hhost'⟩
    have hk : k' = k := by
      by_contra hk
      exact h.apart k k' (Ne.symm hk) host r hne ⟨fd, path, hpath, hr, hhost⟩
        ⟨fd', path', hpath', hr', hhost'⟩
    subst hk
    have hfd := (hlinked k').distinct fd' fd path' path r hpath' hpath hr' hr hne
      (hhost'.trans hhost.symm)
    rw [hfd]

/-- **Along every run owners and open descriptors correspond one to one; and once the
    applications have closed their files and the close requests have arrived, no
    server has a descriptor open.** -/
theorem deployment_owners [DecidableEq K] [Nonempty K] (hN : 1 ≤ N ∧ N < 2 ^ 31) (files : Files)
    {labels : List (DeploymentLabel K)} {os : List (Option (K × Outcome Reply))}
    (hused : (deploymentMachine env rl bbpath).Along
      (fun d label _ _ => d.WellUsed env bbpath N label) (deploymentStart env N files) labels)
    (hrun : (deploymentMachine env rl bbpath).run (deploymentStart env N files) labels =
      some (d, os)) :
    OwnedOnce env N d ∧
      ((∀ k fd, (d.nodes k).fds.find? fd = none) → d.net.inFlight = [] →
        ∀ h r, (d.net.servers h).fds.find? r = none) := by
  obtain ⟨p, -, hmirrors, howned⟩ := Machine.run_simulation (N := plainMachine env rl)
    (R := fun d p => Mirrors env bbpath N d p ∧ d.Owned env N)
    (C := fun d label _ _ => d.WellUsed env bbpath N label) (by
      rintro d p label d' o ⟨h, howned⟩ hlabel hstep
      obtain ⟨p', hp', hafter⟩ := h.step hN hlabel hstep
      exact ⟨p', hp', hafter, h.step_owned howned hN hlabel hstep⟩)
    ⟨mirrors_start env bbpath N files, owned_start env N files⟩ hused hrun
  have hk₀ : K := Classical.choice ‹_›
  have honce := hmirrors.ownedOnce howned hk₀
  refine ⟨honce, fun hclosed hflight h r => ?_⟩
  by_contra hopen
  rcases honce.owned h r hopen with ⟨hmem, -⟩ | ⟨-, ⟨k, fd⟩, ⟨path, hpath, -⟩, -⟩
  · rw [hflight] at hmem
    cases hmem
  · obtain ⟨f, hf, -⟩ := (hmirrors.serviceable k).inv.locally fd path hpath
    exact Option.some_ne_none f (hf.symm.trans (hclosed k fd))

/-- Two processes open one file, and close it; the requests arrive the other way
    round. -/
def sharedCloses : List (DeploymentLabel Bool) :=
  [.call true (.openFile "/data/a" O_RDONLY 3) 5, .call false (.openFile "/data/a" O_RDONLY 3) 6,
    .call true (.close 3) 0, .call false (.close 3) 0, .deliver 1, .mover 1 .drain, .deliver 0]

theorem deployment_owners_closes :
    ∃ d os, (deploymentMachine (fun _ : Bool => oneHashEnv) ReadLen.full "/bb").run
        (deploymentStart (fun _ => oneHashEnv) 2 threeBytes) sharedCloses = some (d, os) ∧
      OwnedOnce (fun _ => oneHashEnv) 2 d ∧
      ∀ h r, (d.net.servers h).fds.find? r = none := by
  have hsome : ((deploymentMachine (fun _ : Bool => oneHashEnv) ReadLen.full "/bb").run
      (deploymentStart (fun _ => oneHashEnv) 2 threeBytes) sharedCloses).any (fun x =>
        decide ((∀ k, (x.1.nodes k).fds = OrdMap.empty) ∧ x.1.net.inFlight = [])) = true := by
    decide +kernel
  obtain ⟨⟨d, os⟩, hrun, hend⟩ := (Option.any_eq_true _ _).mp hsome
  obtain ⟨hfds, hflight⟩ := of_decide_eq_true hend
  have hlimits : (deploymentMachine (fun _ : Bool => oneHashEnv) ReadLen.full "/bb").Along
      (fun d label _ _ => d.WithinLimits (fun _ => oneHashEnv) "/bb" 2 label)
      (deploymentStart (fun _ => oneHashEnv) 2 threeBytes) sharedCloses := by
    decide +kernel
  have hreads : ∀ label ∈ sharedCloses, label.ReadsOnly := by
    simp [sharedCloses, DeploymentLabel.ReadsOnly]
  have hused := (hlimits.and (Machine.along_of_forall_mem hreads)).mono
    fun _ _ _ _ _ hlabel => hlabel.2.wellUsed hlabel.1
  obtain ⟨honce, hnone⟩ := deployment_owners (by decide) threeBytes hused hrun
  refine ⟨d, os, hrun, honce, hnone (fun k fd => ?_) hflight⟩
  rw [hfds k]
  rfl

end Hvac
