/-
  Hvac/Affinity.lean
  ==================
  **Descriptor affinity**: a remote descriptor means something only to the server
  that issued it, so a request carrying one has to go there.

  `open` and `read` choose a server by the hash modulo the server count; `pread`,
  `lseek` and `close` by the ring.  `tracedMachine` is the client with a history
  variable: the server whose open reply wrote each entry of `fd_redir_map`.  Along a
  run every request is affine exactly when each ring choice that leads to a request
  agrees with the modulo choice (`affine_iff`).
-/
import Hvac.ClientRun

namespace Hvac

open Cxx Posix

/-! ### The traced client -/

/-- A process, and for every entry of `fd_redir_map` the server that wrote it. -/
abbrev TracedProcess := Process × OrdMap Int Int

abbrev TracedProcess.process (p : TracedProcess) : Process := p.1

abbrev TracedProcess.origin (p : TracedProcess) : OrdMap Int Int := p.2

/-- An answered open writes the entry of its descriptor. -/
def recordOrigin (origin : OrdMap Int Int) : ClientEvent → List (Int × Request) → OrdMap Int Int
  | .call (.openFile _ _ fd) (some _), (host, _) :: _ => origin.insert fd host
  | _, _ => origin

variable (env : Env)

def tracedMachine : Machine TracedProcess ClientEvent (List (Int × Request)) :=
  (clientMachine env).withHistory recordOrigin

def tracedStart (serverCount : Nat) : TracedProcess := ⟨clientStart env serverCount, OrdMap.empty⟩

/-- Every request that carries an entry of `fd_redir_map` goes to the server that
    wrote the entry. -/
def Affine (p : TracedProcess) (ev : ClientEvent) (sent : List (Int × Request)) : Prop :=
  match ev with
  | .call call _ =>
      ∀ fd, call.descriptor = some fd → ∀ r, p.process.client.fdRedirMap.find? fd = some r →
        ∀ x ∈ sent, p.origin.find? fd = some x.1
  | .timeout _ => True

/-- The ring's owner of the descriptor's path is the server the path hashes to,
    unless the limit check keeps the call from sending anything. -/
def RingAgrees (limit : Bool) (c : Client) (fd : Int) : Prop :=
  ∀ path, c.fdMap.find? fd = some path →
    ∀ i, c.hashRing.getNode env.hash path = some (serverName (i + 1)) →
      (limit && c.reachedLimit i) = true ∨ i = (env.hash path).val % c.gHvacServerCount

def HostsAgree (c : Client) : ClientEvent → Prop
  | .call (.pread fd _ _) _ => RingAgrees env true c fd
  | .call (.lseek fd _ _) _ => RingAgrees env false c fd
  | .call (.close fd) _ => RingAgrees env true c fd
  | .call (.openFile _ _ _) _ => True
  | .call (.read _ _) _ => True
  | .timeout _ => True

/-- While the process runs, a tracked descriptor has an entry, and the server that
    wrote it is the one its path hashes to. -/
def OriginInv (p : TracedProcess) : Prop :=
  p.process.status = .running →
    ∀ fd path, p.process.client.fdMap.find? fd = some path →
      (p.process.client.fdRedirMap.find? fd).isSome = true ∧
      p.origin.find? fd = some (p.process.client.hashHost env path)

variable {env}

theorem tracedMachine_step_eq_some {p p' : TracedProcess} {ev : ClientEvent}
    {sent : List (Int × Request)} (h : (tracedMachine env).step p ev = some (p', sent)) :
    (clientMachine env).step p.process ev = some (p'.process, sent) ∧
      p'.origin = recordOrigin p.origin ev sent :=
  Machine.withHistory_step_eq_some_iff.mp h

/-! ### Affinity along a run -/

theorem perform_serverCount {N : Nat} (hN : N < 2 ^ 31) {c : Client} (h : FailoverInv env N c)
    (answer : Int → Request → Option Reply) (call : Call) :
    (call.perform env answer c).client.gHvacServerCount = c.gHvacServerCount := by
  rw [(perform_failoverInv hN h answer call).count, h.count]

section Run

variable {N : Nat} {p p' : TracedProcess} {ev : ClientEvent} {sent : List (Int × Request)}

/-- An open that leaves the process running was answered or sent nothing. -/
theorem originInv_openFile (hinv : OriginInv env p) {path : String} {flags : OFlags} {fd : Int}
    {answer : Option Reply} (hrunning : p.process.status = .running) :
    OriginInv env
      ⟨⟨((Call.openFile path flags fd).perform env (fun _ _ => answer) p.process.client).client,
        ((Call.openFile path flags fd).perform env (fun _ _ => answer) p.process.client).status⟩,
      recordOrigin p.origin (.call (.openFile path flags fd) answer)
        ((Call.openFile path flags fd).perform env (fun _ _ => answer)
          p.process.client).sent⟩ := by
  intro hstatus fd' path' hpath'
  revert hstatus hpath'
  simp only [Call.perform, Effect.toStep, hvacTrackFile]
  rcases trackPath env path flags with _ | canonicalPath
  · intro _ hpath'
    cases answer <;> exact hinv hrunning fd' path' hpath'
  · cases answer with
    | none => intro hstatus; cases hstatus
    | some out =>
      intro _ hpath'
      simp only [Client.initMercury_setMaps, OrdMap.find?_insert] at hpath' ⊢
      have hcount : ∀ q, ({ p.process.client.initMercury env with
          fdMap := p.process.client.fdMap.insert fd canonicalPath }).hashHost env q =
          p.process.client.hashHost env q := p.process.client.hashHost_initMercury
      simp only [recordOrigin, TracedProcess.origin, OrdMap.find?_insert]
      by_cases hfd : fd' = fd
      · simp only [hfd, if_true, Option.some.injEq] at hpath' ⊢
        subst hpath'
        exact ⟨rfl, rfl⟩
      · simp only [if_neg hfd] at hpath' ⊢
        obtain ⟨hentry, horigin⟩ := hinv hrunning fd' path' hpath'
        have hredir : (p.process.client.initMercury env).fdRedirMap =
            p.process.client.fdRedirMap := by
          unfold Client.initMercury
          split <;> rfl
        refine ⟨?_, horigin.trans ?_⟩
        · rw [hredir]; exact hentry
        · exact congrArg some (p.process.client.hashHost_initMercury path').symm

theorem originInv_step (hN : N < 2 ^ 31) (hinv : OriginInv env p)
    (hfail : FailoverInv env N p.process.client)
    (hstep : (tracedMachine env).step p ev = some (p', sent)) : OriginInv env p' := by
  obtain ⟨hclient, horigin⟩ := tracedMachine_step_eq_some hstep
  obtain ⟨hrunning, ⟨call, answer, rfl, hp', rfl⟩ | ⟨host, rfl, hp', rfl⟩⟩ :=
    clientMachine_step_eq_some env hclient
  · obtain ⟨process', origin'⟩ := p'
    subst hp' horigin
    rcases hcall : call.descriptor with _ | fd
    · cases call with
      | openFile path flags fd => exact originInv_openFile hinv hrunning
      | read | pread | lseek | close => cases hcall
    · intro _ fd' path hpath
      obtain ⟨hbefore, hkeep⟩ :=
        (perform_leaves (fun _ _ => answer) p.process.client hcall).untracks fd' path hpath
      obtain ⟨hentry, horigin⟩ := hinv hrunning fd' path hbefore
      obtain ⟨r, hr⟩ := Option.isSome_iff_exists.mp hentry
      refine ⟨Option.isSome_iff_exists.mpr ⟨r, hkeep r hr⟩, ?_⟩
      have hrecord : recordOrigin p.origin (.call call answer)
          (call.perform env (fun _ _ => answer) p.process.client).sent = p.origin := by
        cases call with
        | openFile => cases hcall
        | read | pread | lseek | close => rfl
      simp only [hrecord, horigin, Client.hashHost,
        perform_serverCount hN hfail (fun _ _ => answer) call]
  · obtain ⟨process', origin'⟩ := p'
    subst hp' horigin
    intro _ fd path hpath
    exact hinv hrunning fd path hpath

/-- The hash's choice and the ring's, compared where the ring's leads to a request. -/
theorem ringAgrees_iff (hN : N < 2 ^ 31) {c : Client} (hfail : FailoverInv env N c) {fd : Int}
    {path : String} (hpath : c.fdMap.find? fd = some path) (limit : Bool) :
    RingAgrees env limit c fd ↔ ∀ host ∈ c.ringRoute env limit fd, c.hashHost env path = host := by
  unfold RingAgrees
  simp only [hpath, Option.some.injEq, forall_eq', Client.ringRoute, Client.ringHost,
    Option.mem_def]
  rcases hnode : c.hashRing.getNode env.hash path with _ | node
  · simp
  · obtain ⟨i, -, rfl, hconvert⟩ := hfail.ring.exists_host hN hnode
    simp only [hconvert, Option.some.injEq, serverName_inj, Nat.add_right_cancel_iff, forall_eq']
    cases hlimit : limit && c.reachedLimit i
    · simp only [Bool.false_eq_true, false_or, if_false, Option.some.injEq, forall_eq',
        Client.hashHost, Nat.cast_inj]
      exact eq_comm
    · simp

/-- A request goes where the call's route says, and the entry it carries was
    written by the hash's choice. -/
theorem affine_call_iff (hinv : OriginInv env p) (hrunning : p.process.status = .running)
    {call : Call} {fd : Int} (hfd : call.descriptor = some fd) (answer : Option Reply) :
    Affine p (.call call answer) (call.perform env (fun _ _ => answer) p.process.client).sent ↔
      ∀ path, p.process.client.fdMap.find? fd = some path →
        ∀ host ∈ call.route env p.process.client, p.process.client.hashHost env path = host := by
  have hsent := @perform_sent env (fun _ _ => answer) p.process.client call
  have hmem : ∀ host, host ∈ call.route env p.process.client ↔
      ∃ x ∈ (call.perform env (fun _ _ => answer) p.process.client).sent, x.1 = host := by
    intro host
    rw [← List.mem_map, hsent, Option.mem_toList, Option.mem_def]
  simp only [Affine, hfd, Option.some.injEq, forall_eq']
  constructor
  · intro haffine path hpath host hhost
    obtain ⟨hentry, horigin⟩ := hinv hrunning fd path hpath
    obtain ⟨r, hr⟩ := Option.isSome_iff_exists.mp hentry
    obtain ⟨x, hx, rfl⟩ := (hmem host).mp hhost
    have hx' := haffine r hr x hx
    rw [horigin] at hx'
    exact Option.some.inj hx'
  · intro hagree r hr x hx
    have hx' : x.1 ∈ call.route env p.process.client := (hmem x.1).mpr ⟨x, hx, rfl⟩
    rcases hpath : p.process.client.fdMap.find? fd with _ | path
    · -- an untracked descriptor sends nothing
      cases call with
      | openFile => cases hfd
      | read | pread | lseek | close =>
        cases hfd
        simp [Call.route, Client.ringRoute, hpath] at hx'
    · obtain ⟨-, horigin⟩ := hinv hrunning fd path hpath
      rw [horigin, hagree path hpath x.1 hx']

/-- One step is affine exactly when its hosts agree. -/
theorem affine_iff_hostsAgree (hN : N < 2 ^ 31) (hinv : OriginInv env p)
    (hfail : FailoverInv env N p.process.client)
    (hstep : (tracedMachine env).step p ev = some (p', sent)) :
    Affine p ev sent ↔ HostsAgree env p.process.client ev := by
  obtain ⟨hclient, -⟩ := tracedMachine_step_eq_some hstep
  obtain ⟨hrunning, ⟨call, answer, rfl, -, rfl⟩ | ⟨host, rfl, -, rfl⟩⟩ :=
    clientMachine_step_eq_some env hclient
  · have hring : ∀ {fd : Int} (limit : Bool),
        RingAgrees env limit p.process.client fd ↔
          ∀ path, p.process.client.fdMap.find? fd = some path →
            ∀ host ∈ p.process.client.ringRoute env limit fd,
              p.process.client.hashHost env path = host := by
      intro fd limit
      rcases hpath : p.process.client.fdMap.find? fd with _ | path
      · simp [RingAgrees, hpath]
      · simp only [ringAgrees_iff hN hfail hpath limit, Option.some.injEq, forall_eq']
    cases call with
    | openFile path flags fd => exact iff_of_true (fun fd hfd => by cases hfd) trivial
    | read fd count =>
      rw [affine_call_iff hinv hrunning rfl]
      refine iff_of_true ?_ trivial
      intro path hpath host hhost
      simp only [Call.route, hpath, Option.map_some, Option.mem_def, Option.some.injEq] at hhost
      exact hhost
    | pread fd count offset =>
      exact (affine_call_iff hinv hrunning rfl answer).trans (hring true).symm
    | lseek fd offset whence =>
      exact (affine_call_iff hinv hrunning rfl answer).trans (hring false).symm
    | close fd => exact (affine_call_iff hinv hrunning rfl answer).trans (hring true).symm
  · exact Iff.rfl

end Run

/-- **Along a run of any client, every request with a remote descriptor goes to the
    server that issued it exactly when, at each `pread`, `lseek` and `close` that
    sends one, the ring's owner of the path is the server the path hashes to.** -/
theorem affine_iff {N : Nat} (hN : 1 ≤ N ∧ N < 2 ^ 31) (events : List ClientEvent) :
    (tracedMachine env).Along (fun p ev _ sent => Affine p ev sent) (tracedStart env N) events ↔
      (tracedMachine env).Along (fun p ev _ _ => HostsAgree env p.process.client ev)
        (tracedStart env N) events := by
  refine Machine.along_iff
    (I := fun p => OriginInv env p ∧ FailoverInv env N p.process.client) ?_ ?_
  · rintro p ev p' sent ⟨hinv, hfail⟩ hstep
    refine ⟨affine_iff_hostsAgree hN.2 hinv hfail hstep, fun _ => ?_⟩
    obtain ⟨hclient, -⟩ := tracedMachine_step_eq_some hstep
    exact ⟨originInv_step hN.2 hinv hfail hstep, step_failoverInv hN.2 hfail hclient⟩
  · refine ⟨?_, failoverInv_init env N⟩
    intro _ fd path hpath
    cases hpath

/-- A descriptor from its open to its close. -/
def openToClose : List ClientEvent :=
  [.call (.openFile "/data/a" O_RDONLY 3) (some ⟨5, []⟩), .call (.read 3 1) (some ⟨1, [7]⟩),
    .call (.pread 3 1 0) (some ⟨1, [7]⟩), .timeout 0, .call (.lseek 3 0 SEEK_SET) (some ⟨0, []⟩),
    .call (.close 3) none]

theorem affine_iff_openToClose :
    (tracedMachine zeroHashEnv).Along (fun p ev _ sent => Affine p ev sent)
        (tracedStart zeroHashEnv 2) openToClose ↔
      (tracedMachine zeroHashEnv).Along
        (fun p ev _ _ => HostsAgree zeroHashEnv p.process.client ev) (tracedStart zeroHashEnv 2)
        openToClose :=
  affine_iff (by decide) _

/-- Two servers and a hash on which the ring and the modulo disagree: server `0`
    answers the open with descriptor `5`, and the `pread` takes it to server `1`. -/
theorem not_affine_pread :
    ¬ (tracedMachine zeroHashEnv).Along (fun p ev _ sent => Affine p ev sent)
      (tracedStart zeroHashEnv 2)
      [.call (.openFile "/data/a" O_RDONLY 3) (some ⟨5, []⟩),
        .call (.pread 3 1 0) (some ⟨1, [7]⟩)] := by
  have htrace : (((tracedMachine zeroHashEnv).step (tracedStart zeroHashEnv 2)
      (.call (.openFile "/data/a" O_RDONLY 3) (some ⟨5, []⟩))).bind fun p =>
        ((tracedMachine zeroHashEnv).step p.1 (.call (.pread 3 1 0) (some ⟨1, [7]⟩))).map fun q =>
          (p.1.process.client.fdRedirMap.find? 3, p.1.origin.find? 3, q.2)) =
      some (some 5, some 0, [(1, .rpcIn 1 5 3 0)]) := by
    decide +kernel
  obtain ⟨⟨p, sent⟩, hopen, hrest⟩ := Option.bind_eq_some_iff.mp htrace
  obtain ⟨⟨q, sent'⟩, hpread, heq⟩ := Option.map_eq_some_iff.mp hrest
  obtain ⟨hentry, horigin, hsent⟩ : p.process.client.fdRedirMap.find? 3 = some 5 ∧
      p.origin.find? 3 = some 0 ∧ sent' = [(1, .rpcIn 1 5 3 0)] := by
    simpa only [Prod.mk.injEq] using heq
  intro h
  obtain ⟨-, h₁⟩ := h _ _ hopen
  obtain ⟨haffine, -⟩ := h₁ _ _ hpread
  have h' := haffine 3 rfl 5 hentry (1, .rpcIn 1 5 3 0)
    (by rw [hsent]; exact List.mem_singleton.mpr rfl)
  rw [horigin] at h'
  cases h'

end Hvac
