/-
  Hvac/Calm.lean
  ==============
  **The client while no timeout has been recorded.**

  Nothing has been removed from the ring then, no limit is reached and `GetNode`
  finds a server, so every remote call of a tracked descriptor is one request to
  one server and what follows its answer: `hvacRemoteRead_eq` and its siblings are
  the equations the results about whole systems use in place of the definitions.
  For the calls that ask the ring they assume that it chooses the server the path
  hashes to (`RingAgrees`), which a single server always satisfies.
-/
import Hvac.Affinity

namespace Hvac

open Cxx Posix

variable (env : Env)

structure Calm (N : Nat) (c : Client) : Prop where
  count : c.gHvacServerCount = N
  ring : c.hashRing = initRing env.hash N VIRTUAL_NODE_CNT
  counters : ∀ i, c.timeoutCounters.getD i 0 = 0

variable {env} {N : Nat} {c : Client}

theorem getD_resize_zero (l : List Nat) (n i : Nat) (h : ∀ i, l.getD i 0 = 0) :
    (resize l n 0).getD i 0 = 0 := by
  simp only [resize, List.getD_eq_getElem?_getD, List.getElem?_take, List.getElem?_append,
    List.getElem?_replicate] at h ⊢
  split
  · split
    · exact h i
    · split <;> rfl
  · rfl

theorem calm_init (env : Env) (N : Nat) : Calm env N (hvacClientInit env N) where
  count := rfl
  ring := rfl
  counters _ := rfl

theorem Calm.initMercury (h : Calm env N c) (m : OrdMap Int String) (r : OrdMap Int Int) :
    Calm env N { c.initMercury env with fdMap := m, fdRedirMap := r } := by
  unfold Client.initMercury
  split
  · exact ⟨h.count, h.ring, h.counters⟩
  · refine ⟨h.count, ?_, ?_⟩
    · simp only [initializeHashRing, h.count]
    · intro i
      exact getD_resize_zero _ _ i h.counters

theorem Calm.setMaps (h : Calm env N c) (m : OrdMap Int String) (r : OrdMap Int Int) :
    Calm env N { c with fdMap := m, fdRedirMap := r } :=
  ⟨h.count, h.ring, h.counters⟩

theorem Calm.reachedLimit (h : Calm env N c) (host : Int) : c.reachedLimit host = false := by
  simp only [Client.reachedLimit, h.counters, TIMEOUT_LIMIT]
  rfl

/-- The ring has a server for every path. -/
theorem Calm.exists_node (hN : 1 ≤ N) (h : Calm env N c) (path : String) :
    ∃ i, i < N ∧ c.hashRing.getNode env.hash path = some (serverName (i + 1)) := by
  have hpoint : (initRing env.hash N VIRTUAL_NODE_CNT).ring.find?
      (HashRing.point env.hash (serverName N) 0) = some (serverName N) := by
    rw [find?_initRing_iff]
    refine ⟨N, hN, le_refl N, rfl, HashRing.mem_points.mpr ⟨0, by decide, rfl⟩, ?_⟩
    intro j hj hj'
    omega
  rcases hnode : c.hashRing.getNode env.hash path with _ | node
  · rw [HashRing.getNode_eq_none_iff, h.ring, OrdMap.isEmpty_eq_false hpoint] at hnode
    cases hnode
  · obtain ⟨k, hk⟩ := HashRing.exists_point_of_getNode hnode
    rw [h.ring] at hk
    obtain ⟨i, h1, h2, rfl⟩ := (ringInv_initRing env.hash N VIRTUAL_NODE_CNT).server k node hk
    exact ⟨i - 1, by omega, by rw [show i - 1 + 1 = i by omega]⟩

/-- A ring that agrees with the hash leads to the server the path hashes to. -/
theorem Calm.ringHost (hN : 1 ≤ N ∧ N < 2 ^ 31) (h : Calm env N c) {limit : Bool} {fd : Int}
    {path : String} (hpath : c.fdMap.find? fd = some path) (hagree : RingAgrees env limit c fd) :
    ∃ hostname, c.ringHost env path = .ok (hostname, c.hashHost env path) := by
  obtain ⟨i, hi, hnode⟩ := h.exists_node hN.1 path
  have hsame : i = (env.hash path).val % c.gHvacServerCount := by
    rcases hagree path hpath i hnode with hlimit | hsame
    · rw [h.reachedLimit, Bool.and_false] at hlimit
      cases hlimit
    · exact hsame
  refine ⟨serverName (i + 1), ?_⟩
  simp only [Client.ringHost, hnode, convertHostToNumber_serverName (i := i + 1) (by omega)]
  simp only [Client.hashHost, ← hsame, Nat.cast_add, Nat.cast_one, add_sub_cancel_right]

/-- With one server both rules choose it. -/
theorem Calm.ringAgrees_one (h : Calm env 1 c) (limit : Bool) (fd : Int) :
    RingAgrees env limit c fd := by
  intro path _ i hnode
  obtain ⟨j, hj, hnode'⟩ := h.exists_node (le_refl 1) path
  rw [hnode, Option.some.injEq, serverName_inj] at hnode'
  right
  rw [h.count, Nat.mod_one]
  omega

/-! ### The remote calls of a tracked descriptor -/

section Remote

variable {answer : Int → Request → Option Reply} {fd r : Int} {path : String}

theorem hvacTrackFile_eq {flags : OFlags} {file : String}
    (htrack : trackPath env path flags = some file) :
    hvacTrackFile env answer c path flags fd =
      let c' := { c.initMercury env with fdMap := c.fdMap.insert fd file }
      match answer (c.hashHost env file) (.openIn file fd) with
      | some out =>
          ⟨{ c' with fdRedirMap := c.fdRedirMap.insert fd out.ret },
            [(c.hashHost env file, .openIn file fd)], .returned true⟩
      | none => ⟨c'.recordTimeout (c.hashHost env file),
          [(c.hashHost env file, .openIn file fd)], .exited (-1)⟩ := by
  have hhost : ({ c.initMercury env with fdMap := c.fdMap.insert fd file }).hashHost env file =
      c.hashHost env file := c.hashHost_initMercury file
  simp only [hvacTrackFile, htrack, Client.initMercury_setMaps, hhost]
  rcases answer (c.hashHost env file) (.openIn file fd) with _ | out
  · rfl
  · simp only [Client.initMercury_fdRedirMap]

theorem hvacRemoteRead_eq (hpath : c.fdMap.find? fd = some path)
    (hr : c.fdRedirMap.find? fd = some r) (count : Nat) :
    hvacRemoteRead env answer c fd count =
      match answer (c.hashHost env path) (.rpcIn (int32 count) r fd (-1)) with
      | some out => ⟨finishRead c fd out,
          [(c.hashHost env path, .rpcIn (int32 count) r fd (-1))], .returned out⟩
      | none => ⟨c, [(c.hashHost env path, .rpcIn (int32 count) r fd (-1))], .blocked⟩ := by
  rcases hanswer : answer (c.hashHost env path) (.rpcIn (int32 count) r fd (-1)) with _ | out
  all_goals simp only [hvacRemoteRead, Client.hvacGetPath_eq, hpath,
    Client.genReadRpc_of_find? hr, hanswer]

/-! The ring may lead anywhere: the host it names is the one that is asked. -/

section RingHost

variable {hostname : String} {host : Int}

theorem hvacRemotePread_of_ringHost (hpath : c.fdMap.find? fd = some path)
    (hr : c.fdRedirMap.find? fd = some r) (hhost : c.ringHost env path = .ok (hostname, host))
    (hlimit : c.reachedLimit host = false) (count : Nat) (offset : Int) :
    hvacRemotePread env answer c fd count offset =
      match answer host (.rpcIn (int32 count) r fd offset) with
      | some out => ⟨finishRead c fd out, [(host, .rpcIn (int32 count) r fd offset)],
          .returned out⟩
      | none => ⟨c, [(host, .rpcIn (int32 count) r fd offset)], .blocked⟩ := by
  rcases hanswer : answer host (.rpcIn (int32 count) r fd offset) with _ | out
  all_goals simp only [hvacRemotePread, Client.hvacGetPath_eq, hpath, hhost, hlimit,
    Bool.false_eq_true, if_false, Client.genReadRpc_of_find? hr, hanswer]

theorem hvacRemoteLseek_of_ringHost (hpath : c.fdMap.find? fd = some path)
    (hr : c.fdRedirMap.find? fd = some r) (hhost : c.ringHost env path = .ok (hostname, host))
    (offset whence : Int) :
    hvacRemoteLseek env answer c fd offset whence =
      match answer host (.seekIn r (int32 offset) whence) with
      | some out => ⟨c, [(host, .seekIn r (int32 offset) whence)], .returned out.ret⟩
      | none => ⟨c, [(host, .seekIn r (int32 offset) whence)], .blocked⟩ := by
  rcases hanswer : answer host (.seekIn r (int32 offset) whence) with _ | out
  all_goals simp only [hvacRemoteLseek, Client.hvacGetPath_eq, hpath, hhost,
    Client.genSeekRpc_of_find? hr, hanswer]

theorem hvacRemoveFd_of_ringHost (hpath : c.fdMap.find? fd = some path)
    (hr : c.fdRedirMap.find? fd = some r) (hhost : c.ringHost env path = .ok (hostname, host))
    (hlimit : c.reachedLimit host = false) :
    hvacRemoveFd env c fd =
      ⟨{ c with fdMap := c.fdMap.erase fd, fdRedirMap := c.fdRedirMap.erase fd },
        [(host, .closeIn r)], .returned true⟩ := by
  simp only [hvacRemoveFd, OrdMap.isEmpty_eq_false hpath, Bool.false_eq_true, if_false,
    hvacRemoteClose, Client.hvacGetPath_eq, hpath, hhost, hlimit,
    Client.genCloseRpc_of_find? hr, Option.isSome_some]

end RingHost

theorem hvacRemotePread_eq (hN : 1 ≤ N ∧ N < 2 ^ 31) (h : Calm env N c)
    (hpath : c.fdMap.find? fd = some path) (hr : c.fdRedirMap.find? fd = some r)
    (hagree : RingAgrees env true c fd) (count : Nat) (offset : Int) :
    hvacRemotePread env answer c fd count offset =
      match answer (c.hashHost env path) (.rpcIn (int32 count) r fd offset) with
      | some out => ⟨finishRead c fd out,
          [(c.hashHost env path, .rpcIn (int32 count) r fd offset)], .returned out⟩
      | none => ⟨c, [(c.hashHost env path, .rpcIn (int32 count) r fd offset)], .blocked⟩ := by
  obtain ⟨hostname, hhost⟩ := h.ringHost hN hpath hagree
  exact hvacRemotePread_of_ringHost hpath hr hhost (h.reachedLimit _) count offset

theorem hvacRemoteLseek_eq (hN : 1 ≤ N ∧ N < 2 ^ 31) (h : Calm env N c)
    (hpath : c.fdMap.find? fd = some path) (hr : c.fdRedirMap.find? fd = some r)
    (hagree : RingAgrees env false c fd) (offset whence : Int) :
    hvacRemoteLseek env answer c fd offset whence =
      match answer (c.hashHost env path) (.seekIn r (int32 offset) whence) with
      | some out => ⟨c, [(c.hashHost env path, .seekIn r (int32 offset) whence)],
          .returned out.ret⟩
      | none => ⟨c, [(c.hashHost env path, .seekIn r (int32 offset) whence)], .blocked⟩ := by
  obtain ⟨hostname, hhost⟩ := h.ringHost hN hpath hagree
  exact hvacRemoteLseek_of_ringHost hpath hr hhost offset whence

theorem hvacRemoveFd_eq (hN : 1 ≤ N ∧ N < 2 ^ 31) (h : Calm env N c)
    (hpath : c.fdMap.find? fd = some path) (hr : c.fdRedirMap.find? fd = some r)
    (hagree : RingAgrees env true c fd) :
    hvacRemoveFd env c fd =
      ⟨{ c with fdMap := c.fdMap.erase fd, fdRedirMap := c.fdRedirMap.erase fd },
        [(c.hashHost env path, .closeIn r)], .returned true⟩ := by
  obtain ⟨hostname, hhost⟩ := h.ringHost hN hpath hagree
  exact hvacRemoveFd_of_ringHost hpath hr hhost (h.reachedLimit _)

end Remote

end Hvac
