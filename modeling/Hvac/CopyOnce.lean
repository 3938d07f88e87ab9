/-
  Hvac/CopyOnce.lean
  ==================
  **How often a file is copied to the node-local storage.**

  The close handler looks in `path_cache_map` before it queues a path, so a path
  that has been published is not copied again.  It does not look in the queue, in
  the mover's list or at the copy in progress: a path closed twice before its
  first copy is published is queued twice and copied twice (`copied_twice`), and
  the second entry of the map replaces the first.  Where no close meets its own
  path there, one copy is made of each file (`copiedOnce_run`).
-/
import Hvac.ServerRun

namespace Hvac

open Cxx Posix

variable {rl : ReadLen} {bbpath : String} {files : Files}

/-- The paths on their way: queued, or taken over by the mover and not yet published
    or given up. -/
def Server.pending (s : Server) : List String :=
  match s.mover with
  | .finished => s.localList.tail ++ s.dataQueue
  | .waiting => s.localList ++ s.dataQueue
  | .ready => s.localList ++ s.dataQueue
  | .made _ => s.localList ++ s.dataQueue
  | .copying _ => s.localList ++ s.dataQueue
  | .copied _ => s.localList ++ s.dataQueue

/-- A close that is handled and whose path is not in `path_cache_map` does not find
    it on its way. -/
def ClosesFresh (s : Server) : ServerLabel → Prop
  | .request _ (.closeIn fd) =>
      s.alive = true → s.pathCacheMap.find? (s.closedPath fd) = none → s.closedPath fd ∉ s.pending
  | .request _ (.openIn _ _) => True
  | .request _ (.rpcIn _ _ _ _) => True
  | .request _ (.seekIn _ _ _) => True
  | .mover _ => True

instance (s : Server) : ∀ l, Decidable (ClosesFresh s l)
  | .request _ (.closeIn _) => inferInstanceAs (Decidable (_ → _))
  | .request _ (.openIn _ _) => isTrue trivial
  | .request _ (.rpcIn _ _ _ _) => isTrue trivial
  | .request _ (.seekIn _ _ _) => isTrue trivial
  | .mover _ => isTrue trivial

/-- No path was copied twice, and a completed copy is the one the map leads to, or
    the one about to be published. -/
structure CopiedOnce (s : Server) (copies : List (String × String)) : Prop where
  once : (copies.map Prod.fst).Nodup
  cached : ∀ p q, (p, q) ∈ copies →
    s.pathCacheMap.find? p = some q ∨ s.mover = .copied q ∧ s.localList.head? = some p

/-- The invariant behind it: a path is on its way at most once, and then has no
    entry. -/
structure OnceInv (s : Server) (copies : List (String × String)) : Prop where
  pending : s.pending.Nodup
  uncached : ∀ p ∈ s.pending, s.pathCacheMap.find? p = none
  copied : CopiedOnce s copies

theorem onceInv_init : OnceInv Server.init [] where
  pending := List.nodup_nil
  uncached p hp := by cases hp
  copied := ⟨List.nodup_nil, fun p q hq => by cases hq⟩

section Steps

variable {s s' : Server} {copies : List (String × String)}

/-! ### Requests -/

/-- Only a close adds to the queue. -/
theorem Server.handle_dataQueue {remote : Int} {request : Request} {reply : Option Reply}
    (hhandle : s.handle rl bbpath files remote request = some (s', reply)) :
    s'.dataQueue = s.dataQueue ∨
      ∃ fd, request = .closeIn fd ∧ s.alive = true ∧
        s.pathCacheMap.find? (s.closedPath fd) = none ∧
        s'.dataQueue = s.dataQueue ++ [s.closedPath fd] := by
  unfold Server.handle at hhandle
  split at hhandle
  · next halive =>
    cases request with
    | openIn path localfd =>
      obtain ⟨-, ⟨-, rfl⟩ | ⟨c, -, -, -, -, rfl⟩⟩ := Server.openRpcHandler_eq_some hhandle
      · exact Or.inl rfl
      · exact Or.inl rfl
    | rpcIn inputVal accessfd localfd offset =>
      have hs' : (s.rpcHandler rl bbpath files inputVal accessfd offset remote).1 = s' :=
        congrArg Prod.fst (Option.some.inj hhandle)
      obtain ⟨alive, fds, -, heq | heq⟩ :=
        @Server.rpcHandler_shape bbpath files rl s inputVal accessfd offset remote
      · exact Or.inl (by rw [← hs', heq])
      · exact Or.inl (by rw [← hs', heq])
    | seekIn fd offset whence =>
      cases hhandle
      exact Or.inl rfl
    | closeIn fd =>
      cases hhandle
      simp only [Server.closeRpcHandler]
      split
      · next hnone =>
        exact Or.inr ⟨fd, rfl, halive, Option.isNone_iff_eq_none.mp hnone, rfl⟩
      · exact Or.inl rfl
  · cases hhandle
    exact Or.inl rfl

theorem Server.pending_queue (s : Server) (dataQueue : List String) (alive : Bool)
    (fds : FdTable String) (fdToPath : OrdMap Int String) :
    Server.pending { s with
        alive := alive, fds := fds, fdToPath := fdToPath, dataQueue := s.dataQueue ++ dataQueue } =
      s.pending ++ dataQueue := by
  unfold Server.pending
  rcases s.mover with _ | _ | _ | _ | _ | _ <;> simp only [List.append_assoc]

theorem OnceInv.handle (h : OnceInv s copies) {remote : Int} {request : Request}
    {reply : Option Reply} (hfresh : ClosesFresh s (.request remote request))
    (hhandle : s.handle rl bbpath files remote request = some (s', reply)) :
    OnceInv s' copies := by
  have hqueue := Server.handle_dataQueue hhandle
  obtain ⟨alive, fds, fdToPath, dataQueue, rfl, -⟩ := Server.handle_shape hhandle
  rcases hqueue with rfl | ⟨fd, rfl, halive, hnone, rfl⟩
  · have hpending := s.pending_queue [] alive fds fdToPath
    rw [List.append_nil, List.append_nil] at hpending
    refine ⟨?_, ?_, ⟨h.copied.once, h.copied.cached⟩⟩
    · rw [hpending]
      exact h.pending
    · rw [hpending]
      exact h.uncached
  · have hpending := s.pending_queue [s.closedPath fd] alive fds fdToPath
    have hnew : s.closedPath fd ∉ s.pending := hfresh halive hnone
    refine ⟨?_, ?_, ⟨h.copied.once, h.copied.cached⟩⟩
    · rw [hpending]
      exact List.nodup_append.mpr ⟨h.pending, List.nodup_singleton _, fun a ha b hb => by
        rw [List.mem_singleton.mp hb]
        rintro rfl
        exact hnew ha⟩
    · rw [hpending]
      intro p hp
      rcases List.mem_append.mp hp with hp | hp
      · exact h.uncached p hp
      · rw [List.mem_singleton.mp hp]
        exact hnone

/-! ### The mover -/

/-- A step that makes no entry and adds nothing to what is on its way. -/
theorem OnceInv.advance (h : OnceInv s copies) (hpending : s'.pending.Sublist s.pending)
    (hmap : s'.pathCacheMap = s.pathCacheMap) (hmover : ∀ q, s.mover ≠ .copied q) :
    OnceInv s' copies where
  pending := h.pending.sublist hpending
  uncached p hp := by
    rw [hmap]
    exact h.uncached p (hpending.subset hp)
  copied := by
    refine ⟨h.copied.once, fun p q hq => ?_⟩
    rcases h.copied.cached p q hq with hentry | ⟨hcopied, -⟩
    · rw [hmap]
      exact Or.inl hentry
    · exact absurd hcopied (hmover q)

/-- The path whose copy ends had no copy: it has no entry, and no other copy waits
    to be published. -/
theorem OnceInv.copyEnd (h : OnceInv s copies) {dest path : String} {rest : List String}
    (hmover : s.mover = .copying dest) (hlist : s.localList = path :: rest) :
    OnceInv { s with mover := .copied dest } (copies ++ [(path, dest)]) := by
  have hpending : Server.pending { s with mover := .copied dest } = s.pending := by
    simp only [Server.pending, hmover]
  have hhead : path ∈ s.pending := by
    simp only [Server.pending, hmover, hlist]
    exact List.mem_cons_self
  have hentry : ∀ p q, (p, q) ∈ copies → s.pathCacheMap.find? p = some q := by
    intro p q hq
    rcases h.copied.cached p q hq with hentry | ⟨hcopied, -⟩
    · exact hentry
    · rw [hmover] at hcopied
      cases hcopied
  refine ⟨?_, ?_, ?_, ?_⟩
  · rw [hpending]
    exact h.pending
  · rw [hpending]
    exact h.uncached
  · rw [List.map_append, List.map_singleton]
    refine List.nodup_append.mpr ⟨h.copied.once, List.nodup_singleton _, ?_⟩
    intro _ hp _ hpath heq
    obtain ⟨⟨p, q⟩, hmem, rfl⟩ := List.mem_map.mp hp
    have hsame : p = path := heq.trans (List.mem_singleton.mp hpath)
    have hcached := hentry p q hmem
    rw [hsame, h.uncached path hhead] at hcached
    cases hcached
  · intro p q hq
    rcases List.mem_append.mp hq with hq | hq
    · exact Or.inl (hentry p q hq)
    · obtain ⟨rfl, rfl⟩ := Prod.mk.inj (List.mem_singleton.mp hq)
      exact Or.inr ⟨rfl, by rw [hlist]; rfl⟩

theorem OnceInv.publish (h : OnceInv s copies) {dest path : String} {rest : List String}
    (hmover : s.mover = .copied dest) (hlist : s.localList = path :: rest) :
    OnceInv { s with pathCacheMap := s.pathCacheMap.insert path dest, mover := .finished }
      copies := by
  have hpending : s.pending = path :: (rest ++ s.dataQueue) := by
    simp only [Server.pending, hmover, hlist, List.cons_append]
  have hpending' : Server.pending { s with
      pathCacheMap := s.pathCacheMap.insert path dest, mover := .finished } =
      rest ++ s.dataQueue := by
    simp only [Server.pending, hlist, List.tail_cons]
  have hnodup := h.pending
  rw [hpending, List.nodup_cons] at hnodup
  refine ⟨by rw [hpending']; exact hnodup.2, ?_, h.copied.once, ?_⟩
  · intro p hp
    rw [hpending'] at hp
    have hne : p ≠ path := by
      rintro rfl
      exact hnodup.1 hp
    refine (OrdMap.find?_insert_of_ne hne ..).trans (h.uncached p ?_)
    rw [hpending]
    exact List.mem_cons_of_mem _ hp
  · intro p q hq
    left
    rcases h.copied.cached p q hq with hentry | ⟨hcopied, hhead⟩
    · -- an entry of another path
      refine (OrdMap.find?_insert_of_ne ?_ ..).trans hentry
      rintro rfl
      rw [h.uncached p (by rw [hpending]; exact List.mem_cons_self)] at hentry
      cases hentry
    · rw [hmover] at hcopied
      rw [hlist] at hhead
      cases hcopied
      cases hhead
      exact OrdMap.find?_insert_self ..

theorem OnceInv.moverStep (h : OnceInv s copies) {step : MoverStep}
    (hstep : s.moverStep bbpath files step = some s') :
    OnceInv s' (copies ++ (s.completes step).toList) := by
  cases Server.moverStep_leaves hstep with
  | drain hmover =>
    rw [s.append_completes_of_ne copies (by simp)]
    refine h.advance ?_ rfl (by simp [hmover])
    simp only [Server.pending, hmover, List.append_nil]
    exact List.Sublist.refl _
  | mkdtempFailed hmover =>
    rw [s.append_completes_of_ne copies (by simp)]
    refine h.advance ?_ rfl (by simp [hmover])
    simp only [Server.pending, hmover]
    exact (List.tail_sublist _).append_right _
  | mkdtemp hmover | copyBegin hmover | copyChunk n hmover =>
    rw [s.append_completes_of_ne copies (by simp)]
    refine h.advance ?_ rfl (by simp [hmover])
    simp only [Server.pending, hmover]
    exact List.Sublist.refl _
  | copyEnd hmover hlist =>
    rw [s.completes_copyEnd hmover hlist]
    exact h.copyEnd hmover hlist
  | copyFail hmover =>
    -- the front no longer counts
    rw [s.append_completes_of_ne copies (by simp)]
    rcases hmover with ⟨dir, hmover⟩ | ⟨dest, hmover⟩
    · refine h.advance ?_ rfl (by simp [hmover])
      simp only [Server.pending, hmover]
      exact (List.tail_sublist _).append_right _
    · refine h.advance ?_ rfl (by simp [hmover])
      simp only [Server.pending, hmover]
      exact (List.tail_sublist _).append_right _
  | publish hmover hlist =>
    rw [s.append_completes_of_ne copies (by simp)]
    exact h.publish hmover hlist
  | @pop path rest hmover hlist =>
    rw [s.append_completes_of_ne copies (by simp)]
    refine h.advance ?_ rfl (by simp [hmover])
    by_cases hrest : rest = []
    · simp only [Server.pending, hmover, hlist, if_pos hrest, List.tail_cons]
      exact List.Sublist.refl _
    · simp only [Server.pending, hmover, hlist, if_neg hrest, List.tail_cons]
      exact List.Sublist.refl _

theorem OnceInv.step {x x' : Server × List (String × String)} {l : ServerLabel}
    {out : Option Reply × Option (String × String)} (h : OnceInv x.1 x.2)
    (hfresh : ClosesFresh x.1 l) (hstep : (copyMachine rl bbpath files).step x l = some (x', out)) :
    OnceInv x'.1 x'.2 := by
  obtain ⟨hserver, hhistory⟩ := Machine.withHistory_step_eq_some_iff.mp hstep
  rw [hhistory]
  obtain ⟨remote, request, rfl, hnone, hhandle⟩ | ⟨step, -, rfl, -, hmover⟩ :=
    serverMachine_step_eq_some hserver
  · rw [hnone, Option.toList_none, List.append_nil]
    exact h.handle hfresh hhandle
  · exact h.moverStep hmover

end Steps

/-- **Along a run in which no close queues a path that is still on its way, each file
    is copied at most once.** -/
theorem copiedOnce_run {labels : List ServerLabel}
    (hfresh : (copyMachine rl bbpath files).Along (fun x l _ _ => ClosesFresh x.1 l)
      (Server.init, []) labels) :
    (copyMachine rl bbpath files).Along (fun _ _ x' _ => CopiedOnce x'.1 x'.2)
      (Server.init, []) labels := by
  refine Machine.along_of_invariant (I := fun x => OnceInv x.1 x.2) ?_ onceInv_init hfresh
  intro x l x' out h hl hstep
  have h' := h.step hl hstep
  exact ⟨h'.copied, h'⟩

/-- One file of one byte. -/
def oneFile : Files := OrdMap.empty.insert "/data/a" [7]

/-- The file is opened and closed, copied, published, opened and closed again. -/
theorem copiedOnce_run_reopened :
    (copyMachine ReadLen.full "/bb" oneFile).Along (fun _ _ x' _ => CopiedOnce x'.1 x'.2)
      (Server.init, [])
      [.request 3 (.openIn "/data/a" 5), .request 0 (.closeIn 3), .mover .drain,
        .mover (.mkdtemp (some "aaaaaa")), .mover .copyBegin, .mover (.copyChunk 1),
        .mover .copyEnd, .mover .publish, .mover .pop, .request 3 (.openIn "/data/a" 5),
        .request 0 (.closeIn 3)] :=
  copiedOnce_run (by decide +kernel)

/-- Two descriptors on one file are closed before its first copy is published. -/
def twiceLabels : List ServerLabel :=
  [.request 3 (.openIn "/data/a" 5), .request 4 (.openIn "/data/a" 6),
    .request 0 (.closeIn 3), .request 0 (.closeIn 4), .mover .drain,
    .mover (.mkdtemp (some "aaaaaa")), .mover .copyBegin, .mover (.copyChunk 1),
    .mover .copyEnd, .mover .publish, .mover .pop, .mover (.mkdtemp (some "bbbbbb")),
    .mover .copyBegin, .mover (.copyChunk 1), .mover .copyEnd, .mover .publish]

/-- Both closes queue the file: it is copied twice, and the first copy stays on the
    storage although the map leads to the second. -/
theorem copied_twice :
    ∃ x outs, (copyMachine ReadLen.full "/bb" oneFile).run (Server.init, []) twiceLabels =
        some (x, outs) ∧
      x.2 = [("/data/a", "/bb/aaaaaa/a"), ("/data/a", "/bb/bbbbbb/a")] ∧
      x.1.store.find? "/bb/aaaaaa/a" = some [7] ∧
      x.1.pathCacheMap.find? "/data/a" = some "/bb/bbbbbb/a" ∧ ¬ CopiedOnce x.1 x.2 := by
  have hvalue : ((copyMachine ReadLen.full "/bb" oneFile).run (Server.init, [])
      twiceLabels).map (fun r => (r.1.2, r.1.1.store.find? "/bb/aaaaaa/a",
        r.1.1.pathCacheMap.find? "/data/a")) =
      some ([("/data/a", "/bb/aaaaaa/a"), ("/data/a", "/bb/bbbbbb/a")], some [7],
        some "/bb/bbbbbb/a") := by
    decide +kernel
  obtain ⟨⟨x, outs⟩, hrun, hx⟩ := Option.map_eq_some_iff.mp hvalue
  simp only [Prod.mk.injEq] at hx
  obtain ⟨hcopies, hstore, hentry⟩ := hx
  refine ⟨x, outs, hrun, hcopies, hstore, hentry, fun honce => ?_⟩
  have hnodup := honce.once
  rw [hcopies] at hnodup
  exact absurd hnodup (by decide)

end Hvac
