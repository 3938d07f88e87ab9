/-
  Hvac/ServerInv.lean
  ===================
  **The server's cache and descriptors while files do not change under a copy.**

  `ServerInv` says that an entry of `path_cache_map` leads to a completed copy of
  its path's present contents, that the copy the mover is making is so far a
  prefix of its source, and that nothing refers to it yet.  It says so of the copies
  that are `kept`: those whose source does not change once they were begun.  Every
  handler and every step of the mover keeps it, and so does a change of any file
  no such copy of which was begun (`ServerInv.setFile`).  `Serves r p` is what an
  open of `p` establishes for its descriptor `r`: reading it reads `p`.
-/
import Hvac.Server

namespace Hvac

open Cxx Posix

variable (kept : String → String → Prop) (bbpath : String) (files : Files)

/-! ### Statements -/

/-- The copy the mover has begun and not yet published. -/
def MoverPc.dest? : MoverPc → Option String
  | .copying dest => some dest
  | .copied dest => some dest
  | .waiting => none
  | .ready => none
  | .made _ => none
  | .finished => none

namespace Server

/-- `q` is a completed copy of `p`. -/
def CopyOf (s : Server) (q p : String) : Prop :=
  underBB bbpath q ∧ s.mover.dest? ≠ some q ∧
    ∃ c, files.find? p = some c ∧ s.store.find? q = some c

/-- A descriptor on `file` reads `p`: it is the file itself, or a copy that was
    published. -/
def Reads (s : Server) (file p : String) : Prop :=
  file = p ∨ s.CopyOf bbpath files file p ∧ s.pathCacheMap.find? p ≠ none

/-- The descriptor `r` is open, and reads `p` if its file is a copy that is kept. -/
def Serves (s : Server) (r : Int) (p : String) : Prop :=
  ∃ g, s.fds.find? r = some g ∧ (kept p g.file → s.Reads bbpath files g.file p)

/-- What holds where the mover stands: the new directory is empty, and the copy is
    a prefix of its source, in the end all of it. -/
def MoverInv (s : Server) : Prop :=
  match s.mover with
  | .waiting => True
  | .ready => True
  | .finished => True
  | .made dir => dir ∈ s.dirs ∧ ∀ q c, s.store.find? q = some c → parentPath q ≠ dir
  | .copying dest =>
      underBB bbpath dest ∧ ∃ p rest done, s.localList = p :: rest ∧
        s.store.find? dest = some done ∧
        (kept p dest → ∃ c, files.find? p = some c ∧ done <+: c)
  | .copied dest =>
      underBB bbpath dest ∧ ∃ p rest done, s.localList = p :: rest ∧
        s.store.find? dest = some done ∧ (kept p dest → files.find? p = some done)

/-- No server copy of `p` has been published or begun. -/
def Uncopied (s : Server) (p : String) : Prop :=
  s.pathCacheMap.find? p = none ∧ (s.mover.dest? = none ∨ s.localList.head? ≠ some p)

/-- No copy of `p` has been begun that is in use, or at least none to `q`. -/
def Unbegun (s : Server) (p q : String) : Prop := s.Uncopied p ∨ s.store.find? q = none

end Server

structure ServerInv (s : Server) : Prop where
  descriptors : ∀ r g, s.fds.find? r = some g → 0 ≤ r ∧ g.flags = O_RDONLY
  opened : ∀ fd p, s.fdToPath.find? fd = some p → ¬ underBB bbpath p
  queued : ∀ p ∈ s.localList ++ s.dataQueue, ¬ underBB bbpath p
  cached : ∀ p q, kept p q → s.pathCacheMap.find? p = some q → s.CopyOf bbpath files q p
  stored : ∀ q c, s.store.find? q = some c → parentPath q ∈ s.dirs
  dirs : ∀ dir ∈ s.dirs, ∃ suffix, dir = bbpath ++ "/" ++ suffix
  mover : s.MoverInv kept bbpath files

variable {kept bbpath files}

theorem not_underBB_empty (bbpath : String) : ¬ underBB bbpath "" := by
  intro h
  have hlength := h.length_le
  simp at hlength

theorem serverInv_init (kept : String → String → Prop) (bbpath : String) (files : Files) :
    ServerInv kept bbpath files Server.init where
  descriptors r g h := by cases h
  opened fd p h := by cases h
  queued p h := by cases h
  cached p q _ h := by cases h
  stored q c h := by cases h
  dirs dir h := by cases h
  mover := trivial

/-! ### Handlers -/

section Handlers

variable {s : Server}

/-- A handler changes the descriptors, the names behind them and the queue. -/
theorem ServerInv.setFds (h : ServerInv kept bbpath files s) {fds : FdTable String}
    {fdToPath : OrdMap Int String} {dataQueue : List String} (alive : Bool)
    (hfds : ∀ r g, fds.find? r = some g → 0 ≤ r ∧ g.flags = O_RDONLY)
    (hopened : ∀ fd p, fdToPath.find? fd = some p → ¬ underBB bbpath p)
    (hqueued : ∀ p ∈ s.localList ++ dataQueue, ¬ underBB bbpath p) :
    ServerInv kept bbpath files
      { s with alive := alive, fds := fds, fdToPath := fdToPath, dataQueue := dataQueue } where
  descriptors := hfds
  opened := hopened
  queued := hqueued
  cached := h.cached
  stored := h.stored
  dirs := h.dirs
  mover := h.mover

theorem ServerInv.descriptors_movesOnly (h : ServerInv kept bbpath files s) {fd : Int}
    {fds : FdTable String} (hmoves : MovesOnly fd s.fds fds) :
    ∀ r g, fds.find? r = some g → 0 ≤ r ∧ g.flags = O_RDONLY := by
  obtain ⟨pos, hpos⟩ := hmoves
  intro r g hg
  rw [hpos] at hg
  split at hg
  · obtain ⟨f, hf, rfl⟩ := Option.map_eq_some_iff.mp hg
    exact h.descriptors r f hf
  · exact h.descriptors r g hg

theorem ServerInv.opened_index (h : ServerInv kept bbpath files s) (fd fd' : Int) (p : String)
    (hp : (s.fdToPath.index fd "").2.find? fd' = some p) : ¬ underBB bbpath p := by
  rcases hfd : s.fdToPath.find? fd with _ | path
  · simp only [OrdMap.index, hfd, OrdMap.find?_insert] at hp
    split at hp
    · cases hp
      exact not_underBB_empty bbpath
    · exact h.opened fd' p hp
  · rw [OrdMap.index_of_find? hfd] at hp
    exact h.opened fd' p hp

theorem Server.openRpcHandler_eq_some {path : String} {ret : Int} {s' : Server}
    {reply : Option Reply} (h : s.openRpcHandler bbpath files path ret = some (s', reply)) :
    reply = some ⟨ret, []⟩ ∧
      ((ret = -1 ∧ s' = { s with fdToPath := s.fdToPath.insert ret path }) ∨
        ∃ c, ret ≠ -1 ∧ 0 ≤ ret ∧ s.fds.find? ret = none ∧
          s.view bbpath files (s.redirPath path) = some c ∧
          s' = { s with
            fds := s.fds.insert ret ⟨s.redirPath path, O_RDONLY, 0⟩
            fdToPath := s.fdToPath.insert ret path }) := by
  unfold Server.openRpcHandler at h
  dsimp only at h
  split at h
  · next hret =>
    cases h
    exact ⟨rfl, Or.inl ⟨hret, rfl⟩⟩
  · next hret =>
    rcases hview : s.view bbpath files (s.redirPath path) with _ | c
    · rw [hview] at h; cases h
    · rcases hopen : sysOpen s.fds ret (s.redirPath path) O_RDONLY with _ | fds
      · simp only [hview, hopen] at h; cases h
      · simp only [hview, hopen, Option.some.injEq, Prod.mk.injEq] at h
        obtain ⟨hnonneg, hfree, rfl⟩ := sysOpen_eq_some_iff.mp hopen
        obtain ⟨rfl, rfl⟩ := h
        exact ⟨rfl, Or.inr ⟨c, hret, hnonneg, hfree, rfl, rfl⟩⟩

theorem ServerInv.reads_redirPath (h : ServerInv kept bbpath files s) {path : String}
    (hkept : kept path (s.redirPath path)) :
    s.Reads bbpath files (s.redirPath path) path := by
  unfold Server.Reads Server.redirPath at *
  rcases hcache : s.pathCacheMap.find? path with _ | cached
  · exact Or.inl rfl
  · rw [hcache] at hkept
    exact Or.inr ⟨h.cached path cached hkept hcache, Option.some_ne_none cached⟩

theorem ServerInv.openRpcHandler (h : ServerInv kept bbpath files s) {path : String} {ret : Int}
    {s' : Server} {reply : Option Reply} (hpath : ¬ underBB bbpath path)
    (hopen : s.openRpcHandler bbpath files path ret = some (s', reply)) :
    ServerInv kept bbpath files s' := by
  have hopened : ∀ fd p, (s.fdToPath.insert ret path).find? fd = some p → ¬ underBB bbpath p := by
    intro fd p hp
    rw [OrdMap.find?_insert] at hp
    split at hp
    · cases hp
      exact hpath
    · exact h.opened fd p hp
  obtain ⟨-, ⟨-, rfl⟩ | ⟨c, -, hnonneg, -, -, rfl⟩⟩ := Server.openRpcHandler_eq_some hopen
  · exact h.setFds s.alive h.descriptors hopened h.queued
  · refine h.setFds s.alive ?_ hopened h.queued
    intro r g hg
    rw [OrdMap.find?_insert] at hg
    split at hg
    · next hr =>
      cases hg
      exact ⟨by rw [hr]; exact hnonneg, rfl⟩
    · exact h.descriptors r g hg

/-- The descriptor of a successful open reads the path it was opened for. -/
theorem ServerInv.serves_openRpcHandler (h : ServerInv kept bbpath files s) {path : String}
    {ret : Int} {s' : Server} {reply : Option Reply} (hret : ret ≠ -1)
    (hopen : s.openRpcHandler bbpath files path ret = some (s', reply)) :
    s'.Serves kept bbpath files ret path := by
  obtain ⟨-, ⟨hret', -⟩ | ⟨c, -, -, -, -, rfl⟩⟩ := Server.openRpcHandler_eq_some hopen
  · exact absurd hret' hret
  · exact ⟨⟨s.redirPath path, O_RDONLY, 0⟩, by simp, h.reads_redirPath⟩

/-- What a request other than an open does to the server, and to which descriptor. -/
theorem Server.rpcHandler_shape (rl : ReadLen) (s : Server) (inputVal accessfd offset ret : Int) :
    ∃ alive fds,
      MovesOnly accessfd s.fds fds ∧
      ((s.rpcHandler rl bbpath files inputVal accessfd offset ret).1 = { s with alive := false } ∨
        (s.rpcHandler rl bbpath files inputVal accessfd offset ret).1 =
          { s with
            alive := alive, fds := fds, fdToPath := (s.fdToPath.index accessfd "").2 }) := by
  unfold Server.rpcHandler
  split
  · exact ⟨false, s.fds, MovesOnly.refl _ _, Or.inl rfl⟩
  · next size hsize =>
    have hmoves := @Server.rpcRead_movesOnly bbpath files rl s size accessfd offset ret
    dsimp only
    generalize s.rpcRead rl bbpath files size accessfd offset ret = io at hmoves ⊢
    split
    · split
      · exact ⟨false, _, hmoves, Or.inr rfl⟩
      · exact ⟨s.alive, _, hmoves, Or.inr rfl⟩
    · exact ⟨s.alive, _, hmoves, Or.inr rfl⟩

theorem ServerInv.rpcHandler (h : ServerInv kept bbpath files s) (rl : ReadLen)
    (inputVal accessfd offset ret : Int) :
    ServerInv kept bbpath files (s.rpcHandler rl bbpath files inputVal accessfd offset ret).1 := by
  obtain ⟨alive, fds, hmoves, heq | heq⟩ :=
    @Server.rpcHandler_shape bbpath files rl s inputVal accessfd offset ret
  · rw [heq]
    exact h.setFds false h.descriptors h.opened h.queued
  · rw [heq]
    exact h.setFds alive (h.descriptors_movesOnly hmoves) (h.opened_index accessfd) h.queued

theorem ServerInv.seekRpcHandler (h : ServerInv kept bbpath files s) (fd offset whence : Int) :
    ServerInv kept bbpath files (s.seekRpcHandler bbpath files fd offset whence).1 :=
  h.setFds s.alive (h.descriptors_movesOnly (sysSeek_movesOnly ..)) h.opened h.queued

theorem ServerInv.closeRpcHandler (h : ServerInv kept bbpath files s) (fd : Int) :
    ServerInv kept bbpath files (s.closeRpcHandler fd) := by
  have hpath : ¬ underBB bbpath (s.fdToPath.index fd "").1 := by
    unfold OrdMap.index
    rcases hfd : s.fdToPath.find? fd with _ | path
    · exact not_underBB_empty bbpath
    · exact h.opened fd path hfd
  apply h.setFds s.alive
  · intro r g hg
    rw [find?_sysClose] at hg
    split at hg
    · cases hg
    · exact h.descriptors r g hg
  · exact fun fd' p hp => h.opened_index fd fd' p (OrdMap.find?_of_find?_erase hp)
  · intro p hp
    split at hp
    · rw [← List.append_assoc, List.mem_append, List.mem_singleton] at hp
      rcases hp with hp | rfl
      · exact h.queued p hp
      · exact hpath
    · exact h.queued p hp

theorem ServerInv.handle (h : ServerInv kept bbpath files s) {rl : ReadLen} {remote : Int}
    {request : Request} {s' : Server} {reply : Option Reply}
    (hpath : ∀ path localfd, request = .openIn path localfd → ¬ underBB bbpath path)
    (hhandle : s.handle rl bbpath files remote request = some (s', reply)) :
    ServerInv kept bbpath files s' := by
  unfold Server.handle at hhandle
  split at hhandle
  · cases request with
    | openIn path localfd => exact h.openRpcHandler (hpath path localfd rfl) hhandle
    | rpcIn inputVal accessfd localfd offset =>
      obtain ⟨rfl, -⟩ := Prod.mk.inj (Option.some.inj hhandle)
      exact h.rpcHandler rl inputVal accessfd offset remote
    | seekIn fd offset whence =>
      cases hhandle
      exact h.seekRpcHandler fd offset whence
    | closeIn fd =>
      cases hhandle
      exact h.closeRpcHandler fd
  · cases hhandle
    exact h

end Handlers

/-! ### Data mover -/

section Mover

variable {s s' : Server}

/-- A copy lasts while the store keeps its file and the mover does not take it up. -/
theorem Server.CopyOf.mono {q p : String} (h : s.CopyOf bbpath files q p)
    (hdest : s'.mover.dest? = some q → s.mover.dest? = some q)
    (hstore : s.mover.dest? ≠ some q → s'.store.find? q = s.store.find? q) :
    s'.CopyOf bbpath files q p := by
  obtain ⟨hunder, hbusy, c, hp, hq⟩ := h
  exact ⟨hunder, fun hd => hbusy (hdest hd), c, hp, (hstore hbusy).trans hq⟩

theorem prefix_append_slice {done c : Contents} (h : done <+: c) (n : Nat) :
    done ++ slice c done.length n <+: c := by
  obtain ⟨rest, rfl⟩ := h
  rw [slice, List.drop_left]
  exact (List.prefix_append_right_inj done).mpr (List.take_prefix n rest)

/-- What a step of the mover leaves: the invariant, the published copies, the
    descriptors. -/
structure MoverKeeps (kept : String → String → Prop) (bbpath : String) (files : Files)
    (s s' : Server) : Prop where
  inv : ServerInv kept bbpath files s'
  copies : ∀ q p, s.CopyOf bbpath files q p → s'.CopyOf bbpath files q p
  entries : ∀ p, s.pathCacheMap.find? p ≠ none → s'.pathCacheMap.find? p ≠ none
  fds : s'.fds = s.fds
  alive : s'.alive = s.alive

/-- The copy goes to a name that nothing is stored under. -/
theorem ServerInv.copyBegin (h : ServerInv kept bbpath files s) {dir path : String}
    {rest : List String} (hmover : s.mover = .made dir) (hlist : s.localList = path :: rest)
    {c : Contents} (hview : s.view bbpath files path = some c) :
    MoverKeeps kept bbpath files s { s with
      store := s.store.insert (copyName dir path) [], mover := .copying (copyName dir path) } := by
  have hinv := h.mover
  simp only [Server.MoverInv, hmover] at hinv
  obtain ⟨hdir, hnew⟩ := hinv
  obtain ⟨suffix, rfl⟩ := h.dirs _ hdir
  have hne : bbpath ++ "/" ++ suffix ≠ "" := by
    intro hempty
    have hlength := congrArg String.length hempty
    simp at hlength
  have hparent := parentPath_copyName hne path
  have hpath : ¬ underBB bbpath path := h.queued path (by rw [hlist]; simp)
  rw [s.view_of_not_underBB hpath] at hview
  have hfresh : ∀ q c', s.store.find? q = some c' →
      q ≠ copyName (bbpath ++ "/" ++ suffix) path := by
    rintro q c' hq rfl
    exact hnew _ c' hq hparent
  have hcopies : ∀ q p, s.CopyOf bbpath files q p → Server.CopyOf bbpath files { s with
      store := s.store.insert (copyName (bbpath ++ "/" ++ suffix) path) []
      mover := .copying (copyName (bbpath ++ "/" ++ suffix) path) } q p := by
    rintro q p ⟨hunder, -, c', hp, hq⟩
    refine ⟨hunder, fun hd => hfresh q c' hq (Option.some.inj hd).symm, c', hp, ?_⟩
    exact (OrdMap.find?_insert_of_ne (hfresh q c' hq) ..).trans hq
  refine ⟨⟨h.descriptors, h.opened, h.queued, fun p q hp hq => hcopies q p (h.cached p q hp hq),
    ?_, h.dirs, ?_⟩, hcopies, fun _ hp => hp, rfl, rfl⟩
  · intro q c' hq
    have hq' : (s.store.insert (copyName (bbpath ++ "/" ++ suffix) path) []).find? q = some c' := hq
    rw [OrdMap.find?_insert] at hq'
    split at hq'
    · next hsame => rw [hsame, hparent]; exact hdir
    · exact h.stored q c' hq'
  · exact ⟨underBB_copyName bbpath suffix path, path, rest, [], hlist,
      OrdMap.find?_insert_self .., fun _ => ⟨c, hview, List.nil_prefix⟩⟩

/-- The file the mover is copying is at the head of its list, outside `BBPATH`. -/
theorem ServerInv.copying (h : ServerInv kept bbpath files s) {dest path : String}
    {rest : List String} (hmover : s.mover = .copying dest) (hlist : s.localList = path :: rest) :
    underBB bbpath dest ∧ ¬ underBB bbpath path ∧ ∃ done, s.store.find? dest = some done ∧
      (kept path dest → ∃ c, files.find? path = some c ∧ done <+: c) := by
  have hinv := h.mover
  simp only [Server.MoverInv, hmover] at hinv
  obtain ⟨hunder, p, rest', done, hlist', hdone, hsource⟩ := hinv
  obtain ⟨rfl, rfl⟩ := List.cons.inj (hlist.symm.trans hlist')
  refine ⟨hunder, ?_, done, hdone, hsource⟩
  apply h.queued
  rw [hlist]
  exact List.mem_append_left _ List.mem_cons_self

theorem ServerInv.copyChunk (h : ServerInv kept bbpath files s) {dest path : String}
    {rest : List String} (hmover : s.mover = .copying dest) (hlist : s.localList = path :: rest)
    (n : Nat) :
    MoverKeeps kept bbpath files s { s with
      store := s.store.insert dest
        (s.content bbpath files dest ++
          slice (s.content bbpath files path) (s.content bbpath files dest).length n) } := by
  obtain ⟨hunder, hpath, done, hdone, hsource⟩ := h.copying hmover hlist
  have hcontent : s.content bbpath files dest = done := by
    rw [Server.content, s.view_of_underBB hunder, hdone, Option.getD_some]
  rw [s.content_of_not_underBB hpath, hcontent]
  have hcopies : ∀ q p, s.CopyOf bbpath files q p → Server.CopyOf bbpath files { s with
      store := s.store.insert dest
        (done ++ slice (files.content path) done.length n) } q p := by
    intro q p hq
    refine hq.mono (fun hd => hd) fun hbusy => ?_
    apply OrdMap.find?_insert_of_ne
    rintro rfl
    apply hbusy
    rw [hmover]
    rfl
  refine ⟨⟨h.descriptors, h.opened, h.queued, fun p q hp hq => hcopies q p (h.cached p q hp hq),
    ?_, h.dirs, ?_⟩, hcopies, fun _ hp => hp, rfl, rfl⟩
  · intro q c' hq
    have hq' : (s.store.insert dest
        (done ++ slice (files.content path) done.length n)).find? q = some c' := hq
    rw [OrdMap.find?_insert] at hq'
    split at hq'
    · next hsame => rw [hsame]; exact h.stored dest done hdone
    · exact h.stored q c' hq'
  · simp only [Server.MoverInv, hmover]
    refine ⟨hunder, path, rest, done ++ slice (files.content path) done.length n, hlist,
      OrdMap.find?_insert_self .., fun hkept => ?_⟩
    obtain ⟨c, hc, hprefix⟩ := hsource hkept
    refine ⟨c, hc, ?_⟩
    rw [Files.content, hc, Option.getD_some]
    exact prefix_append_slice hprefix n

/-- A step that leaves the store alone and takes up no copy. -/
theorem ServerInv.setMover (h : ServerInv kept bbpath files s) {dirs : List String}
    {pathCacheMap : OrdMap String String} {dataQueue localList : List String} {mover : MoverPc}
    (hdest : ∀ q, mover.dest? = some q → s.mover.dest? = some q)
    (hqueued : ∀ p ∈ localList ++ dataQueue, p ∈ s.localList ++ s.dataQueue)
    (hcached : ∀ p q, kept p q → pathCacheMap.find? p = some q →
      Server.CopyOf bbpath files { s with mover := mover } q p)
    (hentries : ∀ p, s.pathCacheMap.find? p ≠ none → pathCacheMap.find? p ≠ none)
    (hsub : ∀ dir ∈ s.dirs, dir ∈ dirs)
    (hdirs : ∀ dir ∈ dirs, ∃ suffix, dir = bbpath ++ "/" ++ suffix)
    (hmover : Server.MoverInv kept bbpath files
      { s with
        dirs := dirs, pathCacheMap := pathCacheMap, dataQueue := dataQueue
        localList := localList, mover := mover }) :
    MoverKeeps kept bbpath files s
      { s with
        dirs := dirs, pathCacheMap := pathCacheMap, dataQueue := dataQueue
        localList := localList, mover := mover } where
  inv := {
    descriptors := h.descriptors
    opened := h.opened
    queued := fun p hp => h.queued p (hqueued p hp)
    cached := hcached
    stored := fun q c hq => hsub _ (h.stored q c hq)
    dirs := hdirs
    mover := hmover }
  copies q _ hq := hq.mono (hdest q) fun _ => rfl
  entries := hentries
  fds := rfl
  alive := rfl

/-- An entry of the cache stays a copy when the mover takes up no other. -/
theorem ServerInv.cached_mover (h : ServerInv kept bbpath files s) {mover : MoverPc}
    (hdest : ∀ q, mover.dest? = some q → s.mover.dest? = some q) (p q : String) (hp : kept p q)
    (hq : s.pathCacheMap.find? p = some q) :
    Server.CopyOf bbpath files { s with mover := mover } q p :=
  (h.cached p q hp hq).mono (hdest q) fun _ => rfl

/-- A step between two copies, which changes neither the lists nor the map. -/
theorem ServerInv.idle (h : ServerInv kept bbpath files s) {mover : MoverPc}
    (hdest : mover.dest? = none)
    (hmover : Server.MoverInv kept bbpath files { s with mover := mover }) :
    MoverKeeps kept bbpath files s { s with mover := mover } := by
  have hnone : ∀ q, mover.dest? = some q → s.mover.dest? = some q := by
    intro q hq
    rw [hdest] at hq
    cases hq
  exact h.setMover hnone (fun _ hp => hp) (h.cached_mover hnone) (fun _ hp => hp)
    (fun _ hd => hd) h.dirs hmover

theorem ServerInv.drain (h : ServerInv kept bbpath files s) :
    MoverKeeps kept bbpath files s
      { s with localList := s.localList ++ s.dataQueue, dataQueue := [], mover := .ready } := by
  have hnone : ∀ q, MoverPc.ready.dest? = some q → s.mover.dest? = some q := by
    intro q hq
    cases hq
  refine h.setMover hnone ?_ (h.cached_mover hnone) (fun _ hp => hp) (fun _ hd => hd) h.dirs trivial
  intro p hp
  simpa using hp

/-- The new directory is empty, for whatever is stored lies in one made before. -/
theorem ServerInv.mkdtemp (h : ServerInv kept bbpath files s) {suffix : String}
    (hnew : bbpath ++ "/" ++ suffix ∉ s.dirs) :
    MoverKeeps kept bbpath files s
      { s with
        dirs := (bbpath ++ "/" ++ suffix) :: s.dirs, mover := .made (bbpath ++ "/" ++ suffix) } := by
  have hnone : ∀ q, (MoverPc.made (bbpath ++ "/" ++ suffix)).dest? = some q →
      s.mover.dest? = some q := by
    intro q hq
    cases hq
  apply h.setMover hnone (fun _ hp => hp) (h.cached_mover hnone) (fun _ hp => hp)
    (fun _ hd => List.mem_cons_of_mem _ hd)
  · intro dir hdir
    rcases List.mem_cons.mp hdir with rfl | hdir
    · exact ⟨suffix, rfl⟩
    · exact h.dirs dir hdir
  · refine ⟨List.mem_cons_self, ?_⟩
    intro q c hq hparent
    apply hnew
    rw [← hparent]
    exact h.stored q c hq

/-- `fs::copy` ends when the copy is as long as its source, of which it is a prefix. -/
theorem ServerInv.copyEnd (h : ServerInv kept bbpath files s) {dest path : String}
    {rest : List String} (hmover : s.mover = .copying dest) (hlist : s.localList = path :: rest)
    (hlength : (s.content bbpath files path).length ≤ (s.content bbpath files dest).length) :
    MoverKeeps kept bbpath files s { s with mover := .copied dest } := by
  obtain ⟨hunder, hpath, done, hdone, hsource⟩ := h.copying hmover hlist
  have hall : kept path dest → files.find? path = some done := by
    intro hkept
    obtain ⟨c, hc, hprefix⟩ := hsource hkept
    rw [s.content_of_not_underBB hpath, Files.content, hc, Server.content,
      s.view_of_underBB hunder, hdone] at hlength
    rw [hc, hprefix.eq_of_length_le hlength]
  have hdest : ∀ q, (MoverPc.copied dest).dest? = some q → s.mover.dest? = some q := by
    rw [hmover]
    exact fun _ hq => hq
  exact h.setMover hdest (fun _ hp => hp) (h.cached_mover hdest) (fun _ hp => hp)
    (fun _ hd => hd) h.dirs ⟨hunder, path, rest, done, hlist, hdone, hall⟩

/-- The new entry of `path_cache_map` leads to the copy that has ended. -/
theorem ServerInv.publish (h : ServerInv kept bbpath files s) {dest path : String}
    {rest : List String} (hmover : s.mover = .copied dest) (hlist : s.localList = path :: rest) :
    MoverKeeps kept bbpath files s
      { s with pathCacheMap := s.pathCacheMap.insert path dest, mover := .finished } := by
  have hinv := h.mover
  simp only [Server.MoverInv, hmover] at hinv
  obtain ⟨hunder, p, rest', done, hlist', hdone, hsource⟩ := hinv
  obtain ⟨rfl, rfl⟩ := List.cons.inj (hlist.symm.trans hlist')
  have hnone : ∀ q, MoverPc.finished.dest? = some q → s.mover.dest? = some q := by
    intro q hq
    cases hq
  refine h.setMover hnone (fun _ hp => hp) ?_ ?_ (fun _ hd => hd) h.dirs trivial
  · intro p q hp hq
    rw [OrdMap.find?_insert] at hq
    split at hq
    · next hsame =>
      cases hq
      subst hsame
      exact ⟨hunder, (Option.some_ne_none dest).symm, done, hsource hp, hdone⟩
    · exact h.cached_mover hnone p q hp hq
  · intro p hp
    rw [OrdMap.find?_insert]
    split
    · exact Option.some_ne_none dest
    · exact hp

theorem ServerInv.pop (h : ServerInv kept bbpath files s) {path : String} {rest : List String}
    (hlist : s.localList = path :: rest) :
    MoverKeeps kept bbpath files s
      { s with localList := rest, mover := if rest = [] then .waiting else .ready } := by
  have hnone : ∀ q, (if rest = [] then MoverPc.waiting else .ready).dest? = some q →
      s.mover.dest? = some q := by
    intro q hq
    split at hq <;> cases hq
  refine h.setMover hnone ?_ (h.cached_mover hnone) (fun _ hp => hp) (fun _ hd => hd) h.dirs ?_
  · intro p hp
    rw [hlist]
    exact List.mem_cons_of_mem _ hp
  · by_cases hrest : rest = []
    · simp only [Server.MoverInv, if_pos hrest]
    · simp only [Server.MoverInv, if_neg hrest]

theorem ServerInv.moverStep (h : ServerInv kept bbpath files s) {step : MoverStep}
    (hstep : s.moverStep bbpath files step = some s') : MoverKeeps kept bbpath files s s' := by
  cases Server.moverStep_leaves hstep with
  | drain => exact h.drain
  | mkdtempFailed => exact h.idle rfl trivial
  | mkdtemp _ hnew => exact h.mkdtemp hnew
  | copyBegin hmover hlist hview => exact h.copyBegin hmover hlist hview
  | copyChunk n hmover hlist => exact h.copyChunk hmover hlist n
  | copyEnd hmover hlist hlength => exact h.copyEnd hmover hlist hlength
  | copyFail => exact h.idle rfl trivial
  | publish hmover hlist => exact h.publish hmover hlist
  | pop _ hlist => exact h.pop hlist

/-- A descriptor keeps reading its path across a step of the mover. -/
theorem MoverKeeps.serves (hkeeps : MoverKeeps kept bbpath files s s') {r : Int} {p : String}
    (h : s.Serves kept bbpath files r p) : s'.Serves kept bbpath files r p := by
  obtain ⟨g, hg, hreads⟩ := h
  refine ⟨g, by rw [hkeeps.fds]; exact hg, fun hkept => ?_⟩
  rcases hreads hkept with hfile | ⟨hcopy, hentry⟩
  · exact Or.inl hfile
  · exact Or.inr ⟨hkeeps.copies _ _ hcopy, hkeeps.entries p hentry⟩

end Mover

/-! ### Descriptors across requests and writes -/

section Serves

variable {s s' : Server} {r : Int} {p : String}

/-- What a descriptor's file holds is what its path holds. -/
theorem Server.Reads.content_eq {file : String} (h : s.Reads bbpath files file p)
    (hp : ¬ underBB bbpath p) : s.content bbpath files file = files.content p := by
  rcases h with rfl | ⟨⟨hunder, -, c, hc, hstore⟩, -⟩
  · exact s.content_of_not_underBB hp
  · rw [Server.content, s.view_of_underBB hunder, hstore, Files.content, hc]

/-- A handler that leaves the descriptor on its file. -/
theorem Server.Serves.setFds (h : s.Serves kept bbpath files r p) {fds : FdTable String}
    {fdToPath : OrdMap Int String} {dataQueue : List String} (alive : Bool)
    (hfds : ∀ g, s.fds.find? r = some g → ∃ g', fds.find? r = some g' ∧ g'.file = g.file) :
    Server.Serves kept bbpath files
      { s with alive := alive, fds := fds, fdToPath := fdToPath, dataQueue := dataQueue } r p := by
  obtain ⟨g, hg, hreads⟩ := h
  obtain ⟨g', hg', hsame⟩ := hfds g hg
  refine ⟨g', hg', ?_⟩
  rw [hsame]
  exact hreads

theorem exists_file_of_movesOnly {fd : Int} {t t' : FdTable String} (h : MovesOnly fd t t')
    {g : OpenFile String} (hg : t.find? r = some g) :
    ∃ g', t'.find? r = some g' ∧ g'.file = g.file := by
  obtain ⟨pos, hpos⟩ := h
  by_cases hr : r = fd
  · exact ⟨{ g with pos := pos }, by rw [hpos, if_pos hr, hg, Option.map_some], rfl⟩
  · exact ⟨g, by rw [hpos, if_neg hr, hg], rfl⟩

/-- A request changes no file and no cache entry, and only a close of its own number
    takes a descriptor away. -/
theorem Server.handle_shape {rl : ReadLen} {remote : Int} {request : Request}
    {reply : Option Reply} (hhandle : s.handle rl bbpath files remote request = some (s', reply)) :
    ∃ alive fds fdToPath dataQueue,
      s' = { s with alive := alive, fds := fds, fdToPath := fdToPath, dataQueue := dataQueue } ∧
      ∀ r g, request ≠ .closeIn r → s.fds.find? r = some g →
        ∃ g', fds.find? r = some g' ∧ g'.file = g.file := by
  unfold Server.handle at hhandle
  split at hhandle
  · cases request with
    | openIn path localfd =>
      obtain ⟨-, ⟨-, rfl⟩ | ⟨c, -, -, hfree, -, rfl⟩⟩ := Server.openRpcHandler_eq_some hhandle
      · exact ⟨_, _, _, _, rfl, fun r g _ hg => ⟨g, hg, rfl⟩⟩
      · refine ⟨_, _, _, _, rfl, fun r g _ hg => ⟨g, ?_, rfl⟩⟩
        refine (OrdMap.find?_insert_of_ne ?_ ..).trans hg
        rintro rfl
        rw [hfree] at hg
        cases hg
    | rpcIn inputVal accessfd localfd offset =>
      have hs' : (s.rpcHandler rl bbpath files inputVal accessfd offset remote).1 = s' :=
        congrArg Prod.fst (Option.some.inj hhandle)
      rw [← hs']
      obtain ⟨alive, fds, hmoves, heq | heq⟩ :=
        @Server.rpcHandler_shape bbpath files rl s inputVal accessfd offset remote
      · exact ⟨_, _, _, _, heq, fun r g _ hg => ⟨g, hg, rfl⟩⟩
      · exact ⟨_, _, _, _, heq, fun r g _ hg => exists_file_of_movesOnly hmoves hg⟩
    | seekIn fd offset whence =>
      cases hhandle
      exact ⟨_, _, _, _, rfl, fun r g _ hg => exists_file_of_movesOnly (sysSeek_movesOnly ..) hg⟩
    | closeIn fd =>
      cases hhandle
      refine ⟨_, _, _, _, rfl, fun r g hclose hg => ⟨g, ?_, rfl⟩⟩
      refine (find?_sysClose_of_ne ?_ s.fds).trans hg
      rintro rfl
      exact hclose rfl
  · cases hhandle
    exact ⟨_, _, _, _, rfl, fun r g _ hg => ⟨g, hg, rfl⟩⟩

theorem Server.Serves.handle (h : s.Serves kept bbpath files r p) {rl : ReadLen} {remote : Int}
    {request : Request} {reply : Option Reply} (hclose : request ≠ .closeIn r)
    (hhandle : s.handle rl bbpath files remote request = some (s', reply)) :
    s'.Serves kept bbpath files r p := by
  obtain ⟨alive, fds, fdToPath, dataQueue, rfl, hfds⟩ := Server.handle_shape hhandle
  exact h.setFds alive fun g hg => hfds r g hclose hg

theorem Server.CopyOf.setFile {q p₀ : String} (h : s.CopyOf bbpath files q p) (hne : p ≠ p₀)
    (data : Contents) : s.CopyOf bbpath (files.insert p₀ data) q p := by
  obtain ⟨hunder, hbusy, c, hp, hq⟩ := h
  exact ⟨hunder, hbusy, c, (OrdMap.find?_insert_of_ne hne ..).trans hp, hq⟩

/-- A file can change as long as no copy of it was begun that is kept. -/
theorem ServerInv.setFile (h : ServerInv kept bbpath files s) {p₀ : String}
    (hp₀ : ∀ q, kept p₀ q → s.Unbegun p₀ q) (data : Contents) :
    ServerInv kept bbpath (files.insert p₀ data) s where
  descriptors := h.descriptors
  opened := h.opened
  queued := h.queued
  cached p q hp hq := by
    have hcopy := h.cached p q hp hq
    refine hcopy.setFile ?_ data
    rintro rfl
    obtain ⟨-, -, c, -, hstored⟩ := hcopy
    rcases hp₀ q hp with huncopied | hnone
    · rw [huncopied.1] at hq
      cases hq
    · rw [hnone] at hstored
      cases hstored
  stored := h.stored
  dirs := h.dirs
  mover := by
    have hinv := h.mover
    -- the file that is being copied is another one
    have hhead : ∀ {p dest : String} {rest : List String} {done : Contents}, kept p dest →
        s.mover.dest? ≠ none → s.localList = p :: rest → s.store.find? dest = some done →
        (files.insert p₀ data).find? p = files.find? p := by
      intro p dest rest done hp hdest hlist hdone
      apply OrdMap.find?_insert_of_ne
      rintro rfl
      rcases hp₀ dest hp with ⟨-, hnone | hne⟩ | hnew
      · exact hdest hnone
      · apply hne
        rw [hlist]
        rfl
      · rw [hnew] at hdone
        cases hdone
    unfold Server.MoverInv at hinv ⊢
    rcases hmover : s.mover with _ | _ | dir | dest | dest | _
    · trivial
    · trivial
    · rw [hmover] at hinv; exact hinv
    · rw [hmover] at hinv
      obtain ⟨hunder, p, rest, done, hlist, hdone, hsource⟩ := hinv
      refine ⟨hunder, p, rest, done, hlist, hdone, fun hkept => ?_⟩
      rw [hhead hkept (by rw [hmover]; exact Option.some_ne_none dest) hlist hdone]
      exact hsource hkept
    · rw [hmover] at hinv
      obtain ⟨hunder, p, rest, done, hlist, hdone, hsource⟩ := hinv
      refine ⟨hunder, p, rest, done, hlist, hdone, fun hkept => ?_⟩
      rw [hhead hkept (by rw [hmover]; exact Option.some_ne_none dest) hlist hdone]
      exact hsource hkept
    · trivial

theorem Server.Serves.setFile (h : s.Serves kept bbpath files r p) {p₀ : String}
    (hp₀ : ∀ q, kept p₀ q → s.Unbegun p₀ q) (data : Contents) :
    s.Serves kept bbpath (files.insert p₀ data) r p := by
  obtain ⟨g, hg, hreads⟩ := h
  refine ⟨g, hg, fun hkept => ?_⟩
  rcases hreads hkept with hfile | ⟨hcopy, hentry⟩
  · exact Or.inl hfile
  · refine Or.inr ⟨hcopy.setFile ?_ data, hentry⟩
    rintro rfl
    obtain ⟨-, -, c, -, hstored⟩ := hcopy
    rcases hp₀ g.file hkept with huncopied | hnone
    · exact hentry huncopied.1
    · rw [hnone] at hstored
      cases hstored

end Serves

end Hvac
