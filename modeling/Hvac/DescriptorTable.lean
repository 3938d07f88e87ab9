/-
  Hvac/DescriptorTable.lean
  =========================
  **The server's table of descriptors**, `fd_to_path`, under every outcome of the
  system calls.

  `Server.lean` runs the handlers against a file system that only fails for a
  reason.  Here what a call of the kernel answers is in the label (`SysOut`), and
  the handlers are the same code around it (`handleWith`; `exists_sysOut` says
  that every request handled there is one of these).  An `open` can fail on a file
  that is there, a `read` on an open descriptor, and a `close` can leave its
  descriptor open.

  The table is written in four places, three of them by `operator[]`: a failed
  open enters its path under `-1`, a read or a close of a number the server did
  not hand out enters the empty string, and a close queues what it finds.
  `tableExact_iff` gives the steps on which this does not happen, exactly.
-/
import Hvac.ServerRun

namespace Hvac

open Cxx Posix

/-! ### Handlers around a system call -/

/-- The outcome of the one system call of a request: its result, the bytes it
    delivered, the position it left the descriptor at, and for `close` whether the
    descriptor was released. -/
structure SysOut where
  ret : Int
  data : Contents
  pos : Nat
  released : Bool
deriving DecidableEq

/-- `fd`, if it is open, at position `pos`. -/
def moveTo (t : FdTable String) (fd : Int) (pos : Nat) : FdTable String :=
  match t.find? fd with
  | none => t
  | some f => t.insert fd { f with pos := pos }

namespace Server

variable (s : Server)

/-- The kernel's side of a request; `none` for an outcome it cannot have.  No file
    has the empty name. -/
def kernel (out : SysOut) : Request → Option (Io String)
  | .openIn path _ =>
      if out.ret = -1 then some ⟨-1, [], s.fds⟩
      else if s.redirPath path = "" then none
      else (sysOpen s.fds out.ret (s.redirPath path) O_RDONLY).map fun fds => ⟨out.ret, [], fds⟩
  | .rpcIn _ accessfd _ _ => some ⟨out.ret, out.data, moveTo s.fds accessfd out.pos⟩
  | .seekIn fd _ _ => some ⟨out.ret, [], moveTo s.fds fd out.pos⟩
  | .closeIn fd => some ⟨out.ret, [], if out.released then s.fds.erase fd else s.fds⟩

/-- The four handlers, given what their system call answered. -/
def handleWith (io : Io String) : Request → Server × Option Reply
  | .openIn path _ =>
      ({ s with fds := io.fds, fdToPath := s.fdToPath.insert io.ret path }, some ⟨io.ret, []⟩)
  | .rpcIn inputVal accessfd _ offset =>
      if inputVal < 0 then ({ s with alive := false }, none)
      else
        let s := { s with fds := io.fds, fdToPath := (s.fdToPath.index accessfd "").2 }
        if io.ret < 0 then
          if offset = -1 then ({ s with alive := false }, none) else (s, some ⟨-1, []⟩)
        else (s, some ⟨int32 io.ret, io.data⟩)
  | .seekIn _ _ _ => ({ s with fds := io.fds }, some ⟨int32 io.ret, []⟩)
  | .closeIn fd => ({ s.closeRpcHandler fd with fds := io.fds }, none)

end Server

/-! ### The machine -/

/-- What a request did: the descriptor and path of a successful open, the number a
    close released, and the path it queued. -/
structure TableObs where
  opened : Option (Int × String)
  closed : Option Int
  pushed : Option String
deriving DecidableEq

def TableObs.none : TableObs := ⟨.none, .none, .none⟩

def Server.observe (s : Server) (io : Io String) : Request → TableObs
  | .openIn path _ =>
      if io.ret = -1 then TableObs.none else { TableObs.none with opened := some (io.ret, path) }
  | .rpcIn _ _ _ _ => TableObs.none
  | .seekIn _ _ _ => TableObs.none
  | .closeIn fd =>
      { TableObs.none with
        closed := if io.fds.find? fd = .none then some fd else .none
        pushed := if (s.pathCacheMap.find? (s.closedPath fd)).isNone then some (s.closedPath fd)
          else .none }

inductive TableLabel where
  | request (request : Request) (out : SysOut)
  | mover (step : MoverStep)
deriving DecidableEq

def tableMachine (bbpath : String) (files : Files) : Machine Server TableLabel TableObs where
  step s l :=
    match l with
    | .request request out =>
        if s.alive then
          match s.kernel out request with
          | none => none
          | some io => some ((s.handleWith io request).1, s.observe io request)
        else none
    | .mover step =>
        if s.alive then
          match s.moverStep bbpath files step with
          | none => none
          | some s' => some (s', TableObs.none)
        else none

/-- The descriptors that are open, with the paths they were opened for; the paths of
    all successful opens; the paths that were queued. -/
structure Opens where
  current : OrdMap Int String
  paths : List String
  pushed : List String

def Opens.init : Opens := ⟨OrdMap.empty, [], []⟩

def Opens.record (g : Opens) (_ : TableLabel) (obs : TableObs) : Opens :=
  let current :=
    match obs.opened with
    | none => g.current
    | some (fd, path) => g.current.insert fd path
  { current :=
      match obs.closed with
      | none => current
      | some fd => current.erase fd
    paths := g.paths ++ (obs.opened.map Prod.snd).toList
    pushed := g.pushed ++ obs.pushed.toList }

def opensMachine (bbpath : String) (files : Files) :
    Machine (Server × Opens) TableLabel TableObs :=
  (tableMachine bbpath files).withHistory Opens.record

/-- The table holds the descriptors that are open, with their paths, and nothing
    else; and only paths that were opened were queued. -/
def TableExact (s : Server) (g : Opens) : Prop :=
  s.fdToPath = g.current ∧ ∀ p ∈ g.pushed, p ∈ g.paths

/-- An open that succeeds, a read of a descriptor in the table, a close of one that
    releases it. -/
def KeepsTable (s : Server) : TableLabel → Prop
  | .request (.openIn _ _) out => out.ret ≠ -1
  | .request (.rpcIn inputVal accessfd _ _) _ => inputVal < 0 ∨ s.fdToPath.find? accessfd ≠ none
  | .request (.seekIn _ _ _) _ => True
  | .request (.closeIn fd) out => s.fdToPath.find? fd ≠ none ∧ out.released = true
  | .mover _ => True

/-! ### The invariant -/

structure TableInv (s : Server) (g : Opens) : Prop where
  table : s.fdToPath = g.current
  pushed : ∀ p ∈ g.pushed, p ∈ g.paths
  current : ∀ fd p, g.current.find? fd = some p → 0 ≤ fd ∧ p ∈ g.paths
  opened : ∀ fd, g.current.find? fd = none ↔ s.fds.find? fd = none
  named : ∀ p ∈ g.paths, p ≠ ""
  queued : ∀ p ∈ s.localList ++ s.dataQueue, p ∈ g.pushed
  cached : ∀ p q, s.pathCacheMap.find? p = some q → p ∈ g.pushed

theorem tableInv_init : TableInv Server.init Opens.init where
  table := rfl
  pushed p h := by cases h
  current fd p h := by cases h
  opened fd := iff_of_true rfl rfl
  named p h := by cases h
  queued p h := by cases h
  cached p q h := by cases h

section Steps

variable {bbpath : String} {files : Files} {s s' : Server} {g : Opens}

theorem TableInv.exact (h : TableInv s g) : TableExact s g := ⟨h.table, h.pushed⟩

/-- Nothing is cached or queued under the empty name. -/
theorem TableInv.empty_not_pushed (h : TableInv s g) : "" ∉ g.pushed := fun hmem =>
  h.named "" (h.pushed "" hmem) rfl

theorem TableInv.pathCacheMap_empty (h : TableInv s g) : s.pathCacheMap.find? "" = none := by
  rcases hcache : s.pathCacheMap.find? "" with _ | q
  · rfl
  · exact absurd (h.cached "" q hcache) h.empty_not_pushed

theorem find?_moveTo_eq_none_iff (t : FdTable String) (fd : Int) (pos : Nat) (k : Int) :
    (moveTo t fd pos).find? k = none ↔ t.find? k = none := by
  unfold moveTo
  rcases hfd : t.find? fd with _ | f
  · exact Iff.rfl
  · rw [OrdMap.find?_insert]
    split
    · next hk =>
      rw [hk, hfd]
      simp only [reduceCtorEq]
    · exact Iff.rfl

/-! ### One lemma for each request -/

/-- An open that succeeds enters its path on both sides. -/
theorem TableInv.enter (h : TableInv s g) {fd : Int} {path : String} (hnonneg : 0 ≤ fd)
    (hpath : path ≠ "") (f : OpenFile String) :
    TableInv { s with fds := s.fds.insert fd f, fdToPath := s.fdToPath.insert fd path }
      ⟨g.current.insert fd path, g.paths ++ [path], g.pushed⟩ where
  table := by rw [h.table]
  pushed p hp := List.mem_append_left _ (h.pushed p hp)
  current fd' p hp := by
    rw [OrdMap.find?_insert] at hp
    split at hp
    · next hfd =>
      cases hp
      exact ⟨by rw [hfd]; exact hnonneg, List.mem_append_right _ (List.mem_singleton_self _)⟩
    · obtain ⟨hfd, hmem⟩ := h.current fd' p hp
      exact ⟨hfd, List.mem_append_left _ hmem⟩
  opened fd' := by
    rw [OrdMap.find?_insert, OrdMap.find?_insert]
    split
    · simp only [reduceCtorEq]
    · exact h.opened fd'
  named p hp := by
    rcases List.mem_append.mp hp with hp | hp
    · exact h.named p hp
    · rw [List.mem_singleton.mp hp]
      exact hpath
  queued := h.queued
  cached := h.cached

theorem append_ite_toList (queue : List String) (path : String) (uncached : Bool) :
    (if uncached then queue ++ [path] else queue) =
      queue ++ (if uncached then some path else none).toList := by
  split
  · rfl
  · exact (List.append_nil queue).symm

/-- A close that releases its descriptor removes it on both sides, and may queue its
    path. -/
theorem TableInv.release (h : TableInv s g) {fd : Int} {path : String}
    (hcurrent : g.current.find? fd = some path) {new : List String} (hnew : ∀ p ∈ new, p = path) :
    TableInv { s with
        fds := s.fds.erase fd, fdToPath := s.fdToPath.erase fd, dataQueue := s.dataQueue ++ new }
      ⟨g.current.erase fd, g.paths, g.pushed ++ new⟩ where
  table := by rw [h.table]
  pushed p hp := by
    rcases List.mem_append.mp hp with hp | hp
    · exact h.pushed p hp
    · rw [hnew p hp]
      exact (h.current fd path hcurrent).2
  current fd' p hp := h.current fd' p (OrdMap.find?_of_find?_erase hp)
  opened fd' := by
    rw [OrdMap.find?_erase, OrdMap.find?_erase]
    split
    · exact iff_of_true rfl rfl
    · exact h.opened fd'
  named := h.named
  queued p hp := by
    rw [← List.append_assoc] at hp
    rcases List.mem_append.mp hp with hp | hp
    · exact List.mem_append_left _ (h.queued p hp)
    · exact List.mem_append_right _ hp
  cached p q hq := List.mem_append_left _ (h.cached p q hq)

theorem TableInv.openWith (h : TableInv s g) {path : String} {out : SysOut} {io : Io String}
    {localfd : Int} (hkernel : s.kernel out (.openIn path localfd) = some io) (l : TableLabel) :
    (TableExact (s.handleWith io (.openIn path localfd)).1
        (g.record l (s.observe io (.openIn path localfd))) ↔ out.ret ≠ -1) ∧
      (out.ret ≠ -1 → TableInv (s.handleWith io (.openIn path localfd)).1
        (g.record l (s.observe io (.openIn path localfd)))) := by
  simp only [Server.kernel] at hkernel
  by_cases hret : out.ret = -1
  · -- the path is entered under -1
    rw [if_pos hret] at hkernel
    cases hkernel
    refine ⟨iff_of_false ?_ (fun hne => hne hret), fun hne => absurd hret hne⟩
    rintro ⟨htable, -⟩
    have hentry : g.current.find? (-1) = some path := by
      have hinsert := congrArg (OrdMap.find? · (-1)) htable
      simp only [Server.handleWith, OrdMap.find?_insert_self] at hinsert
      exact hinsert.symm
    have hnonneg := (h.current (-1) path hentry).1
    omega
  · rw [if_neg hret] at hkernel
    split at hkernel
    · cases hkernel
    · next hnamed =>
      obtain ⟨fds, hopen, rfl⟩ := Option.map_eq_some_iff.mp hkernel
      obtain ⟨hnonneg, hfree, rfl⟩ := sysOpen_eq_some_iff.mp hopen
      have hpath : path ≠ "" := by
        rintro rfl
        apply hnamed
        rw [Server.redirPath, h.pathCacheMap_empty, Option.getD_none]
      have hinv := h.enter hnonneg hpath ⟨s.redirPath path, O_RDONLY, 0⟩
      simp only [Server.handleWith, Server.observe, if_neg hret, Opens.record, TableObs.none,
        Option.map_some, Option.toList_some, Option.toList_none, List.append_nil]
      exact ⟨iff_of_true hinv.exact hret, fun _ => hinv⟩

/-- A request that neither opens nor closes, and leaves the table as it is. -/
theorem TableInv.setFds (h : TableInv s g) {fds : FdTable String} (alive : Bool)
    (hfds : ∀ fd, fds.find? fd = none ↔ s.fds.find? fd = none) :
    TableInv { s with alive := alive, fds := fds } g where
  table := h.table
  pushed := h.pushed
  current := h.current
  opened fd := (h.opened fd).trans (hfds fd).symm
  named := h.named
  queued := h.queued
  cached := h.cached

theorem Opens.record_none (g : Opens) (l : TableLabel) : g.record l TableObs.none = g := by
  simp only [Opens.record, TableObs.none, Option.map_none, Option.toList_none, List.append_nil]

/-- Whatever the read answers, the log line has looked the descriptor up. -/
theorem Server.handleWith_rpcIn (s : Server) (io : Io String) {inputVal : Int}
    (hinput : 0 ≤ inputVal) (accessfd localfd offset : Int) :
    ∃ alive, (s.handleWith io (.rpcIn inputVal accessfd localfd offset)).1 =
      { s with
        alive := alive, fds := io.fds, fdToPath := (s.fdToPath.index accessfd "").2 } := by
  simp only [Server.handleWith, if_neg (not_lt.mpr hinput)]
  split
  · split
    · exact ⟨_, rfl⟩
    · exact ⟨_, rfl⟩
  · exact ⟨_, rfl⟩

theorem TableInv.readWith (h : TableInv s g) {inputVal accessfd localfd offset : Int}
    {out : SysOut} {io : Io String}
    (hkernel : s.kernel out (.rpcIn inputVal accessfd localfd offset) = some io) (l : TableLabel) :
    let known := inputVal < 0 ∨ s.fdToPath.find? accessfd ≠ none
    (TableExact (s.handleWith io (.rpcIn inputVal accessfd localfd offset)).1
        (g.record l (s.observe io (.rpcIn inputVal accessfd localfd offset))) ↔ known) ∧
      (known → TableInv (s.handleWith io (.rpcIn inputVal accessfd localfd offset)).1
        (g.record l (s.observe io (.rpcIn inputVal accessfd localfd offset)))) := by
  intro known
  cases hkernel
  simp only [Server.observe, g.record_none]
  by_cases hinput : inputVal < 0
  · have hinv : TableInv { s with alive := false } g :=
      h.setFds false fun _ => Iff.rfl
    simp only [Server.handleWith, if_pos hinput]
    exact ⟨iff_of_true hinv.exact (Or.inl hinput), fun _ => hinv⟩
  · obtain ⟨alive, hshape⟩ := s.handleWith_rpcIn ⟨out.ret, out.data, moveTo s.fds accessfd out.pos⟩
      (not_lt.mp hinput) accessfd localfd offset
    rw [hshape]
    rcases hfd : s.fdToPath.find? accessfd with _ | path
    · have hunknown : ¬ known := by
        rintro (hneg | hknown)
        · exact hinput hneg
        · exact hknown hfd
      refine ⟨iff_of_false ?_ hunknown, fun hknown => absurd hknown hunknown⟩
      rintro ⟨htable, -⟩
      have hentry := congrArg (OrdMap.find? · accessfd) htable
      simp only [OrdMap.index, hfd, OrdMap.find?_insert_self, ← h.table, reduceCtorEq] at hentry
    · rw [OrdMap.index_of_find? hfd]
      have hinv : TableInv { s with alive := alive, fds := moveTo s.fds accessfd out.pos } g :=
        h.setFds alive (find?_moveTo_eq_none_iff _ _ _)
      have hknown : known := Or.inr (by rw [hfd]; exact Option.some_ne_none path)
      exact ⟨iff_of_true hinv.exact hknown, fun _ => hinv⟩

/-- A close of a number that is not in the table queues the empty string. -/
theorem TableInv.close_unknown (h : TableInv s g) {fd : Int} {out : SysOut} {io : Io String}
    (hkernel : s.kernel out (.closeIn fd) = some io) (l : TableLabel)
    (hfd : s.fdToPath.find? fd = none) :
    ¬ TableExact (s.handleWith io (.closeIn fd)).1 (g.record l (s.observe io (.closeIn fd))) := by
  cases hkernel
  have hempty : s.closedPath fd = "" := by
    simp only [Server.closedPath, OrdMap.index, hfd]
  rintro ⟨-, hpushed⟩
  simp only [Server.observe, hempty, h.pathCacheMap_empty, Option.isNone_none, if_true,
    Opens.record, TableObs.none, Option.toList_some, Option.map_none, Option.toList_none,
    List.append_nil] at hpushed
  exact h.named "" (hpushed "" (List.mem_append_right _ (List.mem_singleton_self _))) rfl

/-- A number that the kernel does not release stays open, and leaves the table. -/
theorem TableInv.close_kept (h : TableInv s g) {fd : Int} {out : SysOut} {io : Io String}
    (hkernel : s.kernel out (.closeIn fd) = some io) (l : TableLabel) {path : String}
    (hfd : s.fdToPath.find? fd = some path) (hreleased : out.released ≠ true) :
    ¬ TableExact (s.handleWith io (.closeIn fd)).1 (g.record l (s.observe io (.closeIn fd))) := by
  cases hkernel
  rintro ⟨htable, -⟩
  have hcurrent : g.current.find? fd = some path := by rw [← h.table]; exact hfd
  have hopen : s.fds.find? fd ≠ none := by
    rw [Ne, ← h.opened fd, hcurrent]
    exact Option.some_ne_none path
  have hentry := congrArg (OrdMap.find? · fd) htable
  simp only [Server.handleWith, Server.closeRpcHandler, Server.observe, hreleased,
    Bool.false_eq_true, if_false, hopen, Opens.record, TableObs.none,
    OrdMap.find?_erase_self, hcurrent, reduceCtorEq] at hentry

theorem TableInv.close_released (h : TableInv s g) {fd : Int} {out : SysOut} {io : Io String}
    (hkernel : s.kernel out (.closeIn fd) = some io) (l : TableLabel) {path : String}
    (hfd : s.fdToPath.find? fd = some path) (hreleased : out.released = true) :
    TableInv (s.handleWith io (.closeIn fd)).1 (g.record l (s.observe io (.closeIn fd))) := by
  cases hkernel
  have hpath : s.closedPath fd = path := by
    simp only [Server.closedPath, OrdMap.index_of_find? hfd]
  have hcurrent : g.current.find? fd = some path := by rw [← h.table]; exact hfd
  have hnew : ∀ p ∈ (if (s.pathCacheMap.find? path).isNone then some path else none).toList,
      p = path := by
    intro p hp
    split at hp
    · exact List.mem_singleton.mp hp
    · cases hp
  have hinv := h.release hcurrent hnew
  simp only [Server.handleWith, Server.closeRpcHandler, OrdMap.index_of_find? hfd,
    Server.observe, hpath, hreleased, OrdMap.find?_erase_self, if_true, Opens.record,
    TableObs.none, Option.map_none, Option.toList_none, List.append_nil, append_ite_toList]
  exact hinv

theorem TableInv.closeWith (h : TableInv s g) {fd : Int} {out : SysOut} {io : Io String}
    (hkernel : s.kernel out (.closeIn fd) = some io) (l : TableLabel) :
    let released := s.fdToPath.find? fd ≠ none ∧ out.released = true
    (TableExact (s.handleWith io (.closeIn fd)).1
        (g.record l (s.observe io (.closeIn fd))) ↔ released) ∧
      (released → TableInv (s.handleWith io (.closeIn fd)).1
        (g.record l (s.observe io (.closeIn fd)))) := by
  intro released
  rcases hfd : s.fdToPath.find? fd with _ | path
  · have hunknown : ¬ released := fun hknown => hknown.1 hfd
    exact ⟨iff_of_false (h.close_unknown hkernel l hfd) hunknown,
      fun hknown => absurd hknown hunknown⟩
  · by_cases hreleased : out.released = true
    · have hinv := h.close_released hkernel l hfd hreleased
      have hknown : released := ⟨by rw [hfd]; exact Option.some_ne_none path, hreleased⟩
      exact ⟨iff_of_true hinv.exact hknown, fun _ => hinv⟩
    · have hkept : ¬ released := fun hknown => hreleased hknown.2
      exact ⟨iff_of_false (h.close_kept hkernel l hfd hreleased) hkept,
        fun hknown => absurd hknown hkept⟩

/-- A step of the mover takes paths from the queue, and publishes one that was
    queued. -/
theorem TableInv.mover (h : TableInv s g) {step : MoverStep}
    (hstep : s.moverStep bbpath files step = some s') : TableInv s' g := by
  obtain ⟨-, hfds, htable, hqueued, hcached⟩ := Server.moverStep_frame hstep
  refine ⟨htable.trans h.table, h.pushed, h.current, ?_, h.named, ?_, ?_⟩
  · rw [hfds]
    exact h.opened
  · intro p hp
    exact h.queued p (hqueued p hp)
  · intro p q hq
    rcases hcached p q hq with hentry | hhead
    · exact h.cached p q hentry
    · exact h.queued p (List.mem_append_left _ hhead)

theorem TableInv.step {x x' : Server × Opens} {l : TableLabel} {obs : TableObs}
    (h : TableInv x.1 x.2) (hstep : (opensMachine bbpath files).step x l = some (x', obs)) :
    (TableExact x'.1 x'.2 ↔ KeepsTable x.1 l) ∧ (KeepsTable x.1 l → TableInv x'.1 x'.2) := by
  obtain ⟨hserver, hhistory⟩ := Machine.withHistory_step_eq_some_iff.mp hstep
  rw [hhistory]
  cases l with
  | request request out =>
    simp only [tableMachine] at hserver
    split at hserver
    · rcases hkernel : x.1.kernel out request with _ | io
      · rw [hkernel] at hserver
        cases hserver
      · simp only [hkernel, Option.some.injEq, Prod.mk.injEq] at hserver
        obtain ⟨hs', rfl⟩ := hserver
        rw [← hs']
        cases request with
        | openIn path localfd => exact h.openWith hkernel _
        | rpcIn inputVal accessfd localfd offset => exact h.readWith hkernel _
        | seekIn fd offset whence =>
          cases hkernel
          have hinv : TableInv { x.1 with fds := moveTo x.1.fds fd out.pos } x.2 :=
            h.setFds x.1.alive (find?_moveTo_eq_none_iff _ _ _)
          simp only [Server.observe, Opens.record_none, Server.handleWith]
          exact ⟨iff_of_true hinv.exact trivial, fun _ => hinv⟩
        | closeIn fd => exact h.closeWith hkernel _
    · cases hserver
  | mover step =>
    simp only [tableMachine, Option.ite_none_right_eq_some] at hserver
    obtain ⟨-, hserver⟩ := hserver
    rcases hmover : x.1.moverStep bbpath files step with _ | s₁
    · rw [hmover] at hserver
      cases hserver
    · simp only [hmover, Option.some.injEq, Prod.mk.injEq] at hserver
      obtain ⟨hs', rfl⟩ := hserver
      have hinv := h.mover hmover
      rw [← hs', Opens.record_none]
      exact ⟨iff_of_true hinv.exact trivial, fun _ => hinv⟩

end Steps

/-- **The table is exact in every state of a run if and only if every open succeeds,
    reads and closes name descriptors of the table, and closes release them.** -/
theorem tableExact_iff (bbpath : String) (files : Files) (labels : List TableLabel) :
    (opensMachine bbpath files).Along (fun _ _ x' _ => TableExact x'.1 x'.2)
        (Server.init, Opens.init) labels ↔
      (opensMachine bbpath files).Along (fun x l _ _ => KeepsTable x.1 l)
        (Server.init, Opens.init) labels :=
  Machine.along_iff (I := fun x => TableInv x.1 x.2) (fun _ _ _ _ h hstep => h.step hstep)
    tableInv_init

/-- A file that the server's open refuses, although it is there: its path is entered
    under -1, and the close that follows queues it. -/
theorem table_inexact :
    (∃ x obs, (opensMachine "/bb" OrdMap.empty).run (Server.init, Opens.init)
        [.request (.openIn "/data/a" 3) ⟨-1, [], 0, false⟩] = some (x, obs) ∧
      x.1.fdToPath.find? (-1) = some "/data/a" ∧ x.2.current.find? (-1) = none ∧
      ¬ TableExact x.1 x.2) ∧
    ∃ x obs, (opensMachine "/bb" OrdMap.empty).run (Server.init, Opens.init)
        [.request (.openIn "/data/a" 3) ⟨-1, [], 0, false⟩,
          .request (.closeIn (-1)) ⟨-1, [], 0, false⟩] = some (x, obs) ∧
      x.2.pushed = ["/data/a"] ∧ x.2.paths = [] ∧ ¬ TableExact x.1 x.2 := by
  refine ⟨⟨_, _, rfl, rfl, rfl, ?_⟩, _, _, rfl, rfl, rfl, ?_⟩
  · rintro ⟨htable, -⟩
    exact absurd (congrArg (OrdMap.find? · (-1)) htable) (by decide)
  · rintro ⟨-, hpushed⟩
    exact absurd (hpushed "/data/a" (List.mem_singleton_self _)) List.not_mem_nil

/-! ### The handlers of the server -/

section Refines

variable {rl : ReadLen} {bbpath : String} {files : Files} {s s' : Server}

theorem exists_moveTo {t t' : FdTable String} {fd : Int} (h : MovesOnly fd t t') :
    ∃ pos, t' = moveTo t fd pos := by
  obtain ⟨pos, hpos⟩ := h
  refine ⟨pos, OrdMap.ext_find? fun k => ?_⟩
  rw [hpos, moveTo]
  rcases hfd : t.find? fd with _ | f
  · split
    · next hk =>
      rw [hk, hfd]
      rfl
    · rfl
  · rw [OrdMap.find?_insert]
    split
    · next hk =>
      rw [hk, hfd]
      rfl
    · rfl

theorem rpcHandler_eq_handleWith (s : Server) (inputVal accessfd localfd offset ret : Int) :
    ∃ io : Io String, MovesOnly accessfd s.fds io.fds ∧
      s.rpcHandler rl bbpath files inputVal accessfd offset ret =
        s.handleWith io (.rpcIn inputVal accessfd localfd offset) := by
  refine ⟨s.rpcRead rl bbpath files inputVal.toNat accessfd offset ret,
    Server.rpcRead_movesOnly .., ?_⟩
  by_cases hinput : inputVal < 0
  · simp only [Server.rpcHandler, Server.rpcSize_of_neg hinput, Server.handleWith, hinput, if_true]
  · simp only [Server.rpcHandler, Server.rpcSize_of_nonneg (not_lt.mp hinput), Server.handleWith,
      hinput, if_false]

/-- Whatever the server answers on its file system is one of the outcomes. -/
theorem exists_sysOut (hfiles : files.find? "" = none) (halive : s.alive = true) {remote : Int}
    {request : Request} {reply : Option Reply}
    (hhandle : s.handle rl bbpath files remote request = some (s', reply)) :
    ∃ out io, s.kernel out request = some io ∧ s.handleWith io request = (s', reply) := by
  simp only [Server.handle, halive, if_true] at hhandle
  cases request with
  | openIn path localfd =>
    obtain ⟨rfl, ⟨rfl, rfl⟩ | ⟨c, hret, hnonneg, hfree, hview, rfl⟩⟩ :=
      Server.openRpcHandler_eq_some hhandle
    · exact ⟨⟨-1, [], 0, false⟩, ⟨-1, [], s.fds⟩, rfl, rfl⟩
    · have hnamed : s.redirPath path ≠ "" := by
        intro hempty
        rw [hempty, s.view_of_not_underBB (not_underBB_empty bbpath), hfiles] at hview
        cases hview
      refine ⟨⟨remote, [], 0, false⟩, ⟨remote, [], s.fds.insert remote
        ⟨s.redirPath path, O_RDONLY, 0⟩⟩, ?_, rfl⟩
      simp only [Server.kernel, if_neg hret, if_neg hnamed,
        sysOpen_eq_some_iff.mpr ⟨hnonneg, hfree, rfl⟩, Option.map_some]
  | rpcIn inputVal accessfd localfd offset =>
    obtain ⟨io, hmoves, hio⟩ := @rpcHandler_eq_handleWith rl bbpath files s inputVal accessfd
      localfd offset remote
    obtain ⟨pos, hpos⟩ := exists_moveTo hmoves
    refine ⟨⟨io.ret, io.data, pos, false⟩, io, ?_, ?_⟩
    · simp only [Server.kernel, ← hpos]
    · rw [← hio]
      exact Option.some.inj hhandle
  | seekIn fd offset whence =>
    have hmoves : MovesOnly fd s.fds
        (sysSeek (s.content bbpath files) s.fds fd offset whence).2 := sysSeek_movesOnly ..
    obtain ⟨pos, hpos⟩ := exists_moveTo hmoves
    refine ⟨⟨(sysSeek (s.content bbpath files) s.fds fd offset whence).1, [], pos, false⟩, _, rfl,
      ?_⟩
    rw [← hpos]
    exact Option.some.inj hhandle
  | closeIn fd =>
    refine ⟨⟨0, [], 0, (s.fds.find? fd).isSome⟩, _, rfl, ?_⟩
    obtain ⟨rfl, rfl⟩ := Prod.mk.inj (Option.some.inj hhandle)
    rcases hfd : s.fds.find? fd with _ | f
    · simp only [Server.handleWith, Server.closeRpcHandler, sysClose, hfd, Option.isSome_none,
        Bool.false_eq_true, if_false]
    · simp only [Server.handleWith, Server.closeRpcHandler, sysClose, hfd, Option.isSome_some,
        if_true]

end Refines

end Hvac
