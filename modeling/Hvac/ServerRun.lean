/-
  Hvac/ServerRun.lean
  ===================
  **Runs of one server**: requests from any clients, in any order and with any
  paths and descriptors, between the steps of the data mover, while the shared
  files do not change.

  A step of the mover that ends an `fs::copy` is observed, and the list of these
  observations is the history of completed copies.  `CopyInv` says of each of
  them that source and copy hold the same bytes and that nothing writes to either
  (`Settled`), that no two went to one name, and that every entry of
  `path_cache_map` is one of them.  No assumption is made on the paths: a client
  may name a file under `BBPATH` too.
-/
import Hvac.ServerInv
import Hvac.Library.Machine

namespace Hvac

open Cxx Posix

variable (rl : ReadLen) (bbpath : String) (files : Files)

/-! ### The machine -/

/-- A request, with what the server's kernel answers (the number of a new descriptor,
    `-1` where an open or a read fails), or a step of the mover. -/
inductive ServerLabel where
  | request (remote : Int) (request : Request)
  | mover (step : MoverStep)
deriving DecidableEq

/-- The path a close of `fd` looks up. -/
def Server.closedPath (s : Server) (fd : Int) : String := (s.fdToPath.index fd "").1

/-- The source and the name of the copy that a step of the mover completes. -/
def Server.completes (s : Server) : MoverStep → Option (String × String)
  | .copyEnd =>
      match s.mover, s.localList with
      | .copying dest, path :: _ => some (path, dest)
      | _, _ => none
  | _ => none

/-- A step is observed by its response and by the copy it completes.  The mover is a
    thread of the server and ends with it. -/
def serverMachine : Machine Server ServerLabel (Option Reply × Option (String × String)) where
  step s l :=
    match l with
    | .request remote request =>
        match s.handle rl bbpath files remote request with
        | none => none
        | some (s', reply) => some (s', (reply, none))
    | .mover step =>
        if s.alive then
          match s.moverStep bbpath files step with
          | none => none
          | some s' => some (s', (none, s.completes step))
        else none

/-- The server with the copies completed so far. -/
def copyMachine :
    Machine (Server × List (String × String)) ServerLabel
      (Option Reply × Option (String × String)) :=
  (serverMachine rl bbpath files).withHistory fun copies _ out => copies ++ out.2.toList

/-! ### Statements -/

/-- The file `fs::copy` is writing. -/
def MoverPc.writing? : MoverPc → Option String
  | .copying dest => some dest
  | .waiting => none
  | .ready => none
  | .made _ => none
  | .copied _ => none
  | .finished => none

namespace Server

/-- The file holds `c` and is not being written. -/
def Settled (s : Server) (file : String) (c : Contents) : Prop :=
  s.view bbpath files file = some c ∧ s.mover.writing? ≠ some file

/-- What holds where the mover stands. -/
def CopyPc (s : Server) (copies : List (String × String)) : Prop :=
  match s.mover with
  | .waiting => True
  | .ready => True
  | .finished => True
  | .made dir => dir ∈ s.dirs ∧ ∀ q c, s.store.find? q = some c → parentPath q ≠ dir
  | .copying dest =>
      underBB bbpath dest ∧ (∀ p, (p, dest) ∉ copies) ∧
        ∃ p rest c done, s.localList = p :: rest ∧ s.Settled bbpath files p c ∧
          s.store.find? dest = some done ∧ done <+: c
  | .copied dest => ∃ p rest, s.localList = p :: rest ∧ (p, dest) ∈ copies

end Server

structure CopyInv (s : Server) (copies : List (String × String)) : Prop where
  stored : ∀ q c, s.store.find? q = some c → parentPath q ∈ s.dirs
  dirs : ∀ dir ∈ s.dirs, ∃ suffix, dir = bbpath ++ "/" ++ suffix
  complete : ∀ p q, (p, q) ∈ copies → ∃ c, s.Settled bbpath files p c ∧ s.Settled bbpath files q c
  apart : (copies.map Prod.snd).Nodup
  cached : ∀ p q, s.pathCacheMap.find? p = some q → (p, q) ∈ copies
  mover : s.CopyPc bbpath files copies

variable {rl bbpath files}

theorem copyInv_init (bbpath : String) (files : Files) : CopyInv bbpath files Server.init [] where
  stored q c h := by cases h
  dirs dir h := by cases h
  complete p q h := by cases h
  apart := List.nodup_nil
  cached p q h := by cases h
  mover := trivial

section Steps

variable {s s' : Server} {copies : List (String × String)} {file : String} {c : Contents}

theorem serverMachine_step_eq_some {l : ServerLabel}
    {out : Option Reply × Option (String × String)}
    (h : (serverMachine rl bbpath files).step s l = some (s', out)) :
    (∃ remote request, l = .request remote request ∧ out.2 = none ∧
        s.handle rl bbpath files remote request = some (s', out.1)) ∨
      ∃ step, l = .mover step ∧ out = (none, s.completes step) ∧ s.alive = true ∧
        s.moverStep bbpath files step = some s' := by
  cases l with
  | request remote request =>
    simp only [serverMachine] at h
    rcases hhandle : s.handle rl bbpath files remote request with _ | ⟨s₁, reply⟩
    · rw [hhandle] at h; cases h
    · simp only [hhandle, Option.some.injEq, Prod.mk.injEq] at h
      obtain ⟨rfl, rfl⟩ := h
      exact Or.inl ⟨remote, request, rfl, rfl, hhandle⟩
  | mover step =>
    simp only [serverMachine] at h
    split at h
    · next halive =>
      rcases hmover : s.moverStep bbpath files step with _ | s₁
      · rw [hmover] at h; cases h
      · simp only [hmover, Option.some.injEq, Prod.mk.injEq] at h
        obtain ⟨rfl, rfl⟩ := h
        exact Or.inr ⟨step, rfl, rfl, halive, hmover⟩
    · cases h

/-! ### What a handler leaves alone -/

/-- A handler changes no file and does not touch the mover. -/
theorem Server.handle_frame {remote : Int} {request : Request} {reply : Option Reply}
    (hhandle : s.handle rl bbpath files remote request = some (s', reply)) :
    s'.store = s.store ∧ s'.dirs = s.dirs ∧ s'.pathCacheMap = s.pathCacheMap ∧
      s'.localList = s.localList ∧ s'.mover = s.mover := by
  obtain ⟨alive, fds, fdToPath, dataQueue, rfl, -⟩ := Server.handle_shape hhandle
  exact ⟨rfl, rfl, rfl, rfl, rfl⟩

/-- A step of the mover leaves the descriptors and their table; it takes the paths it
    works on from the queue. -/
theorem Server.moverStep_frame {step : MoverStep}
    (hstep : s.moverStep bbpath files step = some s') :
    s'.alive = s.alive ∧ s'.fds = s.fds ∧ s'.fdToPath = s.fdToPath ∧
      (∀ p ∈ s'.localList ++ s'.dataQueue, p ∈ s.localList ++ s.dataQueue) ∧
      ∀ p q, s'.pathCacheMap.find? p = some q →
        s.pathCacheMap.find? p = some q ∨ p ∈ s.localList := by
  cases Server.moverStep_leaves hstep with
  | drain => exact ⟨rfl, rfl, rfl, fun p hp => by simpa using hp, fun p q hq => Or.inl hq⟩
  | mkdtempFailed | mkdtemp | copyBegin | copyChunk | copyEnd | copyFail =>
    exact ⟨rfl, rfl, rfl, fun p hp => hp, fun p q hq => Or.inl hq⟩
  | publish hmover hlist =>
    refine ⟨rfl, rfl, rfl, fun p hp => hp, fun p q hq => ?_⟩
    rw [OrdMap.find?_insert] at hq
    split at hq
    · next hsame =>
      right
      rw [hsame, hlist]
      exact List.mem_cons_self
    · exact Or.inl hq
  | pop hmover hlist =>
    refine ⟨rfl, rfl, rfl, fun p hp => ?_, fun p q hq => Or.inl hq⟩
    rw [hlist]
    exact List.mem_cons_of_mem _ hp

theorem Server.Settled.congr (h : s.Settled bbpath files file c) (hstore : s'.store = s.store)
    (hmover : s'.mover.writing? = s.mover.writing? ∨ s'.mover.writing? = none) :
    s'.Settled bbpath files file c := by
  obtain ⟨hview, hquiet⟩ := h
  refine ⟨?_, ?_⟩
  · rw [← hview, Server.view, Server.view, hstore]
  · rcases hmover with hsame | hnone
    · rw [hsame]
      exact hquiet
    · rw [hnone]
      exact (Option.some_ne_none file).symm

theorem CopyInv.handle (h : CopyInv bbpath files s copies) {remote : Int} {request : Request}
    {reply : Option Reply} (hhandle : s.handle rl bbpath files remote request = some (s', reply)) :
    CopyInv bbpath files s' copies := by
  obtain ⟨alive, fds, fdToPath, dataQueue, rfl, -⟩ := Server.handle_shape hhandle
  exact ⟨h.stored, h.dirs, h.complete, h.apart, h.cached, h.mover⟩

/-! ### The mover -/

/-- While `dest` is written, every other settled file stays what it is. -/
theorem Server.Settled.write (h : s.Settled bbpath files file c) {dest : String}
    (hne : file ≠ dest) (data : Contents) :
    Server.Settled bbpath files
      { s with store := s.store.insert dest data, mover := .copying dest } file c := by
  obtain ⟨hview, -⟩ := h
  refine ⟨?_, ?_⟩
  · rw [← hview]
    simp only [Server.view]
    split
    · exact OrdMap.find?_insert_of_ne hne ..
    · rfl
  · intro hwriting
    exact hne (Option.some.inj hwriting).symm

theorem CopyInv.write (h : CopyInv bbpath files s copies) {dest p : String} {rest : List String}
    {data : Contents} (hdest : ∀ file c, s.Settled bbpath files file c → file ≠ dest)
    (hunder : underBB bbpath dest) (hparent : parentPath dest ∈ s.dirs)
    (hlist : s.localList = p :: rest) (hsource : s.Settled bbpath files p c)
    (hbegin : data <+: c) :
    CopyInv bbpath files { s with store := s.store.insert dest data, mover := .copying dest }
      copies where
  stored q c' hq := by
    have hq' : (s.store.insert dest data).find? q = some c' := hq
    rw [OrdMap.find?_insert] at hq'
    split at hq'
    · next hsame =>
      rw [hsame]
      exact hparent
    · exact h.stored q c' hq'
  dirs := h.dirs
  complete p' q hq := by
    obtain ⟨c', hp', hq'⟩ := h.complete p' q hq
    exact ⟨c', hp'.write (hdest p' c' hp') data, hq'.write (hdest q c' hq') data⟩
  apart := h.apart
  cached := h.cached
  mover := by
    refine ⟨hunder, fun p' hp' => ?_, p, rest, c, data, hlist,
      hsource.write (hdest p c hsource) data, OrdMap.find?_insert_self .., hbegin⟩
    obtain ⟨c', -, hq'⟩ := h.complete p' dest hp'
    exact hdest dest c' hq' rfl

/-- A file in the new directory is not there yet. -/
theorem CopyInv.find?_copyName (h : CopyInv bbpath files s copies) {dir : String}
    (hmover : s.mover = .made dir) (path : String) :
    underBB bbpath (copyName dir path) ∧ parentPath (copyName dir path) = dir ∧ dir ∈ s.dirs ∧
      s.store.find? (copyName dir path) = none := by
  have hinv := h.mover
  simp only [Server.CopyPc, hmover] at hinv
  obtain ⟨hdir, hnew⟩ := hinv
  obtain ⟨suffix, rfl⟩ := h.dirs _ hdir
  have hne : bbpath ++ "/" ++ suffix ≠ "" := by
    intro hempty
    have hlength := congrArg String.length hempty
    simp at hlength
  have hparent := parentPath_copyName hne path
  refine ⟨underBB_copyName bbpath suffix path, hparent, hdir, ?_⟩
  rcases hstore : s.store.find? (copyName (bbpath ++ "/" ++ suffix) path) with _ | c
  · rfl
  · exact absurd hparent (hnew _ c hstore)

theorem CopyInv.copyBegin (h : CopyInv bbpath files s copies) {dir path : String}
    {rest : List String} (hmover : s.mover = .made dir) (hlist : s.localList = path :: rest)
    (hview : s.view bbpath files path = some c) :
    (∀ file c, s.Settled bbpath files file c → file ≠ copyName dir path) ∧
      CopyInv bbpath files { s with
        store := s.store.insert (copyName dir path) [], mover := .copying (copyName dir path) }
        copies := by
  obtain ⟨hunder, hparent, hdir, hfresh⟩ := h.find?_copyName hmover path
  have hdest : ∀ file c, s.Settled bbpath files file c → file ≠ copyName dir path := by
    rintro file c ⟨hfile, -⟩ rfl
    rw [s.view_of_underBB hunder, hfresh] at hfile
    cases hfile
  have hsource : s.Settled bbpath files path c := by
    refine ⟨hview, ?_⟩
    rw [hmover]
    exact (Option.some_ne_none path).symm
  exact ⟨hdest, h.write hdest hunder (by rw [hparent]; exact hdir) hlist hsource
    (List.nil_prefix (l := c))⟩

/-- What `fs::copy` has written so far, and of what. -/
theorem CopyInv.copying (h : CopyInv bbpath files s copies) {dest path : String}
    {rest : List String} (hmover : s.mover = .copying dest) (hlist : s.localList = path :: rest) :
    ∃ c done, s.Settled bbpath files path c ∧ underBB bbpath dest ∧
      s.store.find? dest = some done ∧ done <+: c ∧ s.content bbpath files path = c ∧
      s.content bbpath files dest = done := by
  have hinv := h.mover
  simp only [Server.CopyPc, hmover] at hinv
  obtain ⟨hunder, -, p, rest', c, done, hlist', hsource, hdone, hbegin⟩ := hinv
  obtain ⟨rfl, rfl⟩ := List.cons.inj (hlist.symm.trans hlist')
  refine ⟨c, done, hsource, hunder, hdone, hbegin, ?_, ?_⟩
  · rw [Server.content, hsource.1, Option.getD_some]
  · rw [Server.content, s.view_of_underBB hunder, hdone, Option.getD_some]

theorem CopyInv.copyChunk (h : CopyInv bbpath files s copies) {dest path : String}
    {rest : List String} (hmover : s.mover = .copying dest) (hlist : s.localList = path :: rest)
    (n : Nat) :
    (∀ file c, s.Settled bbpath files file c → file ≠ dest) ∧
      CopyInv bbpath files { s with
        store := s.store.insert dest (s.content bbpath files dest ++
          slice (s.content bbpath files path) (s.content bbpath files dest).length n)
        mover := .copying dest } copies := by
  obtain ⟨c, done, hsource, hunder, hdone, hbegin, hpath, hcontent⟩ := h.copying hmover hlist
  have hdest : ∀ file c, s.Settled bbpath files file c → file ≠ dest := by
    rintro file c ⟨-, hquiet⟩ rfl
    rw [hmover] at hquiet
    exact hquiet rfl
  rw [hpath, hcontent]
  exact ⟨hdest, h.write hdest hunder (h.stored dest done hdone) hlist hsource
    (prefix_append_slice hbegin n)⟩

/-- A step that writes nothing. -/
theorem CopyInv.setMover (h : CopyInv bbpath files s copies) {dirs : List String}
    {pathCacheMap : OrdMap String String} {dataQueue localList : List String} {mover : MoverPc}
    (hwriting : mover.writing? = none) (hsub : ∀ dir ∈ s.dirs, dir ∈ dirs)
    (hdirs : ∀ dir ∈ dirs, ∃ suffix, dir = bbpath ++ "/" ++ suffix)
    (hcached : ∀ p q, pathCacheMap.find? p = some q → (p, q) ∈ copies)
    (hmover : Server.CopyPc bbpath files { s with
      dirs := dirs, pathCacheMap := pathCacheMap, dataQueue := dataQueue
      localList := localList, mover := mover } copies) :
    CopyInv bbpath files { s with
      dirs := dirs, pathCacheMap := pathCacheMap, dataQueue := dataQueue
      localList := localList, mover := mover } copies where
  stored q c hq := hsub _ (h.stored q c hq)
  dirs := hdirs
  complete p q hq := by
    obtain ⟨c, hp, hq'⟩ := h.complete p q hq
    exact ⟨c, hp.congr rfl (Or.inr hwriting), hq'.congr rfl (Or.inr hwriting)⟩
  apart := h.apart
  cached := hcached
  mover := hmover

/-- The copy that has ended holds what its source holds, under a name no other copy
    has. -/
theorem CopyInv.copyEnd (h : CopyInv bbpath files s copies) {dest path : String}
    {rest : List String} (hmover : s.mover = .copying dest) (hlist : s.localList = path :: rest)
    (hlength : (s.content bbpath files path).length ≤ (s.content bbpath files dest).length) :
    CopyInv bbpath files { s with mover := .copied dest } (copies ++ [(path, dest)]) := by
  obtain ⟨c, done, hsource, hunder, hdone, hbegin, hpath, hcontent⟩ := h.copying hmover hlist
  rw [hpath, hcontent] at hlength
  obtain rfl : done = c := hbegin.eq_of_length_le hlength
  have hnew : ∀ p, (p, dest) ∉ copies := by
    have hinv := h.mover
    simp only [Server.CopyPc, hmover] at hinv
    exact hinv.2.1
  have hsettled : ∀ {file c}, s.Settled bbpath files file c →
      Server.Settled bbpath files { s with mover := .copied dest } file c := fun hfile =>
    hfile.congr rfl (Or.inr rfl)
  refine ⟨h.stored, h.dirs, ?_, ?_, fun p q hq => List.mem_append_left _ (h.cached p q hq),
    path, rest, hlist, by simp⟩
  · intro p q hq
    rcases List.mem_append.mp hq with hq | hq
    · obtain ⟨c', hp, hq'⟩ := h.complete p q hq
      exact ⟨c', hsettled hp, hsettled hq'⟩
    · obtain ⟨rfl, rfl⟩ := Prod.mk.inj (List.mem_singleton.mp hq)
      refine ⟨done, hsettled hsource, ?_, (Option.some_ne_none q).symm⟩
      exact (Server.view_of_underBB hunder _).trans hdone
  · rw [List.map_append, List.map_singleton]
    refine List.nodup_append.mpr ⟨h.apart, List.nodup_singleton _, ?_⟩
    intro _ hq _ hq' heq
    obtain ⟨⟨p, q⟩, hmem, rfl⟩ := List.mem_map.mp hq
    have hsame : q = dest := heq.trans (List.mem_singleton.mp hq')
    apply hnew p
    rw [← hsame]
    exact hmem

/-- The new directory is empty, for whatever is stored lies in one made before. -/
theorem CopyInv.mkdtemp (h : CopyInv bbpath files s copies) {suffix : String}
    (hnew : bbpath ++ "/" ++ suffix ∉ s.dirs) :
    CopyInv bbpath files { s with
      dirs := (bbpath ++ "/" ++ suffix) :: s.dirs, mover := .made (bbpath ++ "/" ++ suffix) }
      copies := by
  apply h.setMover rfl (fun _ hd => List.mem_cons_of_mem _ hd)
  · intro dir hdir
    rcases List.mem_cons.mp hdir with rfl | hdir
    · exact ⟨suffix, rfl⟩
    · exact h.dirs dir hdir
  · exact h.cached
  · refine ⟨List.mem_cons_self, fun q c hq hparent => ?_⟩
    apply hnew
    rw [← hparent]
    exact h.stored q c hq

/-- The new entry is the copy that has ended. -/
theorem CopyInv.publish (h : CopyInv bbpath files s copies) {dest path : String}
    {rest : List String} (hmover : s.mover = .copied dest) (hlist : s.localList = path :: rest) :
    CopyInv bbpath files { s with
      pathCacheMap := s.pathCacheMap.insert path dest, mover := .finished } copies := by
  have hinv := h.mover
  simp only [Server.CopyPc, hmover] at hinv
  obtain ⟨p, rest', hlist', hcopied⟩ := hinv
  obtain ⟨rfl, rfl⟩ := List.cons.inj (hlist.symm.trans hlist')
  apply h.setMover rfl (fun _ hd => hd) h.dirs
  · intro p q hq
    rw [OrdMap.find?_insert] at hq
    split at hq
    · next hsame =>
      cases hq
      rw [hsame]
      exact hcopied
    · exact h.cached p q hq
  · trivial

theorem CopyInv.pop (h : CopyInv bbpath files s copies) (rest : List String) :
    CopyInv bbpath files { s with
      localList := rest, mover := if rest = [] then .waiting else .ready } copies := by
  by_cases hrest : rest = []
  · rw [if_pos hrest]
    exact h.setMover rfl (fun _ hd => hd) h.dirs h.cached trivial
  · rw [if_neg hrest]
    exact h.setMover rfl (fun _ hd => hd) h.dirs h.cached trivial

theorem Server.append_completes_of_ne (s : Server) (copies : List (String × String))
    {step : MoverStep} (hne : step ≠ .copyEnd) :
    copies ++ (s.completes step).toList = copies := by
  cases step with
  | copyEnd => exact absurd rfl hne
  | drain | mkdtemp | copyBegin | copyChunk | copyFail | publish | pop => exact List.append_nil _

theorem Server.completes_copyEnd (s : Server) {dest path : String} {rest : List String}
    (hmover : s.mover = .copying dest) (hlist : s.localList = path :: rest) :
    s.completes .copyEnd = some (path, dest) := by
  simp only [Server.completes, hmover, hlist]

/-- A step of the mover keeps what is settled, and the copy it completes joins the
    others. -/
theorem CopyInv.moverStep (h : CopyInv bbpath files s copies) {step : MoverStep}
    (hstep : s.moverStep bbpath files step = some s') :
    (∀ file c, s.Settled bbpath files file c → s'.Settled bbpath files file c) ∧
      CopyInv bbpath files s' (copies ++ (s.completes step).toList) := by
  cases Server.moverStep_leaves hstep with
  | drain | mkdtempFailed | copyFail =>
    rw [s.append_completes_of_ne copies (by simp)]
    exact ⟨fun _ _ hfile => hfile.congr rfl (Or.inr rfl),
      h.setMover rfl (fun _ hd => hd) h.dirs h.cached trivial⟩
  | mkdtemp _ hnew =>
    rw [s.append_completes_of_ne copies (by simp)]
    exact ⟨fun _ _ hfile => hfile.congr rfl (Or.inr rfl), h.mkdtemp hnew⟩
  | copyBegin hmover hlist hview =>
    rw [s.append_completes_of_ne copies (by simp)]
    obtain ⟨hdest, hinv⟩ := h.copyBegin hmover hlist hview
    exact ⟨fun file c hfile => hfile.write (hdest file c hfile) _, hinv⟩
  | @copyChunk dest path rest n hmover hlist =>
    rw [s.append_completes_of_ne copies (by simp)]
    obtain ⟨hdest, hinv⟩ := h.copyChunk hmover hlist n
    rw [← hmover] at hinv
    refine ⟨fun file c hfile => ?_, hinv⟩
    have hwrite := hfile.write (hdest file c hfile) (s.content bbpath files dest ++
      slice (s.content bbpath files path) (s.content bbpath files dest).length n)
    rw [← hmover] at hwrite
    exact hwrite
  | copyEnd hmover hlist hlength =>
    rw [s.completes_copyEnd hmover hlist]
    exact ⟨fun _ _ hfile => hfile.congr rfl (Or.inr rfl), h.copyEnd hmover hlist hlength⟩
  | publish hmover hlist =>
    rw [s.append_completes_of_ne copies (by simp)]
    exact ⟨fun _ _ hfile => hfile.congr rfl (Or.inr rfl), h.publish hmover hlist⟩
  | @pop _ rest hmover hlist =>
    rw [s.append_completes_of_ne copies (by simp)]
    refine ⟨fun _ _ hfile => hfile.congr rfl (Or.inr ?_), h.pop rest⟩
    dsimp only
    split <;> rfl

theorem CopyInv.step {x x' : Server × List (String × String)} {l : ServerLabel}
    {out : Option Reply × Option (String × String)} (h : CopyInv bbpath files x.1 x.2)
    (hstep : (copyMachine rl bbpath files).step x l = some (x', out)) :
    CopyInv bbpath files x'.1 x'.2 := by
  obtain ⟨hserver, hhistory⟩ := Machine.withHistory_step_eq_some_iff.mp hstep
  rw [hhistory]
  obtain ⟨remote, request, -, hnone, hhandle⟩ | ⟨step, -, rfl, -, hmover⟩ :=
    serverMachine_step_eq_some hserver
  · rw [hnone, Option.toList_none, List.append_nil]
    exact h.handle hhandle
  · exact (h.moverStep hmover).2

end Steps

/-! ### Redirection is sound -/

/-- The entries of `path_cache_map` are completed copies of their own paths, and no
    two of them share one. -/
structure CacheSound (bbpath : String) (files : Files) (s : Server)
    (copies : List (String × String)) : Prop where
  copy : ∀ p q, s.pathCacheMap.find? p = some q →
    (p, q) ∈ copies ∧ ∃ c, s.Settled bbpath files p c ∧ s.Settled bbpath files q c
  apart : ∀ p p' q, s.pathCacheMap.find? p = some q → s.pathCacheMap.find? p' = some q → p = p'

/-- A successful open of `path` opens `path` itself or a completed copy of it. -/
def OpensSound (bbpath : String) (files : Files) (x : Server × List (String × String))
    (l : ServerLabel) (s' : Server) : Prop :=
  ∀ remote path localfd, l = .request remote (.openIn path localfd) → x.1.alive = true →
    remote ≠ -1 → ∃ file, s'.fds.find? remote = some ⟨file, O_RDONLY, 0⟩ ∧
      (file = path ∨ (path, file) ∈ x.2 ∧
        ∃ c, s'.Settled bbpath files path c ∧ s'.Settled bbpath files file c)

section Sound

variable {s : Server} {copies : List (String × String)}

theorem CopyInv.cacheSound (h : CopyInv bbpath files s copies) :
    CacheSound bbpath files s copies where
  copy p q hq := ⟨h.cached p q hq, h.complete p q (h.cached p q hq)⟩
  apart p p' q hp hp' := by
    have hsame := List.inj_on_of_nodup_map h.apart (h.cached p q hp) (h.cached p' q hp') rfl
    exact (Prod.mk.inj hsame).1

theorem CopyInv.opensSound {x x' : Server × List (String × String)} {l : ServerLabel}
    {out : Option Reply × Option (String × String)} (h : CopyInv bbpath files x.1 x.2)
    (hstep : (copyMachine rl bbpath files).step x l = some (x', out)) :
    OpensSound bbpath files x l x'.1 := by
  rintro remote path localfd rfl halive hremote
  have h' := h.step hstep
  obtain ⟨hserver, hhistory⟩ := Machine.withHistory_step_eq_some_iff.mp hstep
  obtain ⟨_, _, heq, hnone, hhandle⟩ | ⟨_, heq, -⟩ := serverMachine_step_eq_some hserver
  · cases heq
    rw [hnone, Option.toList_none, List.append_nil] at hhistory
    simp only [Server.handle, halive, if_true] at hhandle
    obtain ⟨-, ⟨hfailed, -⟩ | ⟨c, -, -, -, -, hs'⟩⟩ := Server.openRpcHandler_eq_some hhandle
    · exact absurd hfailed hremote
    · refine ⟨x.1.redirPath path, by rw [hs', OrdMap.find?_insert_self], ?_⟩
      unfold Server.redirPath
      rcases hcache : x.1.pathCacheMap.find? path with _ | q
      · exact Or.inl rfl
      · have hcopied := h.cached path q hcache
        refine Or.inr ⟨hcopied, h'.complete path q ?_⟩
        rw [hhistory]
        exact hcopied
  · cases heq

/-- **Along every run of the server the cache leads to completed copies only.** -/
theorem cacheSound_run (rl : ReadLen) (bbpath : String) (files : Files)
    (labels : List ServerLabel) :
    CacheSound bbpath files Server.init [] ∧
    (copyMachine rl bbpath files).Along
      (fun x l x' _ => OpensSound bbpath files x l x'.1 ∧ CacheSound bbpath files x'.1 x'.2)
      (Server.init, []) labels := by
  refine ⟨(copyInv_init bbpath files).cacheSound, ?_⟩
  refine Machine.along_of_step (I := fun x => CopyInv bbpath files x.1 x.2) ?_
    (copyInv_init bbpath files)
  intro x l x' out h hstep
  have h' := h.step hstep
  exact ⟨⟨h.opensSound hstep, h'.cacheSound⟩, h'⟩

end Sound

end Hvac
