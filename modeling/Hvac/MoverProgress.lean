/-
  Hvac/MoverProgress.lean
  =======================
  **The data mover does its work and comes to rest.**

  `remaining` is the work the mover has still to do: every queued path costs its
  steps and its bytes, and the one being copied what is left of it.  Each step
  of the mover pays for itself and for the bytes it copies out of it, and only a
  close request adds to it, so the mover never turns in circles
  (`mover_work_run`).  It does not get stuck either: as long as the server is up it can
  come to its wait with nothing queued (`mover_rests_run`), and if no copy failed on
  the way, every path a close has queued is then answered by a copy
  (`closed_copied_run`).
-/
import Hvac.CopyOnce

namespace Hvac

open Cxx Posix

variable {rl : ReadLen} {bbpath : String} {files : Files}

/-! ### The work that remains -/

/-- The length of the longest shared file. -/
def Files.longest (files : Files) : Nat :=
  files.entries.foldr (fun entry n => max entry.2.length n) 0

section Work

variable (bbpath : String) (files : Files)

/-- What is left of the path in front: a step for each line of the loop's body, and
    the bytes not yet copied. -/
def Server.frontWork (s : Server) : Nat :=
  match s.mover with
  | .waiting => 0
  | .ready => files.longest + 5
  | .made _ => files.longest + 4
  | .copying dest => files.longest - (s.content bbpath files dest).length + 3
  | .copied _ => 2
  | .finished => 1

/-- A path that is still queued has to be taken over, too. -/
def Server.remaining (s : Server) : Nat :=
  s.frontWork bbpath files + (files.longest + 5) * s.localList.tail.length +
    (files.longest + 6) * s.dataQueue.length

/-- What a step does of it: one for the step, or the bytes it copies. -/
def Server.work (s : Server) : ServerLabel → Nat
  | .request _ _ => 0
  | .mover (.copyChunk n) =>
      match s.mover, s.localList with
      | .copying dest, path :: _ =>
          (slice (s.content bbpath files path) (s.content bbpath files dest).length n).length
      | _, _ => 0
  | .mover .drain => 1
  | .mover (.mkdtemp _) => 1
  | .mover .copyBegin => 1
  | .mover .copyEnd => 1
  | .mover .copyFail => 1
  | .mover .publish => 1
  | .mover .pop => 1

end Work

/-- A close queues at most one path, and nothing else queues any. -/
def ServerLabel.closes : ServerLabel → Nat
  | .request _ (.closeIn _) => 1
  | .request _ (.openIn _ _) => 0
  | .request _ (.rpcIn _ _ _ _) => 0
  | .request _ (.seekIn _ _ _) => 0
  | .mover _ => 0

/-- The directories made so far, and those that what is queued will need. -/
def Server.dirsDue (s : Server) : Nat :=
  s.dirs.length + (if s.mover = .ready then 1 else 0) + s.localList.tail.length +
    s.dataQueue.length

/-- A step pays for its work and for the directory it makes. -/
structure Server.Spends (bbpath : String) (files : Files) (s : Server) (l : ServerLabel)
    (s' : Server) : Prop where
  work : s.work bbpath files l + s'.remaining bbpath files ≤
    s.remaining bbpath files + (files.longest + 6) * l.closes
  dirs : s'.dirsDue ≤ s.dirsDue + l.closes

/-- The mover waits and nothing is queued. -/
def Server.Idle (s : Server) : Prop :=
  s.mover = .waiting ∧ s.localList = [] ∧ s.dataQueue = []

instance (s : Server) : Decidable s.Idle := inferInstanceAs (Decidable (_ ∧ _ ∧ _))

/-- The mover waits exactly when its list is empty, and no copy is longer than the
    files are. -/
structure WorkInv (files : Files) (s : Server) : Prop where
  waiting : s.mover = .waiting ↔ s.localList = []
  short : ∀ q c, s.store.find? q = some c → c.length ≤ files.longest

theorem workInv_init (files : Files) : WorkInv files Server.init where
  waiting := ⟨fun _ => rfl, fun _ => rfl⟩
  short q c h := by cases h

theorem length_le_longest {path : String} {c : Contents} (h : files.find? path = some c) :
    c.length ≤ files.longest := by
  have hle : ∀ {entries : List (String × Contents)}, (path, c) ∈ entries →
      c.length ≤ entries.foldr (fun entry n => max entry.2.length n) 0 := by
    intro entries hmem
    induction entries with
    | nil => cases hmem
    | cons entry entries ih =>
      rw [List.foldr_cons]
      rcases List.mem_cons.mp hmem with rfl | hmem
      · exact le_max_left _ _
      · exact (ih hmem).trans (le_max_right _ _)
  exact hle (OrdMap.find?_eq_some_iff.mp h)

section Steps

variable {s s' : Server} {copies : List (String × String)}

theorem WorkInv.view_le (h : WorkInv files s) {path : String} {c : Contents}
    (hview : s.view bbpath files path = some c) : c.length ≤ files.longest := by
  unfold Server.view at hview
  split at hview
  · exact h.short path c hview
  · exact length_le_longest hview

theorem WorkInv.insert (h : WorkInv files s) {dest q : String} {data c : Contents}
    (hdata : data.length ≤ files.longest) (hq : (s.store.insert dest data).find? q = some c) :
    c.length ≤ files.longest := by
  rw [OrdMap.find?_insert] at hq
  split at hq
  · cases hq
    exact hdata
  · exact h.short q c hq

/-! ### A step pays for itself -/

theorem WorkInv.handle (h : WorkInv files s) {remote : Int} {request : Request}
    {reply : Option Reply} (hhandle : s.handle rl bbpath files remote request = some (s', reply)) :
    s.Spends bbpath files (.request remote request) s' ∧ WorkInv files s' := by
  have hqueue := Server.handle_dataQueue hhandle
  obtain ⟨alive, fds, fdToPath, dataQueue, rfl, -⟩ := Server.handle_shape hhandle
  refine ⟨⟨?_, ?_⟩, h.waiting, h.short⟩
  all_goals rcases hqueue with rfl | ⟨fd, rfl, -, -, rfl⟩
  · rw [Server.work, Nat.zero_add]
    exact Nat.le_add_right _ _
  · have hfront : Server.frontWork bbpath files { s with
        alive := alive, fds := fds, fdToPath := fdToPath
        dataQueue := s.dataQueue ++ [s.closedPath fd] } = s.frontWork bbpath files := rfl
    simp only [Server.work, Server.remaining, hfront, ServerLabel.closes, List.length_append,
      List.length_singleton, Nat.mul_add, Nat.mul_one]
    omega
  · exact Nat.le_add_right _ _
  · simp only [Server.dirsDue, ServerLabel.closes, List.length_append, List.length_singleton]
    omega

theorem Server.frontWork_copying (s : Server) (dest : String) (hmover : s.mover = .copying dest) :
    s.frontWork bbpath files = files.longest - (s.content bbpath files dest).length + 3 := by
  simp only [Server.frontWork, hmover]

theorem Server.work_copyChunk (s : Server) {dest path : String} {rest : List String}
    (hmover : s.mover = .copying dest) (hlist : s.localList = path :: rest) (n : Nat) :
    s.work bbpath files (.mover (.copyChunk n)) =
      (slice (s.content bbpath files path) (s.content bbpath files dest).length n).length := by
  simp only [Server.work, hmover, hlist]

theorem WorkInv.copyChunk (h : WorkInv files s) (hcopy : CopyInv bbpath files s copies)
    {dest path : String} {rest : List String} (hmover : s.mover = .copying dest)
    (hlist : s.localList = path :: rest) (n : Nat) :
    let data := slice (s.content bbpath files path) (s.content bbpath files dest).length n
    data.length + Server.remaining bbpath files { s with
          store := s.store.insert dest (s.content bbpath files dest ++ data) } ≤
        s.remaining bbpath files ∧
      WorkInv files { s with
        store := s.store.insert dest (s.content bbpath files dest ++ data) } := by
  intro data
  obtain ⟨c, done, hsource, hunder, hdone, hbegin, hpath, hcontent⟩ :=
    hcopy.copying hmover hlist
  have hlength : (s.content bbpath files dest ++ data).length ≤ files.longest := by
    have hprefix : s.content bbpath files dest ++ data <+: c := by
      simp only [data, hpath, hcontent]
      exact prefix_append_slice hbegin n
    exact hprefix.length_le.trans (h.view_le hsource.1)
  refine ⟨?_, h.waiting, fun q c' hq => h.insert hlength hq⟩
  have hafter : Server.content bbpath files { s with
      store := s.store.insert dest (s.content bbpath files dest ++ data) } dest =
      s.content bbpath files dest ++ data := by
    rw [Server.content, Server.view_of_underBB hunder, OrdMap.find?_insert_self, Option.getD_some]
  have hfront : Server.frontWork bbpath files { s with
      store := s.store.insert dest (s.content bbpath files dest ++ data) } =
      files.longest - (s.content bbpath files dest ++ data).length + 3 := by
    refine (Server.frontWork_copying _ dest ?_).trans ?_
    · exact hmover
    · rw [hafter]
  rw [List.length_append] at hlength hfront
  rw [Server.remaining, Server.remaining, hfront, s.frontWork_copying dest hmover]
  dsimp only
  omega

/-- A step of the mover costs what it takes off the work that remains. -/
theorem WorkInv.moverStep (h : WorkInv files s) (hcopy : CopyInv bbpath files s copies)
    {step : MoverStep} (hstep : s.moverStep bbpath files step = some s') :
    s.work bbpath files (.mover step) + s'.remaining bbpath files ≤ s.remaining bbpath files ∧
      WorkInv files s' := by
  have hdrain : step = .drain → s.dataQueue ≠ [] := by
    rintro rfl
    simp only [Server.moverStep, Option.ite_none_right_eq_some] at hstep
    exact hstep.1.2
  have hbusy : s.mover ≠ .waiting → s.localList ≠ [] := fun hmover hnil =>
    hmover (h.waiting.mpr hnil)
  cases Server.moverStep_leaves hstep with
  | drain hmover =>
    have hlist := h.waiting.mp hmover
    have hqueue := hdrain rfl
    obtain ⟨path, queue, hcons⟩ := List.exists_cons_of_ne_nil hqueue
    refine ⟨?_, ⟨by simp [hcons], h.short⟩⟩
    simp only [Server.work, Server.remaining, Server.frontWork, hmover, hlist, hcons, List.nil_append,
      List.tail_cons, List.tail_nil, List.length_nil, List.length_cons]
    ring_nf
    omega
  | mkdtempFailed hmover | mkdtemp hmover | copyEnd hmover | publish hmover =>
    refine ⟨?_, ⟨by simp [hbusy (by simp [hmover])], h.short⟩⟩
    simp only [Server.work, Server.remaining, Server.frontWork, hmover]
    omega
  | copyBegin hmover hlist hview =>
    refine ⟨?_, ⟨by simp [hlist], fun q c hq => h.insert (Nat.zero_le _) hq⟩⟩
    simp only [Server.work, Server.remaining, Server.frontWork, hmover]
    omega
  | copyChunk n hmover hlist =>
    rw [s.work_copyChunk hmover hlist]
    exact h.copyChunk hcopy hmover hlist n
  | copyFail hmover =>
    have hleft : 2 ≤ s.frontWork bbpath files ∧ s.mover ≠ .waiting := by
      rcases hmover with ⟨dir, hmover⟩ | ⟨dest, hmover⟩ <;> simp [Server.frontWork, hmover]
    refine ⟨?_, ⟨by simp [hbusy hleft.2], h.short⟩⟩
    have hspent := hleft.1
    simp only [Server.work, Server.remaining, Server.frontWork] at hspent ⊢
    omega
  | @pop path rest hmover hlist =>
    cases rest with
    | nil =>
      refine ⟨?_, ⟨by simp, h.short⟩⟩
      simp [Server.work, Server.remaining, Server.frontWork, hmover, hlist]
    | cons next rest =>
      refine ⟨?_, ⟨by simp, h.short⟩⟩
      simp only [Server.work, Server.remaining, Server.frontWork, hmover, hlist, reduceCtorEq,
        if_false, List.tail_cons, List.length_cons]
      ring_nf
      omega

theorem WorkInv.dirsDue_le (h : WorkInv files s) {step : MoverStep}
    (hstep : s.moverStep bbpath files step = some s') : s'.dirsDue ≤ s.dirsDue := by
  have hqueue : step = .drain → 0 < s.dataQueue.length := by
    rintro rfl
    simp only [Server.moverStep, Option.ite_none_right_eq_some] at hstep
    exact List.length_pos_iff.mpr hstep.1.2
  cases Server.moverStep_leaves hstep with
  | drain hmover =>
    have hlist := h.waiting.mp hmover
    have hpos := hqueue rfl
    simp only [Server.dirsDue, hmover, hlist, reduceCtorEq, if_false, if_true, List.nil_append,
      List.length_tail, List.length_nil]
    omega
  | mkdtempFailed hmover | mkdtemp hmover | copyBegin hmover | copyChunk n hmover
  | copyEnd hmover | publish hmover =>
    simp only [Server.dirsDue, hmover, reduceCtorEq, if_false, if_true, List.length_cons]
    omega
  | copyFail hmover =>
    simp only [Server.dirsDue, reduceCtorEq, if_false]
    omega
  | @pop path rest hmover hlist =>
    simp only [Server.dirsDue, hmover, hlist, reduceCtorEq, if_false, List.tail_cons,
      List.length_tail]
    cases rest with
    | nil => simp
    | cons next rest =>
      simp only [reduceCtorEq, if_false, if_true, List.length_cons]
      omega

end Steps

section Runs

variable {s s' : Server} {copies : List (String × String)}

/-- Both invariants, for a server on its own. -/
def Working (bbpath : String) (files : Files) (s : Server) : Prop :=
  WorkInv files s ∧ ∃ copies, CopyInv bbpath files s copies

theorem working_init (bbpath : String) (files : Files) : Working bbpath files Server.init :=
  ⟨workInv_init files, [], copyInv_init bbpath files⟩

theorem Working.step (h : Working bbpath files s) {l : ServerLabel}
    {out : Option Reply × Option (String × String)}
    (hstep : (serverMachine rl bbpath files).step s l = some (s', out)) :
    s.Spends bbpath files l s' ∧ Working bbpath files s' := by
  obtain ⟨hwork, copies, hcopy⟩ := h
  obtain ⟨remote, request, rfl, -, hhandle⟩ | ⟨step, rfl, -, -, hmover⟩ :=
    serverMachine_step_eq_some hstep
  · obtain ⟨hpaid, hwork'⟩ := hwork.handle hhandle
    exact ⟨hpaid, hwork', copies, hcopy.handle hhandle⟩
  · obtain ⟨hpaid, hwork'⟩ := hwork.moverStep hcopy hmover
    exact ⟨⟨hpaid, hwork.dirsDue_le hmover⟩, hwork', _, (hcopy.moverStep hmover).2⟩

theorem working_run {labels : List ServerLabel}
    {os : List (Option Reply × Option (String × String))}
    (hrun : (serverMachine rl bbpath files).run Server.init labels = some (s, os)) :
    Working bbpath files s := by
  refine Machine.run_of_step (I := Working bbpath files) ?_ (working_init bbpath files) hrun
  intro _ _ _ _ h hstep
  exact (h.step hstep).2

/-- The closes of a run have paid for all that was done and that remains. -/
theorem spends_run {cost : Server → ServerLabel → Nat} {credit : Nat} {due : Server → Nat}
    (hspends : ∀ s l s', s.Spends bbpath files l s' →
      cost s l + due s' ≤ due s + credit * l.closes)
    {labels : List ServerLabel} {os : List (Option Reply × Option (String × String))}
    (hrun : (serverMachine rl bbpath files).run Server.init labels = some (s, os)) :
    (serverMachine rl bbpath files).total cost Server.init labels + due s ≤
      due Server.init + credit * (labels.map ServerLabel.closes).sum := by
  have hstep : ∀ s l s' o, Working bbpath files s →
      (serverMachine rl bbpath files).step s l = some (s', o) →
      cost s l + due s' ≤ due s + credit * l.closes ∧ Working bbpath files s' := by
    intro s l s' o h hstep
    obtain ⟨hspent, h'⟩ := h.step hstep
    exact ⟨hspends s l s' hspent, h'⟩
  rw [← List.sum_map_mul_left]
  exact Machine.total_le_of_potential hstep (working_init bbpath files) hrun

/-- **In every run of the server the mover does no more steps and copies no more bytes
    than the closes have put into the queue**, whatever the interleaving: it never
    turns in circles. -/
theorem mover_work_run {labels : List ServerLabel}
    {os : List (Option Reply × Option (String × String))}
    (hrun : (serverMachine rl bbpath files).run Server.init labels = some (s, os)) :
    (serverMachine rl bbpath files).total (Server.work bbpath files) Server.init labels +
        s.remaining bbpath files ≤
      (files.longest + 6) * (labels.map ServerLabel.closes).sum := by
  have hpaid := spends_run (fun _ _ _ h => h.work) hrun
  have hstart : Server.init.remaining bbpath files = 0 := rfl
  omega

/-- The file is opened and closed: it is queued. -/
def closedOnce : List ServerLabel :=
  [.request 3 (.openIn "/data/a" 5), .request 0 (.closeIn 3)]

/-- What the mover does for it. -/
def copiedAway : List ServerLabel :=
  [.mover .drain, .mover (.mkdtemp (some "aaaaaa")), .mover .copyBegin, .mover (.copyChunk 1),
    .mover .copyEnd, .mover .publish, .mover .pop]

/-- The one close pays for exactly these steps. -/
theorem mover_work_run_copied :
    ∃ s os, (serverMachine ReadLen.full "/bb" oneFile).run Server.init (closedOnce ++ copiedAway) =
        some (s, os) ∧
      (serverMachine ReadLen.full "/bb" oneFile).total (Server.work "/bb" oneFile) Server.init
          (closedOnce ++ copiedAway) + s.remaining "/bb" oneFile ≤
        (oneFile.longest + 6) * ((closedOnce ++ copiedAway).map ServerLabel.closes).sum := by
  have hsome : ((serverMachine ReadLen.full "/bb" oneFile).run Server.init
      (closedOnce ++ copiedAway)).isSome = true := by
    decide +kernel
  obtain ⟨⟨s, os⟩, hrun⟩ := Option.isSome_iff_exists.mp hsome
  exact ⟨s, os, hrun, mover_work_run hrun⟩

example : (serverMachine ReadLen.full "/bb" oneFile).total (Server.work "/bb" oneFile) Server.init
    (closedOnce ++ copiedAway) = oneFile.longest + 6 := by decide +kernel

/-! ### There is always a next step -/

/-- The copy is not made: the template of `mkdtemp` is exhausted, or the file is not
    there. -/
inductive Server.Blocked (bbpath : String) (files : Files) (s : Server) : Prop where
  | noName (hmover : s.mover = .ready)
      (hnames : ∀ suffix, suffix.length = 6 → '/' ∉ suffix.toList →
        bbpath ++ "/" ++ suffix ∈ s.dirs)
  | noFile {dir path : String} {rest : List String} (hmover : s.mover = .made dir)
      (hlist : s.localList = path :: rest) (hview : s.view bbpath files path = none)

/-- Neither `mkdtemp` nor `fs::copy` fails. -/
def ServerLabel.Succeeds : ServerLabel → Prop
  | .mover (.mkdtemp suffix) => suffix ≠ none
  | .mover .copyFail => False
  | .mover .drain => True
  | .mover .copyBegin => True
  | .mover (.copyChunk _) => True
  | .mover .copyEnd => True
  | .mover .publish => True
  | .mover .pop => True
  | .request _ _ => True

instance : ∀ l : ServerLabel, Decidable l.Succeeds
  | .mover (.mkdtemp suffix) => inferInstanceAs (Decidable (suffix ≠ none))
  | .mover .copyFail => isFalse id
  | .mover .drain => isTrue trivial
  | .mover .copyBegin => isTrue trivial
  | .mover (.copyChunk _) => isTrue trivial
  | .mover .copyEnd => isTrue trivial
  | .mover .publish => isTrue trivial
  | .mover .pop => isTrue trivial
  | .request _ _ => isTrue trivial

theorem Working.exists_step (h : Working bbpath files s) (hidle : ¬ s.Idle) :
    ∃ step, (s.moverStep bbpath files step).isSome = true ∧
      0 < s.work bbpath files (.mover step) ∧
      ((ServerLabel.mover step).Succeeds ∨ s.Blocked bbpath files) := by
  obtain ⟨hwork, copies, hcopy⟩ := h
  have hfront : s.mover ≠ .waiting → ∃ path rest, s.localList = path :: rest := fun hmover =>
    List.exists_cons_of_ne_nil fun hnil => hmover (hwork.waiting.mpr hnil)
  rcases hmover : s.mover with _ | _ | dir | dest | dest | _
  · -- the queue is not empty
    have hlist := hwork.waiting.mp hmover
    have hqueue : s.dataQueue ≠ [] := fun hnil => hidle ⟨hmover, hlist, hnil⟩
    refine ⟨.drain, ?_, Nat.one_pos, Or.inl trivial⟩
    rw [Server.moverStep, if_pos ⟨hmover, hqueue⟩, Option.isSome_some]
  · by_cases hname : ∃ suffix : String, suffix.length = 6 ∧ '/' ∉ suffix.toList ∧
        bbpath ++ "/" ++ suffix ∉ s.dirs
    · obtain ⟨suffix, hsuffix⟩ := hname
      refine ⟨.mkdtemp (some suffix), ?_, Nat.one_pos, Or.inl (Option.some_ne_none suffix)⟩
      simp only [Server.moverStep, hmover]
      rw [if_pos hsuffix, Option.isSome_some]
    · refine ⟨.mkdtemp none, by simp [Server.moverStep, hmover], Nat.one_pos,
        Or.inr (.noName hmover fun suffix hlength hslash => ?_)⟩
      by_contra hdir
      exact hname ⟨suffix, hlength, hslash, hdir⟩
  · obtain ⟨path, rest, hlist⟩ := hfront (by simp [hmover])
    rcases hview : s.view bbpath files path with _ | c
    · exact ⟨.copyFail, by simp [Server.moverStep, hmover], Nat.one_pos,
        Or.inr (.noFile hmover hlist hview)⟩
    · exact ⟨.copyBegin, by simp [Server.moverStep, hmover, hlist, hview], Nat.one_pos,
        Or.inl trivial⟩
  · -- the copy is complete, or a byte is left
    obtain ⟨path, rest, hlist⟩ := hfront (by simp [hmover])
    by_cases hlength :
        (s.content bbpath files path).length ≤ (s.content bbpath files dest).length
    · exact ⟨.copyEnd, by simp [Server.moverStep, hmover, hlist, hlength], Nat.one_pos,
        Or.inl trivial⟩
    · refine ⟨.copyChunk 1, by simp [Server.moverStep, hmover, hlist], ?_, Or.inl trivial⟩
      rw [s.work_copyChunk hmover hlist, length_slice]
      omega
  · obtain ⟨path, rest, hlist⟩ := hfront (by simp [hmover])
    exact ⟨.publish, by simp [Server.moverStep, hmover, hlist], Nat.one_pos, Or.inl trivial⟩
  · obtain ⟨path, rest, hlist⟩ := hfront (by simp [hmover])
    exact ⟨.pop, by simp [Server.moverStep, hmover, hlist], Nat.one_pos, Or.inl trivial⟩

/-! ### Names for the copies -/

/-- The characters `mkdtemp` puts in the place of `XXXXXX`. -/
def templateChars : List Char :=
  "abcdefghijklmnopqrstuvwxyzABCDEFGHIJKLMNOPQRSTUVWXYZ0123456789".toList

theorem length_templateChars : templateChars.length = 62 := by decide

theorem card_templates : Fintype.card (Fin 6 → Fin templateChars.length) = 62 ^ 6 := by
  rw [Fintype.card_fun, Fintype.card_fin, Fintype.card_fin, length_templateChars]

/-- The directory whose name is filled in with the characters of `pick`. -/
def templateDir (bbpath : String) (pick : Fin 6 → Fin templateChars.length) : String :=
  bbpath ++ "/" ++ String.ofList (List.ofFn fun i => templateChars.get (pick i))

theorem templateDir_injective (bbpath : String) : Function.Injective (templateDir bbpath) := by
  intro pick pick' h
  have hchars : (templateDir bbpath pick).toList = (templateDir bbpath pick').toList := by rw [h]
  simp only [templateDir, String.toList_append, String.toList_ofList] at hchars
  have hpicks := List.ofFn_injective (List.append_cancel_left hchars)
  have hnodup : templateChars.Nodup := by decide
  funext i
  exact List.nodup_iff_injective_get.mp hnodup (congrFun hpicks i)

/-- A name is left as long as fewer directories were made than there are names. -/
theorem exists_fresh_dir {dirs : List String} (h : dirs.length < 62 ^ 6) :
    ∃ suffix : String, suffix.length = 6 ∧ '/' ∉ suffix.toList ∧
      bbpath ++ "/" ++ suffix ∉ dirs := by
  obtain ⟨pick, hpick⟩ : ∃ pick, templateDir bbpath pick ∉ dirs := by
    refine not_forall.mp fun hall => ?_
    have hsub : Finset.univ.image (templateDir bbpath) ⊆ dirs.toFinset :=
      Finset.image_subset_iff.mpr fun pick _ => List.mem_toFinset.mpr (hall pick)
    have hle := (Finset.card_le_card hsub).trans (List.toFinset_card_le dirs)
    rw [Finset.card_image_of_injective _ (templateDir_injective bbpath), Finset.card_univ,
      card_templates] at hle
    exact absurd h hle.not_gt
  refine ⟨String.ofList (List.ofFn fun i => templateChars.get (pick i)), ?_, ?_, hpick⟩
  · rw [String.length_ofList, List.length_ofFn]
  · rw [String.toList_ofList]
    intro hslash
    obtain ⟨i, hi⟩ := (List.mem_ofFn' _ _).mp hslash
    have hchar : '/' ∈ templateChars := by
      rw [← hi]
      exact List.get_mem ..
    exact absurd hchar (by decide)

/-! ### Coming to rest -/

/-- What a step of the mover does with a path on its way: it stays there, or is given
    up, or is published. -/
theorem Server.moverStep_pending {step : MoverStep}
    (hstep : s.moverStep bbpath files step = some s') :
    s'.pending.Sublist s.pending ∧ ∀ p ∈ s.pending, p ∈ s'.pending ∨
      ¬ (ServerLabel.mover step).Succeeds ∨ s'.pathCacheMap.find? p ≠ none := by
  cases Server.moverStep_leaves hstep with
  | drain hmover =>
    simp only [Server.pending, hmover, List.append_nil]
    exact ⟨List.Sublist.refl _, fun p hp => Or.inl hp⟩
  | mkdtempFailed hmover =>
    simp only [Server.pending, hmover]
    refine ⟨(List.tail_sublist _).append_right _, fun p _ => Or.inr (Or.inl ?_)⟩
    exact fun h => h rfl
  | mkdtemp hmover | copyBegin hmover | copyChunk n hmover | copyEnd hmover =>
    simp only [Server.pending, hmover]
    exact ⟨List.Sublist.refl _, fun p hp => Or.inl hp⟩
  | copyFail hmover =>
    refine ⟨?_, fun p _ => Or.inr (Or.inl id)⟩
    rcases hmover with ⟨dir, hmover⟩ | ⟨dest, hmover⟩
    · simp only [Server.pending, hmover]
      exact (List.tail_sublist _).append_right _
    · simp only [Server.pending, hmover]
      exact (List.tail_sublist _).append_right _
  | @publish dest path rest hmover hlist =>
    simp only [Server.pending, hmover, hlist, List.tail_cons, List.cons_append]
    refine ⟨List.sublist_cons_self _ _, fun p hp => ?_⟩
    rcases List.mem_cons.mp hp with rfl | hp
    · rw [OrdMap.find?_insert_self]
      exact Or.inr (Or.inr (Option.some_ne_none dest))
    · exact Or.inl hp
  | @pop path rest hmover hlist =>
    by_cases hrest : rest = []
    · simp only [Server.pending, hmover, hlist, if_pos hrest, List.tail_cons]
      exact ⟨List.Sublist.refl _, fun p hp => Or.inl hp⟩
    · simp only [Server.pending, hmover, hlist, if_neg hrest, List.tail_cons]
      exact ⟨List.Sublist.refl _, fun p hp => Or.inl hp⟩

/-- No file and no entry is lost. -/
theorem Server.moverStep_grows {step : MoverStep}
    (hstep : s.moverStep bbpath files step = some s') (p : String) :
    (s.view bbpath files p ≠ none → s'.view bbpath files p ≠ none) ∧
      (s.pathCacheMap.find? p ≠ none → s'.pathCacheMap.find? p ≠ none) := by
  have hinsert : ∀ (m : Files) (q : String) (data : Contents),
      m.find? p ≠ none → (m.insert q data).find? p ≠ none := by
    intro m q data hp
    rw [OrdMap.find?_insert]
    split
    · exact Option.some_ne_none data
    · exact hp
  cases Server.moverStep_leaves hstep with
  | drain | mkdtempFailed | mkdtemp | copyEnd | copyFail | pop => exact ⟨id, id⟩
  | copyBegin | copyChunk =>
    refine ⟨?_, id⟩
    unfold Server.view
    split
    · exact hinsert _ _ _
    · exact id
  | publish =>
    refine ⟨id, fun hp => ?_⟩
    rw [OrdMap.find?_insert]
    split
    · exact Option.some_ne_none _
    · exact hp

/-- The mover meets no failure it could not avoid: the server is up, names are left for
    what is queued, and the files are there. -/
structure Able (bbpath : String) (files : Files) (s : Server) : Prop where
  working : Working bbpath files s
  up : s.alive = true
  names : s.dirsDue < 62 ^ 6
  there : ∀ p ∈ s.pending, s.view bbpath files p ≠ none

theorem Able.not_blocked (h : Able bbpath files s) : ¬ s.Blocked bbpath files := by
  rintro (⟨hmover, hnames⟩ | ⟨hmover, hlist, hview⟩)
  · have hfew : s.dirs.length < 62 ^ 6 := by
      have hnames := h.names
      unfold Server.dirsDue at hnames
      omega
    obtain ⟨suffix, hlength, hslash, hfresh⟩ := exists_fresh_dir hfew
    exact hfresh (hnames suffix hlength hslash)
  · refine h.there _ ?_ hview
    simp only [Server.pending, hmover, hlist]
    exact List.mem_append_left _ List.mem_cons_self

theorem Able.step (h : Able bbpath files s) (hidle : ¬ s.Idle) :
    ∃ l s' out, (l.Succeeds ∧ ∃ step, l = .mover step) ∧
      (serverMachine rl bbpath files).step s l = some (s', out) ∧ Able bbpath files s' ∧
      s'.remaining bbpath files < s.remaining bbpath files := by
  obtain ⟨step, hsome, hpos, hsucceeds⟩ := h.working.exists_step hidle
  obtain ⟨s', hstep⟩ := Option.isSome_iff_exists.mp hsome
  have hserver : (serverMachine rl bbpath files).step s (.mover step) =
      some (s', none, s.completes step) := by
    simp only [serverMachine, hstep, h.up, if_true]
  obtain ⟨⟨hwork, hdirs⟩, hworking⟩ := h.working.step hserver
  have hup : s'.alive = true := (Server.moverStep_frame hstep).1.trans h.up
  simp only [ServerLabel.closes, Nat.mul_zero, Nat.add_zero] at hwork hdirs
  refine ⟨.mover step, s', _, ⟨hsucceeds.resolve_right h.not_blocked, step, rfl⟩, hserver,
    ⟨hworking, hup, hdirs.trans_lt h.names, fun p hp => ?_⟩, by omega⟩
  exact (Server.moverStep_grows hstep p).1 (h.there p ((Server.moverStep_pending hstep).1.subset hp))

/-- **After every run that leaves the server up, with fewer closes than there are names
    for directories and with every queued path still there, the mover finishes without
    a failure**: by steps of its own, none of which fails, it comes to its wait with
    nothing queued. -/
theorem mover_rests_run {labels : List ServerLabel}
    {os : List (Option Reply × Option (String × String))}
    (hrun : (serverMachine rl bbpath files).run Server.init labels = some (s, os))
    (halive : s.alive = true) (hcloses : (labels.map ServerLabel.closes).sum < 62 ^ 6)
    (hthere : ∀ p ∈ s.pending, s.view bbpath files p ≠ none) :
    ∃ steps t os', (∀ l ∈ steps, l.Succeeds ∧ ∃ step, l = .mover step) ∧
      (serverMachine rl bbpath files).run s steps = some (t, os') ∧ t.Idle ∧
      steps.length ≤ s.remaining bbpath files := by
  have hpays : ∀ (s : Server) (l : ServerLabel) (s' : Server), s.Spends bbpath files l s' →
      0 + s'.dirsDue ≤ s.dirsDue + 1 * l.closes := by
    intro s l s' hspends
    have hdirs := hspends.dirs
    omega
  have hdirs := spends_run hpays hrun
  have hstart : Server.init.dirsDue = 0 := rfl
  have hstep : ∀ s, Able bbpath files s → ¬ s.Idle → ∃ l s' out,
      (l.Succeeds ∧ ∃ step, l = .mover step) ∧
        (serverMachine rl bbpath files).step s l = some (s', out) ∧ Able bbpath files s' ∧
        s'.remaining bbpath files < s.remaining bbpath files := fun _ h hidle => h.step hidle
  exact Machine.exists_run_of_progress hstep ⟨working_run hrun, halive, by omega, hthere⟩

theorem mover_rests_run_closedOnce :
    ∃ s os, (serverMachine ReadLen.full "/bb" oneFile).run Server.init closedOnce = some (s, os) ∧
      ∃ steps t os', (∀ l ∈ steps, l.Succeeds ∧ ∃ step, l = .mover step) ∧
        (serverMachine ReadLen.full "/bb" oneFile).run s steps = some (t, os') ∧ t.Idle ∧
        steps.length ≤ s.remaining "/bb" oneFile := by
  have hsome : ((serverMachine ReadLen.full "/bb" oneFile).run Server.init closedOnce).any
      (fun x => x.1.alive && decide (∀ p ∈ x.1.pending, x.1.view "/bb" oneFile p ≠ none)) =
        true := by
    decide +kernel
  obtain ⟨⟨s, os⟩, hrun, hrest⟩ := (Option.any_eq_true _ _).mp hsome
  obtain ⟨halive, hthere⟩ := (Bool.and_eq_true _ _).mp hrest
  refine ⟨s, os, hrun, mover_rests_run hrun halive ?_ (of_decide_eq_true hthere)⟩
  norm_num [closedOnce, ServerLabel.closes]

/-! ### What a close leads to -/

/-- The path has an entry, or is on its way to one. -/
def Server.Coming (path : String) (s : Server) : Prop :=
  s.pathCacheMap.find? path ≠ none ∨ path ∈ s.pending

theorem Server.Coming.step {path : String} (h : s.Coming path) {l : ServerLabel}
    {out : Option Reply × Option (String × String)} (hsucceeds : l.Succeeds)
    (hstep : (serverMachine rl bbpath files).step s l = some (s', out)) : s'.Coming path := by
  obtain ⟨remote, request, rfl, -, hhandle⟩ | ⟨step, rfl, -, -, hmover⟩ :=
    serverMachine_step_eq_some hstep
  · have hqueue := Server.handle_dataQueue hhandle
    obtain ⟨alive, fds, fdToPath, dataQueue, rfl, -⟩ := Server.handle_shape hhandle
    refine h.imp id fun hpath => ?_
    rcases hqueue with rfl | ⟨fd, rfl, -, -, rfl⟩
    · have hpending := s.pending_queue [] alive fds fdToPath
      rw [List.append_nil, List.append_nil] at hpending
      rw [hpending]
      exact hpath
    · rw [s.pending_queue [s.closedPath fd] alive fds fdToPath]
      exact List.mem_append_left _ hpath
  · rcases h with hentry | hpath
    · exact Or.inl ((Server.moverStep_grows hmover path).2 hentry)
    · rcases (Server.moverStep_pending hmover).2 path hpath with hpath | hfails | hentry
      · exact Or.inr hpath
      · exact absurd hsucceeds hfails
      · exact Or.inl hentry

/-- A close that is handled leaves its path with an entry, or queued. -/
theorem Server.coming_of_close (halive : s.alive = true) {remote fd : Int}
    {out : Option Reply × Option (String × String)}
    (hclose : (serverMachine rl bbpath files).step s (.request remote (.closeIn fd)) =
      some (s', out)) : s'.Coming (s.closedPath fd) := by
  simp only [serverMachine, Server.handle, halive, if_true, Option.some.injEq,
    Prod.mk.injEq] at hclose
  obtain ⟨rfl, -⟩ := hclose
  rcases hentry : s.pathCacheMap.find? (s.closedPath fd) with _ | q
  · right
    have hqueue : (s.closeRpcHandler fd).pending = s.pending ++ [s.closedPath fd] := by
      rw [← s.pending_queue [s.closedPath fd] s.alive (sysClose s.fds fd).2
        ((s.fdToPath.index fd "").2.erase fd)]
      unfold Server.closedPath at hentry ⊢
      simp only [Server.closeRpcHandler, hentry, Option.isNone_none, if_true]
    rw [hqueue]
    exact List.mem_append_right _ (List.mem_singleton_self _)
  · left
    rw [show (s.closeRpcHandler fd).pathCacheMap = s.pathCacheMap from rfl, hentry]
    exact Option.some_ne_none q

/-- **Once the mover rests, the path of every close since whose handling no copy has
    failed leads to a completed copy of it**, whatever else was asked of the server in
    the meantime. -/
theorem closed_copied_run {before after : List ServerLabel} {t : Server} {remote fd : Int}
    {os os' : List (Option Reply × Option (String × String))}
    {out : Option Reply × Option (String × String)}
    (hbefore : (serverMachine rl bbpath files).run Server.init before = some (s, os))
    (halive : s.alive = true)
    (hclose : (serverMachine rl bbpath files).step s (.request remote (.closeIn fd)) =
      some (s', out))
    (hafter : (serverMachine rl bbpath files).run s' after = some (t, os'))
    (hsucceed : ∀ l ∈ after, l.Succeeds) (hidle : t.Idle) :
    ∃ copy c, t.pathCacheMap.find? (s.closedPath fd) = some copy ∧
      t.Settled bbpath files (s.closedPath fd) c ∧ t.Settled bbpath files copy c := by
  have hs' : Working bbpath files s' := ((working_run hbefore).step hclose).2
  have halong := Machine.along_of_forall_mem (M := serverMachine rl bbpath files) (s := s') hsucceed
  obtain ⟨hcoming, hwork, copies, hcopy⟩ := Machine.run_of_invariant
    (I := fun s₁ => s₁.Coming (s.closedPath fd) ∧ Working bbpath files s₁) (fun _ _ _ _ h hl hstep =>
      ⟨h.1.step hl hstep, (h.2.step hstep).2⟩) ⟨s.coming_of_close halive hclose, hs'⟩ halong hafter
  rcases hcoming with hentry | hpending
  · obtain ⟨copy, hcopied⟩ := Option.ne_none_iff_exists'.mp hentry
    obtain ⟨c, hpath, hcontents⟩ := hcopy.complete _ copy (hcopy.cached _ copy hcopied)
    exact ⟨copy, c, hcopied, hpath, hcontents⟩
  · obtain ⟨hmover, hlist, hqueue⟩ := hidle
    simp only [Server.pending, hmover, hlist, hqueue, List.append_nil] at hpending
    cases hpending

theorem closed_copied_run_once :
    ∃ s s' t os out os', (serverMachine ReadLen.full "/bb" oneFile).run Server.init
        [.request 3 (.openIn "/data/a" 5)] = some (s, os) ∧
      (serverMachine ReadLen.full "/bb" oneFile).step s (.request 0 (.closeIn 3)) =
        some (s', out) ∧
      (serverMachine ReadLen.full "/bb" oneFile).run s' copiedAway = some (t, os') ∧
      ∃ copy c, t.pathCacheMap.find? (s.closedPath 3) = some copy ∧
        t.Settled "/bb" oneFile (s.closedPath 3) c ∧ t.Settled "/bb" oneFile copy c := by
  have hsome : ((serverMachine ReadLen.full "/bb" oneFile).run Server.init
      [.request 3 (.openIn "/data/a" 5)]).any (fun x => x.1.alive &&
        ((serverMachine ReadLen.full "/bb" oneFile).step x.1 (.request 0 (.closeIn 3))).any
          (fun y => ((serverMachine ReadLen.full "/bb" oneFile).run y.1 copiedAway).any
            (fun z => decide z.1.Idle))) = true := by
    decide +kernel
  obtain ⟨⟨s, os⟩, hbefore, hrest⟩ := (Option.any_eq_true _ _).mp hsome
  obtain ⟨halive, hrest⟩ := (Bool.and_eq_true _ _).mp hrest
  obtain ⟨⟨s', out⟩, hclose, hrest⟩ := (Option.any_eq_true _ _).mp hrest
  obtain ⟨⟨t, os'⟩, hafter, hidle⟩ := (Option.any_eq_true _ _).mp hrest
  exact ⟨s, s', t, os, out, os', hbefore, hclose, hafter,
    closed_copied_run hbefore halive hclose hafter (by decide) (of_decide_eq_true hidle)⟩

end Runs

end Hvac
