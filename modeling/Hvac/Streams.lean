/-
  Hvac/Streams.lean
  =================
  **Do `fopen` and `open` track the same files?**

  Both leave the decision to `hvac_track_file`, which backs out of files opened
  for writing only and of files opened for appending.  It sees the flags of an
  `open`; `fopen` and `fopen64` pass `O_RDONLY` for every mode, so it never backs
  out of a stream.

  The calls agree on every mode that reads (`wrapFopen_eq_wrapOpen`).  On the others
  they agree exactly where the path is not tracked under any flags
  (`fopen_open_alike_iff`), and `fopen("/data/a", "w")` is sent to a server as a
  file to read (`stream_tracked`).
-/
import Hvac.Tracking

namespace Hvac

open Cxx Posix

/-! ### The two calls -/

/-- `g_disable_redirect` and the thread's `tl_disable_redirect`. -/
structure Redirect where
  gDisableRedirect : Bool
  tlDisableRedirect : Bool
deriving DecidableEq

/-- The wrappers make the real call only. -/
def Redirect.off (redirect : Redirect) : Bool :=
  redirect.gDisableRedirect || redirect.tlDisableRedirect

variable (env : Env) (answer : Files → Int → Request → Option Reply) (redirect : Redirect)

/-- A real call on its own. -/
def realOnly (ret : Int) (s : Proc) : Effect Proc Int := ⟨s, [], .returned ret⟩

/-- `__real_fopen`, whose stream has the descriptor `ret`. -/
def realFopen (s : Proc) (path mode : String) (ret : Int) : Option Proc :=
  match fopenFlags mode with
  | none => if ret = -1 then some s else none
  | some flags => realOpen env s path flags ret

/-- `open`, in every state of the two switches. -/
def Redirect.open (s : Proc) (path : String) (flags : OFlags) (ret : Int) :
    Option (Effect Proc Int) :=
  if redirect.off then (realOpen env s path flags ret).map (realOnly ret)
  else wrapOpen env answer s path flags ret

/-- `fopen` and `fopen64`. -/
def Redirect.fopen (s : Proc) (path mode : String) (ret : Int) : Option (Effect Proc Int) :=
  if redirect.off then (realFopen env s path mode ret).map (realOnly ret)
  else wrapFopen env answer s path mode ret

/-! ### Statements -/

/-- A mode for writing only or for appending. -/
def WritesOnly (mode : String) : Prop :=
  mode.toList.head? = some 'w' ∧ '+' ∉ mode.toList ∨ mode.toList.head? = some 'a'

instance (mode : String) : Decidable (WritesOnly mode) := inferInstanceAs (Decidable (_ ∨ _))

/-- `hvac_track_file` backs out of these flags. -/
def BacksOut (flags : OFlags) : Prop := flags &&& O_ACCMODE = O_WRONLY ∨ flags &&& O_APPEND ≠ 0#32

instance (flags : OFlags) : Decidable (BacksOut flags) := inferInstanceAs (Decidable (_ ∨ _))

/-- What `hvac_track_file` asks of a path: it has no `.ports.cfg.`, it has a canonical
    form, and the text of `HVAC_DATA_DIR` is in that of its directory, or the
    directory is the current one where the variable is not set. -/
def TrackedPath (path : String) : Prop :=
  find path ".ports.cfg." = false ∧ ∃ file, env.canonical path = some file ∧
    match env.hvacDataDir with
    | some dir => ∃ test, env.canonical dir = some test ∧ find (parentPath file) test = true
    | none => parentPath file = env.currentPath

/-- The call succeeded, and returned the descriptor (for `fopen`, the stream's). -/
structure Succeeds (call : Option (Effect Proc Int)) (e : Effect Proc Int) (ret : Int) : Prop where
  call : call = some e
  outcome : e.outcome = .returned ret
  ret : ret ≠ -1

/-- The stream leaves the descriptors tracked and sends the requests that the open
    does; and one for writing only or appending is not tracked. -/
structure TracksAlike (mode : String) (ret : Int) (opened stream : Effect Proc Int) : Prop where
  tracked : ∀ fd,
    stream.state.client.hvacFileTracked fd = opened.state.client.hvacFileTracked fd
  sent : stream.sent = opened.sent
  writesOnly : WritesOnly mode → stream.state.client.hvacFileTracked ret = false

variable {env answer redirect}

/-! ### Flags -/

theorem backsOut_iff_writesOnly {mode : String} {flags : OFlags} (h : fopenFlags mode = some flags) :
    BacksOut flags ↔ WritesOnly mode := by
  simp only [fopenFlags] at h
  unfold WritesOnly
  split at h
  · next hmode =>
    cases h
    rw [hmode]
    split
    · exact iff_of_false (by decide) (by simp)
    · exact iff_of_false (by decide) (by simp)
  · next hmode =>
    cases h
    by_cases hplus : '+' ∈ mode.toList
    · rw [if_pos hplus]
      exact iff_of_false (by decide) (by simp [hmode, hmode ▸ hplus])
    · rw [if_neg hplus]
      exact iff_of_true (by decide) (Or.inl ⟨by rw [hmode]; rfl, hplus⟩)
  · next hmode =>
    cases h
    refine iff_of_true ?_ (Or.inr (by rw [hmode]; rfl))
    split
    · decide
    · decide
  · cases h

theorem trackPath_of_backsOut {path : String} {flags : OFlags} (h : BacksOut flags) :
    trackPath env path flags = none := by
  unfold trackPath
  rcases h with hwrite | happend
  · simp only [hwrite, if_true, ite_self]
  · simp only [happend, ne_eq, not_false_eq_true, if_true, ite_self]

/-- Flags that it does not back out of are all the same to it. -/
theorem trackPath_of_not_backsOut {path : String} {flags : OFlags} (h : ¬ BacksOut flags) :
    trackPath env path flags = trackPath env path O_RDONLY := by
  have hread : ¬ BacksOut O_RDONLY := by decide
  simp only [BacksOut, not_or] at h hread
  unfold trackPath
  rw [if_neg h.1, if_neg h.2, if_neg hread.1, if_neg hread.2]

/-- What is tracked under `O_RDONLY` is decided by the path. -/
theorem trackPath_readOnly_eq_none_iff {path : String} :
    trackPath env path O_RDONLY = none ↔ ¬ TrackedPath env path := by
  have hread : ¬ BacksOut O_RDONLY := by decide
  simp only [BacksOut, not_or] at hread
  unfold trackPath TrackedPath
  rw [if_neg hread.1, if_neg hread.2]
  rcases hports : find path ".ports.cfg." with _ | _
  · rcases hfile : env.canonical path with _ | file
    · simp
    · rcases hdir : env.hvacDataDir with _ | dir
      · simp
      · rcases htest : env.canonical dir with _ | test
        · simp [htest]
        · simp [htest]
  · simp

/-! ### After the real open -/

variable {s s' : Proc} {path mode : String} {flags : OFlags} {ret : Int}
  {opened stream : Effect Proc Int}

/-- What a wrapper makes of a real open that left `s`: the file is tracked as if opened
    with `trackFlags`. -/
def Redirect.track (env : Env) (answer : Files → Int → Request → Option Reply)
    (redirect : Redirect) (path : String) (trackFlags : OFlags) (ret : Int) (s : Proc) :
    Effect Proc Int :=
  if redirect.off then realOnly ret s
  else
    (hvacTrackFile env (answer s.files) s.client path trackFlags ret).andThen s fun s _ => (s, ret)

theorem openAndTrack_eq_some {trackFlags : OFlags} (hret : ret ≠ -1)
    (h : openAndTrack env answer s path flags trackFlags ret = some opened) :
    ∃ s', realOpen env s path flags ret = some s' ∧
      opened = (hvacTrackFile env (answer s'.files) s'.client path trackFlags ret).andThen s'
        fun s _ => (s, ret) := by
  unfold openAndTrack at h
  split at h
  · cases h
  · next s' hreal =>
    rw [if_neg hret] at h
    exact ⟨s', hreal, (Option.some.inj h).symm⟩

theorem Redirect.open_eq_some (hret : ret ≠ -1)
    (h : redirect.open env answer s path flags ret = some opened) :
    ∃ s', realOpen env s path flags ret = some s' ∧
      opened = redirect.track env answer path flags ret s' := by
  by_cases hoff : redirect.off = true
  · simp only [Redirect.open, Redirect.track, hoff, if_true] at h ⊢
    obtain ⟨s', hreal, rfl⟩ := Option.map_eq_some_iff.mp h
    exact ⟨s', hreal, rfl⟩
  · simp only [Redirect.open, Redirect.track, hoff] at h ⊢
    exact openAndTrack_eq_some hret h

theorem Redirect.fopen_eq_some (hmode : fopenFlags mode = some flags) (hret : ret ≠ -1)
    (h : redirect.fopen env answer s path mode ret = some stream) :
    ∃ s', realOpen env s path flags ret = some s' ∧
      stream = redirect.track env answer path O_RDONLY ret s' := by
  simp only [Redirect.fopen, realFopen, wrapFopen, hmode] at h
  by_cases hoff : redirect.off = true
  · simp only [Redirect.track, hoff, if_true] at h ⊢
    obtain ⟨s', hreal, rfl⟩ := Option.map_eq_some_iff.mp h
    exact ⟨s', hreal, rfl⟩
  · simp only [Redirect.track, hoff] at h ⊢
    exact openAndTrack_eq_some hret h

/-- `hvac_track_file` reads the flags for its tests only. -/
theorem hvacTrackFile_congr {flags' : OFlags} (h : trackPath env path flags = trackPath env path flags')
    (answer : Int → Request → Option Reply) (c : Client) (fd : Int) :
    hvacTrackFile env answer c path flags fd = hvacTrackFile env answer c path flags' fd := by
  unfold hvacTrackFile
  rw [h]

theorem Redirect.track_congr {flags' : OFlags}
    (h : trackPath env path flags = trackPath env path flags') (s : Proc) :
    redirect.track env answer path flags ret s = redirect.track env answer path flags' ret s := by
  unfold Redirect.track
  rw [hvacTrackFile_congr h]

theorem Redirect.track_of_none (h : redirect.off = true ∨ trackPath env path flags = none)
    (s : Proc) : redirect.track env answer path flags ret s = realOnly ret s := by
  unfold Redirect.track
  rcases h with hoff | hnone
  · rw [if_pos hoff]
  · simp only [hvacTrackFile, hnone]
    exact ite_self _

/-- A file that is tracked is asked for at a server. -/
theorem Redirect.track_sent_ne_nil {file : String} (hon : redirect.off = false)
    (h : trackPath env path flags = some file) (s : Proc) :
    (redirect.track env answer path flags ret s).sent ≠ [] := by
  simp only [Redirect.track, hon, Bool.false_eq_true, if_false, hvacTrackFile, h]
  split
  · simp [Effect.andThen]
  · simp [Effect.andThen]

/-! ### When the calls agree -/

/-- A mode that reads, without appending, is the same call as the `open`. -/
theorem wrapFopen_eq_wrapOpen (hmode : fopenFlags mode = some flags) (hreads : ¬ WritesOnly mode)
    (env : Env) (answer : Files → Int → Request → Option Reply) (s : Proc) (path : String)
    (ret : Int) : wrapFopen env answer s path mode ret = wrapOpen env answer s path flags ret := by
  rw [← backsOut_iff_writesOnly hmode] at hreads
  simp only [wrapFopen, hmode, wrapOpen, openAndTrack]
  split
  · rfl
  · rw [hvacTrackFile_congr (trackPath_of_not_backsOut hreads)]

/-- **`fopen` and `open` agree, exactly.**  The mode reads and does not append; or
    the library does not redirect, or would not track the path under any flags, and
    the stream's number is not one that is still tracked from before. -/
theorem fopen_open_alike_iff (hmode : fopenFlags mode = some flags)
    (hopened : Succeeds (redirect.open env answer s path flags ret) opened ret)
    (hstream : Succeeds (redirect.fopen env answer s path mode ret) stream ret) :
    TracksAlike mode ret opened stream ↔
      (WritesOnly mode → (redirect.off = true ∨ ¬ TrackedPath env path) ∧
        s.client.hvacFileTracked ret = false) := by
  obtain ⟨s', hreal, rfl⟩ := Redirect.open_eq_some hopened.ret hopened.call
  obtain ⟨s'', hreal', rfl⟩ := Redirect.fopen_eq_some hmode hstream.ret hstream.call
  obtain rfl : s' = s'' := Option.some.inj (hreal.symm.trans hreal')
  by_cases hwrites : WritesOnly mode
  · have hbacks := (backsOut_iff_writesOnly hmode).mpr hwrites
    rw [Redirect.track_of_none (Or.inr (trackPath_of_backsOut hbacks)), ← realOpen_client hreal,
      ← trackPath_readOnly_eq_none_iff]
    constructor
    · intro h _
      have hnone : redirect.off = true ∨ trackPath env path O_RDONLY = none := by
        by_contra hboth
        rw [not_or, Bool.not_eq_true] at hboth
        obtain ⟨file, hfile⟩ := Option.ne_none_iff_exists'.mp hboth.2
        exact Redirect.track_sent_ne_nil hboth.1 hfile s' h.sent
      have hfree := h.writesOnly hwrites
      rw [Redirect.track_of_none hnone] at hfree
      exact ⟨hnone, hfree⟩
    · intro h
      obtain ⟨hnone, hfree⟩ := h hwrites
      rw [Redirect.track_of_none hnone]
      exact ⟨fun _ => rfl, rfl, fun _ => hfree⟩
  · have hreads := mt (backsOut_iff_writesOnly hmode).mp hwrites
    rw [Redirect.track_congr (trackPath_of_not_backsOut hreads)]
    exact iff_of_true ⟨fun _ => rfl, rfl, fun h => absurd h hwrites⟩ fun h => absurd h hwrites

/-- Where every entry of `fd_map` is on an open descriptor, no number is left over. -/
theorem TrackingSound.untracked_of_open (h : TrackingSound s)
    (hopened : Succeeds (redirect.open env answer s path flags ret) opened ret) :
    s.client.hvacFileTracked ret = false := by
  obtain ⟨s', hreal, -⟩ := Redirect.open_eq_some hopened.ret hopened.call
  rcases realOpen_eq_some hreal with ⟨hfailed, -⟩ | ⟨_, _, -, -, -, -, hfree, -⟩
  · exact absurd hfailed hopened.ret
  · rw [Client.hvacFileTracked_eq, h.untracked hfree]
    rfl

/-! In `zeroHashEnv` the data directory is `/data`; the server answers every open. -/

def dataProc : Proc :=
  ⟨hvacClientInit zeroHashEnv 1, OrdMap.empty, OrdMap.empty.insert "/data/a" [1]⟩

def opensFive (_ : Files) (_ : Int) (_ : Request) : Option Reply := some ⟨5, []⟩

def redirecting : Redirect := ⟨false, false⟩

/-- A stream for writing outside the data directory. -/
theorem fopen_open_alike_iff_outside :
    ∃ opened stream,
      Succeeds (redirecting.open zeroHashEnv opensFive dataProc "/tmp/b"
        (O_WRONLY ||| O_CREAT ||| O_TRUNC) 3) opened 3 ∧
      Succeeds (redirecting.fopen zeroHashEnv opensFive dataProc "/tmp/b" "w" 3) stream 3 ∧
      (TracksAlike "w" 3 opened stream ↔
        (WritesOnly "w" → (redirecting.off = true ∨ ¬ TrackedPath zeroHashEnv "/tmp/b") ∧
          dataProc.client.hvacFileTracked 3 = false)) :=
  ⟨_, _, ⟨rfl, rfl, by decide⟩, ⟨rfl, rfl, by decide⟩,
    fopen_open_alike_iff rfl ⟨rfl, rfl, by decide⟩ ⟨rfl, rfl, by decide⟩⟩

/-- `fopen` with mode `w` truncates the file, tracks it and has a server open it; the
    `open` truncates it only. -/
theorem stream_tracked :
    ∃ opened stream,
      Succeeds (redirecting.open zeroHashEnv opensFive dataProc "/data/a"
        (O_WRONLY ||| O_CREAT ||| O_TRUNC) 3) opened 3 ∧
      Succeeds (redirecting.fopen zeroHashEnv opensFive dataProc "/data/a" "w" 3) stream 3 ∧
      fopenFlags "w" = some (O_WRONLY ||| O_CREAT ||| O_TRUNC) ∧ WritesOnly "w" ∧
      opened.sent = [] ∧ stream.sent = [(0, .openIn "/data/a" 3)] ∧
      stream.state.client.hvacFileTracked 3 = true ∧ ¬ TracksAlike "w" 3 opened stream := by
  refine ⟨_, _, ⟨rfl, rfl, by decide⟩, ⟨rfl, rfl, by decide⟩, rfl, by decide, rfl, rfl, rfl, ?_⟩
  intro h
  exact List.cons_ne_nil _ _ h.sent

end Hvac
