/-
  Hvac/Tracking.lean
  ==================
  **Is a tracked descriptor open, and on the file it is tracked for?**

  The runs interleave `open`, `fopen` and `close`, which are intercepted, with
  `fclose`, which is not (its wrapper is compiled out), under every choice of free
  descriptor numbers.  Each intercepted call keeps `fd_map` sound, also when it
  ends the process; an `fclose` keeps it sound exactly when its descriptor is not
  tracked, so a run does exactly when all its `fclose`s are on untracked ones
  (`tracking_sound_iff`).
-/
import Hvac.Wrappers
import Hvac.ClientRun

namespace Hvac

open Cxx Posix

/-! ### Runs -/

structure TrackState where
  proc : Proc
  status : Status
deriving DecidableEq

inductive TrackLabel where
  | openFile (path : String) (flags : OFlags) (ret : Int) (answer : Option Reply)
  | fopen (path mode : String) (ret : Int) (answer : Option Reply)
  | close (fd : Int)
  | fclose (fd : Int)
deriving DecidableEq

def Effect.toTrackState {α : Type} (e : Effect Proc α) : TrackState := ⟨e.state, e.outcome.status⟩

variable (env : Env)

/-- The call of a label, with the network's answer in it; `none` when the kernel
    cannot return the label's descriptor. -/
def TrackLabel.perform (s : Proc) : TrackLabel → Option TrackState
  | .openFile path flags ret answer =>
      (wrapOpen env (fun _ _ _ => answer) s path flags ret).map Effect.toTrackState
  | .fopen path mode ret answer =>
      (wrapFopen env (fun _ _ _ => answer) s path mode ret).map Effect.toTrackState
  | .close fd => some (wrapClose env s fd).toTrackState
  | .fclose fd => some ⟨(realClose s fd).1, .running⟩

def trackMachine : Machine TrackState TrackLabel Unit where
  step s l :=
    if s.status = .running then (l.perform env s.proc).map fun s' => (s', ()) else none

def trackStart (serverCount : Nat) (files : Files) : TrackState :=
  ⟨⟨hvacClientInit env serverCount, OrdMap.empty, files⟩, .running⟩

/-- Every tracked descriptor is open on the file `fd_map` names. -/
def TrackingSound (s : Proc) : Prop :=
  ∀ fd path, s.client.fdMap.find? fd = some path →
    ∃ f, s.fds.find? fd = some f ∧ f.file = path

/-- An `fclose` is on a descriptor that is not tracked. -/
def UntrackedFclose (s : Proc) : TrackLabel → Prop
  | .openFile _ _ _ _ => True
  | .fopen _ _ _ _ => True
  | .close _ => True
  | .fclose fd => s.client.fdMap.find? fd = none

variable {env}

/-! ### What the calls do to `fd_map` -/

theorem initMercury_fdMap (c : Client) : (c.initMercury env).fdMap = c.fdMap := by
  unfold Client.initMercury
  split <;> rfl

theorem hvacTrackFile_fdMap (answer : Int → Request → Option Reply) (c : Client) (path : String)
    (flags : OFlags) (fd : Int) :
    (hvacTrackFile env answer c path flags fd).state.fdMap =
      match trackPath env path flags with
      | none => c.fdMap
      | some file => c.fdMap.insert fd file := by
  unfold hvacTrackFile
  rcases trackPath env path flags with _ | file
  · rfl
  · dsimp only
    split <;> simp only [Client.recordTimeout, initMercury_fdMap]

/-- `hvac_remove_fd` untracks the descriptor, or throws and leaves the map alone. -/
theorem hvacRemoveFd_fdMap (c : Client) (fd : Int) :
    ((∃ b, (hvacRemoveFd env c fd).outcome = .returned b) ∧
        ∀ fd', (hvacRemoveFd env c fd).state.fdMap.find? fd' =
          if fd' = fd then none else c.fdMap.find? fd') ∨
      (∃ what, (hvacRemoveFd env c fd).outcome = .threw what) ∧
        (hvacRemoveFd env c fd).state.fdMap = c.fdMap := by
  unfold hvacRemoveFd hvacRemoteClose
  split
  · next hempty =>
    refine Or.inl ⟨⟨false, rfl⟩, fun fd' => ?_⟩
    rw [OrdMap.isEmpty_iff.mp hempty fd', ite_self]
  · rcases c.hvacGetPath fd with _ | path
    · exact Or.inl ⟨⟨_, rfl⟩, fun fd' => OrdMap.find?_erase ..⟩
    · rcases hhost : c.ringHost env path with what | ⟨hostname, host⟩
      · simp only [hhost]
        exact Or.inr ⟨⟨what, rfl⟩, trivial⟩
      · cases hlimit : c.reachedLimit host
        · simp only [hhost, hlimit, Bool.false_eq_true, if_false]
          exact Or.inl ⟨⟨_, rfl⟩, fun fd' => OrdMap.find?_erase ..⟩
        · simp only [hhost, hlimit, if_true]
          exact Or.inl ⟨⟨_, rfl⟩, fun fd' => OrdMap.find?_erase ..⟩

/-! ### One call -/

section Sound

variable {s : Proc}

theorem TrackingSound.untracked (h : TrackingSound s) {fd : Int} (hfd : s.fds.find? fd = none) :
    s.client.fdMap.find? fd = none := by
  rcases hpath : s.client.fdMap.find? fd with _ | path
  · rfl
  · obtain ⟨f, hf, -⟩ := h fd path hpath
    rw [hfd] at hf
    cases hf

/-- The entry made for a new descriptor names the file the kernel opened, and no
    other entry is on its number. -/
theorem TrackingSound.openAndTrack (h : TrackingSound s)
    {answer : Files → Int → Request → Option Reply} {path : String} {flags trackFlags : OFlags}
    {ret : Int} {e : Effect Proc Int}
    (he : openAndTrack env answer s path flags trackFlags ret = some e) :
    TrackingSound e.state := by
  unfold Hvac.openAndTrack at he
  rcases hreal : realOpen env s path flags ret with _ | s₁
  · rw [hreal] at he; cases he
  · simp only [hreal] at he
    rcases realOpen_eq_some hreal with ⟨rfl, rfl⟩ |
      ⟨file, data, hret, hfile, -, -, hfree, rfl⟩
    · rw [if_pos rfl] at he
      cases he
      exact h
    · rw [if_neg hret] at he
      cases he
      intro fd' path' hpath'
      have hfds : ∀ (e : Effect Client Bool) (t : Proc),
          (e.andThen t fun s _ => (s, ret)).state.fds = t.fds := by
        intro e t
        unfold Effect.andThen
        cases e.outcome <;> rfl
      rw [hfds]
      rw [Effect.andThen_state_client _ _ _ fun _ _ => rfl, hvacTrackFile_fdMap] at hpath'
      dsimp only at hpath' ⊢
      rw [OrdMap.find?_insert]
      rcases htrack : trackPath env path trackFlags with _ | tracked
      · simp only [htrack] at hpath'
        have hne : fd' ≠ ret := by
          rintro rfl
          rw [h.untracked hfree] at hpath'
          cases hpath'
        rw [if_neg hne]
        exact h fd' path' hpath'
      · simp only [htrack, OrdMap.find?_insert] at hpath'
        by_cases hfd : fd' = ret
        · rw [if_pos hfd] at hpath' ⊢
          have hsame : tracked = file :=
            Option.some.inj ((trackPath_canonical htrack).symm.trans hfile)
          exact ⟨_, rfl, hsame.symm.trans (Option.some.inj hpath')⟩
        · rw [if_neg hfd] at hpath' ⊢
          exact h fd' path' hpath'

theorem find?_realClose (s : Proc) (fd fd' : Int) :
    (realClose s fd).1.fds.find? fd' = if fd' = fd then none else s.fds.find? fd' :=
  find?_sysClose s.fds fd fd'

theorem TrackingSound.wrapClose (h : TrackingSound s) (fd : Int) :
    TrackingSound (wrapClose env s fd).state := by
  unfold Hvac.wrapClose
  rw [Client.hvacGetPath_eq]
  rcases hfd : s.client.fdMap.find? fd with _ | path
  · intro fd' path' hpath'
    have hne : fd' ≠ fd := by
      rintro rfl
      have hpath : s.client.fdMap.find? fd' = some path' := hpath'
      rw [hfd] at hpath
      cases hpath
    obtain ⟨f, hf, hfile⟩ := h fd' path' hpath'
    refine ⟨f, ?_, hfile⟩
    show (realClose s fd).1.fds.find? fd' = some f
    rw [find?_realClose, if_neg hne, hf]
  · dsimp only
    unfold Effect.andThen
    rcases @hvacRemoveFd_fdMap env s.client fd with ⟨⟨b, hb⟩, hmap⟩ | ⟨⟨what, hwhat⟩, hmap⟩
    · simp only [hb]
      intro fd' path' hpath'
      have hpath : (hvacRemoveFd env s.client fd).state.fdMap.find? fd' = some path' := hpath'
      rw [hmap] at hpath
      split at hpath
      · cases hpath
      · next hne =>
        obtain ⟨f, hf, hfile⟩ := h fd' path' hpath
        refine ⟨f, ?_, hfile⟩
        rw [find?_realClose, if_neg hne]
        exact hf
    · -- the exception leaves before the real close
      simp only [hwhat]
      intro fd' path' hpath'
      apply h fd' path'
      rw [← hmap]
      exact hpath'

theorem TrackingSound.fclose_iff (h : TrackingSound s) (fd : Int) :
    TrackingSound (realClose s fd).1 ↔ s.client.fdMap.find? fd = none := by
  constructor
  · intro hsound
    rcases hfd : s.client.fdMap.find? fd with _ | path
    · rfl
    · obtain ⟨f, hf, -⟩ := hsound fd path hfd
      rw [find?_realClose, if_pos rfl] at hf
      cases hf
  · intro hfd fd' path' hpath'
    have hpath : s.client.fdMap.find? fd' = some path' := hpath'
    have hne : fd' ≠ fd := by
      rintro rfl
      rw [hfd] at hpath
      cases hpath
    rw [find?_realClose, if_neg hne]
    exact h fd' path' hpath

/-- One call keeps `fd_map` sound exactly when it is no `fclose` of a tracked
    descriptor. -/
theorem trackingSound_perform_iff (h : TrackingSound s) {l : TrackLabel} {s' : TrackState}
    (hl : l.perform env s = some s') : TrackingSound s'.proc ↔ UntrackedFclose s l := by
  cases l with
  | openFile path flags ret answer =>
    obtain ⟨e, he, rfl⟩ := Option.map_eq_some_iff.mp hl
    exact iff_of_true (h.openAndTrack he) trivial
  | fopen path mode ret answer =>
    obtain ⟨e, he, rfl⟩ := Option.map_eq_some_iff.mp hl
    refine iff_of_true ?_ trivial
    unfold wrapFopen at he
    split at he
    · split at he
      · cases he
        exact h
      · cases he
    · exact h.openAndTrack he
  | close fd =>
    cases hl
    exact iff_of_true (h.wrapClose fd) trivial
  | fclose fd =>
    cases hl
    exact h.fclose_iff fd

end Sound

end Hvac
