/-
  Hvac/DataDirectory.lean
  =======================
  **Which files the data directory claims.**  `hvac_track_file` looks for the
  text of `HVAC_DATA_DIR` anywhere in the text of the file's directory.  That is
  containment of directories only when the text stands at the start and ends
  where a component ends: with `/data` as the data directory, `/database/x` and
  `/mnt/data/x` are tracked as well.

  `tracked_iff_find` is what the code tests; `tracked_iff_within_iff` compares it
  with containment component by component, for every pair of canonical paths.
-/
import Hvac.Tracking
import Hvac.Library.Paths

namespace Hvac

open Cxx Posix

variable {env : Env} {dir path : String} {flags : OFlags} {D P : CanonicalPath}

/-- The call does not return `false`: it enters the descriptor and asks a server
    for the file. -/
def Tracked (e : Effect Client Bool) : Prop := e.outcome ≠ .returned false

theorem tracked_iff (answer : Int → Request → Option Reply) (c : Client) (fd : Int) :
    Tracked (hvacTrackFile env answer c path flags fd) ↔
      ∃ file, trackPath env path flags = some file := by
  unfold Tracked hvacTrackFile
  rcases trackPath env path flags with _ | file
  · simp
  · dsimp only
    split <;> simp

/-- The test of `hvac_track_file` on a file opened for reading. -/
theorem trackPath_readOnly (hdir : env.hvacDataDir = some dir)
    (hD : env.canonical dir = some D.text) (hP : env.canonical path = some P.text)
    (hflags : flags &&& O_ACCMODE = O_RDONLY) :
    trackPath env path flags =
      if find path ".ports.cfg." then none
      else if flags &&& O_APPEND ≠ 0#32 then none
      else if find P.parent.text D.text then some P.text else none := by
  have hread : flags &&& O_ACCMODE ≠ O_WRONLY := by rw [hflags]; decide
  rw [trackPath, if_neg hread]
  simp only [hdir, hD, hP, parentPath_text]

/-- What the code tests: no `.ports.cfg.`, no `O_APPEND`, and the text of the data
    directory somewhere in the parent's. -/
theorem tracked_iff_find (hdir : env.hvacDataDir = some dir)
    (hD : env.canonical dir = some D.text) (hP : env.canonical path = some P.text)
    (hflags : flags &&& O_ACCMODE = O_RDONLY) (answer : Int → Request → Option Reply) (c : Client)
    (fd : Int) :
    Tracked (hvacTrackFile env answer c path flags fd) ↔
      find path ".ports.cfg." = false ∧ flags &&& O_APPEND = 0#32 ∧
        find P.parent.text D.text = true := by
  rw [tracked_iff, trackPath_readOnly hdir hD hP hflags]
  rcases hports : find path ".ports.cfg." with _ | _
  · by_cases happend : flags &&& O_APPEND = 0#32
    · rcases hfind : find P.parent.text D.text with _ | _
      · simp [happend]
      · simp [happend]
    · simp [happend]
  · simp

/-- The text of the data directory stands in the parent's text only at its start
    and up to a separator; with `O_APPEND`, where nothing is tracked, not even
    there.  Paths with `.ports.cfg.` in them are exempt. -/
def FoundAtStart (D P : CanonicalPath) (path : String) (flags : OFlags) : Prop :=
  find path ".ports.cfg." = true ∨
    if flags &&& O_APPEND = 0#32 then
      find P.parent.text D.text = true → StartsAt D.text P.parent.text
    else ¬ StartsAt D.text P.parent.text

/-- **The data-directory test, exactly.**  A file opened read-only is tracked if
    and only if its directory is `D` or below it, provided the text of `D` is not
    found elsewhere in the directory's text. -/
theorem tracked_iff_within_iff (hdir : env.hvacDataDir = some dir)
    (hD : env.canonical dir = some D.text) (hP : env.canonical path = some P.text)
    (hflags : flags &&& O_ACCMODE = O_RDONLY) (answer : Int → Request → Option Reply) (c : Client)
    (fd : Int) :
    (Tracked (hvacTrackFile env answer c path flags fd) ↔
      D.Within P.parent ∧ find path ".ports.cfg." = false) ↔ FoundAtStart D P path flags := by
  rw [tracked_iff_find hdir hD hP hflags, CanonicalPath.within_iff_startsAt, FoundAtStart]
  have hfind : StartsAt D.text P.parent.text → find P.parent.text D.text = true := fun h =>
    CanonicalPath.find_of_within (CanonicalPath.within_iff_startsAt.mpr h)
  rcases hports : find path ".ports.cfg." with _ | _
  · by_cases happend : flags &&& O_APPEND = 0#32
    · simp only [happend, true_and, and_true, if_true, Bool.false_eq_true, false_or]
      constructor
      · intro h
        exact h.mp
      · intro h
        exact ⟨h, hfind⟩
    · simp [happend]
  · simp

/-! ### A directory whose name extends the data directory's -/

def dataDir : CanonicalPath := ⟨["data".toList], by decide⟩

def trainFile : CanonicalPath := ⟨["data".toList, "train".toList, "x".toList], by decide⟩

def databaseFile : CanonicalPath := ⟨["database".toList, "x".toList], by decide⟩

/-! In `zeroHashEnv` paths are canonical as they are, and `/data` is the data directory. -/

theorem tracked_iff_within_iff_train :
    (Tracked (hvacTrackFile zeroHashEnv (fun _ _ => none) (hvacClientInit zeroHashEnv 1)
        "/data/train/x" O_RDONLY 3) ↔
      dataDir.Within trainFile.parent ∧ find "/data/train/x" ".ports.cfg." = false) ↔
    FoundAtStart dataDir trainFile "/data/train/x" O_RDONLY :=
  tracked_iff_within_iff rfl (by decide) (by decide) (by decide) _ _ _

/-- `/database/x` is tracked although `/database` is not in `/data`. -/
theorem database_tracked :
    dataDir.text = "/data" ∧ databaseFile.text = "/database/x" ∧
    Tracked (hvacTrackFile zeroHashEnv (fun _ _ => none) (hvacClientInit zeroHashEnv 1)
      "/database/x" O_RDONLY 3) ∧
    find "/database/x" ".ports.cfg." = false ∧ ¬ dataDir.Within databaseFile.parent := by
  have hD : zeroHashEnv.canonical "/data" = some dataDir.text := by decide
  have hP : zeroHashEnv.canonical "/database/x" = some databaseFile.text := by decide
  have htracked : Tracked (hvacTrackFile zeroHashEnv (fun _ _ => none)
      (hvacClientInit zeroHashEnv 1) "/database/x" O_RDONLY 3) :=
    (tracked_iff_find rfl hD hP (by decide) _ _ _).mpr ⟨by decide, by decide, by decide⟩
  exact ⟨by decide, by decide, htracked, by decide, by decide⟩

end Hvac
