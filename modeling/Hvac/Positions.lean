/-
  Hvac/Positions.lean
  ===================
  **One file position per descriptor**, when calls that are redirected and calls
  that are not are mixed.

  `sidedMachine` is the system with a note, for every descriptor, of the side whose
  position moved last.  A run in which every call looks at that side, or finds both
  sides at the same place, is answered as the plain file system answers it
  (`positions_agree`); a read followed by a readv is not (`read_then_readv`).
-/
import Hvac.Simulation

namespace Hvac

open Cxx Posix

variable (env : Env) (rl : ReadLen) (bbpath : String)

/-- The system, noting which side of a descriptor moved last. -/
def sidedMachine : Machine (Sys × (Int → Side)) SysLabel (Option (Outcome Reply)) :=
  (sysMachine env rl bbpath).withHistory sideAfter

def sidedStart (files : Files) : Sys × (Int → Side) := (sysStart env 1 files, fun _ => .remote)

variable {env rl bbpath}

/-- **Calls that look at the side that moved last are answered as on one position.** -/
theorem positions_agree (files : Files) {labels : List SysLabel} {t : Sys}
    {os : List (Option (Outcome Reply))}
    (hcalls : (sidedMachine env rl bbpath).Along
      (fun x label _ _ => Ordinary env bbpath x.1 label ∧ SideAgrees x.1 x.2 label)
      (sidedStart env files) labels)
    (hrun : (sysMachine env rl bbpath).run (sysStart env 1 files) labels = some (t, os)) :
    ∃ p, (directMachine env rl).run (sysStart env 1 files).proc labels = some (p, os) := by
  obtain ⟨side, hsided⟩ := Machine.run_withHistory sideAfter (fun _ => Side.remote) hrun
  have hstart : Follows env bbpath (sysStart env 1 files) (fun _ => .remote)
      (sysStart env 1 files).proc := follows_start files _ rfl rfl _
  obtain ⟨p, hp, -⟩ := Machine.run_simulation (N := directMachine env rl)
    (R := fun x p => Follows env bbpath x.1 x.2 p)
    (fun x p label x' o h hlabel hstep => by
      obtain ⟨hsys, hside⟩ := Machine.withHistory_step_eq_some_iff.mp hstep
      rw [hside]
      exact h.step hlabel.1 hlabel.2 hsys) hstart hcalls hsided
  exact ⟨p, hp⟩

/-- Local reads, a seek that takes the position back to the server's side, and redirected
    reads of the file and of its copy. -/
def localLabels : List SysLabel :=
  [.call (.openFile "/data/a" O_RDONLY 3) 5, .call (.readv 3 [1, 1]) 0, .call (.read64 3 1) 0,
    .call (.lseek 3 0 SEEK_SET) 0, .call (.read 3 1) 0, .call (.lseek 3 1 SEEK_CUR) 0,
    .call (.read 3 1) 0, .call (.close 3) 0, .deliver 0, .mover 0 .drain,
    .mover 0 (.mkdtemp (some "aaaaaa")), .mover 0 .copyBegin, .mover 0 (.copyChunk 3),
    .mover 0 .copyEnd, .mover 0 .publish, .mover 0 .pop,
    .call (.openFile "/data/a" O_RDONLY 3) 5, .call (.read 3 2) 0]

theorem positions_agree_local :
    ∃ t os, (sysMachine zeroHashEnv ReadLen.full "/bb").run (sysStart zeroHashEnv 1 threeBytes)
        localLabels = some (t, os) ∧
      ∃ p, (directMachine zeroHashEnv ReadLen.full).run (sysStart zeroHashEnv 1 threeBytes).proc
        localLabels = some (p, os) := by
  have hsome : ((sysMachine zeroHashEnv ReadLen.full "/bb").run
      (sysStart zeroHashEnv 1 threeBytes) localLabels).isSome = true := by decide +kernel
  have hcalls : (sidedMachine zeroHashEnv ReadLen.full "/bb").Along
      (fun x label _ _ => Ordinary zeroHashEnv "/bb" x.1 label ∧ SideAgrees x.1 x.2 label)
      (sidedStart zeroHashEnv threeBytes) localLabels := by decide +kernel
  obtain ⟨⟨t, os⟩, hrun⟩ := Option.isSome_iff_exists.mp hsome
  exact ⟨t, os, hrun, positions_agree threeBytes hcalls hrun⟩

def mixedLabels : List SysLabel :=
  [.call (.openFile "/data/a" O_RDONLY 3) 5, .call (.read 3 1) 0, .call (.readv 3 [1]) 0]

/-- The readv starts where the read started. -/
theorem read_then_readv :
    (∃ t, (sysMachine zeroHashEnv ReadLen.full "/bb").run (sysStart zeroHashEnv 1 threeBytes)
        mixedLabels =
      some (t, [some (.returned ⟨3, []⟩), some (.returned ⟨1, [1]⟩), some (.returned ⟨1, [1]⟩)])) ∧
    ∃ p, (directMachine zeroHashEnv ReadLen.full).run (sysStart zeroHashEnv 1 threeBytes).proc
        mixedLabels =
      some (p, [some (.returned ⟨3, []⟩), some (.returned ⟨1, [1]⟩), some (.returned ⟨1, [2]⟩)]) := by
  constructor
  · have hrun : ((sysMachine zeroHashEnv ReadLen.full "/bb").run (sysStart zeroHashEnv 1 threeBytes)
        mixedLabels).map Prod.snd =
        some [some (.returned ⟨3, []⟩), some (.returned ⟨1, [1]⟩), some (.returned ⟨1, [1]⟩)] := by
      decide +kernel
    obtain ⟨⟨t, os⟩, hrun, rfl⟩ := Option.map_eq_some_iff.mp hrun
    exact ⟨t, hrun⟩
  · have hrun : ((directMachine zeroHashEnv ReadLen.full).run
        (sysStart zeroHashEnv 1 threeBytes).proc mixedLabels).map Prod.snd =
        some [some (.returned ⟨3, []⟩), some (.returned ⟨1, [1]⟩), some (.returned ⟨1, [2]⟩)] := by
      decide +kernel
    obtain ⟨⟨p, os⟩, hrun, rfl⟩ := Option.map_eq_some_iff.mp hrun
    exact ⟨p, hrun⟩

end Hvac
