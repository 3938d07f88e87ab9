/-
  Hvac/Survival.lean
  ==================
  **What stops a server.**

  Two assertions of the read handler can fail: that there is memory for the answer,
  which there is not for a negative size, and that the transfer starts, which it does
  not for the minus one bytes of a failed sequential read.  A server opens its files
  for reading (`Server.ReadOnly`), so `read` fails for a number that is not open, past
  the largest offset, and where the kernel has its own reasons (a directory, an error
  of the device); a run leaves the server up exactly when it has no request of these
  two kinds (`server_up_iff`).
-/
import Hvac.ServerRun

namespace Hvac

open Cxx Posix

/-- The step fails no assertion; the mover has none. -/
def Server.SparedBy (s : Server) : ServerLabel → Prop
  | .request remote request => s.Spared remote request
  | .mover _ => True

instance (s : Server) : ∀ l : ServerLabel, Decidable (s.SparedBy l)
  | .request remote request => inferInstanceAs (Decidable (s.Spared remote request))
  | .mover _ => isTrue trivial

/-- Every descriptor of the server is open for reading. -/
def Server.ReadOnly (s : Server) : Prop := ∀ r g, s.fds.find? r = some g → g.flags = O_RDONLY

section Steps

variable {rl : ReadLen} {bbpath : String} {files : Files} {s s' : Server}

theorem Server.ReadOnly.moved (h : s.ReadOnly) {fd : Int} {fds : FdTable String}
    (hmoves : MovesOnly fd s.fds fds) : ∀ r g, fds.find? r = some g → g.flags = O_RDONLY := by
  intro r g hg
  obtain ⟨f, hf, -, hflags⟩ := hmoves.exists_before hg
  exact hflags.trans (h r f hf)

theorem Server.ReadOnly.handle (h : s.ReadOnly) {remote : Int} {request : Request}
    {reply : Option Reply} (hhandle : s.handle rl bbpath files remote request = some (s', reply)) :
    s'.ReadOnly := by
  unfold Server.handle at hhandle
  split at hhandle
  · cases request with
    | openIn path localfd =>
      obtain ⟨-, ⟨-, rfl⟩ | ⟨c, -, -, -, -, rfl⟩⟩ := Server.openRpcHandler_eq_some hhandle
      · exact h
      · intro r g hg
        rw [OrdMap.find?_insert] at hg
        split at hg
        · cases hg
          rfl
        · exact h r g hg
    | rpcIn inputVal accessfd localfd offset =>
      have hs' : (s.rpcHandler rl bbpath files inputVal accessfd offset remote).1 = s' :=
        congrArg Prod.fst (Option.some.inj hhandle)
      rw [← hs']
      obtain ⟨alive, fds, hmoves, heq | heq⟩ :=
        @Server.rpcHandler_shape bbpath files rl s inputVal accessfd offset remote
      · rw [heq]
        exact h
      · rw [heq]
        exact h.moved hmoves
    | seekIn fd offset whence =>
      cases hhandle
      exact h.moved (sysSeek_movesOnly ..)
    | closeIn fd =>
      cases hhandle
      intro r g hg
      have hg' : (sysClose s.fds fd).2.find? r = some g := hg
      rw [find?_sysClose] at hg'
      split at hg'
      · cases hg'
      · exact h r g hg'
  · cases hhandle
    exact h

/-- A sequential read succeeds unless the kernel fails it, nothing is open under the
    number, or it would end past the largest offset. -/
theorem Server.ReadOnly.rpcRead_nonneg_iff (h : s.ReadOnly) (size : Nat) (accessfd ret : Int) :
    0 ≤ (s.rpcRead rl bbpath files size accessfd (-1) ret).ret ↔
      ret ≠ -1 ∧ ∃ g ∈ s.fds.find? accessfd, g.pos + size ≤ LOFF_MAX := by
  unfold Server.rpcRead
  by_cases hret : ret = -1
  · simp [hret]
  · rw [if_neg hret, if_pos rfl]
    simp only [ne_eq, hret, not_false_eq_true, true_and, Option.mem_def]
    rcases hfd : s.fds.find? accessfd with _ | g
    · simp [sysRead_of_closed hfd]
    · have hread : canRead g.flags = true := by
        rw [h accessfd g hfd]
        decide
      by_cases hend : g.pos + size ≤ LOFF_MAX
      · simp [sysRead_of_find? hfd hread hend, hend]
      · simp [sysRead, hfd, hend]

/-- The read handler of a server that is up. -/
theorem Server.ReadOnly.rpcHandler_alive (h : s.ReadOnly) (halive : s.alive = true)
    (inputVal accessfd localfd offset ret : Int) :
    (s.rpcHandler rl bbpath files inputVal accessfd offset ret).1.alive = true ↔
      s.Spared ret (.rpcIn inputVal accessfd localfd offset) := by
  by_cases hinput : inputVal < 0
  · simp only [Server.rpcHandler, Server.rpcSize_of_neg hinput, Server.Spared, Bool.false_eq_true,
      false_iff, not_and_or]
    exact Or.inl (not_le.mpr hinput)
  · have hnonneg : 0 ≤ inputVal := not_lt.mp hinput
    simp only [Server.rpcHandler, Server.rpcSize_of_nonneg hnonneg, Server.Spared, hnonneg,
      true_and]
    by_cases hseq : offset = -1
    · subst hseq
      have hiff : 0 ≤ (s.rpcRead rl bbpath files inputVal.toNat accessfd (-1) ret).ret ↔ _ :=
        h.rpcRead_nonneg_iff inputVal.toNat accessfd ret
      rw [← hiff]
      split
      · next hfailed => simp [hfailed]
      · next hok => simp [not_lt.mp hok, halive]
    · simp only [hseq, if_false, false_imp_iff, iff_true]
      split <;> exact halive

/-- One request leaves the server up if it was, and fails no assertion. -/
theorem Server.ReadOnly.alive_iff (h : s.ReadOnly) {remote : Int} {request : Request}
    {reply : Option Reply} (hhandle : s.handle rl bbpath files remote request = some (s', reply)) :
    s'.alive = true ↔ s.alive = true ∧ s.Spared remote request := by
  by_cases halive : s.alive = true
  · simp only [halive, true_and]
    simp only [Server.handle, halive, if_true] at hhandle
    cases request with
    | openIn path localfd =>
      obtain ⟨-, ⟨-, rfl⟩ | ⟨c, -, -, -, -, rfl⟩⟩ := Server.openRpcHandler_eq_some hhandle
      · exact iff_of_true halive trivial
      · exact iff_of_true halive trivial
    | rpcIn inputVal accessfd localfd offset =>
      have hs' : (s.rpcHandler rl bbpath files inputVal accessfd offset remote).1 = s' :=
        congrArg Prod.fst (Option.some.inj hhandle)
      rw [← hs']
      exact h.rpcHandler_alive halive inputVal accessfd localfd offset remote
    | seekIn fd offset whence =>
      cases hhandle
      exact iff_of_true halive trivial
    | closeIn fd =>
      cases hhandle
      exact iff_of_true halive trivial
  · rw [Bool.not_eq_true] at halive
    rw [Server.handle_dead halive] at hhandle
    cases hhandle
    simp [halive]

end Steps

/-- An open, a read that is answered, a `pread` that the kernel fails, a seek of a
    descriptor nobody has, and a read that the kernel fails. -/
def readFailed : List ServerLabel :=
  [.request 5 (.openIn "/data/a" 3), .request 0 (.rpcIn 2 5 3 (-1)),
    .request (-1) (.rpcIn 2 5 3 0), .request 0 (.seekIn 9 0 SEEK_SET),
    .request (-1) (.rpcIn 2 5 3 (-1))]

end Hvac
