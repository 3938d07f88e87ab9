/-
  Hvac/Library/Ledger.lean
  ========================
  **Resources that calls take and give back.**

  `move` says what a call does: it takes a resource, gives one back, or does
  neither.  `follow` goes through a list of calls with one resource in mind and
  refuses a resource that is taken while it is held or given back while it is not,
  so a list it accepts gives nothing back twice; what it returns is whether the
  resource is held at the end.  The counts (`taken`, `given`) follow from that
  (`given_add_of_follow`): a list is settled, each resource given back as often
  as it was taken, exactly when nothing is held after it (`settled_iff_of_follow`).
-/
import Mathlib

universe u v

namespace Ledger

/-- What a call does to a resource. -/
inductive Move (R : Type u) where
  | take (r : R)
  | give (r : R)
deriving DecidableEq

variable {C : Type v} {R : Type u} [DecidableEq R] (move : C → Option (Move R))

/-- How often `r` was taken. -/
def taken (r : R) (calls : List C) : Nat := calls.countP fun c => move c = some (.take r)

/-- How often `r` was given back. -/
def given (r : R) (calls : List C) : Nat := calls.countP fun c => move c = some (.give r)

/-- What was taken was given back, each resource as often as it was taken. -/
def Settled (calls : List C) : Prop := ∀ r, given move r calls = taken move r calls

/-- Whether `r` is held after a call; `none` where the call may not be made. -/
def use (r : R) (held : Bool) (c : C) : Option Bool :=
  if move c = some (.give r) then (if held then some false else none)
  else if move c = some (.take r) then (if held then none else some true)
  else some held

/-- Whether `r` is held after the calls. -/
def follow (r : R) : Bool → List C → Option Bool
  | held, [] => some held
  | held, c :: cs =>
      match use move r held c with
      | none => none
      | some held' => follow r held' cs

variable {move} {r : R}

theorem follow_cons_eq_some_iff {held left : Bool} {c : C} {cs : List C} :
    follow move r held (c :: cs) = some left ↔
      ∃ held', use move r held c = some held' ∧ follow move r held' cs = some left := by
  rw [follow]
  rcases use move r held c with _ | held'
  · simp
  · simp

/-- What one list leaves, the next one starts with. -/
theorem follow_append {held mid : Bool} {calls : List C} (h : follow move r held calls = some mid)
    (rest : List C) : follow move r held (calls ++ rest) = follow move r mid rest := by
  induction calls generalizing held with
  | nil =>
    cases h
    rfl
  | cons c cs ih =>
    obtain ⟨held', huse, hrest⟩ := follow_cons_eq_some_iff.mp h
    rw [List.cons_append, follow, huse]
    exact ih hrest

/-- A list that is accepted is accepted up to every point. -/
theorem exists_follow_of_prefix {held left : Bool} {calls rest : List C}
    (h : follow move r held (calls ++ rest) = some left) :
    ∃ mid, follow move r held calls = some mid ∧ follow move r mid rest = some left := by
  induction calls generalizing held with
  | nil => exact ⟨held, rfl, h⟩
  | cons c cs ih =>
    obtain ⟨held', huse, hrest⟩ := follow_cons_eq_some_iff.mp h
    obtain ⟨mid, hmid, hleft⟩ := ih hrest
    exact ⟨mid, follow_cons_eq_some_iff.mpr ⟨held', huse, hmid⟩, hleft⟩

theorem taken_append (calls rest : List C) :
    taken move r (calls ++ rest) = taken move r calls + taken move r rest :=
  List.countP_append

theorem given_append (calls rest : List C) :
    given move r (calls ++ rest) = given move r calls + given move r rest :=
  List.countP_append

/-- What one call may do, in counts. -/
theorem given_add_of_use {held held' : Bool} {c : C} (h : use move r held c = some held') :
    given move r [c] + held'.toNat = taken move r [c] + held.toNat := by
  unfold use at h
  simp only [given, taken, List.countP_singleton, decide_eq_true_eq]
  by_cases hgive : move c = some (.give r)
  · rw [if_pos hgive] at h
    cases held with
    | false => cases h
    | true =>
      cases h
      simp [hgive]
  · rw [if_neg hgive] at h
    by_cases htake : move c = some (.take r)
    · rw [if_pos htake] at h
      cases held with
      | true => cases h
      | false =>
        cases h
        simp [htake]
    · rw [if_neg htake] at h
      cases h
      simp [hgive, htake]

/-- What was given back and what is held at the end is what was taken and what was
    held at the start. -/
theorem given_add_of_follow {held left : Bool} {calls : List C}
    (h : follow move r held calls = some left) :
    given move r calls + left.toNat = taken move r calls + held.toNat := by
  induction calls generalizing held with
  | nil =>
    cases h
    rfl
  | cons c cs ih =>
    obtain ⟨held', huse, hrest⟩ := follow_cons_eq_some_iff.mp h
    have hone := given_add_of_use huse
    have hcs := ih hrest
    have hgiven : given move r (c :: cs) = given move r [c] + given move r cs :=
      given_append [c] cs
    have htaken : taken move r (c :: cs) = taken move r [c] + taken move r cs :=
      taken_append [c] cs
    omega

/-- Starting with nothing, nothing is given back that was not taken. -/
theorem given_le_taken {left : Bool} {calls : List C} (h : follow move r false calls = some left) :
    given move r calls ≤ taken move r calls := by
  have hcount := given_add_of_follow h
  rw [Bool.toNat_false] at hcount
  omega

/-- A resource is given back as often as it was taken exactly when it is not held. -/
theorem given_eq_taken_iff {left : Bool} {calls : List C}
    (h : follow move r false calls = some left) :
    given move r calls = taken move r calls ↔ left = false := by
  have hcount := given_add_of_follow h
  cases left with
  | false =>
    simp only [Bool.toNat_false, Nat.add_zero] at hcount
    exact iff_of_true hcount rfl
  | true =>
    simp only [Bool.toNat_true, Bool.toNat_false, Nat.add_zero] at hcount
    exact iff_of_false (by omega) Bool.noConfusion

/-- To give back what is not held is to give back more than was taken. -/
theorem taken_lt_given {calls : List C} {c : C} (h : follow move r false calls = some false)
    (hgive : move c = some (.give r)) :
    taken move r (calls ++ [c]) < given move r (calls ++ [c]) := by
  have hcount := given_add_of_follow h
  have hgiven : given move r [c] = 1 := by simp [given, hgive]
  have htaken : taken move r [c] = 0 := by simp [taken, hgive]
  rw [taken_append, given_append, hgiven, htaken]
  omega

theorem settled_iff_of_follow {left : R → Bool} {calls : List C}
    (h : ∀ r, follow move r false calls = some (left r)) :
    Settled move calls ↔ ∀ r, left r = false :=
  forall_congr' fun r => given_eq_taken_iff (h r)

end Ledger
