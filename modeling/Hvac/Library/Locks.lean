/-
  Hvac/Library/Locks.lean
  =======================
  **Who holds which mutex**, over arbitrary types of mutexes and threads.

  `Holds` ties the owner of every mutex to the list of mutexes each thread is
  inside of, and is kept by taking a free mutex (`Holds.acquire`) and by leaving
  one (`Holds.release`).  When every thread waits only for mutexes that come after
  the ones it holds in some order, no threads wait for each other in a circle
  (`Holds.no_wait_cycle`).
-/
import Mathlib

namespace Locks

variable {M T : Type}

/-- A mutex is owned by `t` exactly when `t` is inside of it. -/
def Holds (owner : M → Option T) (held : T → List M) : Prop :=
  ∀ m t, owner m = some t ↔ m ∈ held t

section Holds

variable {owner : M → Option T} {held : T → List M} {m : M} {t : T}

/-- A mutex has one owner. -/
theorem Holds.exclusive (h : Holds owner held) {t' : T} (ht : m ∈ held t) (ht' : m ∈ held t') :
    t = t' := by
  have hown := (h m t).mpr ht
  rw [(h m t').mpr ht'] at hown
  exact (Option.some.inj hown).symm

variable [DecidableEq M] [DecidableEq T]

theorem Holds.acquire (h : Holds owner held) (hfree : owner m = none) :
    Holds (Function.update owner m (some t)) (Function.update held t (m :: held t)) := by
  intro m' t'
  by_cases ht : t' = t
  · subst ht
    by_cases hm : m' = m
    · subst hm
      simp
    · rw [Function.update_of_ne hm, Function.update_self, List.mem_cons, h m' t']
      simp [hm]
  · rw [Function.update_of_ne ht]
    by_cases hm : m' = m
    · subst hm
      rw [Function.update_self, ← h m' t', hfree]
      simp [Ne.symm ht]
    · rw [Function.update_of_ne hm]
      exact h m' t'

theorem Holds.release (h : Holds owner held) {rest : List M} (hheld : held t = m :: rest)
    (hrest : m ∉ rest) :
    Holds (Function.update owner m none) (Function.update held t rest) := by
  have hown : owner m = some t := (h m t).mpr (by rw [hheld]; exact List.mem_cons_self)
  intro m' t'
  by_cases hm : m' = m
  · subst hm
    rw [Function.update_self]
    by_cases ht : t' = t
    · subst ht
      simp [hrest]
    · rw [Function.update_of_ne ht, ← h m' t', hown]
      simp [Ne.symm ht]
  · rw [Function.update_of_ne hm, h m' t']
    by_cases ht : t' = t
    · subst ht
      rw [Function.update_self, hheld, List.mem_cons]
      simp [hm]
    · rw [Function.update_of_ne ht]

end Holds

/-! ### Waiting in a circle -/

variable (owner : M → Option T) (waitsFor : T → Option M)

/-- `t` waits for a mutex that `t'` holds. -/
def WaitsOn (t t' : T) : Prop := ∃ m, waitsFor t = some m ∧ owner m = some t'

variable {owner waitsFor}

/-- The lock-order argument: along a chain of waits the mutexes waited for come
    later and later. -/
theorem Holds.no_wait_cycle {held : T → List M} (h : Holds owner held)
    (waitsFor : T → Option M) (rank : M → Nat)
    (hrank : ∀ t m m', waitsFor t = some m → m' ∈ held t → rank m' < rank m) (t : T) :
    ¬ Relation.TransGen (WaitsOn owner waitsFor) t t := by
  have hchain : ∀ t', Relation.TransGen (WaitsOn owner waitsFor) t t' →
      ∃ m m', waitsFor t = some m ∧ m' ∈ held t' ∧ rank m ≤ rank m' := by
    intro t' hpath
    induction hpath with
    | single hwait =>
      obtain ⟨m, hm, hown⟩ := hwait
      exact ⟨m, m, hm, (h m _).mp hown, le_refl _⟩
    | tail _ hwait ih =>
      obtain ⟨m, m', hm, hheld, hle⟩ := ih
      obtain ⟨m'', hm'', hown⟩ := hwait
      have hlt := hrank _ m'' m' hm'' hheld
      exact ⟨m, m'', hm, (h m'' _).mp hown, by omega⟩
  intro hcycle
  obtain ⟨m, m', hm, hheld, hle⟩ := hchain t hcycle
  have hlt := hrank t m m' hm hheld
  omega

end Locks
