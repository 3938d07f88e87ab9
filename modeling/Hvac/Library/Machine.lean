/-
  Hvac/Library/Machine.lean
  =========================
  **Partial labelled machines and what holds along their runs.**

  A machine answers a label in a state with a new state and an observation, or
  refuses it.  Whatever a system leaves open (a descriptor number, the moment a
  message is delivered, an answer that never comes) is part of the label, so a
  schedule is a list of labels and a run is a computation.

  The rules used by the developments over it:

    * `along_of_invariant`, `along_of_step` — an invariant of one step, for a property
      of steps, with and without a condition on them;
    * `run_of_step`, `run_of_invariant` — the same for the state a run ends in;
    * `along_output_iff`, `along_iff_final` — what a complete run observed, and the
      state it ends in, decide what held along it;
    * `along_iff`          — one step of the property decides one step of the
      other, and keeps the invariant when it holds, so the two agree on runs;
    * `final_iff_along`    — a property that is never regained, against the steps that
      keep it;
    * `run_simulation`     — lockstep simulation with equal observations;
    * `map_run_eq`         — machines that refuse the same steps have the same runs;
    * `run_projection`     — simulation of the part of a run that one observer sees;
    * `run_delayed`        — simulation at points inside the operations of a run, whose
      results are observed later;
    * `run_withHistory`    — a history variable may be added to any machine;
    * `both_step_eq_some_iff` — two machines side by side on one schedule;
    * `trace_filter`       — labels that leave a state related to its twin may be left
      out of a schedule;
    * `total_le_of_potential` — a potential that every step pays its cost from bounds
      the cost of a run by what the labels put into it;
    * `exists_run_of_progress` — a measure that some step lowers, as long as the goal is
      not reached, leads there.
-/
import Mathlib

universe u u' v w

/-- A partial labelled machine with an observation on every step. -/
structure Machine (σ : Type u) (ι : Type v) (ω : Type w) where
  step : σ → ι → Option (σ × ω)

namespace Machine

variable {σ : Type u} {τ : Type u'} {ι : Type v} {ω : Type w}

/-- Perform a schedule; `none` when some label is refused. -/
def run (M : Machine σ ι ω) : σ → List ι → Option (σ × List ω)
  | s, [] => some (s, [])
  | s, i :: is =>
      match M.step s i with
      | none => none
      | some (s', o) =>
          match M.run s' is with
          | none => none
          | some (t, os) => some (t, o :: os)

/-- Every step the schedule performs satisfies `P` (a property of the state
    before, the label, the state after and the observation). -/
def Along (M : Machine σ ι ω) (P : σ → ι → σ → ω → Prop) : σ → List ι → Prop
  | _, [] => True
  | s, i :: is => ∀ s' o, M.step s i = some (s', o) → P s i s' o ∧ M.Along P s' is

/-- A decidable property of steps can be checked along a schedule. -/
instance decidableAlong (M : Machine σ ι ω) {P : σ → ι → σ → ω → Prop}
    [∀ s i s' o, Decidable (P s i s' o)] : ∀ s is, Decidable (M.Along P s is)
  | _, [] => isTrue trivial
  | s, i :: is =>
      match h : M.step s i with
      | none => isTrue fun _ _ hso => by rw [h] at hso; cases hso
      | some (s', o) =>
          have : Decidable (M.Along P s' is) := decidableAlong M s' is
          decidable_of_iff (P s i s' o ∧ M.Along P s' is)
            ⟨fun hP _ _ hso => by rw [h] at hso; cases hso; exact hP, fun hP => hP s' o h⟩

variable {M : Machine σ ι ω}

theorem run_cons_eq_some_iff {s t : σ} {i : ι} {is : List ι} {os : List ω} :
    M.run s (i :: is) = some (t, os) ↔
      ∃ s' o os', M.step s i = some (s', o) ∧ M.run s' is = some (t, os') ∧ os = o :: os' := by
  simp only [run]
  constructor
  · intro h
    rcases hstep : M.step s i with _ | ⟨s', o⟩
    · rw [hstep] at h; cases h
    · rcases hrest : M.run s' is with _ | ⟨t', os'⟩
      · simp only [hstep, hrest] at h; cases h
      · simp only [hstep, hrest, Option.some.injEq, Prod.mk.injEq] at h
        obtain ⟨rfl, rfl⟩ := h
        exact ⟨s', o, os', rfl, hrest, rfl⟩
  · rintro ⟨s', o, os', hstep, hrest, rfl⟩
    simp only [hstep, hrest]

theorem run_append_eq_some {s t u : σ} {is js : List ι} {os ps : List ω}
    (hfirst : M.run s is = some (t, os)) (hsecond : M.run t js = some (u, ps)) :
    M.run s (is ++ js) = some (u, os ++ ps) := by
  induction is generalizing s os with
  | nil =>
    cases hfirst
    simpa using hsecond
  | cons i is ih =>
    obtain ⟨s', o, os', hstep, hrest, rfl⟩ := run_cons_eq_some_iff.mp hfirst
    exact run_cons_eq_some_iff.mpr ⟨s', o, os' ++ ps, hstep, ih hrest, rfl⟩

/-! ### Invariants -/

/-- The invariant rule: steps that meet `C` keep `I` and have `P`. -/
theorem along_of_invariant {I : σ → Prop} {C P : σ → ι → σ → ω → Prop}
    (hstep : ∀ s i s' o, I s → C s i s' o → M.step s i = some (s', o) → P s i s' o ∧ I s') :
    ∀ {is : List ι} {s : σ}, I s → M.Along C s is → M.Along P s is := by
  intro is
  induction is with
  | nil => intro _ _ _; trivial
  | cons i is ih =>
    intro s hs hC s' o hso
    obtain ⟨hc, hC'⟩ := hC s' o hso
    obtain ⟨hP, hs'⟩ := hstep s i s' o hs hc hso
    exact ⟨hP, ih hs' hC'⟩

/-- The rule for an invariant that every step keeps. -/
theorem along_of_step {I : σ → Prop} {P : σ → ι → σ → ω → Prop}
    (hstep : ∀ s i s' o, I s → M.step s i = some (s', o) → P s i s' o ∧ I s') :
    ∀ {is : List ι} {s : σ}, I s → M.Along P s is := by
  intro is
  induction is with
  | nil => intro _ _; trivial
  | cons i is ih =>
    intro s hs s' o hso
    obtain ⟨hP, hs'⟩ := hstep s i s' o hs hso
    exact ⟨hP, ih hs'⟩

/-- An invariant holds where a run ends. -/
theorem run_of_step {I : σ → Prop}
    (hstep : ∀ s i s' o, I s → M.step s i = some (s', o) → I s') {s : σ} (hs : I s) :
    ∀ {is : List ι} {t : σ} {os : List ω}, M.run s is = some (t, os) → I t := by
  intro is
  induction is generalizing s with
  | nil =>
    intro t os hrun
    cases hrun
    exact hs
  | cons i is ih =>
    intro t os hrun
    obtain ⟨s', o, os', hso, hrest, -⟩ := run_cons_eq_some_iff.mp hrun
    exact ih (hstep s i s' o hs hso) hrest

/-- An invariant of the steps that meet `C` holds where a run of such steps ends. -/
theorem run_of_invariant {I : σ → Prop} {C : σ → ι → σ → ω → Prop}
    (hstep : ∀ s i s' o, I s → C s i s' o → M.step s i = some (s', o) → I s') :
    ∀ {is : List ι} {s t : σ} {os : List ω}, I s → M.Along C s is →
      M.run s is = some (t, os) → I t := by
  intro is
  induction is with
  | nil =>
    intro s t os hs _ hrun
    cases hrun
    exact hs
  | cons i is ih =>
    intro s t os hs hC hrun
    obtain ⟨s', o, os', hso, hrest, -⟩ := run_cons_eq_some_iff.mp hrun
    obtain ⟨hc, hC'⟩ := hC s' o hso
    exact ih (hstep s i s' o hs hc hso) hC' hrest

/-- A property of labels holds along a schedule of such labels. -/
theorem along_of_forall_mem {C : ι → Prop} :
    ∀ {is : List ι} {s : σ}, (∀ i ∈ is, C i) → M.Along (fun _ i _ _ => C i) s is := by
  intro is
  induction is with
  | nil => intro _ _; trivial
  | cons i is ih =>
    intro s hC s' o _
    exact ⟨hC i List.mem_cons_self, ih fun j hj => hC j (List.mem_cons_of_mem i hj)⟩

theorem Along.mono {P Q : σ → ι → σ → ω → Prop}
    (hPQ : ∀ s i s' o, M.step s i = some (s', o) → P s i s' o → Q s i s' o) :
    ∀ {is : List ι} {s : σ}, M.Along P s is → M.Along Q s is := by
  intro is
  induction is with
  | nil => intro _ _; trivial
  | cons i is ih =>
    intro s h s' o hso
    obtain ⟨hP, hrest⟩ := h s' o hso
    exact ⟨hPQ s i s' o hso hP, ih hrest⟩

theorem Along.and {P Q : σ → ι → σ → ω → Prop} :
    ∀ {is : List ι} {s : σ}, M.Along P s is → M.Along Q s is →
      M.Along (fun s i s' o => P s i s' o ∧ Q s i s' o) s is := by
  intro is
  induction is with
  | nil => intro _ _ _; trivial
  | cons i is ih =>
    intro s hP hQ s' o hso
    exact ⟨⟨(hP s' o hso).1, (hQ s' o hso).1⟩, ih (hP s' o hso).2 (hQ s' o hso).2⟩

/-- Along a complete run, a property of observations is one of what was observed. -/
theorem along_output_iff {P : ω → Prop} :
    ∀ {is : List ι} {s t : σ} {os : List ω}, M.run s is = some (t, os) →
      (M.Along (fun _ _ _ o => P o) s is ↔ ∀ o ∈ os, P o) := by
  intro is
  induction is with
  | nil =>
    intro s t os hrun
    obtain ⟨-, rfl⟩ := Prod.mk.inj (Option.some.inj hrun)
    exact ⟨fun _ _ ho => (by cases ho), fun _ => trivial⟩
  | cons i is ih =>
    intro s t os hrun
    obtain ⟨s', o, os', hso, hrest, rfl⟩ := run_cons_eq_some_iff.mp hrun
    rw [List.forall_mem_cons, ← ih hrest]
    constructor
    · intro h
      exact h s' o hso
    · rintro ho s'' o'' hso''
      rw [hso] at hso''
      cases hso''
      exact ho

/-- When a step is only taken from a state with `P`, a complete run has `P` in
    every state it reaches as soon as it has it in the last one. -/
theorem along_iff_final {P : σ → Prop} (henabled : ∀ s i s' o, M.step s i = some (s', o) → P s) :
    ∀ {is : List ι} {s t : σ} {os : List ω}, P s → M.run s is = some (t, os) →
      (M.Along (fun _ _ s' _ => P s') s is ↔ P t) := by
  intro is
  induction is with
  | nil =>
    intro s t os hs hrun
    cases hrun
    exact ⟨fun _ => hs, fun _ => trivial⟩
  | cons i is ih =>
    intro s t os hs hrun
    obtain ⟨s', o, os', hso, hrest, rfl⟩ := run_cons_eq_some_iff.mp hrun
    have hs' : P t → P s' := by
      intro ht
      cases is with
      | nil =>
        cases hrest
        exact ht
      | cons j js =>
        obtain ⟨s'', o'', -, hnext, -⟩ := run_cons_eq_some_iff.mp hrest
        exact henabled s' j s'' o'' hnext
    constructor
    · intro h
      obtain ⟨hP, halong⟩ := h s' o hso
      exact (ih hP hrest).mp halong
    · intro ht s'' o'' hso''
      rw [hso] at hso''
      cases hso''
      exact ⟨hs' ht, (ih (hs' ht) hrest).mpr ht⟩

/-- Two properties of steps agree along runs when they agree on every step from
    an invariant state and a step with the property keeps the invariant. -/
theorem along_iff {I : σ → Prop} {P Q : σ → ι → σ → ω → Prop}
    (hstep : ∀ s i s' o, I s → M.step s i = some (s', o) →
      (P s i s' o ↔ Q s i s' o) ∧ (Q s i s' o → I s')) :
    ∀ {is : List ι} {s : σ}, I s → (M.Along P s is ↔ M.Along Q s is) := by
  intro is
  induction is with
  | nil => intro _ _; exact Iff.rfl
  | cons i is ih =>
    intro s hs
    constructor
    · intro h s' o hso
      obtain ⟨hiff, hkeep⟩ := hstep s i s' o hs hso
      obtain ⟨hP, hrest⟩ := h s' o hso
      have hQ := hiff.mp hP
      exact ⟨hQ, (ih (hkeep hQ)).mp hrest⟩
    · intro h s' o hso
      obtain ⟨hiff, hkeep⟩ := hstep s i s' o hs hso
      obtain ⟨hQ, hrest⟩ := h s' o hso
      exact ⟨hiff.mpr hQ, (ih (hkeep hQ)).mpr hrest⟩

/-- A property that is never regained holds where a run ends when it held at the start
    and every step met the condition under which it is kept. -/
theorem final_iff_along {I A : σ → Prop} {C : σ → ι → σ → ω → Prop}
    (hstep : ∀ s i s' o, I s → M.step s i = some (s', o) → (A s' ↔ A s ∧ C s i s' o) ∧ I s') :
    ∀ {is : List ι} {s t : σ} {os : List ω}, I s → M.run s is = some (t, os) →
      (A t ↔ A s ∧ M.Along C s is) := by
  intro is
  induction is with
  | nil =>
    intro s t os _ hrun
    cases hrun
    exact (and_iff_left trivial).symm
  | cons i is ih =>
    intro s t os hs hrun
    obtain ⟨s', o, os', hso, hrest, -⟩ := run_cons_eq_some_iff.mp hrun
    obtain ⟨hiff, hs'⟩ := hstep s i s' o hs hso
    rw [ih hs' hrest, hiff, and_assoc]
    refine and_congr_right fun _ => ?_
    constructor
    · rintro ⟨hC, halong⟩ s₁ o₁ hso₁
      obtain ⟨rfl, rfl⟩ := Prod.mk.inj (Option.some.inj (hso.symm.trans hso₁))
      exact ⟨hC, halong⟩
    · intro halong
      exact halong s' o hso

/-! ### Lockstep simulation -/

/-- `N` follows every run of `M` from related states, with the same observations,
    when `M`'s steps meet `C`. -/
theorem run_simulation {N : Machine τ ι ω} {R : σ → τ → Prop} {C : σ → ι → σ → ω → Prop}
    (hstep : ∀ s t i s' o, R s t → C s i s' o → M.step s i = some (s', o) →
      ∃ t', N.step t i = some (t', o) ∧ R s' t') :
    ∀ {is : List ι} {s s' : σ} {t : τ} {os : List ω}, R s t → M.Along C s is →
      M.run s is = some (s', os) → ∃ t', N.run t is = some (t', os) ∧ R s' t' := by
  intro is
  induction is with
  | nil =>
    intro s s' t os hR _ hrun
    cases hrun
    exact ⟨t, rfl, hR⟩
  | cons i is ih =>
    intro s s' t os hR hC hrun
    obtain ⟨s₁, o, os', hso, hrest, rfl⟩ := run_cons_eq_some_iff.mp hrun
    obtain ⟨hc, hC'⟩ := hC s₁ o hso
    obtain ⟨t₁, hto, hR'⟩ := hstep s t i s₁ o hR hc hso
    obtain ⟨t', hrun', hR''⟩ := ih hR' hC' hrest
    exact ⟨t', run_cons_eq_some_iff.mpr ⟨t₁, o, os', hto, hrun', rfl⟩, hR''⟩

/-- Machines that refuse the same steps and make the same observations, up to `f`, have
    the same runs; `R` may look at the inputs that are still to come. -/
theorem map_run_eq {ω' : Type w} {N : Machine τ ι ω'} {R : List ι → σ → τ → Prop} {f : ω → ω'}
    (hstep : ∀ i is s t, R (i :: is) s t → (M.step s i = none ∧ N.step t i = none) ∨
      ∃ s' o t', M.step s i = some (s', o) ∧ N.step t i = some (t', f o) ∧ R is s' t') :
    ∀ {is : List ι} {s : σ} {t : τ}, R is s t →
      (M.run s is).map (fun r => r.2.map f) = (N.run t is).map Prod.snd := by
  intro is
  induction is with
  | nil => intro _ _ _; rfl
  | cons i is ih =>
    intro s t hR
    rcases hstep i is s t hR with ⟨hs, ht⟩ | ⟨s', o, t', hs, ht, hR'⟩
    · simp only [run, hs, ht, Option.map_none]
    · have hrest := ih hR'
      simp only [run, hs, ht]
      rcases hM : M.run s' is with _ | ⟨u, os⟩
      · rw [hM] at hrest
        rw [Option.map_eq_none_iff.mp hrest.symm]
        rfl
      · rw [hM] at hrest
        obtain ⟨v, hN, hos⟩ := Option.map_eq_some_iff.mp hrest.symm
        rw [hN, Option.map_some, Option.map_some, hos]
        rfl

/-! ### Projection to an observer -/

/-- `N` performs what `M` does for an observer: a step with a label the observer is
    to see is one of `N`, with the observation made of it, and every other step
    shows the observer nothing and leaves `N` where it is. -/
theorem run_projection {κ : Type v} {ο : Type w} {N : Machine τ κ ο} {R : σ → τ → Prop}
    {C : σ → ι → σ → ω → Prop} {see : ι → Option κ} {hear : ω → Option ο}
    (hstep : ∀ s t i s' o, R s t → C s i s' o → M.step s i = some (s', o) →
      (see i = none ∧ hear o = none ∧ R s' t) ∨
      ∃ k p t', see i = some k ∧ hear o = some p ∧ N.step t k = some (t', p) ∧ R s' t') :
    ∀ {is : List ι} {s s' : σ} {t : τ} {os : List ω}, R s t → M.Along C s is →
      M.run s is = some (s', os) →
      ∃ t', N.run t (is.filterMap see) = some (t', os.filterMap hear) ∧ R s' t' := by
  intro is
  induction is with
  | nil =>
    intro s s' t os hR _ hrun
    cases hrun
    exact ⟨t, rfl, hR⟩
  | cons i is ih =>
    intro s s' t os hR hC hrun
    obtain ⟨s₁, o, os', hso, hrest, rfl⟩ := run_cons_eq_some_iff.mp hrun
    obtain ⟨hc, hC'⟩ := hC s₁ o hso
    rcases hstep s t i s₁ o hR hc hso with ⟨hsee, hhear, hR'⟩ | ⟨k, p, t₁, hsee, hhear, hto, hR'⟩
    · rw [List.filterMap_cons_none hsee, List.filterMap_cons_none hhear]
      exact ih hR' hC' hrest
    · obtain ⟨t', hrun', hR''⟩ := ih hR' hC' hrest
      rw [List.filterMap_cons_some hsee, List.filterMap_cons_some hhear]
      exact ⟨t', run_cons_eq_some_iff.mpr ⟨t₁, p, _, hto, hrun', rfl⟩, hR''⟩

/-! ### Delayed observations -/

/-- `N` takes the steps of `M` at points of its own.  What an observer of `N` has
    heard and the same observer of `M` is yet to hear is `owed`. -/
theorem run_delayed {κ : Type v} {ο : Type w} {α δ : Type u'} {N : Machine τ κ ο}
    {R : σ → τ → Prop} {C : σ → ι → σ → ω → Prop} {point : ι → Option κ} {hear : ω → δ → List α}
    {hear' : ο → δ → List α} {owed : σ → δ → List α}
    (hstep : ∀ s t i s' o, R s t → C s i s' o → M.step s i = some (s', o) →
      (point i = none ∧ R s' t ∧ ∀ x, owed s x = hear o x ++ owed s' x) ∨
      ∃ k p t', point i = some k ∧ N.step t k = some (t', p) ∧ R s' t' ∧
        ∀ x, owed s x ++ hear' p x = hear o x ++ owed s' x) :
    ∀ {is : List ι} {s s' : σ} {t : τ} {os : List ω}, R s t → M.Along C s is →
      M.run s is = some (s', os) →
      ∃ t' ps, N.run t (is.filterMap point) = some (t', ps) ∧ R s' t' ∧
        ∀ x, owed s x ++ ps.flatMap (hear' · x) = os.flatMap (hear · x) ++ owed s' x := by
  intro is
  induction is with
  | nil =>
    intro s s' t os hR _ hrun
    cases hrun
    exact ⟨t, [], rfl, hR, fun x => by simp⟩
  | cons i is ih =>
    intro s s' t os hR hC hrun
    obtain ⟨s₁, o, os', hso, hrest, rfl⟩ := run_cons_eq_some_iff.mp hrun
    obtain ⟨hc, hC'⟩ := hC s₁ o hso
    rcases hstep s t i s₁ o hR hc hso with ⟨hpoint, hR', howed⟩ |
      ⟨k, p, t₁, hpoint, hto, hR', howed⟩
    · obtain ⟨t', ps, hrun', hR'', hheard⟩ := ih hR' hC' hrest
      rw [List.filterMap_cons_none hpoint]
      refine ⟨t', ps, hrun', hR'', fun x => ?_⟩
      rw [howed x, List.append_assoc, hheard x, List.flatMap_cons, List.append_assoc]
    · obtain ⟨t', ps, hrun', hR'', hheard⟩ := ih hR' hC' hrest
      rw [List.filterMap_cons_some hpoint]
      refine ⟨t', p :: ps, run_cons_eq_some_iff.mpr ⟨t₁, p, ps, hto, hrun', rfl⟩, hR'', fun x => ?_⟩
      rw [List.flatMap_cons, ← List.append_assoc, howed x, List.append_assoc, hheard x,
        List.flatMap_cons, List.append_assoc]

/-! ### History variables -/

/-- The machine with a variable that records what was done and observed. -/
def withHistory {γ : Type u'} (M : Machine σ ι ω) (record : γ → ι → ω → γ) :
    Machine (σ × γ) ι ω where
  step x i :=
    match M.step x.1 i with
    | none => none
    | some (s', o) => some ((s', record x.2 i o), o)

section History

variable {γ : Type u'} {record : γ → ι → ω → γ}

theorem withHistory_step_eq_some_iff {x x' : σ × γ} {i : ι} {o : ω} :
    (M.withHistory record).step x i = some (x', o) ↔
      M.step x.1 i = some (x'.1, o) ∧ x'.2 = record x.2 i o := by
  obtain ⟨s', g'⟩ := x'
  simp only [withHistory]
  rcases M.step x.1 i with _ | ⟨s₁, o₁⟩
  · simp only [reduceCtorEq, false_and]
  · simp only [Option.some.injEq, Prod.mk.injEq]
    constructor
    · rintro ⟨⟨rfl, rfl⟩, rfl⟩
      exact ⟨⟨rfl, rfl⟩, rfl⟩
    · rintro ⟨⟨rfl, rfl⟩, rfl⟩
      exact ⟨⟨rfl, rfl⟩, rfl⟩

/-- Recording does not change what a machine does. -/
theorem run_withHistory (record : γ → ι → ω → γ) {is : List ι} {s t : σ} {os : List ω} (g : γ)
    (hrun : M.run s is = some (t, os)) :
    ∃ g', (M.withHistory record).run (s, g) is = some ((t, g'), os) := by
  induction is generalizing s os g with
  | nil =>
    cases hrun
    exact ⟨g, rfl⟩
  | cons i is ih =>
    obtain ⟨s', o, os', hso, hrest, rfl⟩ := run_cons_eq_some_iff.mp hrun
    obtain ⟨g', hg'⟩ := ih (record g i o) hrest
    refine ⟨g', run_cons_eq_some_iff.mpr ⟨(s', record g i o), o, os', ?_, hg', rfl⟩⟩
    exact withHistory_step_eq_some_iff.mpr ⟨hso, rfl⟩

end History

/-! ### Two machines side by side -/

/-- Both machines perform every label. -/
def both {ω' : Type w} (M : Machine σ ι ω) (N : Machine τ ι ω') :
    Machine (σ × τ) ι (ω × ω') where
  step x i :=
    match M.step x.1 i, N.step x.2 i with
    | some (s', o), some (t', p) => some ((s', t'), (o, p))
    | _, _ => none

/-- The machine under other names for some of its labels. -/
def relabel {κ : Type v} (M : Machine σ ι ω) (name : κ → ι) : Machine σ κ ω where
  step s k := M.step s (name k)

theorem both_step_eq_some_iff {ω' : Type w} {N : Machine τ ι ω'} {x x' : σ × τ} {i : ι}
    {o : ω × ω'} :
    (M.both N).step x i = some (x', o) ↔
      M.step x.1 i = some (x'.1, o.1) ∧ N.step x.2 i = some (x'.2, o.2) := by
  obtain ⟨s', t'⟩ := x'
  obtain ⟨oM, oN⟩ := o
  simp only [both]
  rcases M.step x.1 i with _ | ⟨s₁, o₁⟩
  · simp only [reduceCtorEq, false_and]
  · rcases N.step x.2 i with _ | ⟨t₁, p₁⟩
    · simp only [reduceCtorEq, and_false]
    · simp only [Option.some.injEq, Prod.mk.injEq]
      constructor
      · rintro ⟨⟨rfl, rfl⟩, rfl, rfl⟩
        exact ⟨⟨rfl, rfl⟩, rfl, rfl⟩
      · rintro ⟨⟨rfl, rfl⟩, rfl, rfl⟩
        exact ⟨⟨rfl, rfl⟩, rfl, rfl⟩

/-! ### Traces -/

/-- What is observed along a schedule, label by label; a label that is refused is
    passed over. -/
def trace (M : Machine σ ι ω) : σ → List ι → List (ι × ω)
  | _, [] => []
  | s, i :: is =>
      match M.step s i with
      | none => M.trace s is
      | some (s', o) => (i, o) :: M.trace s' is

theorem trace_cons_of_none {s : σ} {i : ι} (h : M.step s i = none) (is : List ι) :
    M.trace s (i :: is) = M.trace s is := by
  simp only [trace, h]

theorem trace_cons_of_some {s s' : σ} {i : ι} {o : ω} (h : M.step s i = some (s', o))
    (is : List ι) : M.trace s (i :: is) = (i, o) :: M.trace s' is := by
  simp only [trace, h]

/-- The labels an observer does not see may be left out: related states perform the
    same visible labels with the same observations, and a hidden one leaves the state
    related to where the other run stands. -/
theorem trace_filter {R : σ → σ → Prop} {C : ι → Prop} {see : ι → Bool}
    (hsee : ∀ s t i, R s t → C i → see i = true →
      (M.step s i = none ∧ M.step t i = none) ∨
      ∃ s' t' o, M.step s i = some (s', o) ∧ M.step t i = some (t', o) ∧ R s' t')
    (hhide : ∀ s t i s' o, R s t → C i → see i = false → M.step s i = some (s', o) → R s' t) :
    ∀ {is : List ι} {s t : σ}, R s t → (∀ i ∈ is, C i) →
      (M.trace s is).filter (fun x => see x.1) = M.trace t (is.filter see) := by
  intro is
  induction is with
  | nil => intro _ _ _ _; rfl
  | cons i is ih =>
    intro s t hR hC
    have hCi := hC i List.mem_cons_self
    have hCis : ∀ j ∈ is, C j := fun j hj => hC j (List.mem_cons_of_mem i hj)
    rcases Bool.eq_false_or_eq_true (see i) with hi | hi
    · simp only [List.filter_cons, hi, if_true]
      rcases hsee s t i hR hCi hi with ⟨hs, ht⟩ | ⟨s', t', o, hs, ht, hR'⟩
      · rw [trace_cons_of_none hs, trace_cons_of_none ht]
        exact ih hR hCis
      · rw [trace_cons_of_some hs, trace_cons_of_some ht, List.filter_cons, hi, if_pos rfl,
          ih hR' hCis]
    · simp only [List.filter_cons, hi, Bool.false_eq_true, if_false]
      rcases hs : M.step s i with _ | ⟨s', o⟩
      · rw [trace_cons_of_none hs]
        exact ih hR hCis
      · rw [trace_cons_of_some hs, List.filter_cons, hi, if_neg Bool.false_ne_true]
        exact ih (hhide s t i s' o hR hCi hi hs) hCis

/-! ### Costs -/

/-- The cost of the steps of a run, each read off the state it is taken in. -/
def total (M : Machine σ ι ω) (cost : σ → ι → Nat) : σ → List ι → Nat
  | _, [] => 0
  | s, i :: is =>
      match M.step s i with
      | none => 0
      | some (s', _) => cost s i + M.total cost s' is

theorem total_cons_of_some {cost : σ → ι → Nat} {s s' : σ} {i : ι} {o : ω}
    (h : M.step s i = some (s', o)) (is : List ι) :
    M.total cost s (i :: is) = cost s i + M.total cost s' is := by
  simp only [total, h]

/-- The amortised bound: a step costs at most what the potential loses and the label
    puts in. -/
theorem total_le_of_potential {I : σ → Prop} {cost : σ → ι → Nat} {credit : ι → Nat}
    {potential : σ → Nat}
    (hstep : ∀ s i s' o, I s → M.step s i = some (s', o) →
      cost s i + potential s' ≤ potential s + credit i ∧ I s') :
    ∀ {is : List ι} {s t : σ} {os : List ω}, I s → M.run s is = some (t, os) →
      M.total cost s is + potential t ≤ potential s + (is.map credit).sum := by
  intro is
  induction is with
  | nil =>
    intro s t os _ hrun
    cases hrun
    simp [total]
  | cons i is ih =>
    intro s t os hs hrun
    obtain ⟨s', o, os', hso, hrest, -⟩ := run_cons_eq_some_iff.mp hrun
    obtain ⟨hpaid, hs'⟩ := hstep s i s' o hs hso
    have hrest' := ih hs' hrest
    rw [total_cons_of_some hso, List.map_cons, List.sum_cons]
    omega

theorem exists_run_of_progress {I Done : σ → Prop} {C : ι → Prop} {measure : σ → Nat}
    (hstep : ∀ s, I s → ¬ Done s →
      ∃ i s' o, C i ∧ M.step s i = some (s', o) ∧ I s' ∧ measure s' < measure s) {s : σ}
    (hs : I s) :
    ∃ is t os, (∀ i ∈ is, C i) ∧ M.run s is = some (t, os) ∧ Done t ∧ is.length ≤ measure s := by
  induction hn : measure s using Nat.strong_induction_on generalizing s with
  | _ n ih =>
    by_cases hdone : Done s
    · exact ⟨[], s, [], by simp, rfl, hdone, Nat.zero_le _⟩
    · obtain ⟨i, s', o, hi, hso, hs', hless⟩ := hstep s hs hdone
      obtain ⟨is, t, os, his, hrun, ht, hlength⟩ := ih (measure s') (by omega) hs' rfl
      refine ⟨i :: is, t, o :: os, ?_, run_cons_eq_some_iff.mpr ⟨s', o, os, hso, hrun, rfl⟩, ht, ?_⟩
      · exact List.forall_mem_cons.mpr ⟨hi, his⟩
      · rw [List.length_cons]
        omega

end Machine
