/-
  Hvac/OpenWait.lean
  ==================
  **How opens wait for their replies** (`hvac_open_cb` and `hvac_client_block` of
  `hvac_comm_client.cpp`).

  The wait of an open is timed.  A thread whose deadline passes leaves the
  condition variable, but `pthread_cond_timedwait` returns `ETIMEDOUT` only once
  the mutex is its own again, and the loop acts on that without looking at `done`.
  A callback whose critical section comes in between has set `done` and is
  charged with a timeout all the same (`late_callback`).  While no callback does,
  a timeout is recorded only for a reply that is not there (`no_false_timeout`), and
  in any case no thread stays in the wait once its reply is there (`open_returns`).

  Steps are the critical sections of the call's mutex, the passing of the deadline
  and the ends of the wait; the number of threads is arbitrary, and each call
  has a flag, a condition variable and a mutex of its own.
-/
import Hvac.SeekSync

namespace Hvac

variable {K : Type} [DecidableEq K]

/-! ### State and steps -/

/-- Where a thread stands: outside of an open, before the lock, in the timed wait,
    released from it by a signal or by the deadline and without the mutex yet, or
    in `exit(-1)`. -/
inductive OpenPc where
  | idle
  | entering
  | waiting
  | woken
  | timedOut
  | exiting
deriving DecidableEq

/-- The open of a thread: the server asked, the flag, whether the reply's callback is
    still to run, and whether the deadline has passed. -/
structure OpenFrame where
  host : Nat
  pc : OpenPc
  done : UInt8
  pending : Bool
  late : Bool
deriving DecidableEq

def OpenFrame.idle : OpenFrame := ⟨0, .idle, HG_FALSE, false, false⟩

inductive OpenEvent where
  | issue (host : Nat)
  | lock
  | callback
  | deadline
  | expire
  | spurious
  | resume
deriving DecidableEq

namespace OpenFrame

/-- The test of the loop, with the mutex: `while (*done != HG_TRUE)`. -/
def test (f : OpenFrame) : OpenFrame :=
  if f.done ≠ HG_TRUE then { f with pc := .waiting } else { f with pc := .idle }

/-- The critical section of `hvac_open_cb`. -/
def openCb (f : OpenFrame) : OpenFrame :=
  { f with
    done := HG_TRUE
    pending := false
    -- `pthread_cond_signal` releases the thread if it is in the wait
    pc := if f.pc = .waiting then .woken else f.pc }

def step (f : OpenFrame) : OpenEvent → Option OpenFrame
  | .issue host => if f.pc = .idle then some ⟨host, .entering, HG_FALSE, true, false⟩ else none
  | .lock => if f.pc = .entering then some f.test else none
  | .callback => if f.pending then some f.openCb else none
  | .deadline => some { f with late := true }
  | .expire => if f.pc = .waiting ∧ f.late then some { f with pc := .timedOut } else none
  | .spurious => if f.pc = .waiting then some { f with pc := .woken } else none
  | .resume =>
      if f.pc = .woken then some f.test
      -- `ETIMEDOUT`
      else if f.pc = .timedOut then some { f with pc := .exiting }
      else none

end OpenFrame

/-- The threads of a client, and its counters. -/
structure OpenWaits (K : Type) where
  alive : Bool
  frames : K → OpenFrame
  timeoutCounters : List Nat

def OpenWaits.start (serverCount : Nat) : OpenWaits K where
  alive := true
  frames := fun _ => .idle
  timeoutCounters := List.replicate serverCount 0

/-- A thread that gives up counts the timeout and ends the process. -/
def openWaitMachine : Machine (OpenWaits K) (K × OpenEvent) Unit where
  step s l :=
    if s.alive then
      match (s.frames l.1).step l.2 with
      | none => none
      | some f =>
          let frames := Function.update s.frames l.1 f
          if f.pc = .exiting then
            some (⟨false, frames, s.timeoutCounters.modify f.host (· + 1)⟩, ())
          else some (⟨true, frames, s.timeoutCounters⟩, ())
    else none

/-- What each event needs, and what it leaves. -/
inductive OpenFrame.Leaves (f : OpenFrame) : OpenEvent → OpenFrame → Prop where
  | issue (host : Nat) : Leaves f (.issue host) ⟨host, .entering, HG_FALSE, true, false⟩
  | test {e : OpenEvent} (hne : e ≠ .callback) : Leaves f e f.test
  | callback : Leaves f .callback f.openCb
  | deadline : Leaves f .deadline { f with late := true }
  | expire (hpc : f.pc = .waiting) : Leaves f .expire { f with pc := .timedOut }
  | spurious : Leaves f .spurious { f with pc := .woken }
  | giveUp (hpc : f.pc = .timedOut) : Leaves f .resume { f with pc := .exiting }

theorem OpenFrame.step_leaves {f f' : OpenFrame} {e : OpenEvent} (hstep : f.step e = some f') :
    f.Leaves e f' := by
  cases e with
  | deadline =>
    cases hstep
    exact .deadline
  | resume =>
    simp only [OpenFrame.step] at hstep
    split at hstep
    · cases hstep
      exact .test (by decide)
    · simp only [Option.ite_none_right_eq_some, Option.some.injEq] at hstep
      obtain ⟨hpc, rfl⟩ := hstep
      exact .giveUp hpc
  | issue | lock | callback | expire | spurious =>
    simp only [OpenFrame.step, Option.ite_none_right_eq_some, Option.some.injEq] at hstep
    obtain ⟨hpc, rfl⟩ := hstep
    first
      | exact .issue _
      | exact .callback
      | exact .expire hpc.1
      | exact .spurious
      | exact .test (by decide)

/-! ### The requirement and when it is met -/

/-- A step that counts a timeout or gives up finds `done` unset. -/
def HonestTimeout (s : OpenWaits K) (l : K × OpenEvent) (s' : OpenWaits K) : Prop :=
  s'.timeoutCounters ≠ s.timeoutCounters ∨ s'.alive = false → (s.frames l.1).done ≠ HG_TRUE

/-- No callback gets the mutex between the end of a wait by its deadline and the
    thread's return from it. -/
def NotInBetween (s : OpenWaits K) (l : K × OpenEvent) : Prop :=
  l.2 = .callback → (s.frames l.1).pc ≠ .timedOut

instance (s : OpenWaits K) (l : K × OpenEvent) (s' : OpenWaits K) :
    Decidable (HonestTimeout s l s') := by
  unfold HonestTimeout
  infer_instance

instance (s : OpenWaits K) (l : K × OpenEvent) : Decidable (NotInBetween s l) := by
  unfold NotInBetween
  infer_instance

/-- A thread in the wait, or released by the deadline, has no reply; and none has left
    the loop for the exit. -/
structure OpenFrame.Unanswered (f : OpenFrame) : Prop where
  done : f.pc = .waiting ∨ f.pc = .timedOut → f.done ≠ HG_TRUE
  running : f.pc ≠ .exiting

theorem OpenFrame.unanswered_of_pc {f : OpenFrame} (h : f.pc = .idle ∨ f.pc = .entering ∨
    f.pc = .woken) : f.Unanswered := by
  constructor
  · rintro (hpc | hpc)
    all_goals rw [hpc] at h; simp at h
  · intro hpc
    rw [hpc] at h
    simp at h

theorem OpenFrame.unanswered_test (f : OpenFrame) : f.test.Unanswered := by
  unfold OpenFrame.test
  split
  · next hdone => exact ⟨fun _ => hdone, OpenPc.noConfusion⟩
  · exact OpenFrame.unanswered_of_pc (Or.inl rfl)

/-- The signal takes the thread out of the wait, so only one that the deadline had
    released stays behind with its reply. -/
theorem OpenFrame.Unanswered.openCb {f : OpenFrame} (h : f.Unanswered) (hpc : f.pc ≠ .timedOut) :
    f.openCb.Unanswered := by
  by_cases hwait : f.pc = .waiting
  · apply OpenFrame.unanswered_of_pc
    right; right
    simp only [OpenFrame.openCb, hwait, if_true]
  · have hsame : f.openCb.pc = f.pc := by simp only [OpenFrame.openCb, hwait, if_false]
    constructor
    · rintro (hpc' | hpc')
      · exact absurd (hsame.symm.trans hpc') hwait
      · exact absurd (hsame.symm.trans hpc') hpc
    · rw [hsame]
      exact h.running

/-- One event: the thread gives up and finds `done` unset, or what was known of it is
    kept. -/
theorem OpenFrame.Unanswered.step {f f' : OpenFrame} {e : OpenEvent} (h : f.Unanswered)
    (hbetween : e = .callback → f.pc ≠ .timedOut) (hstep : f.step e = some f') :
    f'.pc = .exiting ∧ f.done ≠ HG_TRUE ∨ f'.pc ≠ .exiting ∧ f'.Unanswered := by
  have hkept : f'.Unanswered → f'.pc = .exiting ∧ f.done ≠ HG_TRUE ∨
      f'.pc ≠ .exiting ∧ f'.Unanswered := fun h' => Or.inr ⟨h'.running, h'⟩
  cases OpenFrame.step_leaves hstep with
  | issue host => exact hkept (OpenFrame.unanswered_of_pc (Or.inr (Or.inl rfl)))
  | test hne => exact hkept f.unanswered_test
  | callback => exact hkept (h.openCb (hbetween rfl))
  | deadline => exact hkept ⟨h.done, h.running⟩
  | expire hpc => exact hkept ⟨fun _ => h.done (Or.inl hpc), OpenPc.noConfusion⟩
  | spurious => exact hkept (OpenFrame.unanswered_of_pc (Or.inr (Or.inr rfl)))
  | giveUp hpc => exact Or.inl ⟨rfl, h.done (Or.inr hpc)⟩

/-! ### Runs -/

/-- While the process runs no thread has a reply it is not going to see. -/
def OpenInv (s : OpenWaits K) : Prop := s.alive = true → ∀ k, (s.frames k).Unanswered

omit [DecidableEq K] in
theorem openInv_start (serverCount : Nat) : OpenInv (OpenWaits.start serverCount : OpenWaits K) :=
  fun _ _ => OpenFrame.unanswered_of_pc (Or.inl rfl)

theorem OpenInv.step {s s' : OpenWaits K} {l : K × OpenEvent} {o : Unit} (h : OpenInv s)
    (hbetween : NotInBetween s l) (hstep : openWaitMachine.step s l = some (s', o)) :
    HonestTimeout s l s' ∧ OpenInv s' := by
  simp only [openWaitMachine] at hstep
  split at hstep
  · next halive =>
    rcases hframe : (s.frames l.1).step l.2 with _ | f
    · rw [hframe] at hstep
      cases hstep
    · simp only [hframe] at hstep
      rcases (h halive l.1).step hbetween hframe with ⟨hexit, hdone⟩ | ⟨hgoes, hkept⟩
      · rw [if_pos hexit] at hstep
        cases hstep
        exact ⟨fun _ => hdone, fun halive' => by cases halive'⟩
      · rw [if_neg hgoes] at hstep
        cases hstep
        constructor
        · rintro (hcount | halive')
          · exact absurd rfl hcount
          · cases halive'
        · intro _ k
          dsimp only
          by_cases hk : k = l.1
          · rw [hk, Function.update_self]
            exact hkept
          · rw [Function.update_of_ne hk]
            exact h halive k
  · cases hstep

/-- **No false timeout.**  Along every run in which no callback gets the mutex between
    the end of a wait by its deadline and the thread's return, a timeout is counted,
    and the process given up, only with `done` unset. -/
theorem no_false_timeout (serverCount : Nat) {labels : List (K × OpenEvent)}
    (hbetween : openWaitMachine.Along (fun s l _ _ => NotInBetween s l)
      (OpenWaits.start serverCount) labels) :
    openWaitMachine.Along (fun s l s' _ => HonestTimeout s l s')
      (OpenWaits.start serverCount : OpenWaits K) labels :=
  Machine.along_of_invariant (fun _ _ _ _ h hl hstep => h.step hl hstep)
    (openInv_start serverCount) hbetween

/-- A callback that does get it there is charged with a timeout when the thread goes on. -/
theorem late_callback {s : OpenWaits K} {k : K} (halive : s.alive = true)
    (hpc : (s.frames k).pc = .timedOut) (hpending : (s.frames k).pending = true) :
    ∃ s₁ s₂, openWaitMachine.step s (k, .callback) = some (s₁, ()) ∧
      openWaitMachine.step s₁ (k, .resume) = some (s₂, ()) ∧ ¬ HonestTimeout s₁ (k, .resume) s₂ ∧
      s₂.timeoutCounters = s.timeoutCounters.modify (s.frames k).host (· + 1) := by
  have hcb : (s.frames k).step .callback = some (s.frames k).openCb := by
    simp only [OpenFrame.step, hpending, if_true]
  have hstays : (s.frames k).openCb.pc = .timedOut := by
    simp only [OpenFrame.openCb, hpc, reduceCtorEq, if_false]
  have hgoes : (s.frames k).openCb.pc ≠ .exiting := by
    rw [hstays]
    decide
  have hstep₁ : openWaitMachine.step s (k, .callback) =
      some (⟨true, Function.update s.frames k (s.frames k).openCb, s.timeoutCounters⟩, ()) := by
    simp only [openWaitMachine, halive, if_true, hcb, hgoes, if_false]
  have hresume : (s.frames k).openCb.step .resume =
      some { (s.frames k).openCb with pc := .exiting } := by
    simp only [OpenFrame.step, hstays, reduceCtorEq, if_false, if_true]
  have hstep₂ : openWaitMachine.step
      ⟨true, Function.update s.frames k (s.frames k).openCb, s.timeoutCounters⟩ (k, .resume) =
        some (⟨false, Function.update (Function.update s.frames k (s.frames k).openCb) k
            { (s.frames k).openCb with pc := .exiting },
          s.timeoutCounters.modify (s.frames k).host (· + 1)⟩, ()) := by
    simp only [openWaitMachine, if_true, Function.update_self, hresume]
    rfl
  refine ⟨_, _, hstep₁, hstep₂, fun honest => ?_, rfl⟩
  apply honest (Or.inr rfl)
  dsimp only
  rw [Function.update_self]
  rfl

/-- A timeout of one thread with its reply missing is counted. -/
theorem no_false_timeout_missing :
    openWaitMachine.Along (fun s l s' _ => HonestTimeout s l s')
      (OpenWaits.start 1 : OpenWaits Unit)
      [((), .issue 0), ((), .lock), ((), .deadline), ((), .expire), ((), .resume)] := by
  apply no_false_timeout
  decide

/-- The deadline passes, the callback sets `done`, and only then the thread has the
    mutex again. -/
theorem false_timeout :
    ((openWaitMachine.run (OpenWaits.start 1 : OpenWaits Unit)
      [((), .issue 0), ((), .lock), ((), .deadline), ((), .expire), ((), .callback),
        ((), .resume)]).map fun r => (r.1.alive, r.1.timeoutCounters, (r.1.frames ()).done)) =
      some (false, [1], HG_TRUE) ∧
    ¬ openWaitMachine.Along (fun s l s' _ => HonestTimeout s l s')
      (OpenWaits.start 1 : OpenWaits Unit)
      [((), .issue 0), ((), .lock), ((), .deadline), ((), .expire), ((), .callback),
        ((), .resume)] := by
  exact ⟨by decide, by decide⟩

/-! ### Opens return -/

/-- A thread in the wait has its callback before it; one whose callback has run has
    `done` set; and none has left the loop for the exit. -/
structure OpenFrame.Heard (f : OpenFrame) : Prop where
  waiting : f.pc = .waiting → f.pending = true
  answered : f.pc ≠ .idle → f.pending = false → f.done = HG_TRUE
  running : f.pc ≠ .exiting

theorem OpenFrame.Heard.test {f : OpenFrame} (h : f.Heard) (hpc : f.pc ≠ .idle) :
    f.test.Heard := by
  unfold OpenFrame.test
  split
  · next hdone =>
    have hpending : f.pending = true := by
      by_contra hcalled
      exact hdone (h.answered hpc (Bool.eq_false_iff.mpr hcalled))
    exact ⟨fun _ => hpending, fun _ => h.answered hpc, OpenPc.noConfusion⟩
  · exact ⟨OpenPc.noConfusion, fun hidle => absurd rfl hidle, OpenPc.noConfusion⟩

/-- The signal comes in the same critical section as `done`, so it is not lost. -/
theorem OpenFrame.Heard.openCb {f : OpenFrame} (h : f.Heard) : f.openCb.Heard := by
  refine ⟨?_, fun _ _ => rfl, ?_⟩
  · simp only [OpenFrame.openCb]
    split
    · exact OpenPc.noConfusion
    · next hwait => exact fun hpc => absurd hpc hwait
  · simp only [OpenFrame.openCb]
    split
    · exact OpenPc.noConfusion
    · exact h.running

/-- A thread that gives up is the last of the process. -/
theorem OpenFrame.Heard.step {f f' : OpenFrame} {e : OpenEvent} (h : f.Heard)
    (hstep : f.step e = some f') (hgoes : f'.pc ≠ .exiting) : f'.Heard := by
  cases e with
  | issue host =>
    simp only [OpenFrame.step, Option.ite_none_right_eq_some, Option.some.injEq] at hstep
    obtain ⟨-, rfl⟩ := hstep
    exact ⟨OpenPc.noConfusion, fun _ hcalled => Bool.noConfusion hcalled, OpenPc.noConfusion⟩
  | lock =>
    simp only [OpenFrame.step, Option.ite_none_right_eq_some, Option.some.injEq] at hstep
    obtain ⟨hpc, rfl⟩ := hstep
    exact h.test (by rw [hpc]; exact OpenPc.noConfusion)
  | callback =>
    simp only [OpenFrame.step, Option.ite_none_right_eq_some, Option.some.injEq] at hstep
    obtain ⟨-, rfl⟩ := hstep
    exact h.openCb
  | deadline =>
    cases hstep
    exact ⟨h.waiting, h.answered, h.running⟩
  | expire | spurious =>
    simp only [OpenFrame.step, Option.ite_none_right_eq_some, Option.some.injEq] at hstep
    obtain ⟨hpc, rfl⟩ := hstep
    refine ⟨OpenPc.noConfusion, fun _ => h.answered ?_, OpenPc.noConfusion⟩
    simp [hpc]
  | resume =>
    simp only [OpenFrame.step] at hstep
    split at hstep
    · next hpc =>
      cases hstep
      exact h.test (by rw [hpc]; exact OpenPc.noConfusion)
    · simp only [Option.ite_none_right_eq_some, Option.some.injEq] at hstep
      obtain ⟨-, rfl⟩ := hstep
      exact absurd rfl hgoes

/-- While the process runs no reply is lost. -/
def HeardInv (s : OpenWaits K) : Prop := s.alive = true → ∀ k, (s.frames k).Heard

omit [DecidableEq K] in
theorem heardInv_start (serverCount : Nat) :
    HeardInv (OpenWaits.start serverCount : OpenWaits K) :=
  fun _ _ => ⟨OpenPc.noConfusion, fun hidle => absurd rfl hidle, OpenPc.noConfusion⟩

theorem HeardInv.step {s s' : OpenWaits K} {l : K × OpenEvent} {o : Unit} (h : HeardInv s)
    (hstep : openWaitMachine.step s l = some (s', o)) : HeardInv s' := by
  simp only [openWaitMachine] at hstep
  split at hstep
  · next halive =>
    rcases hframe : (s.frames l.1).step l.2 with _ | f
    · rw [hframe] at hstep
      cases hstep
    · simp only [hframe] at hstep
      split at hstep
      · cases hstep
        exact fun halive' => Bool.noConfusion halive'
      · next hgoes =>
        cases hstep
        intro _ k
        dsimp only
        by_cases hk : k = l.1
        · rw [hk, Function.update_self]
          exact (h halive l.1).step hframe hgoes
        · rw [Function.update_of_ne hk]
          exact h halive k
  · cases hstep

/-- The events take the thread from `f` to `f'`, and not through the exit. -/
def OpenFrame.Leads (f : OpenFrame) : List OpenEvent → OpenFrame → Prop
  | [], f' => f' = f
  | e :: es, f' => ∃ f₁, f.step e = some f₁ ∧ f₁.pc ≠ .exiting ∧ f₁.Leads es f'

theorem OpenFrame.leads_test {f : OpenFrame} {e : OpenEvent} (hstep : f.step e = some f.test)
    (hdone : f.done = HG_TRUE) : f.Leads [e] { f with pc := .idle } := by
  have htest : f.test = { f with pc := .idle } := by
    simp only [OpenFrame.test, hdone, ne_eq, not_true_eq_false, if_false]
  rw [htest] at hstep
  exact ⟨_, hstep, OpenPc.noConfusion, rfl⟩

/-- Once its callback has run a thread needs one more step. -/
theorem OpenFrame.Heard.leads_answered {f : OpenFrame} (h : f.Heard) (hidle : f.pc ≠ .idle)
    (hexpired : f.pc ≠ .timedOut) (hcalled : f.pending = false) :
    ∃ e, (e = .lock ∨ e = .resume) ∧ f.Leads [e] { f with pc := .idle } := by
  have hdone := h.answered hidle hcalled
  rcases hpc : f.pc with _ | _ | _ | _ | _ | _
  · exact absurd hpc hidle
  · refine ⟨.lock, Or.inl rfl, OpenFrame.leads_test ?_ hdone⟩
    simp only [OpenFrame.step, hpc, if_true]
  · rw [h.waiting hpc] at hcalled
    cases hcalled
  · refine ⟨.resume, Or.inr rfl, OpenFrame.leads_test ?_ hdone⟩
    simp only [OpenFrame.step, hpc, if_true]
  · exact absurd hpc hexpired
  · exact absurd hpc h.running

/-- Before that it needs its callback. -/
theorem OpenFrame.Heard.leads {f : OpenFrame} (h : f.Heard) (hexpired : f.pc ≠ .timedOut) :
    ∃ events f', f.Leads events f' ∧ f'.pc = .idle ∧
      events.length ≤ 1 + f.pending.toNat ∧
      ∀ e ∈ events, e = .lock ∨ e = .callback ∨ e = .resume := by
  by_cases hidle : f.pc = .idle
  · exact ⟨[], f, rfl, hidle, Nat.zero_le _, fun e he => absurd he List.not_mem_nil⟩
  · rcases hpending : f.pending with _ | _
    · obtain ⟨e, hown, hleads⟩ := h.leads_answered hidle hexpired hpending
      refine ⟨[e], _, hleads, rfl, le_refl _, fun e' he' => ?_⟩
      rw [List.mem_singleton.mp he']
      exact hown.imp id Or.inr
    · have hcb : f.step .callback = some f.openCb := by
        simp only [OpenFrame.step, hpending, if_true]
      have hpc : f.openCb.pc = f.pc ∨ f.openCb.pc = .woken := by
        simp only [OpenFrame.openCb]
        split
        · exact Or.inr rfl
        · exact Or.inl rfl
      have hidle' : f.openCb.pc ≠ .idle := by
        rcases hpc with hpc | hpc <;> rw [hpc]
        · exact hidle
        · exact OpenPc.noConfusion
      have hexpired' : f.openCb.pc ≠ .timedOut := by
        rcases hpc with hpc | hpc <;> rw [hpc]
        · exact hexpired
        · exact OpenPc.noConfusion
      obtain ⟨e, hown, hleads⟩ := h.openCb.leads_answered hidle' hexpired' rfl
      refine ⟨[.callback, e], _, ⟨_, hcb, h.openCb.running, hleads⟩, rfl, le_refl _, ?_⟩
      intro e' he'
      rcases List.mem_cons.mp he' with rfl | he'
      · exact Or.inr (Or.inl rfl)
      · rw [List.mem_singleton.mp he']
        exact hown.imp id Or.inr

/-- The steps of one thread are steps of the process, and leave the others alone. -/
theorem run_of_leads {k : K} {events : List OpenEvent} {s : OpenWaits K} {f : OpenFrame}
    (halive : s.alive = true) (hleads : (s.frames k).Leads events f) :
    ∃ t outs, openWaitMachine.run s (events.map (k, ·)) = some (t, outs) ∧ t.alive = true ∧
      t.frames = Function.update s.frames k f ∧ t.timeoutCounters = s.timeoutCounters := by
  induction events generalizing s with
  | nil =>
    refine ⟨s, [], rfl, halive, ?_, rfl⟩
    have hsame : f = s.frames k := hleads
    rw [hsame, Function.update_eq_self]
  | cons e events ih =>
    obtain ⟨f₁, hstep, hgoes, hrest⟩ := hleads
    have hone : openWaitMachine.step s (k, e) =
        some (⟨true, Function.update s.frames k f₁, s.timeoutCounters⟩, ()) := by
      simp only [openWaitMachine, halive, if_true, hstep, hgoes, if_false]
    have hleads' : (Function.update s.frames k f₁ k).Leads events f := by
      rw [Function.update_self]
      exact hrest
    obtain ⟨t, outs, hrun, halive', hframes, hcounters⟩ :=
      @ih ⟨true, Function.update s.frames k f₁, s.timeoutCounters⟩ rfl hleads'
    refine ⟨t, () :: outs, ?_, halive', ?_, hcounters⟩
    · exact Machine.run_cons_eq_some_iff.mpr ⟨_, _, _, hone, hrun, rfl⟩
    · rw [hframes, Function.update_idem]

/-- **No open waits for a reply that has come.**  After every run, with timeouts,
    spurious wake-ups and the other threads in between, a thread that the deadline has
    not released returns from its open by its callback, if that is still to run, and one
    step of its own, with no timeout counted and nothing changed for the others. -/
theorem open_returns (serverCount : Nat) {labels : List (K × OpenEvent)} {s : OpenWaits K}
    {outs : List Unit}
    (hrun : openWaitMachine.run (OpenWaits.start serverCount) labels = some (s, outs))
    (halive : s.alive = true) {k : K} (hexpired : (s.frames k).pc ≠ .timedOut) :
    ((s.frames k).pc = .waiting → (s.frames k).pending = true) ∧
    ∃ (events : List OpenEvent) (t : OpenWaits K) (outs' : List Unit),
      openWaitMachine.run s (events.map (k, ·)) = some (t, outs') ∧
      events.length ≤ 1 + (s.frames k).pending.toNat ∧
      (∀ e ∈ events, e = .lock ∨ e = .callback ∨ e = .resume) ∧
      t.alive = true ∧ (t.frames k).pc = .idle ∧ t.timeoutCounters = s.timeoutCounters ∧
      ∀ j, j ≠ k → t.frames j = s.frames j := by
  have hstep : ∀ (s : OpenWaits K) (l : K × OpenEvent) (s' : OpenWaits K) (o : Unit),
      HeardInv s → openWaitMachine.step s l = some (s', o) → HeardInv s' :=
    fun _ _ _ _ h hstep => h.step hstep
  have hheard : (s.frames k).Heard :=
    Machine.run_of_step hstep (heardInv_start serverCount) hrun halive k
  obtain ⟨events, f, hleads, hidle, hlength, hown⟩ := hheard.leads hexpired
  obtain ⟨t, outs', hrun', halive', hframes, hcounters⟩ := run_of_leads halive hleads
  refine ⟨hheard.waiting, events, t, outs', hrun', hlength, hown, halive', ?_, hcounters, ?_⟩
  · rw [hframes, Function.update_self]
    exact hidle
  · intro j hj
    rw [hframes, Function.update_of_ne hj]

/-- One thread is woken for nothing, and another one is still to get its answer. -/
def wokenForNothing : List (Bool × OpenEvent) :=
  [(true, .issue 0), (false, .issue 1), (true, .lock), (true, .spurious), (false, .lock)]

theorem open_returns_spurious :
    ∃ s outs, openWaitMachine.run (OpenWaits.start 2 : OpenWaits Bool) wokenForNothing =
        some (s, outs) ∧
      (((s.frames true).pc = .waiting → (s.frames true).pending = true) ∧
      ∃ (events : List OpenEvent) (t : OpenWaits Bool) (outs' : List Unit),
        openWaitMachine.run s (events.map (true, ·)) = some (t, outs') ∧
        events.length ≤ 1 + (s.frames true).pending.toNat ∧
        (∀ e ∈ events, e = .lock ∨ e = .callback ∨ e = .resume) ∧
        t.alive = true ∧ (t.frames true).pc = .idle ∧ t.timeoutCounters = s.timeoutCounters ∧
        ∀ j, j ≠ true → t.frames j = s.frames j) := by
  have hstands : (openWaitMachine.run (OpenWaits.start 2 : OpenWaits Bool) wokenForNothing).map
      (fun r => (r.1.alive, (r.1.frames true).pc)) = some (true, .woken) := by decide
  obtain ⟨⟨s, outs⟩, hrun, heq⟩ := Option.map_eq_some_iff.mp hstands
  obtain ⟨halive, hpc⟩ := Prod.mk.inj heq
  refine ⟨s, outs, hrun, open_returns 2 hrun halive ?_⟩
  rw [hpc]
  exact OpenPc.noConfusion

end Hvac
