/-
  Hvac/SeekSync.lean
  ==================
  **How concurrent seeks wait for their replies** (`hvac_client_comm_gen_seek_rpc`,
  `hvac_seek_cb` and `hvac_seek_block` of `hvac_comm_client.cpp`).

  Opens and reads bring a flag, a mutex and a condition variable of their own;
  all seeks share one of each, and one result.  A step is one critical section of
  `done_mutex`: an issue clears the flag, a callback increments it, and a wait
  tests it for `HG_TRUE`.  The number of threads is arbitrary; which waiting
  thread a signal wakes and which callback runs next are in the labels.

  A run in which no seek is issued before the previous one returned is right
  (`serial_seeks`), and the first overlap can already go wrong (`overlap_breaks`).
-/
import Hvac.Library.Machine

namespace Hvac

variable {T : Type} [DecidableEq T]

/-! ### State and steps -/

/-- The globals of the file, the requests whose callback has not run, the request
    each thread's `lseek` waits for, and the threads inside `pthread_cond_wait`.
    `hg_bool_t` is an unsigned byte. -/
structure SeekState (T : Type) where
  done : UInt8
  readRet : Int
  issued : Nat
  inFlight : Finset Nat
  pending : T → Option Nat
  doneCond : List T

def HG_FALSE : UInt8 := 0
def HG_TRUE : UInt8 := 1

/-- `woken` is the waiter that `pthread_cond_signal` releases, when there is one. -/
inductive SeekLabel (T : Type) where
  | issue (t : T)
  | callback (request : Nat) (woken : Option T)
  | check (t : T)
  | spurious (t : T)
deriving DecidableEq

namespace SeekState

/-- `pthread_cond_signal` releases a waiter if there is one. -/
def Signals (s : SeekState T) : Option T → Prop
  | none => s.doneCond = []
  | some t => t ∈ s.doneCond

instance (s : SeekState T) (woken : Option T) : Decidable (s.Signals woken) :=
  match woken with
  | none => inferInstanceAs (Decidable (s.doneCond = []))
  | some t => inferInstanceAs (Decidable (t ∈ s.doneCond))

/-- The critical section of `hvac_client_comm_gen_seek_rpc`, and the `HG_Forward`. -/
def genSeekRpc (s : SeekState T) (t : T) : SeekState T :=
  { s with
    readRet := -1
    done := HG_FALSE
    issued := s.issued + 1
    inFlight := insert s.issued s.inFlight
    pending := Function.update s.pending t (some s.issued) }

/-- `hvac_seek_cb`. -/
def seekCb (s : SeekState T) (bytesRead : Int) (request : Nat) (woken : Option T) : SeekState T :=
  { s with
    done := s.done + 1
    readRet := bytesRead
    inFlight := s.inFlight.erase request
    doneCond := s.doneCond.filter (fun t => some t ≠ woken) }

end SeekState

variable (reply : Nat → Int)

/-- `reply r` is the value the response to request `r` carries.  The observation of
    a step is the request of the `lseek` that returns in it, and its result. -/
def seekMachine : Machine (SeekState T) (SeekLabel T) (Option (Nat × Int)) where
  step s
    | .issue t => if s.pending t = none then some (s.genSeekRpc t, none) else none
    | .callback request woken =>
        if request ∈ s.inFlight ∧ s.Signals woken then
          some (s.seekCb (reply request) request woken, none)
        else none
    -- one pass of the loop in `hvac_seek_block`
    | .check t =>
        match s.pending t with
        | none => none
        | some request =>
            if t ∈ s.doneCond then none
            else if s.done = HG_TRUE then
              some ({ s with pending := Function.update s.pending t none },
                some (request, s.readRet))
            else some ({ s with doneCond := t :: s.doneCond }, none)
    | .spurious t =>
        if t ∈ s.doneCond then
          some ({ s with doneCond := s.doneCond.filter (· ≠ t) }, none)
        else none

def seekStart : SeekState T := ⟨HG_FALSE, -1, 0, ∅, fun _ => none, []⟩

/-! ### The two requirements -/

/-- A returning `lseek` returns what the response to its own request carries. -/
def OwnReply (out : Option (Nat × Int)) : Prop := ∀ x ∈ out, x.2 = reply x.1

/-- Every callback has run and some thread still waits for a flag that is not set. -/
def Deadlocked (s : SeekState T) : Prop := s.inFlight = ∅ ∧ s.doneCond ≠ [] ∧ s.done ≠ HG_TRUE

/-- A seek is issued only when no other is in progress. -/
def SerialIssue (s : SeekState T) : SeekLabel T → Prop
  | .issue _ => ∀ t, s.pending t = none
  | .callback _ _ => True
  | .check _ => True
  | .spurious _ => True

/-! ### Serial seeks -/

/-- With at most one seek in progress the flag says whether its callback has run. -/
inductive SerialInv : SeekState T → Prop where
  | quiet {s : SeekState T} (hpending : ∀ t, s.pending t = none) (hflight : s.inFlight = ∅)
      (hcond : s.doneCond = []) : SerialInv s
  | sent {s : SeekState T} {t : T} {request : Nat} (hown : s.pending t = some request)
      (hothers : ∀ u, u ≠ t → s.pending u = none) (hcond : ∀ u ∈ s.doneCond, u = t)
      (hflight : s.inFlight = {request}) (hdone : s.done = HG_FALSE) : SerialInv s
  | answered {s : SeekState T} {t : T} {request : Nat} (hown : s.pending t = some request)
      (hothers : ∀ u, u ≠ t → s.pending u = none) (hcond : ∀ u ∈ s.doneCond, u = t)
      (hflight : s.inFlight = ∅) (hdone : s.done = HG_TRUE) (hret : s.readRet = reply request) :
      SerialInv s

variable {reply}

omit [DecidableEq T] in
theorem SerialInv.not_deadlocked {s : SeekState T} (h : SerialInv reply s) : ¬ Deadlocked s := by
  rintro ⟨hempty, hwaits, hunset⟩
  cases h with
  | quiet _ _ hcond => exact hwaits hcond
  | sent _ _ _ hflight _ =>
    rw [hflight] at hempty
    exact absurd hempty (Finset.singleton_ne_empty _)
  | answered _ _ _ _ hdone _ => exact hunset hdone

theorem SerialInv.issue {s : SeekState T} (h : SerialInv reply s) {t : T}
    (hserial : ∀ u, s.pending u = none) : SerialInv reply (s.genSeekRpc t) := by
  cases h with
  | quiet _ hflight hcond =>
    have hown : (s.genSeekRpc t).pending t = some s.issued := by
      simp only [SeekState.genSeekRpc, Function.update_self]
    refine .sent hown ?_ ?_ ?_ rfl
    · intro u hu
      simp only [SeekState.genSeekRpc, Function.update_of_ne hu]
      exact hserial u
    · intro u hu
      simp only [SeekState.genSeekRpc, hcond] at hu
      cases hu
    · simp only [SeekState.genSeekRpc, hflight]
      rfl
  | sent hown | answered hown =>
    rw [hserial] at hown
    cases hown

theorem SerialInv.callback {s : SeekState T} (h : SerialInv reply s) {request : Nat}
    (woken : Option T) (hmem : request ∈ s.inFlight) :
    SerialInv reply (s.seekCb (reply request) request woken) := by
  cases h with
  | quiet _ hflight | answered _ _ _ hflight =>
    rw [hflight] at hmem
    exact absurd hmem (Finset.notMem_empty _)
  | sent hown hothers hcond hflight hdone =>
    rw [hflight] at hmem
    obtain rfl := Finset.mem_singleton.mp hmem
    refine .answered hown hothers ?_ ?_ ?_ rfl
    · intro u hu
      exact hcond u (List.mem_of_mem_filter hu)
    · simp only [SeekState.seekCb, hflight, Finset.erase_singleton]
    · simp only [SeekState.seekCb, hdone]
      decide

omit [DecidableEq T] in
/-- A thread with a seek in progress is the only one. -/
theorem SerialInv.pending_unique {s : SeekState T} {t v : T} {request r : Nat}
    (ht : s.pending t = some request) (hown : s.pending v = some r)
    (hothers : ∀ u, u ≠ v → s.pending u = none) : v = t ∧ r = request := by
  obtain rfl : t = v := by
    by_contra hne
    rw [hothers t hne] at ht
    cases ht
  exact ⟨rfl, Option.some.inj (hown.symm.trans ht)⟩

/-- The flag is set: it was this thread's own callback. -/
theorem SerialInv.returns {s : SeekState T} (h : SerialInv reply s) {t : T} {request : Nat}
    (ht : s.pending t = some request) (hnotin : t ∉ s.doneCond) (hset : s.done = HG_TRUE) :
    s.readRet = reply request ∧
      SerialInv reply { s with pending := Function.update s.pending t none } := by
  cases h with
  | quiet hnone =>
    rw [hnone] at ht
    cases ht
  | sent _ _ _ _ hunset =>
    rw [hunset] at hset
    cases hset
  | answered hown hothers hcond hflight _ hret =>
    obtain ⟨rfl, rfl⟩ := SerialInv.pending_unique ht hown hothers
    refine ⟨hret, .quiet ?_ hflight ?_⟩
    · intro u
      simp only [Function.update_apply]
      split
      · rfl
      · next hu => exact hothers u hu
    · apply List.eq_nil_iff_forall_not_mem.mpr
      intro u hu
      apply hnotin
      rw [← hcond u hu]
      exact hu

omit [DecidableEq T] in
theorem SerialInv.waits {s : SeekState T} (h : SerialInv reply s) {t : T} {request : Nat}
    (ht : s.pending t = some request) (hunset : s.done ≠ HG_TRUE) :
    SerialInv reply { s with doneCond := t :: s.doneCond } := by
  cases h with
  | quiet hnone =>
    rw [hnone] at ht
    cases ht
  | answered _ _ _ _ hdone => exact absurd hdone hunset
  | sent hown hothers hcond hflight hdone =>
    obtain ⟨rfl, rfl⟩ := SerialInv.pending_unique ht hown hothers
    refine .sent hown hothers ?_ hflight hdone
    intro u hu
    rcases List.mem_cons.mp hu with rfl | hu
    · rfl
    · exact hcond u hu

theorem SerialInv.spurious {s : SeekState T} (h : SerialInv reply s) (t : T) :
    SerialInv reply { s with doneCond := s.doneCond.filter (· ≠ t) } := by
  cases h with
  | quiet hpending hflight hcond =>
    exact .quiet hpending hflight (by simp only [hcond, List.filter_nil])
  | sent hown hothers hcond hflight hdone =>
    exact .sent hown hothers (fun u hu => hcond u (List.mem_of_mem_filter hu)) hflight hdone
  | answered hown hothers hcond hflight hdone hret =>
    exact .answered hown hothers (fun u hu => hcond u (List.mem_of_mem_filter hu)) hflight hdone
      hret

/-- One step of a serial run. -/
theorem SerialInv.step {s s' : SeekState T} {l : SeekLabel T} {out : Option (Nat × Int)}
    (h : SerialInv reply s) (hserial : SerialIssue s l)
    (hstep : (seekMachine reply).step s l = some (s', out)) :
    OwnReply reply out ∧ SerialInv reply s' := by
  have hsilent : OwnReply reply none := fun x hx => by cases hx
  cases l with
  | issue t =>
    simp only [seekMachine, Option.ite_none_right_eq_some, Option.some.injEq,
      Prod.mk.injEq] at hstep
    obtain ⟨-, rfl, rfl⟩ := hstep
    exact ⟨hsilent, h.issue hserial⟩
  | callback request woken =>
    simp only [seekMachine, Option.ite_none_right_eq_some, Option.some.injEq,
      Prod.mk.injEq] at hstep
    obtain ⟨⟨hmem, -⟩, rfl, rfl⟩ := hstep
    exact ⟨hsilent, h.callback woken hmem⟩
  | check t =>
    simp only [seekMachine] at hstep
    rcases ht : s.pending t with _ | request
    · rw [ht] at hstep
      cases hstep
    · simp only [ht] at hstep
      split at hstep
      · cases hstep
      · split at hstep
        · next hnotin hset =>
          cases hstep
          obtain ⟨hret, h'⟩ := h.returns ht hnotin hset
          refine ⟨?_, h'⟩
          intro x hx
          cases hx
          exact hret
        · next hunset =>
          cases hstep
          exact ⟨hsilent, h.waits ht hunset⟩
  | spurious t =>
    simp only [seekMachine, Option.ite_none_right_eq_some, Option.some.injEq,
      Prod.mk.injEq] at hstep
    obtain ⟨-, rfl, rfl⟩ := hstep
    exact ⟨hsilent, h.spurious t⟩

/-- **Along a run whose seeks are issued one after the other, every `lseek` returns
    the reply to its own request and no state is a deadlock.** -/
theorem serial_seeks {labels : List (SeekLabel T)}
    (hserial : (seekMachine reply).Along (fun s l _ _ => SerialIssue s l) seekStart labels) :
    (seekMachine reply).Along (fun _ _ s' out => OwnReply reply out ∧ ¬ Deadlocked s') seekStart
      labels := by
  refine Machine.along_of_invariant (I := SerialInv reply) ?_
    (.quiet (fun _ => rfl) rfl rfl) hserial
  intro s l s' out h hl hstep
  obtain ⟨hout, h'⟩ := h.step hl hstep
  exact ⟨⟨hout, h'.not_deadlocked⟩, h'⟩

/-- Two seeks one after the other, by two threads. -/
theorem serial_seeks_two :
    (seekMachine (fun r => (r : Int) + 7)).Along
      (fun _ _ s' out => OwnReply (fun r => (r : Int) + 7) out ∧ ¬ Deadlocked s')
      (seekStart : SeekState Bool)
      [.issue true, .check true, .callback 0 (some true), .check true, .issue false] := by
  apply serial_seeks
  intro s₁ o₁ h₁
  refine ⟨fun _ => rfl, ?_⟩
  cases h₁
  intro s₂ o₂ h₂
  refine ⟨trivial, ?_⟩
  cases h₂
  intro s₃ o₃ h₃
  refine ⟨trivial, ?_⟩
  cases h₃
  intro s₄ o₄ h₄
  refine ⟨trivial, ?_⟩
  cases h₄
  intro s₅ o₅ h₅
  exact ⟨fun t => by cases t <;> rfl, trivial⟩

/-! ### Overlapping seeks -/

omit [DecidableEq T] in
theorem SerialInv.pending_eq {s : SeekState T} (h : SerialInv reply s) {t : T} {request : Nat}
    (ht : s.pending t = some request) :
    (∀ u ∈ s.doneCond, u = t) ∧
      ((s.inFlight = {request} ∧ s.done = HG_FALSE) ∨ (s.inFlight = ∅ ∧ s.done = HG_TRUE)) := by
  cases h with
  | quiet hnone => rw [hnone] at ht; cases ht
  | sent hown hothers hcond hflight hdone =>
    obtain ⟨rfl, rfl⟩ := SerialInv.pending_unique ht hown hothers
    exact ⟨hcond, Or.inl ⟨hflight, hdone⟩⟩
  | answered hown hothers hcond hflight hdone _ =>
    obtain ⟨rfl, rfl⟩ := SerialInv.pending_unique ht hown hothers
    exact ⟨hcond, Or.inr ⟨hflight, hdone⟩⟩

/-- A signal releases the only thread that can wait. -/
theorem exists_signal {s : SeekState T} {t : T} (hcond : ∀ u ∈ s.doneCond, u = t) :
    ∃ woken, s.Signals woken ∧ s.doneCond.filter (fun u => some u ≠ woken) = [] := by
  rcases hempty : s.doneCond with _ | ⟨v, rest⟩
  · exact ⟨none, hempty, rfl⟩
  · obtain rfl : v = t := hcond v (by rw [hempty]; exact List.mem_cons_self)
    refine ⟨some v, ?_, ?_⟩
    · simp only [SeekState.Signals, hempty, List.mem_cons_self]
    · rw [List.filter_eq_nil_iff, ← hempty]
      intro u hu
      simp [hcond u hu]

theorem step_issue {s : SeekState T} {t : T} (h : s.pending t = none) :
    (seekMachine reply).step s (.issue t) = some (s.genSeekRpc t, none) := by
  simp only [seekMachine, h, if_true]

theorem step_callback {s : SeekState T} {request : Nat} {woken : Option T}
    (hmem : request ∈ s.inFlight) (hsignals : s.Signals woken) :
    (seekMachine reply).step s (.callback request woken) =
      some (s.seekCb (reply request) request woken, none) := by
  simp only [seekMachine, hmem, hsignals, and_self, if_true]

theorem step_check {s : SeekState T} {t : T} {request : Nat} (ht : s.pending t = some request)
    (hcond : s.doneCond = []) :
    (seekMachine reply).step s (.check t) =
      if s.done = HG_TRUE then
        some ({ s with pending := Function.update s.pending t none }, some (request, s.readRet))
      else some ({ s with doneCond := [t] }, none) := by
  simp only [seekMachine, ht, hcond, List.not_mem_nil, if_false]

section Overlap

variable {s : SeekState T} {t u : T} {request : Nat} {woken : Option T}

/-- The first thread's request has no callback yet: both callbacks increment the
    flag before either thread tests it. -/
theorem overlap_deadlocks (ht : s.pending t = some request) (hu : s.pending u = none)
    (hnew : request ≠ s.issued) (htu : t ≠ u) (hflight : s.inFlight = {request})
    (hsignals : s.Signals woken) (hwoken : s.doneCond.filter (fun v => some v ≠ woken) = []) :
    ∃ labels s' outs, (seekMachine reply).run s (.issue u :: labels) = some (s', outs) ∧
      Deadlocked s' := by
  let s₂ := (s.genSeekRpc u).seekCb (reply request) request woken
  let s₃ := s₂.seekCb (reply s.issued) s.issued none
  have ht₃ : s₃.pending t = some request := by
    show Function.update s.pending u (some s.issued) t = some request
    rw [Function.update_of_ne htu, ht]
  have hfirst : (seekMachine reply).step (s.genSeekRpc u) (.callback request woken) =
      some (s₂, none) := by
    apply step_callback
    · rw [SeekState.genSeekRpc, hflight]
      exact Finset.mem_insert_of_mem (Finset.mem_singleton_self _)
    · cases woken <;> exact hsignals
  have hsecond : (seekMachine reply).step s₂ (.callback s.issued none) = some (s₃, none) := by
    refine step_callback ?_ hwoken
    exact Finset.mem_erase.mpr ⟨hnew.symm, Finset.mem_insert_self _ _⟩
  have hcond₃ : s₃.doneCond = [] := List.filter_eq_nil_iff.mpr fun v hv => by
    have hv' : v ∈ s.doneCond.filter (fun u => some u ≠ woken) := hv
    rw [hwoken] at hv'
    cases hv'
  have hunset : s₃.done ≠ HG_TRUE := by
    show HG_FALSE + 1 + 1 ≠ HG_TRUE
    decide
  have hcheck : (seekMachine reply).step s₃ (.check t) =
      some ({ s₃ with doneCond := [t] }, none) := by
    rw [step_check ht₃ hcond₃, if_neg hunset]
  have hempty : s₃.inFlight = ∅ := by
    show ((insert s.issued s.inFlight).erase request).erase s.issued = ∅
    rw [hflight]
    ext r
    simp only [Finset.mem_erase, Finset.mem_insert, Finset.mem_singleton, Finset.notMem_empty]
    tauto
  exact ⟨[.callback request woken, .callback s.issued none, .check t], _, _,
    Machine.run_cons_eq_some_iff.mpr ⟨_, _, _, step_issue hu,
      Machine.run_cons_eq_some_iff.mpr ⟨_, _, _, hfirst,
        Machine.run_cons_eq_some_iff.mpr ⟨_, _, _, hsecond,
          Machine.run_cons_eq_some_iff.mpr ⟨_, _, _, hcheck, rfl, rfl⟩, rfl⟩, rfl⟩, rfl⟩,
    hempty, List.cons_ne_nil _ _, hunset⟩

/-- The first thread's callback has run: the second one overwrites the result that
    the thread has not read yet. -/
theorem overlap_mixes (ht : s.pending t = some request) (hu : s.pending u = none)
    (htu : t ≠ u) (hreply : reply s.issued ≠ reply request) (hsignals : s.Signals woken)
    (hwoken : s.doneCond.filter (fun v => some v ≠ woken) = []) :
    ∃ labels s' outs, (seekMachine reply).run s (.issue u :: labels) = some (s', outs) ∧
      ∃ out ∈ outs, ¬ OwnReply reply out := by
  let s₂ := (s.genSeekRpc u).seekCb (reply s.issued) s.issued woken
  have ht₂ : s₂.pending t = some request := by
    show Function.update s.pending u (some s.issued) t = some request
    rw [Function.update_of_ne htu, ht]
  have hfirst : (seekMachine reply).step (s.genSeekRpc u) (.callback s.issued woken) =
      some (s₂, none) := by
    apply step_callback (Finset.mem_insert_self _ _)
    cases woken <;> exact hsignals
  have hset : s₂.done = HG_TRUE := by
    show HG_FALSE + 1 = HG_TRUE
    decide
  have hcheck : (seekMachine reply).step s₂ (.check t) =
      some ({ s₂ with pending := Function.update s₂.pending t none },
        some (request, reply s.issued)) := by
    rw [step_check ht₂ hwoken, if_pos hset]
    rfl
  refine ⟨[.callback s.issued woken, .check t], _, _,
    Machine.run_cons_eq_some_iff.mpr ⟨_, _, _, step_issue hu,
      Machine.run_cons_eq_some_iff.mpr ⟨_, _, _, hfirst,
        Machine.run_cons_eq_some_iff.mpr ⟨_, _, _, hcheck, rfl, rfl⟩, rfl⟩, rfl⟩,
    some (request, reply s.issued), by simp, ?_⟩
  intro hown
  exact hreply (hown _ rfl)

end Overlap

/-- From a state of a serial run in which a thread's seek is in progress, another
    thread's seek can lead to a deadlock or hand its reply to the first thread. -/
theorem overlap_breaks {s : SeekState T} (h : SerialInv reply s) {t u : T} {request : Nat}
    (ht : s.pending t = some request) (hu : s.pending u = none)
    (hreply : reply s.issued ≠ reply request) :
    ∃ labels s' outs, (seekMachine reply).run s (.issue u :: labels) = some (s', outs) ∧
      (Deadlocked s' ∨ ∃ out ∈ outs, ¬ OwnReply reply out) := by
  have hnew : request ≠ s.issued := by
    rintro rfl
    exact hreply rfl
  have htu : t ≠ u := by
    rintro rfl
    rw [ht] at hu
    cases hu
  obtain ⟨hcond, hcase⟩ := h.pending_eq ht
  obtain ⟨woken, hsignals, hwoken⟩ := exists_signal hcond
  rcases hcase with ⟨hflight, -⟩ | -
  · obtain ⟨labels, s', outs, hrun, hdead⟩ :=
      overlap_deadlocks ht hu hnew htu hflight hsignals hwoken
    exact ⟨labels, s', outs, hrun, Or.inl hdead⟩
  · obtain ⟨labels, s', outs, hrun, hmixed⟩ := overlap_mixes ht hu htu hreply hsignals hwoken
    exact ⟨labels, s', outs, hrun, Or.inr hmixed⟩

/-- Two threads: both callbacks run before a test, and both threads are stuck; or
    the second seek's reply arrives before the first thread reads its own. -/
theorem seeks_mix :
    (∃ s outs, (seekMachine (fun r => (r : Int) + 7)).run (seekStart : SeekState Bool)
      [.issue true, .issue false, .callback 0 none, .callback 1 none, .check true,
        .check false] = some (s, outs) ∧ Deadlocked s) ∧
    ∃ s outs, (seekMachine (fun r => (r : Int) + 7)).run (seekStart : SeekState Bool)
      [.issue true, .callback 0 none, .issue false, .callback 1 none, .check true] =
        some (s, outs) ∧ ∃ out ∈ outs, ¬ OwnReply (fun r => (r : Int) + 7) out := by
  constructor
  · exact ⟨_, _, rfl, by decide, by decide, by decide⟩
  · refine ⟨_, _, rfl, some (0, 8), by decide, ?_⟩
    intro hown
    exact absurd (hown _ rfl) (by decide)

end Hvac
