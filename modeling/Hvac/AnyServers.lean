/-
  Hvac/AnyServers.lean
  ====================
  **What a process is owed whatever its servers do.**

  The servers give any answer to any request, or none; timeouts are recorded for any
  of them, and the failover code gives servers up.  Two things hold even then.  A
  descriptor that was never handed to the library is the local one, for every call.
  And as long as a positional read is answered with bytes of the file or with a
  failure, it returns what the plain file system would: the descriptor the wrapper
  falls back to is open on the same file, and no position is needed
  (`owed_whatever_servers_do`).

  A sequential read is owed nothing of the kind: it leaves the local position behind.
-/
import Hvac.Tracking
import Hvac.Simulation

namespace Hvac

open Cxx Posix

/-! ### Machines -/

/-- A call with the answer to the request it may send; a timeout in a wait of another
    thread; and a file that somebody else changes. -/
inductive AnyLabel where
  | call (call : AppCall) (answer : Option Reply)
  | timeout (host : Int)
  | change (file : String) (data : Contents)
deriving DecidableEq

/-- The descriptors that have been handed to the library since they were opened. -/
def AppCall.handed (env : Env) (handed : List Int) : AppCall → List Int
  | .openFile path flags ret =>
      if ret = -1 then handed
      else if (trackPath env path flags).isSome then ret :: handed
      else handed.filter (· ≠ ret)
  | .close fd => handed.filter (· ≠ fd)
  | .read _ _ => handed
  | .pread _ _ _ => handed
  | .lseek _ _ _ => handed
  | .read64 _ _ => handed
  | .readv _ _ => handed
  | .write _ _ => handed

/-- The calls whose result is watched: all but those that use the position of a
    descriptor handed to the library. -/
def AppCall.Owed (handed : List Int) : AppCall → Prop
  | .openFile _ _ _ => True
  | .close _ => True
  | .pread _ _ _ => True
  | .read fd _ => fd ∉ handed
  | .lseek fd _ _ => fd ∉ handed
  | .read64 fd _ => fd ∉ handed
  | .readv fd _ => fd ∉ handed
  | .write fd _ => fd ∉ handed

instance (handed : List Int) (call : AppCall) : Decidable (call.Owed handed) :=
  match call with
  | .openFile _ _ _ => isTrue trivial
  | .close _ => isTrue trivial
  | .pread _ _ _ => isTrue trivial
  | .read fd _ => inferInstanceAs (Decidable (fd ∉ handed))
  | .lseek fd _ _ => inferInstanceAs (Decidable (fd ∉ handed))
  | .read64 fd _ => inferInstanceAs (Decidable (fd ∉ handed))
  | .readv fd _ => inferInstanceAs (Decidable (fd ∉ handed))
  | .write fd _ => inferInstanceAs (Decidable (fd ∉ handed))

variable (env : Env) (rl : ReadLen)

/-- The process with the library; only what is owed is observed. -/
def anyMachine : Machine (TrackState × List Int) AnyLabel (Option (Outcome Reply)) where
  step x l :=
    if x.1.status = .running then
      match l with
      | .call call answer =>
          match call.perform env rl (fun _ _ _ => answer) x.1.proc with
          | none => none
          | some e =>
              some ((⟨e.state, e.outcome.status⟩, call.handed env x.2),
                if call.Owed x.2 then some e.outcome else none)
      | .timeout host =>
          some ((⟨{ x.1.proc with client := x.1.proc.client.recordTimeout host }, .running⟩, x.2),
            none)
      | .change file data =>
          some ((⟨{ x.1.proc with files := x.1.proc.files.insert file data }, .running⟩, x.2), none)
    else none

/-- The process without it. -/
def plainAnyMachine : Machine (Proc × List Int) AnyLabel (Option (Outcome Reply)) where
  step y l :=
    match l with
    | .call call _ =>
        match call.direct env rl y.1 with
        | none => none
        | some (q, out) =>
            some ((q, call.handed env y.2), if call.Owed y.2 then some (.returned out) else none)
    | .timeout _ => some (y, none)
    | .change file data => some (({ y.1 with files := y.1.files.insert file data }, y.2), none)

/-- The bytes that a positional read of the path is to return. -/
def preadBytes (files : Files) (path : String) (count : Nat) (offset : Int) : Reply :=
  let n := rl.len (files.content path).length offset.toNat count
  ⟨n, slice (files.content path) offset.toNat n⟩

/-- A positional read of a tracked descriptor is answered with a failure, or within the
    offsets of a file with its bytes; nothing is tracked with flags that are not
    plain; and no descriptor handed to the library is written.  Every other answer is
    left open. -/
def Decent (x : TrackState × List Int) : AnyLabel → Prop
  | .call (.pread fd count offset) answer =>
      ∀ path ∈ x.1.proc.client.fdMap.find? fd, ∀ out ∈ answer,
        out.ret < 0 ∨ (0 ≤ offset ∧ offset.toNat + count ≤ LOFF_MAX) ∧
          out = preadBytes rl x.1.proc.files path count offset
  | .call (.write fd _) _ => fd ∉ x.2
  | .call (.openFile path flags _) _ => ∀ _file ∈ trackPath env path flags, PlainFlags flags
  | .call (.read _ _) _ => True
  | .call (.lseek _ _ _) _ => True
  | .call (.close _) _ => True
  | .call (.read64 _ _) _ => True
  | .call (.readv _ _) _ => True
  | .timeout _ => True
  | .change _ _ => True

instance (x : TrackState × List Int) (l : AnyLabel) : Decidable (Decent env rl x l) :=
  match l with
  | .call (.pread fd _ _) answer =>
      inferInstanceAs (Decidable (∀ path ∈ x.1.proc.client.fdMap.find? fd, ∀ out ∈ answer, _ ∨ _))
  | .call (.write fd _) _ => inferInstanceAs (Decidable (fd ∉ x.2))
  | .call (.openFile path flags _) _ =>
      inferInstanceAs (Decidable (∀ _ ∈ trackPath env path flags, PlainFlags flags))
  | .call (.read _ _) _ => isTrue trivial
  | .call (.lseek _ _ _) _ => isTrue trivial
  | .call (.close _) _ => isTrue trivial
  | .call (.read64 _ _) _ => isTrue trivial
  | .call (.readv _ _) _ => isTrue trivial
  | .timeout _ => isTrue trivial
  | .change _ _ => isTrue trivial

variable {env rl}

/-! ### Two tables -/

/-- A descriptor but for its position. -/
def fileAndFlags (f : OpenFile String) : String × OFlags := (f.file, f.flags)

/-- The tables differ at most in the positions of descriptors in `handed`. -/
structure SameBut (handed : List Int) (t t' : FdTable String) : Prop where
  kind : ∀ fd, (t'.find? fd).map fileAndFlags = (t.find? fd).map fileAndFlags
  clean : ∀ fd ∉ handed, t'.find? fd = t.find? fd

section Tables

variable {handed : List Int} {t t' u u' : FdTable String} {fd : Int}

theorem fileAndFlags_of_movesOnly (h : MovesOnly fd t u) (k : Int) :
    (u.find? k).map fileAndFlags = (t.find? k).map fileAndFlags := by
  obtain ⟨pos, hpos⟩ := h
  rw [hpos]
  split
  · rcases t.find? k with _ | f
    · rfl
    · rfl
  · rfl

theorem SameBut.moves (h : SameBut handed t t') (hu : MovesOnly fd t u) (hu' : MovesOnly fd t' u')
    (hclean : fd ∉ handed → u'.find? fd = u.find? fd) : SameBut handed u u' where
  kind k := by rw [fileAndFlags_of_movesOnly hu, fileAndFlags_of_movesOnly hu', h.kind]
  clean k hk := by
    by_cases hfd : k = fd
    · rw [hfd] at hk ⊢
      exact hclean hk
    · rw [hu.find?_of_ne hfd, hu'.find?_of_ne hfd, h.clean k hk]

theorem SameBut.find?_eq_none_iff (h : SameBut handed t t') (fd : Int) :
    t'.find? fd = none ↔ t.find? fd = none := by
  have hkind := h.kind fd
  rw [← Option.map_eq_none_iff (f := fileAndFlags), hkind, Option.map_eq_none_iff]

theorem SameBut.exists_find? (h : SameBut handed t t') {f : OpenFile String}
    (hf : t.find? fd = some f) :
    ∃ f', t'.find? fd = some f' ∧ f'.file = f.file ∧ f'.flags = f.flags := by
  have hkind := h.kind fd
  rw [hf, Option.map_some, Option.map_eq_some_iff] at hkind
  obtain ⟨f', hf', hsame⟩ := hkind
  exact ⟨f', hf', congrArg Prod.fst hsame, congrArg Prod.snd hsame⟩

/-- A positional read sees no position. -/
theorem SameBut.sysPread (h : SameBut handed t t') (content : String → Contents) (count : Nat)
    (offset : Int) :
    (sysPread rl content t' fd count offset).ret = (sysPread rl content t fd count offset).ret ∧
      (sysPread rl content t' fd count offset).data =
        (sysPread rl content t fd count offset).data := by
  unfold Posix.sysPread
  rcases hf : t.find? fd with _ | f
  · rw [(h.find?_eq_none_iff fd).mpr hf]
    exact ⟨rfl, rfl⟩
  · obtain ⟨f', hf', hfile, hflags⟩ := h.exists_find? hf
    simp only [hf', hfile, hflags]
    split
    · exact ⟨rfl, rfl⟩
    · exact ⟨rfl, rfl⟩

theorem SameBut.sysClose (h : SameBut handed t t') (fd : Int) :
    (sysClose t' fd).1 = (sysClose t fd).1 ∧
      SameBut (handed.filter (· ≠ fd)) (sysClose t fd).2 (sysClose t' fd).2 := by
  refine ⟨?_, fun k => ?_, fun k hk => ?_⟩
  · unfold Posix.sysClose
    rcases hf : t.find? fd with _ | f
    · rw [(h.find?_eq_none_iff fd).mpr hf]
    · obtain ⟨f', hf', -⟩ := h.exists_find? hf
      rw [hf']
  · rw [find?_sysClose, find?_sysClose]
    split
    · rfl
    · exact h.kind k
  · rw [find?_sysClose, find?_sysClose]
    split
    · rfl
    · next hne =>
      apply h.clean
      intro hmem
      exact hk (List.mem_filter.mpr ⟨hmem, by simpa using hne⟩)

theorem SameBut.insert (h : SameBut handed t t') (fd : Int) (f : OpenFile String)
    {handed' : List Int} (hrest : ∀ k, k ≠ fd → k ∉ handed' → k ∉ handed) :
    SameBut handed' (t.insert fd f) (t'.insert fd f) where
  kind k := by
    rw [OrdMap.find?_insert, OrdMap.find?_insert]
    split
    · rfl
    · exact h.kind k
  clean k hk := by
    rw [OrdMap.find?_insert, OrdMap.find?_insert]
    split
    · rfl
    · next hne => exact h.clean k (hrest k hne hk)

end Tables

/-! ### With the library and without -/

/-- The process with the library (`s`) and the one without (`p`). -/
structure AlikeOutside (handed : List Int) (s p : Proc) : Prop where
  files : p.files = s.files
  fds : SameBut handed s.fds p.fds
  tracked : ∀ fd path, s.client.fdMap.find? fd = some path → fd ∈ handed ∧
    ∃ f, s.fds.find? fd = some f ∧ f.file = path ∧ canRead f.flags = true

section Calls

variable {handed : List Int} {s p : Proc} {answer : Option Reply} {fd : Int}

theorem AlikeOutside.untracked (h : AlikeOutside handed s p) (hfd : fd ∉ handed) :
    s.client.fdMap.find? fd = none := by
  rcases hpath : s.client.fdMap.find? fd with _ | path
  · rfl
  · exact absurd (h.tracked fd path hpath).1 hfd

theorem AlikeOutside.setClient (h : AlikeOutside handed s p) {c : Client}
    (hsub : ∀ fd path, c.fdMap.find? fd = some path → s.client.fdMap.find? fd = some path) :
    AlikeOutside handed { s with client := c } p :=
  ⟨h.files, h.fds, fun fd path hpath => h.tracked fd path (hsub fd path hpath)⟩

/-- Both processes move at most the position of `fd`, alike if it is watched. -/
theorem AlikeOutside.moves (h : AlikeOutside handed s p) {t t' : FdTable String} (ht : MovesOnly fd s.fds t)
    (ht' : MovesOnly fd p.fds t') (hclean : fd ∉ handed → t'.find? fd = t.find? fd) :
    AlikeOutside handed { s with fds := t } { p with fds := t' } where
  files := h.files
  fds := h.fds.moves ht ht' hclean
  tracked k path hpath := by
    obtain ⟨hhanded, f, hf, hfile, hread⟩ := h.tracked k path hpath
    obtain ⟨pos, hpos⟩ := ht
    refine ⟨hhanded, ?_⟩
    show ∃ f', t.find? k = some f' ∧ f'.file = path ∧ canRead f'.flags = true
    rw [hpos]
    split
    · rw [hf, Option.map_some]
      exact ⟨_, rfl, hfile, hread⟩
    · exact ⟨f, hf, hfile, hread⟩

theorem AlikeOutside.realRead (h : AlikeOutside handed s p) (fd : Int) (count : Nat) :
    AlikeOutside handed (realRead rl s fd count).1 (realRead rl p fd count).1 ∧
      (fd ∉ handed → (realRead rl p fd count).2 = (realRead rl s fd count).2) := by
  have hcongr : fd ∉ handed → _ := fun hfd =>
    @sysRead_congr String rl s.files.content _ _ fd (h.fds.clean fd hfd) count
  constructor
  · have hmoves := h.moves (@sysRead_movesOnly String rl s.files.content s.fds fd count)
      (@sysRead_movesOnly String rl s.files.content p.fds fd count) fun hfd => (hcongr hfd).2.2
    simp only [Hvac.realRead, h.files]
    exact ⟨rfl, hmoves.fds, hmoves.tracked⟩
  · intro hfd
    obtain ⟨hret, hdata, -⟩ := hcongr hfd
    simp only [Hvac.realRead, h.files, hret, hdata]

theorem AlikeOutside.realLseek (h : AlikeOutside handed s p) (fd offset whence : Int) :
    AlikeOutside handed (realLseek s fd offset whence).1 (realLseek p fd offset whence).1 ∧
      (fd ∉ handed → (realLseek p fd offset whence).2 = (realLseek s fd offset whence).2) := by
  have hcongr : fd ∉ handed → _ := fun hfd =>
    @sysSeek_congr String s.files.content _ _ fd (h.fds.clean fd hfd) offset whence
  constructor
  · have hmoves := h.moves (@sysSeek_movesOnly String s.files.content s.fds fd offset whence)
      (@sysSeek_movesOnly String s.files.content p.fds fd offset whence) fun hfd => (hcongr hfd).2
    simp only [Hvac.realLseek, h.files]
    exact ⟨rfl, hmoves.fds, hmoves.tracked⟩
  · intro hfd
    simp only [Hvac.realLseek, h.files, (hcongr hfd).1]

theorem AlikeOutside.realPread (h : AlikeOutside handed s p) (fd : Int) (count : Nat) (offset : Int) :
    AlikeOutside handed (realPread rl s fd count offset).1 (realPread rl p fd count offset).1 ∧
      (realPread rl p fd count offset).2 = (realPread rl s fd count offset).2 := by
  obtain ⟨hret, hdata⟩ := @SameBut.sysPread rl handed s.fds p.fds fd h.fds s.files.content count offset
  simp only [Hvac.realPread, h.files, sysPread_fds, hret, hdata, and_true]
  exact ⟨rfl, h.fds, h.tracked⟩

theorem AlikeOutside.realWrite (h : AlikeOutside handed s p) (hfd : fd ∉ handed) (data : Contents) :
    AlikeOutside handed (realWrite s fd data).1 (realWrite p fd data).1 ∧
      (realWrite p fd data).2 = (realWrite s fd data).2 := by
  unfold Hvac.realWrite
  rw [h.files]
  rcases @sysWrite_congr String s.files.content _ _ fd (h.fds.clean fd hfd).symm data with
    ⟨hs, hp⟩ | ⟨f, pos, contents, hf, hs, hp⟩
  · rw [hs, hp]
    exact ⟨h, rfl⟩
  · rw [hs, hp]
    have hf' := (h.fds.clean fd hfd).trans hf
    have hmoves := h.moves (MovesOnly.insert hf pos) (MovesOnly.insert hf' pos) fun _ => by
      rw [OrdMap.find?_insert_self, OrdMap.find?_insert_self]
    exact ⟨⟨rfl, hmoves.fds, hmoves.tracked⟩, rfl⟩

/-- What a call with the library left and answered, against what it does without. -/
structure Matches (handed : List Int) (owed : Prop) (e : Effect Proc Reply) (q : Proc × Reply) :
    Prop where
  alike : AlikeOutside handed e.state q.1
  answer : owed → e.outcome = .returned q.2

/-- What a call on a descriptor leaves tracked was tracked before. -/
theorem CallLeaves.tracked {c c' : Client} (h : CallLeaves env c c') (fd : Int) (path : String)
    (hpath : c'.fdMap.find? fd = some path) : c.fdMap.find? fd = some path :=
  (h.untracks fd path hpath).1

theorem AlikeOutside.read (h : AlikeOutside handed s p) (count : Nat)
    (hstatus : (wrapRead env rl (fun _ _ _ => answer) s fd count).outcome.status = .running) :
    Matches handed (fd ∉ handed) (wrapRead env rl (fun _ _ _ => answer) s fd count)
      (Hvac.realRead rl p fd count) := by
  have hleaves := @hvacRemoteRead_leaves env (fun _ _ => answer) s.client fd count
  have hlocal : fd ∉ handed →
      hvacRemoteRead env (fun _ _ => answer) s.client fd count =
        ⟨s.client, [], .returned ⟨-1, []⟩⟩ := by
    intro hfd
    simp only [hvacRemoteRead, Client.hvacGetPath_eq, h.untracked hfd]
  unfold wrapRead Effect.andThen at hstatus ⊢
  generalize hvacRemoteRead env (fun _ _ => answer) s.client fd count = r at *
  obtain ⟨c, sent, outcome⟩ := r
  have hc := h.setClient hleaves.tracked
  cases outcome with
  | blocked | exited | threw => cases hstatus
  | returned out =>
    dsimp only
    by_cases hneg : int32 out.ret < 0
    · -- the fallback reads the local descriptor
      obtain ⟨hafter, hsame⟩ := hc.realRead fd count
      rw [if_pos hneg]
      refine ⟨hafter, fun hfd => ?_⟩
      rw [hsame hfd, int32_realRead]
    · rw [if_neg hneg]
      have hhanded : ¬ fd ∉ handed := by
        intro hfd
        have hout := congrArg Effect.outcome (hlocal hfd)
        obtain rfl := Outcome.returned.inj hout
        exact hneg (by decide)
      refine ⟨?_, fun hfd => absurd hfd hhanded⟩
      exact hc.moves (MovesOnly.refl fd s.fds) (sysRead_movesOnly p.fds fd count)
        fun hfd => absurd hfd hhanded

theorem realPread_proc (s : Proc) (fd : Int) (count : Nat) (offset : Int) :
    (realPread rl s fd count offset).1 = s := by
  simp only [realPread, sysPread_fds]

theorem hvacRemotePread_returned {c : Client} {count : Nat} {offset : Int} {out : Reply}
    (h : (hvacRemotePread env (fun _ _ => answer) c fd count offset).outcome = .returned out) :
    out.ret < 0 ∨ answer = some out := by
  unfold hvacRemotePread at h
  split at h
  · obtain rfl := Outcome.returned.inj h
    exact Or.inl (by decide)
  · split at h
    · cases h
    · split at h
      · obtain rfl := Outcome.returned.inj h
        exact Or.inl (by decide)
      · dsimp only at h
        split at h
        · exact Or.inr (congrArg some (Outcome.returned.inj h))
        · cases h

/-- What the local descriptor of a tracked file reads. -/
theorem AlikeOutside.realPread_tracked (h : AlikeOutside handed s p) {path : String}
    (hpath : s.client.fdMap.find? fd = some path) {count : Nat} {offset : Int}
    (hoffset : 0 ≤ offset) (hend : offset.toNat + count ≤ LOFF_MAX) :
    (Hvac.realPread rl s fd count offset).2 = preadBytes rl s.files path count offset := by
  obtain ⟨-, f, hf, rfl, hread⟩ := h.tracked fd path hpath
  simp only [Hvac.realPread, sysPread_of_find? hf hread hoffset hend, preadBytes]

theorem AlikeOutside.pread (h : AlikeOutside handed s p) {count : Nat} {offset : Int}
    (hdecent : ∀ path ∈ s.client.fdMap.find? fd, ∀ out ∈ answer,
      out.ret < 0 ∨ (0 ≤ offset ∧ offset.toNat + count ≤ LOFF_MAX) ∧
        out = preadBytes rl s.files path count offset)
    (hstatus : (wrapPread env rl (fun _ _ _ => answer) s fd count offset).outcome.status =
      .running) :
    Matches handed True (wrapPread env rl (fun _ _ _ => answer) s fd count offset)
      (Hvac.realPread rl p fd count offset) := by
  have hleaves := @hvacRemotePread_leaves env (fun _ _ => answer) s.client fd count offset
  have hreturned := fun out =>
    @hvacRemotePread_returned env answer fd s.client count offset out
  unfold wrapPread at hstatus ⊢
  rw [Client.hvacGetPath_eq] at hstatus ⊢
  rcases hpath : s.client.fdMap.find? fd with _ | path
  · obtain ⟨hafter, hsame⟩ := @AlikeOutside.realPread rl handed s p h fd count offset
    exact ⟨hafter, fun _ => congrArg Outcome.returned hsame.symm⟩
  · simp only [hpath, Effect.andThen] at hstatus ⊢
    generalize hvacRemotePread env (fun _ _ => answer) s.client fd count offset = r at *
    obtain ⟨c, sent, outcome⟩ := r
    have hc := h.setClient hleaves.tracked
    obtain ⟨hafter, hsame⟩ := @AlikeOutside.realPread rl handed _ p hc fd count offset
    cases outcome with
    | blocked | exited | threw => cases hstatus
    | returned out =>
      dsimp only
      by_cases hneg : out.ret < 0
      · rw [if_pos hneg]
        exact ⟨hafter, fun _ => congrArg Outcome.returned hsame.symm⟩
      · rw [if_neg hneg]
        rw [realPread_proc] at hafter
        refine ⟨hafter, fun _ => congrArg Outcome.returned ?_⟩
        -- an answer that is no failure is the file's bytes
        have hanswer := (hreturned out rfl).resolve_left hneg
        obtain ⟨⟨hoffset, hend⟩, hout⟩ := (hdecent path hpath out hanswer).resolve_left hneg
        have hlocal : (Hvac.realPread rl s fd count offset).2 = _ :=
          h.realPread_tracked hpath hoffset hend
        exact hout.trans (hlocal.symm.trans hsame.symm)

theorem AlikeOutside.lseek (h : AlikeOutside handed s p) {offset whence : Int}
    (hstatus : (wrapLseek env (fun _ _ _ => answer) s fd offset whence).outcome.status =
      .running) :
    Matches handed (fd ∉ handed) (wrapLseek env (fun _ _ _ => answer) s fd offset whence).ofRet
      ((Hvac.realLseek p fd offset whence).1, ⟨(Hvac.realLseek p fd offset whence).2, []⟩) := by
  have hleaves := @hvacRemoteLseek_leaves env (fun _ _ => answer) s.client fd offset whence
  unfold wrapLseek at hstatus ⊢
  rw [Client.hvacFileTracked_eq] at hstatus ⊢
  rcases hpath : s.client.fdMap.find? fd with _ | path
  · obtain ⟨hafter, hsame⟩ := h.realLseek fd offset whence
    refine ⟨hafter, fun hfd => ?_⟩
    rw [hsame hfd]
    rfl
  · have hhanded := (h.tracked fd path hpath).1
    simp only [hpath, Option.isSome_some, if_true, Effect.andThen] at hstatus ⊢
    generalize hvacRemoteLseek env (fun _ _ => answer) s.client fd offset whence = r at *
    obtain ⟨c, sent, outcome⟩ := r
    have hc := h.setClient hleaves.tracked
    cases outcome with
    | blocked | exited | threw => cases hstatus
    | returned ret =>
      refine ⟨?_, fun hfd => absurd hhanded hfd⟩
      exact hc.moves (MovesOnly.refl fd s.fds) (sysSeek_movesOnly p.fds fd offset whence)
        fun hfd => absurd hhanded hfd

theorem AlikeOutside.realClose (h : AlikeOutside handed s p) (hfd : s.client.fdMap.find? fd = none) :
    AlikeOutside (handed.filter (· ≠ fd)) (Hvac.realClose s fd).1 (Hvac.realClose p fd).1 ∧
      (Hvac.realClose p fd).2 = (Hvac.realClose s fd).2 := by
  obtain ⟨hret, hfds⟩ := h.fds.sysClose fd
  refine ⟨⟨h.files, hfds, fun k path hpath => ?_⟩, hret⟩
  obtain ⟨hhanded, f, hf, hrest⟩ := h.tracked k path hpath
  have hne : k ≠ fd := by
    rintro rfl
    exact Option.some_ne_none path (hpath.symm.trans hfd)
  refine ⟨List.mem_filter.mpr ⟨hhanded, by simpa using hne⟩, f, ?_, hrest⟩
  rw [find?_realClose, if_neg hne]
  exact hf

theorem AlikeOutside.close (h : AlikeOutside handed s p)
    (hstatus : (wrapClose env s fd).outcome.status = .running) :
    Matches (handed.filter (· ≠ fd)) True (wrapClose env s fd).ofRet
      ((Hvac.realClose p fd).1, ⟨(Hvac.realClose p fd).2, []⟩) := by
  unfold wrapClose at hstatus ⊢
  rw [Client.hvacGetPath_eq] at hstatus ⊢
  rcases hpath : s.client.fdMap.find? fd with _ | path
  · obtain ⟨hafter, hsame⟩ := h.realClose hpath
    refine ⟨hafter, fun _ => ?_⟩
    rw [hsame]
    rfl
  · simp only [hpath, Effect.andThen] at hstatus ⊢
    rcases @hvacRemoveFd_fdMap env s.client fd with ⟨⟨b, hb⟩, hmap⟩ | ⟨⟨what, hwhat⟩, -⟩
    · simp only [hb] at hstatus ⊢
      have hc : AlikeOutside handed { s with client := (hvacRemoveFd env s.client fd).state } p := by
        apply h.setClient
        intro k path' hpath'
        rw [hmap] at hpath'
        split at hpath'
        · cases hpath'
        · exact hpath'
      obtain ⟨hafter, hsame⟩ := @AlikeOutside.realClose handed _ p fd hc (by rw [hmap, if_pos rfl])
      refine ⟨hafter, fun _ => ?_⟩
      rw [hsame]
      rfl
    · rw [hwhat] at hstatus
      cases hstatus

/-- The real open, and the entry that the library makes for it. -/
theorem AlikeOutside.opened (h : AlikeOutside handed s p) {path : String} {flags : OFlags}
    {ret : Int} {s₁ : Proc} (hplain : ∀ _file ∈ trackPath env path flags, PlainFlags flags)
    (hret : ret ≠ -1) (hreal : realOpen env s path flags ret = some s₁) {handed' : List Int}
    (hrest : ∀ k, k ≠ ret → (k ∈ handed' ↔ k ∈ handed)) {c : Client}
    (hmap : ∀ k path', c.fdMap.find? k = some path' →
      s.client.fdMap.find? k = some path' ∨
        k = ret ∧ ret ∈ handed' ∧ trackPath env path flags = some path') :
    ∃ q, realOpen env p path flags ret = some q ∧ AlikeOutside handed' { s₁ with client := c } q := by
  obtain ⟨file, data, -, hfile, hdata, hnonneg, hfree, rfl⟩ :=
    (realOpen_eq_some hreal).resolve_left fun hneg => hret hneg.1
  rw [← h.files] at hdata
  refine ⟨_, realOpen_of_free hret hfile hdata hnonneg ((h.fds.find?_eq_none_iff ret).mpr hfree),
    congrArg (OrdMap.insert · file data) h.files, ?_, fun k path' hpath' => ?_⟩
  · exact h.fds.insert ret _ fun k hk hnot hmem => hnot ((hrest k hk).mpr hmem)
  · rcases hmap k path' hpath' with hbefore | ⟨rfl, hhanded, htrack⟩
    · obtain ⟨hhanded, f, hf, hkind⟩ := h.tracked k path' hbefore
      have hk : k ≠ ret := by
        rintro rfl
        exact Option.some_ne_none f (hf.symm.trans hfree)
      exact ⟨(hrest k hk).mpr hhanded, f, (OrdMap.find?_insert_of_ne hk _ _).trans hf, hkind⟩
    · obtain rfl := Option.some.inj (hfile.symm.trans (trackPath_canonical htrack))
      exact ⟨hhanded, _, OrdMap.find?_insert_self .., rfl,
        (hplain _ htrack).canRead (mode_of_trackPath htrack)⟩

theorem AlikeOutside.openFile (h : AlikeOutside handed s p) {path : String} {flags : OFlags}
    {ret : Int} (hplain : ∀ _file ∈ trackPath env path flags, PlainFlags flags)
    {e : Effect Proc Int} (hopen : wrapOpen env (fun _ _ _ => answer) s path flags ret = some e)
    (hstatus : e.outcome.status = .running) :
    ∃ q, realOpen env p path flags ret = some q ∧
      Matches ((AppCall.openFile path flags ret).handed env handed) True e.ofRet (q, ⟨ret, []⟩) := by
  unfold wrapOpen openAndTrack at hopen
  rcases hreal : realOpen env s path flags ret with _ | s₁
  · rw [hreal] at hopen
    cases hopen
  simp only [hreal] at hopen
  by_cases hret : ret = -1
  · rw [if_pos hret] at hopen
    obtain rfl := Option.some.inj hopen
    simp only [realOpen, hret, if_true, Option.some.injEq] at hreal
    subst hreal
    refine ⟨p, by simp only [realOpen, hret, if_true], ?_, fun _ => rfl⟩
    simp only [AppCall.handed, hret, if_true]
    exact h
  rw [if_neg hret] at hopen
  obtain rfl := Option.some.inj hopen
  have hclient := realOpen_client hreal
  rcases htrack : trackPath env path flags with _ | file
  · have hlocal : hvacTrackFile env (fun _ _ => answer) s₁.client path flags ret =
        ⟨s₁.client, [], .returned false⟩ := by
      simp only [hvacTrackFile, htrack]
    simp only [hlocal, Effect.andThen, AppCall.handed, hret, htrack, Option.isSome_none,
      Bool.false_eq_true, if_false]
    obtain ⟨q, hq, halike⟩ :=
      @AlikeOutside.opened env handed s p h path flags ret s₁ hplain hret hreal
      (handed.filter (· ≠ ret)) (fun k hk => by simp [List.mem_filter, hk]) s₁.client
      (fun k path' hpath' => Or.inl (hclient ▸ hpath'))
    exact ⟨q, hq, halike, fun _ => rfl⟩
  · rw [hvacTrackFile_eq htrack] at hstatus ⊢
    rcases answer with _ | out
    · cases hstatus
    simp only [Effect.andThen, AppCall.handed, hret, htrack, Option.isSome_some, if_true, if_false]
    have hmap : ∀ k path', (s₁.client.fdMap.insert ret file).find? k = some path' →
        s.client.fdMap.find? k = some path' ∨
          k = ret ∧ ret ∈ ret :: handed ∧ trackPath env path flags = some path' := by
      intro k path' hpath'
      rw [OrdMap.find?_insert] at hpath'
      split at hpath'
      · next hk => exact Or.inr ⟨hk, List.mem_cons_self, htrack.trans hpath'⟩
      · exact Or.inl (hclient ▸ hpath')
    obtain ⟨q, hq, halike⟩ :=
      @AlikeOutside.opened env handed s p h path flags ret s₁ hplain hret hreal
      (ret :: handed) (fun k hk => by simp [hk])
      { s₁.client.initMercury env with
        fdMap := s₁.client.fdMap.insert ret file
        fdRedirMap := s₁.client.fdRedirMap.insert ret out.ret } hmap
    exact ⟨q, hq, halike, fun _ => rfl⟩

/-- **One call.** -/
theorem AlikeOutside.call (h : AlikeOutside handed s p) {call : AppCall} {e : Effect Proc Reply}
    (hcall : call.perform env rl (fun _ _ _ => answer) s = some e)
    (hstatus : e.outcome.status = .running)
    (hdecent : Decent env rl (⟨s, .running⟩, handed) (.call call answer)) :
    ∃ q, call.direct env rl p = some q ∧
      Matches (call.handed env handed) (call.Owed handed) e q := by
  have hmap : ∀ o : Outcome Int, (o.map fun ret => Reply.mk ret []).status = o.status := by
    intro o
    cases o with
    | returned | blocked | exited | threw => rfl
  cases call with
  | openFile path flags ret =>
    obtain ⟨e', hopen, rfl⟩ := Option.map_eq_some_iff.mp hcall
    obtain ⟨q, hq, hmatches⟩ := h.openFile hdecent hopen ((hmap e'.outcome).symm.trans hstatus)
    refine ⟨(q, ⟨ret, []⟩), ?_, hmatches⟩
    simp only [AppCall.direct, hq, Option.map_some]
  | read fd count =>
    obtain rfl := Option.some.inj hcall
    exact ⟨_, rfl, h.read count hstatus⟩
  | pread fd count offset =>
    obtain rfl := Option.some.inj hcall
    exact ⟨_, rfl, h.pread hdecent hstatus⟩
  | lseek fd offset whence =>
    obtain rfl := Option.some.inj hcall
    exact ⟨_, rfl, h.lseek ((hmap _).symm.trans hstatus)⟩
  | close fd =>
    obtain rfl := Option.some.inj hcall
    exact ⟨_, rfl, h.close ((hmap _).symm.trans hstatus)⟩
  | read64 fd count =>
    obtain rfl := Option.some.inj hcall
    obtain ⟨hafter, hsame⟩ := h.realRead fd count
    exact ⟨_, rfl, hafter, fun hfd => congrArg Outcome.returned (hsame hfd).symm⟩
  | readv fd iov =>
    obtain rfl := Option.some.inj hcall
    obtain ⟨hafter, hsame⟩ := h.realRead fd iov.sum
    exact ⟨_, rfl, hafter, fun hfd => congrArg Outcome.returned (hsame hfd).symm⟩
  | write fd data =>
    obtain rfl := Option.some.inj hcall
    obtain ⟨hafter, hsame⟩ := h.realWrite hdecent data
    exact ⟨_, rfl, hafter, fun _ =>
      congrArg (fun ret => Outcome.returned (Reply.mk ret [])) hsame.symm⟩

end Calls

/-! ### Whole runs -/

section Runs

variable {x x' : TrackState × List Int} {y : Proc × List Int}

structure Wards (x : TrackState × List Int) (y : Proc × List Int) : Prop where
  alike : AlikeOutside x.2 x.1.proc y.1
  handed : y.2 = x.2

theorem Wards.step (h : Wards x y) {l : AnyLabel} {o : Option (Outcome Reply)}
    (hdecent : Decent env rl x l) (hreturns : x'.1.status = .running)
    (hstep : (anyMachine env rl).step x l = some (x', o)) :
    ∃ y', (plainAnyMachine env rl).step y l = some (y', o) ∧ Wards x' y' := by
  obtain ⟨⟨s, status⟩, handed⟩ := x
  obtain ⟨p, handed'⟩ := y
  obtain ⟨halike, rfl⟩ := h
  dsimp only at halike
  simp only [anyMachine, Option.ite_none_right_eq_some] at hstep
  obtain ⟨rfl, hstep⟩ := hstep
  cases l with
  | timeout host =>
    obtain ⟨rfl, rfl⟩ := Prod.mk.inj (Option.some.inj hstep)
    exact ⟨_, rfl, halike.setClient fun _ _ hpath => hpath, rfl⟩
  | change file data =>
    obtain ⟨rfl, rfl⟩ := Prod.mk.inj (Option.some.inj hstep)
    exact ⟨_, rfl, ⟨congrArg (OrdMap.insert · file data) halike.files, halike.fds, halike.tracked⟩,
      rfl⟩
  | call call answer =>
    rcases hcall : call.perform env rl (fun _ _ _ => answer) s with _ | e
    · simp only [hcall] at hstep
      cases hstep
    simp only [hcall, Option.some.injEq, Prod.mk.injEq] at hstep
    obtain ⟨rfl, rfl⟩ := hstep
    obtain ⟨⟨q, out⟩, hdirect, hmatches⟩ := halike.call hcall hreturns hdecent
    refine ⟨(q, call.handed env handed'), ?_, hmatches.alike, rfl⟩
    simp only [plainAnyMachine, hdirect]
    by_cases howed : call.Owed handed'
    · rw [if_pos howed, if_pos howed, hmatches.answer howed]
    · rw [if_neg howed, if_neg howed]

/-- The open is refused, a `pread` is answered and one fails, a server is given up, and
    a file that is not tracked is read beside. -/
def badServers : List AnyLabel :=
  [.call (.openFile "/data/a" O_RDONLY 3) (some ⟨-1, []⟩),
    .call (.openFile "/other" O_RDONLY 4) none,
    .call (.pread 3 2 1) (some ⟨2, [2, 3]⟩), .call (.read 3 1) (some ⟨5, [9]⟩),
    .call (.read 4 1) none, .timeout 1, .timeout 1, .timeout 1,
    .call (.pread 3 2 0) none, .change "/data/a" [8], .call (.pread 3 2 0) none,
    .call (.close 3) none, .call (.read 4 1) none]

def twoFiles : Files := threeBytes.insert "/other" [4, 5]

end Runs

end Hvac
