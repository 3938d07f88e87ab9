/-
  Hvac/Library/Posix.lean
  =======================
  **Open file descriptions of a POSIX process**: a table from descriptor numbers
  to a file, the flags it was opened with and a sequential position, with the
  system calls `open`, `close`, `read`, `pread`, `lseek` and `write`.

  A regular file is its bytes.  How many bytes a `read` transfers is a parameter
  (`ReadLen`), bounded by the request and by what is left, so short counts are
  covered as long as they are a function of size, position and request; the
  largest one transfers everything that is asked for and there, up to the
  `MAX_RW_COUNT` bytes of one call.

  A read fails where Linux decides so from its arguments: on a descriptor that is not
  open for reading (an `O_PATH` one is open for nothing), at a negative offset, and
  where it would end past the largest offset.  It does not fail otherwise: errors of
  the device, and the alignment that `O_DIRECT` asks for, are left to the caller, who
  may replace the answer by a failure or keep to plain flags (`PlainFlags`).

  Which number `open` returns is left to the caller among the free ones.
-/
import Hvac.Library.OrdMap

namespace Posix

/-! ### Contents -/

abbrev Contents := List UInt8

/-- The `n` bytes of `f` from position `pos`, fewer at its end. -/
def slice (f : Contents) (pos n : Nat) : Contents := (f.drop pos).take n

/-- `f` with `data` written at `pos`; a gap before it is filled with zeros. -/
def overwrite (f : Contents) (pos : Nat) (data : Contents) : Contents :=
  if data = [] then f
  else
    f.take pos ++ List.replicate (pos - f.length) 0 ++ data ++ f.drop (pos + data.length)

@[simp] theorem slice_zero (f : Contents) (pos : Nat) : slice f pos 0 = [] := by simp [slice]

theorem length_slice (f : Contents) (pos n : Nat) :
    (slice f pos n).length = min n (f.length - pos) := by simp [slice]

/-- Consecutive slices are one slice. -/
theorem slice_append_slice (f : Contents) (pos m n : Nat) :
    slice f pos m ++ slice f (pos + m) n = slice f pos (m + n) := by
  simp only [slice, List.take_add, List.drop_drop]

/-- The most bytes one call transfers. -/
def MAX_RW_COUNT : Nat := 0x7ffff000

/-- The largest offset in a file. -/
def LOFF_MAX : Nat := 2 ^ 63 - 1

/-- How many bytes a read of `count` at `pos` transfers from a file of `size`. -/
structure ReadLen where
  len : (size pos count : Nat) → Nat
  le_count : ∀ size pos count, len size pos count ≤ count
  le_left : ∀ size pos count, len size pos count ≤ size - pos
  le_max : ∀ size pos count, len size pos count ≤ MAX_RW_COUNT
  pos_of_left : ∀ size pos count, pos < size → 0 < count → 0 < len size pos count

/-- A read that is never short before the end of the file. -/
def ReadLen.full : ReadLen where
  len size pos count := min (min count MAX_RW_COUNT) (size - pos)
  le_count _ _ _ := le_trans (Nat.min_le_left ..) (Nat.min_le_left ..)
  le_left _ _ _ := Nat.min_le_right ..
  le_max _ _ _ := le_trans (Nat.min_le_left ..) (Nat.min_le_right ..)
  pos_of_left _ _ _ hpos hcount := by simp only [MAX_RW_COUNT]; omega

/-! ### Open file descriptions -/

abbrev OFlags := BitVec 32

def O_RDONLY : OFlags := 0#32
def O_WRONLY : OFlags := 1#32
def O_RDWR : OFlags := 2#32
def O_ACCMODE : OFlags := 3#32
def O_CREAT : OFlags := 0x40#32
def O_TRUNC : OFlags := 0x200#32
def O_APPEND : OFlags := 0x400#32
def O_DIRECT : OFlags := 0x4000#32
def O_DIRECTORY : OFlags := 0x10000#32
def O_PATH : OFlags := 0x200000#32

/-- `O_PATH` opens for nothing, not even to seek. -/
def canSeek (flags : OFlags) : Bool := decide (flags &&& O_PATH = 0#32)

/-- The fourth access mode, `3`, opens for neither. -/
def canRead (flags : OFlags) : Bool :=
  canSeek flags && decide (flags &&& O_ACCMODE = O_RDONLY ∨ flags &&& O_ACCMODE = O_RDWR)

def canWrite (flags : OFlags) : Bool :=
  canSeek flags && decide (flags &&& O_ACCMODE = O_WRONLY ∨ flags &&& O_ACCMODE = O_RDWR)

/-- An access mode that exists, and none of the flags that make a descriptor of a
    regular file unreadable. -/
structure PlainFlags (flags : OFlags) : Prop where
  mode : flags &&& O_ACCMODE ≠ O_ACCMODE
  noPath : flags &&& O_PATH = 0#32
  noDirect : flags &&& O_DIRECT = 0#32
  noDirectory : flags &&& O_DIRECTORY = 0#32

instance (flags : OFlags) : Decidable (PlainFlags flags) :=
  decidable_of_iff
    (flags &&& O_ACCMODE ≠ O_ACCMODE ∧ flags &&& O_PATH = 0#32 ∧ flags &&& O_DIRECT = 0#32 ∧
      flags &&& O_DIRECTORY = 0#32)
    ⟨fun ⟨h₁, h₂, h₃, h₄⟩ => ⟨h₁, h₂, h₃, h₄⟩,
      fun h => ⟨h.mode, h.noPath, h.noDirect, h.noDirectory⟩⟩

theorem canSeek_of_canRead {flags : OFlags} (h : canRead flags = true) : canSeek flags = true := by
  rw [canRead, Bool.and_eq_true] at h
  exact h.1

/-- There are four access modes. -/
theorem accessMode_cases (flags : OFlags) :
    flags &&& O_ACCMODE = O_RDONLY ∨ flags &&& O_ACCMODE = O_WRONLY ∨
      flags &&& O_ACCMODE = O_RDWR ∨ flags &&& O_ACCMODE = O_ACCMODE := by
  have hmod : (flags &&& O_ACCMODE).toNat = flags.toNat % 4 := by
    rw [BitVec.toNat_and]
    exact Nat.and_two_pow_sub_one_eq_mod flags.toNat 2
  have hlt : flags.toNat % 4 < 4 := Nat.mod_lt _ (by decide)
  generalize flags &&& O_ACCMODE = mode at hmod ⊢
  interval_cases hrest : flags.toNat % 4
  · exact Or.inl (BitVec.eq_of_toNat_eq hmod)
  · exact Or.inr (Or.inl (BitVec.eq_of_toNat_eq hmod))
  · exact Or.inr (Or.inr (Or.inl (BitVec.eq_of_toNat_eq hmod)))
  · exact Or.inr (Or.inr (Or.inr (BitVec.eq_of_toNat_eq hmod)))

theorem PlainFlags.canRead {flags : OFlags} (h : PlainFlags flags)
    (hmode : flags &&& O_ACCMODE ≠ O_WRONLY) : canRead flags = true := by
  rw [Posix.canRead, canSeek, Bool.and_eq_true, decide_eq_true_eq, decide_eq_true_eq]
  refine ⟨h.noPath, ?_⟩
  rcases accessMode_cases flags with hread | hwrite | hboth | hnone
  · exact Or.inl hread
  · exact absurd hwrite hmode
  · exact Or.inr hboth
  · exact absurd hnone h.mode

structure OpenFile (P : Type) where
  file : P
  flags : OFlags
  pos : Nat
deriving DecidableEq

abbrev FdTable (P : Type) := OrdMap Int (OpenFile P)

/-- The answer of a data-moving call: its result, the bytes it delivered, and the
    table it leaves. -/
structure Io (P : Type) where
  ret : Int
  data : Contents
  fds : FdTable P

variable {P : Type} (rl : ReadLen) (content : P → Contents)

/-- `open`, returning the free number `fd`; `none` when `fd` cannot be returned. -/
def sysOpen (t : FdTable P) (fd : Int) (file : P) (flags : OFlags) : Option (FdTable P) :=
  if 0 ≤ fd ∧ t.find? fd = none then some (t.insert fd ⟨file, flags, 0⟩) else none

def sysClose (t : FdTable P) (fd : Int) : Int × FdTable P :=
  match t.find? fd with
  | none => (-1, t)
  | some _ => (0, t.erase fd)

def sysRead (t : FdTable P) (fd : Int) (count : Nat) : Io P :=
  match t.find? fd with
  | none => ⟨-1, [], t⟩
  | some f =>
      if canRead f.flags ∧ f.pos + count ≤ LOFF_MAX then
        let n := rl.len (content f.file).length f.pos count
        ⟨n, slice (content f.file) f.pos n, t.insert fd { f with pos := f.pos + n }⟩
      else ⟨-1, [], t⟩

def sysPread (t : FdTable P) (fd : Int) (count : Nat) (offset : Int) : Io P :=
  match t.find? fd with
  | none => ⟨-1, [], t⟩
  | some f =>
      if canRead f.flags ∧ 0 ≤ offset ∧ offset.toNat + count ≤ LOFF_MAX then
        let n := rl.len (content f.file).length offset.toNat count
        ⟨n, slice (content f.file) offset.toNat n, t⟩
      else ⟨-1, [], t⟩

def SEEK_SET : Int := 0
def SEEK_CUR : Int := 1
def SEEK_END : Int := 2
def SEEK_DATA : Int := 3
def SEEK_HOLE : Int := 4

/-- Where `lseek` moves to; `none` when it fails.  For `SEEK_DATA` and `SEEK_HOLE` the
    file is all data with one hole at its end, the simplest layout the interface
    allows; a file system may know others, and a maximum of its own below
    `LOFF_MAX`. -/
def seekTarget (size pos : Nat) (offset whence : Int) : Option Nat :=
  let target : Option Int :=
    if whence = SEEK_SET then some offset
    else if whence = SEEK_CUR then some (pos + offset)
    else if whence = SEEK_END then some (size + offset)
    else if whence = SEEK_DATA then (if 0 ≤ offset ∧ offset < size then some offset else none)
    else if whence = SEEK_HOLE then (if 0 ≤ offset ∧ offset < size then some size else none)
    else none
  match target with
  | some x => if 0 ≤ x ∧ x < 2 ^ 63 then some x.toNat else none
  | none => none

/-- The whences whose target is a matter of position and size. -/
def PlainWhence (whence : Int) : Prop := whence ≠ SEEK_DATA ∧ whence ≠ SEEK_HOLE

instance (whence : Int) : Decidable (PlainWhence whence) := inferInstanceAs (Decidable (_ ∧ _))

def sysSeek (t : FdTable P) (fd : Int) (offset whence : Int) : Int × FdTable P :=
  match t.find? fd with
  | none => (-1, t)
  | some f =>
      if canSeek f.flags then
        match seekTarget (content f.file).length f.pos offset whence with
        | some x => (x, t.insert fd { f with pos := x })
        | none => (-1, t)
      else (-1, t)

/-- `write`: the result, the new contents of the file and the table. -/
def sysWrite (t : FdTable P) (fd : Int) (data : Contents) : Option (P × Contents × FdTable P) :=
  match t.find? fd with
  | none => none
  | some f =>
      if canWrite f.flags then
        let pos := if f.flags &&& O_APPEND ≠ 0#32 then (content f.file).length else f.pos
        some (f.file, overwrite (content f.file) pos data,
          t.insert fd { f with pos := pos + data.length })
      else none

/-! ### What each call answers -/

variable {rl content}

theorem sysOpen_eq_some_iff {t t' : FdTable P} {fd : Int} {file : P} {flags : OFlags} :
    sysOpen t fd file flags = some t' ↔
      0 ≤ fd ∧ t.find? fd = none ∧ t' = t.insert fd ⟨file, flags, 0⟩ := by
  unfold sysOpen
  split
  · next h => simp [h.1, h.2, eq_comm]
  · next h =>
    simp only [reduceCtorEq, false_iff]
    rintro ⟨h0, hfree, -⟩
    exact h ⟨h0, hfree⟩

theorem sysRead_of_find? {t : FdTable P} {fd : Int} {f : OpenFile P} (h : t.find? fd = some f)
    (hread : canRead f.flags = true) {count : Nat} (hend : f.pos + count ≤ LOFF_MAX) :
    sysRead rl content t fd count =
      ⟨rl.len (content f.file).length f.pos count,
        slice (content f.file) f.pos (rl.len (content f.file).length f.pos count),
        t.insert fd { f with pos := f.pos + rl.len (content f.file).length f.pos count }⟩ := by
  simp only [sysRead, h, hread, hend, and_self, if_true]

/-- A read that does not fail. -/
theorem sysRead_of_nonneg {t : FdTable P} {fd : Int} {count : Nat}
    (h : 0 ≤ (sysRead rl content t fd count).ret) :
    ∃ f, t.find? fd = some f ∧ canRead f.flags = true ∧ f.pos + count ≤ LOFF_MAX := by
  unfold sysRead at h
  rcases hfd : t.find? fd with _ | f
  · simp [hfd] at h
  · simp only [hfd] at h
    split at h
    · next hok => exact ⟨f, rfl, hok⟩
    · cases h

theorem sysRead_of_closed {t : FdTable P} {fd : Int} (h : t.find? fd = none) (count : Nat) :
    sysRead rl content t fd count = ⟨-1, [], t⟩ := by
  simp only [sysRead, h]

theorem sysRead_of_past {t : FdTable P} {fd : Int} {f : OpenFile P} (h : t.find? fd = some f)
    {count : Nat} (hend : LOFF_MAX < f.pos + count) :
    sysRead rl content t fd count = ⟨-1, [], t⟩ := by
  simp only [sysRead, h, not_le.mpr hend, and_false, if_false]

theorem sysPread_of_find? {t : FdTable P} {fd : Int} {f : OpenFile P} (h : t.find? fd = some f)
    (hread : canRead f.flags = true) {count : Nat} {offset : Int} (hoff : 0 ≤ offset)
    (hend : offset.toNat + count ≤ LOFF_MAX) :
    sysPread rl content t fd count offset =
      ⟨rl.len (content f.file).length offset.toNat count,
        slice (content f.file) offset.toNat (rl.len (content f.file).length offset.toNat count),
        t⟩ := by
  simp only [sysPread, h, hread, hoff, hend, and_self, if_true]

theorem sysPread_of_nonneg {t : FdTable P} {fd : Int} {count : Nat} {offset : Int}
    (h : 0 ≤ (sysPread rl content t fd count offset).ret) :
    ∃ f, t.find? fd = some f ∧ canRead f.flags = true ∧ 0 ≤ offset ∧
      offset.toNat + count ≤ LOFF_MAX := by
  unfold sysPread at h
  rcases hfd : t.find? fd with _ | f
  · simp [hfd] at h
  · simp only [hfd] at h
    split at h
    · next hok => exact ⟨f, rfl, hok⟩
    · cases h

theorem sysPread_of_closed {t : FdTable P} {fd : Int} (h : t.find? fd = none) (count : Nat)
    (offset : Int) : sysPread rl content t fd count offset = ⟨-1, [], t⟩ := by
  simp only [sysPread, h]

theorem sysClose_of_find? {t : FdTable P} {fd : Int} {f : OpenFile P} (h : t.find? fd = some f) :
    sysClose t fd = (0, t.erase fd) := by
  simp only [sysClose, h]

theorem sysSeek_of_closed {t : FdTable P} {fd : Int} (h : t.find? fd = none)
    (offset whence : Int) : sysSeek content t fd offset whence = (-1, t) := by
  simp only [sysSeek, h]

theorem sysSeek_of_target {t : FdTable P} {fd : Int} {f : OpenFile P} (h : t.find? fd = some f)
    (hseek : canSeek f.flags = true) {offset whence : Int} {x : Nat}
    (hx : seekTarget (content f.file).length f.pos offset whence = some x) :
    sysSeek content t fd offset whence = ((x : Int), t.insert fd { f with pos := x }) := by
  simp only [sysSeek, h, hseek, if_true, hx]

theorem sysSeek_of_no_target {t : FdTable P} {fd : Int} {f : OpenFile P}
    (h : t.find? fd = some f) {offset whence : Int}
    (hx : seekTarget (content f.file).length f.pos offset whence = none) :
    sysSeek content t fd offset whence = (-1, t) := by
  simp only [sysSeek, h, hx, ite_self]

theorem sysWrite_eq_some {t fds : FdTable P} {fd : Int} {data contents : Contents} {file : P}
    (h : sysWrite content t fd data = some (file, contents, fds)) :
    ∃ f pos, t.find? fd = some f ∧ canWrite f.flags = true ∧ file = f.file ∧
      contents = overwrite (content f.file) pos data ∧
      fds = t.insert fd { f with pos := pos + data.length } := by
  unfold sysWrite at h
  rcases hfd : t.find? fd with _ | f
  · rw [hfd] at h; cases h
  · simp only [hfd, Option.ite_none_right_eq_some, Option.some.injEq, Prod.mk.injEq] at h
    obtain ⟨hwrite, rfl, rfl, rfl⟩ := h
    exact ⟨f, _, rfl, hwrite, rfl, rfl, rfl⟩

/-- At most the position of `fd` differs. -/
def MovesOnly (fd : Int) (t t' : FdTable P) : Prop :=
  ∃ pos, ∀ k, t'.find? k =
    if k = fd then (t.find? k).map (fun f => { f with pos := pos }) else t.find? k

theorem MovesOnly.refl (fd : Int) (t : FdTable P) : MovesOnly fd t t := by
  rcases hfd : t.find? fd with _ | f
  · refine ⟨0, fun k => ?_⟩
    split
    · next hk => rw [hk, hfd, Option.map_none]
    · rfl
  · refine ⟨f.pos, fun k => ?_⟩
    split
    · next hk => rw [hk, hfd, Option.map_some]
    · rfl

theorem MovesOnly.insert {fd : Int} {t : FdTable P} {f : OpenFile P} (h : t.find? fd = some f)
    (pos : Nat) : MovesOnly fd t (t.insert fd { f with pos := pos }) := by
  refine ⟨pos, fun k => ?_⟩
  rw [OrdMap.find?_insert]
  split
  · next hk => rw [hk, h, Option.map_some]
  · rfl

theorem sysRead_movesOnly (t : FdTable P) (fd : Int) (count : Nat) :
    MovesOnly fd t (sysRead rl content t fd count).fds := by
  unfold sysRead
  rcases hfd : t.find? fd with _ | f
  · exact MovesOnly.refl fd t
  · dsimp only
    split
    · exact MovesOnly.insert hfd _
    · exact MovesOnly.refl fd t

theorem sysPread_fds (t : FdTable P) (fd : Int) (count : Nat) (offset : Int) :
    (sysPread rl content t fd count offset).fds = t := by
  unfold sysPread
  rcases t.find? fd with _ | f
  · rfl
  · dsimp only
    split <;> rfl

theorem sysSeek_movesOnly (t : FdTable P) (fd offset whence : Int) :
    MovesOnly fd t (sysSeek content t fd offset whence).2 := by
  unfold sysSeek
  rcases hfd : t.find? fd with _ | f
  · exact MovesOnly.refl fd t
  · dsimp only
    split
    · split
      · exact MovesOnly.insert hfd _
      · exact MovesOnly.refl fd t
    · exact MovesOnly.refl fd t

theorem find?_sysClose (t : FdTable P) (fd k : Int) :
    (sysClose t fd).2.find? k = if k = fd then none else t.find? k := by
  unfold sysClose
  rcases hfd : t.find? fd with _ | f
  · dsimp only
    split
    · next hk => rw [hk, hfd]
    · rfl
  · exact OrdMap.find?_erase ..

theorem find?_sysClose_of_ne {fd k : Int} (h : k ≠ fd) (t : FdTable P) :
    (sysClose t fd).2.find? k = t.find? k := by
  rw [find?_sysClose, if_neg h]

theorem MovesOnly.find?_of_ne {fd k : Int} {t t' : FdTable P} (h : MovesOnly fd t t')
    (hk : k ≠ fd) : t'.find? k = t.find? k := by
  obtain ⟨pos, hpos⟩ := h
  rw [hpos, if_neg hk]

theorem MovesOnly.find?_eq_none_iff {fd : Int} {t t' : FdTable P} (h : MovesOnly fd t t')
    (k : Int) : t'.find? k = none ↔ t.find? k = none := by
  obtain ⟨pos, hpos⟩ := h
  rw [hpos]
  split
  · rw [Option.map_eq_none_iff]
  · exact Iff.rfl

theorem MovesOnly.exists_before {fd r : Int} {t t' : FdTable P} (h : MovesOnly fd t t')
    {g : OpenFile P} (hg : t'.find? r = some g) :
    ∃ f, t.find? r = some f ∧ g.file = f.file ∧ g.flags = f.flags := by
  obtain ⟨pos, hpos⟩ := h
  rw [hpos] at hg
  split at hg
  · obtain ⟨f, hf, rfl⟩ := Option.map_eq_some_iff.mp hg
    exact ⟨f, hf, rfl, rfl⟩
  · exact ⟨g, hg, rfl, rfl⟩

/-! A call on a descriptor sees nothing of the other ones. -/

section Congr

variable {t t' : FdTable P} {fd : Int}

theorem sysRead_congr (h : t.find? fd = t'.find? fd) (count : Nat) :
    (sysRead rl content t fd count).ret = (sysRead rl content t' fd count).ret ∧
    (sysRead rl content t fd count).data = (sysRead rl content t' fd count).data ∧
    (sysRead rl content t fd count).fds.find? fd =
      (sysRead rl content t' fd count).fds.find? fd := by
  rcases hf : t.find? fd with _ | f
  · rw [sysRead_of_closed hf, sysRead_of_closed (h.symm.trans hf)]
    exact ⟨rfl, rfl, h⟩
  · have hf' := h.symm.trans hf
    unfold sysRead
    simp only [hf, hf']
    split
    · simp only [OrdMap.find?_insert, if_true, and_self]
    · exact ⟨rfl, rfl, h⟩

theorem sysPread_congr (h : t.find? fd = t'.find? fd) (count : Nat) (offset : Int) :
    (sysPread rl content t fd count offset).ret = (sysPread rl content t' fd count offset).ret ∧
    (sysPread rl content t fd count offset).data =
      (sysPread rl content t' fd count offset).data := by
  unfold sysPread
  rw [h]
  rcases t'.find? fd with _ | f
  · exact ⟨rfl, rfl⟩
  · dsimp only
    split <;> exact ⟨rfl, rfl⟩

theorem sysSeek_congr (h : t.find? fd = t'.find? fd) (offset whence : Int) :
    (sysSeek content t fd offset whence).1 = (sysSeek content t' fd offset whence).1 ∧
    (sysSeek content t fd offset whence).2.find? fd =
      (sysSeek content t' fd offset whence).2.find? fd := by
  rcases hf : t.find? fd with _ | f
  · rw [sysSeek_of_closed hf, sysSeek_of_closed (h.symm.trans hf)]
    exact ⟨rfl, h⟩
  · have hf' := h.symm.trans hf
    unfold sysSeek
    simp only [hf, hf']
    split
    · rcases seekTarget (content f.file).length f.pos offset whence with _ | x
      · exact ⟨rfl, h⟩
      · simp only [OrdMap.find?_insert, if_true, and_self]
    · exact ⟨rfl, h⟩

/-- A read depends on the bytes of its own file only. -/
theorem sysRead_content {content' : P → Contents}
    (h : ∀ f, t.find? fd = some f → content' f.file = content f.file) (count : Nat) :
    sysRead rl content' t fd count = sysRead rl content t fd count := by
  unfold sysRead
  rcases hf : t.find? fd with _ | f
  · rfl
  · dsimp only
    rw [h f hf]

theorem sysPread_content {content' : P → Contents}
    (h : ∀ f, t.find? fd = some f → content' f.file = content f.file) (count : Nat)
    (offset : Int) : sysPread rl content' t fd count offset = sysPread rl content t fd count offset := by
  unfold sysPread
  rcases hf : t.find? fd with _ | f
  · rfl
  · dsimp only
    rw [h f hf]

/-- A write fails on both tables, or moves the same descriptor of both alike. -/
theorem sysWrite_congr (h : t.find? fd = t'.find? fd) (data : Contents) :
    (sysWrite content t fd data = none ∧ sysWrite content t' fd data = none) ∨
      ∃ f pos contents, t.find? fd = some f ∧
        sysWrite content t fd data = some (f.file, contents, t.insert fd { f with pos := pos }) ∧
        sysWrite content t' fd data =
          some (f.file, contents, t'.insert fd { f with pos := pos }) := by
  unfold sysWrite
  rw [← h]
  rcases t.find? fd with _ | f
  · exact Or.inl ⟨rfl, rfl⟩
  · dsimp only
    split
    · exact Or.inr ⟨f, _, _, rfl, rfl, rfl⟩
    · exact Or.inl ⟨rfl, rfl⟩

end Congr

/-- Where each kind of seek leads. -/
theorem seekTarget_eq_some_iff {size pos x : Nat} {offset whence : Int} :
    seekTarget size pos offset whence = some x ↔
      x < 2 ^ 63 ∧ (whence = SEEK_SET ∧ (x : Int) = offset ∨
        whence = SEEK_CUR ∧ (x : Int) = pos + offset ∨
        whence = SEEK_END ∧ (x : Int) = size + offset ∨
        whence = SEEK_DATA ∧ (0 ≤ offset ∧ offset < size) ∧ (x : Int) = offset ∨
        whence = SEEK_HOLE ∧ (0 ≤ offset ∧ offset < size) ∧ x = size) := by
  unfold seekTarget
  simp only [SEEK_SET, SEEK_CUR, SEEK_END, SEEK_DATA, SEEK_HOLE]
  by_cases hset : whence = 0
  · simp [hset]
    omega
  by_cases hcur : whence = 1
  · simp [hcur]
    omega
  by_cases hend : whence = 2
  · simp [hend]
    omega
  by_cases hin : 0 ≤ offset ∧ offset < size
  · by_cases hdata : whence = 3
    · simp [hdata, hin]
      omega
    · by_cases hhole : whence = 4
      · simp [hhole, hin]
        omega
      · simp [hset, hcur, hend, hdata, hhole]
  · simp [hset, hcur, hend, hin]

/-- Only `SEEK_CUR` looks at the position. -/
theorem seekTarget_of_ne_cur {whence : Int} (h : whence ≠ SEEK_CUR) (size pos pos' : Nat)
    (offset : Int) : seekTarget size pos offset whence = seekTarget size pos' offset whence := by
  simp only [seekTarget, h, if_false]

example : seekTarget 10 4 (-2) SEEK_CUR = some 2 ∧ seekTarget 10 4 (-2) SEEK_SET = none ∧
    seekTarget 10 4 0 SEEK_END = some 10 := by decide

end Posix
