/-
  Hvac/Library/Cxx.lean
  =====================
  **The pieces of C and C++ a translated program leans on**: narrowing to fixed
  widths, the decimal rendering `std::to_string`, its partial inverse
  `std::stoi`, substring search, and the textual part of `std::filesystem`.

  Narrowing is modular (two's complement), so `int32` is the balanced residue
  modulo `2 ^ 32`; it is the identity exactly on the 32-bit range.
-/
import Mathlib

namespace Cxx

/-! ### Fixed widths -/

/-- `size_t` on a 64-bit target. -/
abbrev SizeT := Fin (2 ^ 64)

/-- Conversion to a signed 32-bit integer. -/
def int32 (x : Int) : Int := Int.bmod x (2 ^ 32)

/-- The values a signed 32-bit integer can hold. -/
def IsInt32 (x : Int) : Prop := -2 ^ 31 ≤ x ∧ x < 2 ^ 31

instance (x : Int) : Decidable (IsInt32 x) := by unfold IsInt32; infer_instance

theorem int32_of_isInt32 {x : Int} (h : IsInt32 x) : int32 x = x := by
  obtain ⟨hlo, hhi⟩ := h
  rw [int32, Int.bmod_def]
  split <;> omega

theorem isInt32_int32 (x : Int) : IsInt32 (int32 x) := by
  rw [IsInt32, int32, Int.bmod_def]
  split <;> omega

theorem int32_le {x : Int} (h : 0 ≤ x) : int32 x ≤ x := by
  rw [int32, Int.bmod_def]
  split <;> omega

theorem int32_eq_self_iff {x : Int} : int32 x = x ↔ IsInt32 x := by
  constructor
  · intro h
    rw [← h]
    exact isInt32_int32 x
  · exact int32_of_isInt32

/-! ### Strings -/

/-- `std::to_string` on an unsigned argument. -/
def toString (n : Nat) : String := n.repr

/-- `strstr(s, t) != NULL`, and `s.find(t) != npos`. -/
def find (s t : String) : Bool := decide (t.toList <:+: s.toList)

/-- `isspace` in the C locale: the blank, and `\t`, `\n`, `\v`, `\f`, `\r`. -/
def isSpace (c : Char) : Bool := decide (c = ' ' ∨ 9 ≤ c.toNat ∧ c.toNat ≤ 13)

theorem isSpace_of_isDigit {c : Char} (h : c.isDigit = true) : isSpace c = false := by
  simp only [Char.isDigit, Bool.and_eq_true, decide_eq_true_eq] at h
  have hlow : 48 ≤ c.toNat := h.1
  rw [isSpace, decide_eq_false_iff_not]
  rintro (rfl | ⟨-, hhigh⟩)
  · exact absurd hlow (by decide)
  · omega

/-- `std::stoi`: leading white space, a sign, and the longest run of digits;
    `none` where it throws (no digit, or out of the range of `int`). -/
def stoi (s : List Char) : Option Int :=
  let body := s.dropWhile isSpace
  let negative := body.head? = some '-'
  let digits := if body.head? = some '-' ∨ body.head? = some '+' then body.tail else body
  let run := digits.takeWhile Char.isDigit
  if run = [] then none
  else
    let n : Int := Nat.ofDigitChars 10 run 0
    let v := if negative then -n else n
    if IsInt32 v then some v else none

@[simp] theorem toList_toString (n : Nat) : (toString n).toList = Nat.toDigits 10 n :=
  Nat.toList_repr

theorem toString_inj {m n : Nat} : toString m = toString n ↔ m = n := Nat.repr_inj

/-- Every character of a decimal rendering is a digit. -/
theorem isDigit_of_mem_toDigits {n : Nat} {c : Char} (h : c ∈ Nat.toDigits 10 n) :
    c.isDigit = true :=
  Nat.isDigit_of_mem_toDigits (by decide) (by decide) h

/-- `stoi` reads back what `to_string` wrote. -/
theorem stoi_toDigits {n : Nat} (h : n < 2 ^ 31) : stoi (Nat.toDigits 10 n) = some (n : Int) := by
  obtain ⟨c, cs, hcs⟩ := List.exists_cons_of_ne_nil (Nat.toDigits_ne_nil (n := n) (b := 10))
  have hall : ∀ d ∈ c :: cs, d.isDigit = true := by
    intro d hd
    rw [← hcs] at hd
    exact isDigit_of_mem_toDigits hd
  have hc : c.isDigit = true := hall c List.mem_cons_self
  -- a digit is neither white space nor a sign
  have hspace : isSpace c = false := isSpace_of_isDigit hc
  have hminus : c ≠ '-' := by rintro rfl; exact absurd hc (by decide)
  have hplus : c ≠ '+' := by rintro rfl; exact absurd hc (by decide)
  have hvalue : Nat.ofDigitChars 10 (c :: cs) 0 = n := by
    rw [← hcs]; exact Nat.ofDigitChars_ten_toDigits
  have hdrop : (c :: cs).dropWhile isSpace = c :: cs :=
    List.dropWhile_cons_of_neg (by simp [hspace])
  have hrange : IsInt32 (n : Int) := ⟨by omega, by omega⟩
  rw [hcs]
  simp only [stoi, hdrop, List.head?_cons, Option.some.injEq, hminus, hplus, or_self, if_false,
    List.takeWhile_eq_self_iff.mpr hall, List.cons_ne_nil, hvalue, hrange, if_true]

/-! ### `std::filesystem` on absolute paths -/

/-- `path.filename()`: what follows the last separator. -/
def filename (p : String) : String :=
  String.ofList (p.toList.reverse.takeWhile (fun c => decide (c ≠ '/'))).reverse

/-- `path.parent_path()` of an absolute path: what precedes the last separator,
    the root when nothing does. -/
def parentPath (p : String) : String :=
  let dir := ((p.toList.reverse.dropWhile fun c => decide (c ≠ '/')).drop 1).reverse
  if dir = [] then "/" else String.ofList dir

theorem separator_not_mem_filename (p : String) : '/' ∉ (filename p).toList := by
  simp only [filename, String.toList_ofList, List.mem_reverse]
  intro h
  simpa using List.mem_takeWhile_imp h

/-- The parent is what stands before the last separator. -/
theorem parentPath_append {l name : List Char} (hname : '/' ∉ name) :
    parentPath (String.ofList (l ++ '/' :: name)) =
      if l = [] then "/" else String.ofList l := by
  have hdrop : name.reverse.dropWhile (fun c => decide (c ≠ '/')) = [] := by
    rw [List.dropWhile_eq_nil_iff]
    intro c hc
    rw [List.mem_reverse] at hc
    rw [decide_eq_true_eq]
    rintro rfl
    exact hname hc
  simp only [parentPath, String.toList_ofList, List.reverse_append, List.reverse_cons,
    List.append_assoc, List.dropWhile_append, hdrop, List.isEmpty_nil, if_true, ne_eq,
    not_true_eq_false, decide_false, Bool.false_eq_true, not_false_eq_true, List.cons_append,
    List.nil_append, List.dropWhile_cons_of_neg, List.drop_succ_cons, List.drop_zero,
    List.reverse_reverse]

/-- The parent of a file in a directory is the directory. -/
theorem parentPath_join {dir name : String} (hdir : dir ≠ "") (hname : '/' ∉ name.toList) :
    parentPath (dir ++ "/" ++ name) = dir := by
  have hlist : dir.toList ≠ [] := fun h => hdir (String.toList_inj.mp (by rw [h]; rfl))
  have htext : dir ++ "/" ++ name = String.ofList (dir.toList ++ '/' :: name.toList) := by
    have hsep : "/".toList = ['/'] := rfl
    rw [← String.toList_inj, String.toList_append, String.toList_append, hsep,
      String.toList_ofList, List.append_assoc, List.singleton_append]
  rw [htext, parentPath_append hname, if_neg hlist, String.ofList_toList]

example : parentPath "/data/train/a.bin" = "/data/train" ∧ parentPath "/a" = "/" ∧
    filename "/data/train/a.bin" = "a.bin" := by decide

end Cxx
