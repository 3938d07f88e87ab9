/-
  Hvac/Library/Scanf.lean
  =======================
  **Formatted input and output**: `%d` of `fprintf`, and of `fscanf` the
  conversions `%d` and `%s` and the white-space directive, on the characters that
  are left of a stream.

  A conversion skips white space, takes the longest run of characters it accepts
  and leaves the rest; `none` is a matching or input failure.  It reads back what
  was written when the text after it stops the run (`scanInt_printInt`,
  `scanToken_append`).
-/
import Hvac.Library.Cxx

namespace Cxx

/-- A white-space directive. -/
def skipSpace (s : List Char) : List Char := s.dropWhile isSpace

/-- `%d` of `fprintf`. -/
def printInt (n : Int) : List Char :=
  if n < 0 then '-' :: Nat.toDigits 10 n.natAbs else Nat.toDigits 10 n.natAbs

/-- `%d`: the number and what is left.  A number outside `int` has no meaning in C. -/
def scanInt (s : List Char) : Option (Int × List Char) :=
  let body := skipSpace s
  let negative := body.head? = some '-'
  let digits := if body.head? = some '-' ∨ body.head? = some '+' then body.tail else body
  let run := digits.takeWhile Char.isDigit
  if run = [] then none
  else
    let n : Int := Nat.ofDigitChars 10 run 0
    some (if negative then -n else n, digits.dropWhile Char.isDigit)

/-- `%s`: the token and what is left. -/
def scanToken (s : List Char) : Option (List Char × List Char) :=
  let body := skipSpace s
  let token := body.takeWhile fun c => !isSpace c
  if token = [] then none else some (token, body.dropWhile fun c => !isSpace c)

/-! ### Runs -/

section Runs

variable {p : Char → Bool} {l r : List Char}

/-- The text does not start with a character that `p` accepts. -/
def Stops (p : Char → Bool) (r : List Char) : Prop := ∀ c ∈ r.head?, p c = false

theorem stops_nil (p : Char → Bool) : Stops p [] := by
  intro c hc
  cases hc

theorem stops_cons {c : Char} (h : p c = false) (r : List Char) : Stops p (c :: r) := by
  intro d hd
  cases hd
  exact h

theorem Stops.dropWhile_eq (h : Stops p r) : r.dropWhile p = r := by
  cases r with
  | nil => rfl
  | cons c r =>
    apply List.dropWhile_cons_of_neg
    rw [h c rfl]
    exact Bool.false_ne_true

theorem Stops.takeWhile_eq (h : Stops p r) : r.takeWhile p = [] := by
  cases r with
  | nil => rfl
  | cons c r =>
    apply List.takeWhile_cons_of_neg
    rw [h c rfl]
    exact Bool.false_ne_true

theorem takeWhile_append_of_stops (hl : ∀ c ∈ l, p c = true) (h : Stops p r) :
    (l ++ r).takeWhile p = l := by
  rw [List.takeWhile_append_of_pos hl, h.takeWhile_eq, List.append_nil]

theorem dropWhile_append_of_stops (hl : ∀ c ∈ l, p c = true) (h : Stops p r) :
    (l ++ r).dropWhile p = r := by
  rw [List.dropWhile_append_of_pos hl, h.dropWhile_eq]

theorem length_dropWhile_lt (h : l.takeWhile p ≠ []) : (l.dropWhile p).length < l.length := by
  have hsplit := congrArg List.length (List.takeWhile_append_dropWhile (p := p) (l := l))
  have hpos := List.length_pos_iff.mpr h
  rw [List.length_append] at hsplit
  omega

end Runs

/-- White space is skipped where there is any, and nothing else. -/
theorem skipSpace_of_stops {s : List Char} (h : Stops isSpace s) : skipSpace s = s :=
  h.dropWhile_eq

theorem length_skipSpace (s : List Char) : (skipSpace s).length ≤ s.length :=
  (List.dropWhile_sublist _).length_le

/-! ### Numbers -/

theorem exists_toDigits (n : Nat) :
    ∃ c ds, Nat.toDigits 10 n = c :: ds ∧ c.isDigit = true := by
  obtain ⟨c, ds, hcs⟩ := List.exists_cons_of_ne_nil (Nat.toDigits_ne_nil (n := n) (b := 10))
  refine ⟨c, ds, hcs, ?_⟩
  apply isDigit_of_mem_toDigits (n := n)
  rw [hcs]
  exact List.mem_cons_self

/-- A number is followed by neither white space nor, unless it is the text's, a sign. -/
theorem stops_printInt (n : Int) (r : List Char) : Stops isSpace (printInt n ++ r) := by
  unfold printInt
  split
  · exact stops_cons (by decide) _
  · obtain ⟨c, ds, hcs, hc⟩ := exists_toDigits n.natAbs
    rw [hcs]
    exact stops_cons (isSpace_of_isDigit hc) _

theorem scanInt_of_digits {s r : List Char} {n : Nat} {sign : List Char}
    (hs : skipSpace s = sign ++ (Nat.toDigits 10 n ++ r)) (hr : Stops Char.isDigit r)
    (hsign : sign = [] ∨ sign = ['-']) :
    scanInt s = some (if sign = ['-'] then -(n : Int) else n, r) := by
  have hall : ∀ c ∈ Nat.toDigits 10 n, c.isDigit = true := fun c => isDigit_of_mem_toDigits
  have htake := takeWhile_append_of_stops hall hr
  have hdrop := dropWhile_append_of_stops hall hr
  have hne : Nat.toDigits 10 n ≠ [] := Nat.toDigits_ne_nil
  rcases hsign with rfl | rfl
  · obtain ⟨c, ds, hcs, hc⟩ := exists_toDigits n
    have hminus : c ≠ '-' := by rintro rfl; exact absurd hc (by decide)
    have hplus : c ≠ '+' := by rintro rfl; exact absurd hc (by decide)
    have hhead : (Nat.toDigits 10 n ++ r).head? = some c := by rw [hcs]; rfl
    simp only [scanInt, hs, List.nil_append, hhead, Option.some.injEq, hminus, hplus, or_self,
      if_false, htake, hdrop, hne, Nat.ofDigitChars_ten_toDigits, List.ne_cons_self]
  · simp only [scanInt, hs, List.cons_append, List.nil_append, List.head?_cons, true_or, if_true,
      List.tail_cons, htake, hdrop, hne, if_false, Nat.ofDigitChars_ten_toDigits]

/-- `%d` reads back what `%d` wrote. -/
theorem scanInt_printInt (n : Int) {r : List Char} (hr : Stops Char.isDigit r) :
    scanInt (printInt n ++ r) = some (n, r) := by
  have hskip := skipSpace_of_stops (stops_printInt n r)
  by_cases hneg : n < 0
  · have hprint : printInt n = ['-'] ++ Nat.toDigits 10 n.natAbs := if_pos hneg
    rw [hprint, List.append_assoc] at hskip ⊢
    rw [scanInt_of_digits hskip hr (Or.inr rfl), if_pos rfl]
    simp only [Option.some.injEq, Prod.mk.injEq, and_true]
    omega
  · have hprint : printInt n = [] ++ Nat.toDigits 10 n.natAbs := if_neg hneg
    rw [hprint, List.append_assoc] at hskip ⊢
    rw [scanInt_of_digits hskip hr (Or.inl rfl), if_neg (by decide)]
    simp only [Option.some.injEq, Prod.mk.injEq, and_true]
    omega

/-- A conversion that succeeds takes at least one character. -/
theorem length_of_scanInt {s r : List Char} {n : Int} (h : scanInt s = some (n, r)) :
    r.length < s.length := by
  have hskip := length_skipSpace s
  simp only [scanInt, Option.ite_none_left_eq_some, Option.some.injEq, Prod.mk.injEq] at h
  obtain ⟨hrun, -, rfl⟩ := h
  have htail : (skipSpace s).tail.length ≤ (skipSpace s).length := by
    rw [List.length_tail]
    exact Nat.sub_le _ _
  have hlt := length_dropWhile_lt hrun
  split at hlt
  all_goals split
  all_goals first | omega | contradiction

/-! ### Tokens -/

/-- `%s` reads a token that holds no white space up to the next white space. -/
theorem scanToken_append {token r : List Char} (hne : token ≠ [])
    (htoken : ∀ c ∈ token, isSpace c = false) (hr : ∀ c ∈ r.head?, isSpace c = true) :
    scanToken (token ++ r) = some (token, r) := by
  have hstop : Stops (fun c => !isSpace c) r := by
    intro c hc
    simp only [hr c hc, Bool.not_true]
  have hall : ∀ c ∈ token, (!isSpace c) = true := by
    intro c hc
    rw [htoken c hc]
    rfl
  have hskip : skipSpace (token ++ r) = token ++ r := by
    obtain ⟨c, cs, hcs⟩ := List.exists_cons_of_ne_nil hne
    apply skipSpace_of_stops
    rw [hcs]
    exact stops_cons (htoken c (by rw [hcs]; exact List.mem_cons_self)) _
  simp only [scanToken, hskip, takeWhile_append_of_stops hall hstop,
    dropWhile_append_of_stops hall hstop, hne, if_false]

theorem length_of_scanToken {s token r : List Char} (h : scanToken s = some (token, r)) :
    r.length < s.length := by
  have hskip := length_skipSpace s
  simp only [scanToken, Option.ite_none_left_eq_some, Option.some.injEq, Prod.mk.injEq] at h
  obtain ⟨htoken, -, rfl⟩ := h
  have hlt := length_dropWhile_lt htoken
  omega

end Cxx
