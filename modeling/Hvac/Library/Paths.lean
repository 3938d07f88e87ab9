/-
  Hvac/Library/Paths.lean
  =======================
  **Canonical absolute paths**, what `std::filesystem::canonical` returns: a list
  of components, none of them empty, `.` or `..`, each written after a separator.

  Containment of directories is a relation on components (`Within`).  On the
  text it is not a search for a substring: `within_iff_startsAt` says that the
  directory's text has to stand at the start and end at a separator or at the end.
-/
import Hvac.Library.Cxx

namespace Cxx

/-- A directory entry's name. -/
def IsComponent (c : List Char) : Prop :=
  c ≠ [] ∧ '/' ∉ c ∧ c ≠ ['.'] ∧ c ≠ ['.', '.']

instance (c : List Char) : Decidable (IsComponent c) := by unfold IsComponent; infer_instance

structure CanonicalPath where
  components : List (List Char)
  isComponent : ∀ c ∈ components, IsComponent c

/-- Each component after a separator. -/
def joined (cs : List (List Char)) : List Char := cs.flatMap fun c => '/' :: c

namespace CanonicalPath

def chars (p : CanonicalPath) : List Char :=
  if p.components = [] then ['/'] else joined p.components

/-- The path as a string. -/
def text (p : CanonicalPath) : String := String.ofList p.chars

/-- The directory of `p`; the root is its own. -/
def parent (p : CanonicalPath) : CanonicalPath where
  components := p.components.dropLast
  isComponent c hc := p.isComponent c (List.dropLast_subset _ hc)

@[simp] theorem components_parent (p : CanonicalPath) :
    p.parent.components = p.components.dropLast := rfl

/-- `p` is `dir` or lies below it, component by component. -/
def Within (dir p : CanonicalPath) : Prop := dir.components <+: p.components

instance (dir p : CanonicalPath) : Decidable (dir.Within p) :=
  inferInstanceAs (Decidable (dir.components <+: p.components))

end CanonicalPath

/-- `dir` stands at the start of `path`, up to the end or a separator; the root
    stands at the start of every path. -/
def StartsAt (dir path : String) : Prop :=
  dir = "/" ∨ path = dir ∨ ∃ rest, path = dir ++ "/" ++ rest

/-! ### Components and text -/

@[simp] theorem joined_nil : joined [] = [] := rfl

@[simp] theorem joined_cons (c : List Char) (cs : List (List Char)) :
    joined (c :: cs) = '/' :: (c ++ joined cs) := rfl

theorem joined_append (cs ds : List (List Char)) :
    joined (cs ++ ds) = joined cs ++ joined ds := by
  rw [joined, List.flatMap_append]
  rfl

/-- Nothing, or a text that starts with a separator. -/
def Separated (l : List Char) : Prop := l = [] ∨ ∃ u, l = '/' :: u

theorem separated_joined (cs : List (List Char)) : Separated (joined cs) := by
  cases cs with
  | nil => exact Or.inl rfl
  | cons c cs => exact Or.inr ⟨_, rfl⟩

theorem Separated.append {l m : List Char} (hl : Separated l) (hm : Separated m) :
    Separated (l ++ m) := by
  rcases hl with rfl | ⟨u, rfl⟩
  · exact hm
  · exact Or.inr ⟨u ++ m, rfl⟩

theorem takeWhile_component {c l : List Char} (hc : '/' ∉ c) (hl : Separated l) :
    (c ++ l).takeWhile (fun x => decide (x ≠ '/')) = c := by
  have hall : ∀ x ∈ c, decide (x ≠ '/') = true := by
    intro x hx
    rw [decide_eq_true_eq]
    rintro rfl
    exact hc hx
  rw [List.takeWhile_append_of_pos hall]
  rcases hl with rfl | ⟨u, rfl⟩
  · simp
  · simp

/-- A component ends where the next separator begins. -/
theorem component_cut {c d l m : List Char} (hc : '/' ∉ c) (hd : '/' ∉ d)
    (hl : Separated l) (hm : Separated m) (h : c ++ l = d ++ m) : c = d ∧ l = m := by
  have hcd : c = d := by
    rw [← takeWhile_component hc hl, h, takeWhile_component hd hm]
  subst hcd
  exact ⟨rfl, List.append_cancel_left h⟩

theorem components_of_joined {cs ds : List (List Char)} (hcs : ∀ c ∈ cs, '/' ∉ c)
    (hds : ∀ d ∈ ds, '/' ∉ d) {t : List Char} (ht : Separated t)
    (h : joined cs ++ t = joined ds) : cs <+: ds := by
  induction cs generalizing ds with
  | nil => exact List.nil_prefix
  | cons c cs ih =>
    cases ds with
    | nil => cases h
    | cons d ds =>
      rw [joined_cons, joined_cons, List.cons_append, List.append_assoc] at h
      obtain ⟨hcd, hrest⟩ := component_cut (hcs c List.mem_cons_self) (hds d List.mem_cons_self)
        ((separated_joined cs).append ht) (separated_joined ds) (List.cons.inj h).2
      rw [hcd, List.cons_prefix_cons]
      exact ⟨rfl, ih (fun e he => hcs e (List.mem_cons_of_mem _ he))
        (fun e he => hds e (List.mem_cons_of_mem _ he)) hrest⟩

namespace CanonicalPath

variable {p dir : CanonicalPath}

@[simp] theorem toList_text (p : CanonicalPath) : p.text.toList = p.chars := String.toList_ofList

theorem text_eq_iff {s : String} : p.text = s ↔ p.chars = s.toList := by
  rw [← String.toList_inj, toList_text]

theorem separator_not_mem (p : CanonicalPath) : ∀ c ∈ p.components, '/' ∉ c :=
  fun c hc => (p.isComponent c hc).2.1

theorem chars_of_ne_nil (h : p.components ≠ []) : p.chars = joined p.components := if_neg h

/-- Only the root is written `/`. -/
theorem text_eq_root_iff : p.text = "/" ↔ p.components = [] := by
  rw [text_eq_iff]
  constructor
  · intro h
    by_contra hne
    rw [chars_of_ne_nil hne] at h
    obtain ⟨c, cs, hcs⟩ := List.exists_cons_of_ne_nil hne
    rw [hcs, joined_cons] at h
    have hnil : c ++ joined cs = [] := (List.cons.inj h).2
    have hcomponent := p.isComponent c (by rw [hcs]; exact List.mem_cons_self)
    exact hcomponent.1 (List.append_eq_nil_iff.mp hnil).1
  · intro h
    rw [chars, if_pos h]
    rfl

/-- **Containment on the text.** -/
theorem within_iff_startsAt : dir.Within p ↔ StartsAt dir.text p.text := by
  by_cases hroot : dir.components = []
  · constructor
    · intro _
      exact Or.inl (text_eq_root_iff.mpr hroot)
    · intro _
      rw [Within, hroot]
      exact List.nil_prefix
  have hdir := chars_of_ne_nil hroot
  constructor
  · rintro ⟨rest, hrest⟩
    have hp : p.components ≠ [] := by
      rw [← hrest]
      exact List.append_ne_nil_of_left_ne_nil hroot _
    have hchars : p.chars = dir.chars ++ joined rest := by
      rw [chars_of_ne_nil hp, hdir, ← hrest, joined_append]
    rcases separated_joined rest with hnil | ⟨u, hu⟩
    · right; left
      rw [text_eq_iff, toList_text, hchars, hnil, List.append_nil]
    · right; right
      refine ⟨String.ofList u, ?_⟩
      have hsep : "/".toList = ['/'] := rfl
      rw [text_eq_iff, hchars, hu, String.toList_append, String.toList_append, toList_text, hsep,
        String.toList_ofList, List.append_assoc, List.singleton_append]
  · intro h
    -- the text of `p` is the text of `dir` and a separated rest
    have hsplit : ∃ t, Separated t ∧ dir.chars ++ t = p.chars := by
      rcases h with hslash | hsame | ⟨rest, hrest⟩
      · exact absurd (text_eq_root_iff.mp hslash) hroot
      · rw [text_eq_iff, toList_text] at hsame
        exact ⟨[], Or.inl rfl, by rw [List.append_nil, hsame]⟩
      · rw [text_eq_iff, String.toList_append, String.toList_append, toList_text] at hrest
        refine ⟨'/' :: rest.toList, Or.inr ⟨_, rfl⟩, ?_⟩
        rw [hrest, List.append_assoc]
        rfl
    obtain ⟨t, ht, hsplit⟩ := hsplit
    have hp : p.components ≠ [] := by
      intro hnil
      have hrootp : p.chars = ['/'] := if_pos hnil
      obtain ⟨c, cs, hcs⟩ := List.exists_cons_of_ne_nil hroot
      rw [hrootp, hdir, hcs, joined_cons] at hsplit
      have hempty := (List.append_eq_nil_iff.mp (List.cons.inj hsplit).2).1
      have hcomponent := dir.isComponent c (by rw [hcs]; exact List.mem_cons_self)
      exact hcomponent.1 (List.append_eq_nil_iff.mp hempty).1
    rw [hdir, chars_of_ne_nil hp] at hsplit
    exact components_of_joined dir.separator_not_mem p.separator_not_mem ht hsplit

/-- A directory's text occurs in the text of what lies within it. -/
theorem find_of_within (h : dir.Within p) : find p.text dir.text = true := by
  rw [find, decide_eq_true_eq]
  rcases within_iff_startsAt.mp h with hroot | hsame | ⟨rest, hrest⟩
  · -- every path starts with a separator
    rw [hroot, toList_text, chars]
    split
    · exact List.infix_refl _
    · next hne =>
      obtain ⟨c, cs, hcs⟩ := List.exists_cons_of_ne_nil hne
      rw [hcs, joined_cons]
      exact ⟨[], c ++ joined cs, rfl⟩
  · rw [hsame]
  · rw [hrest, String.toList_append, String.toList_append, List.append_assoc]
    exact (List.prefix_append _ _).isInfix

end CanonicalPath

/-! ### `parent_path` -/

/-- `parent_path` drops the last component. -/
theorem parentPath_text (p : CanonicalPath) : parentPath p.text = p.parent.text := by
  rcases List.eq_nil_or_concat' p.components with hnil | ⟨cs, c, hcs⟩
  · have hparent : p.parent.components = [] := by
      rw [CanonicalPath.components_parent, hnil]
      rfl
    rw [CanonicalPath.text_eq_root_iff.mpr hnil, CanonicalPath.text_eq_root_iff.mpr hparent]
    decide
  · have hne : p.components ≠ [] := by
      rw [hcs]
      exact List.append_ne_nil_of_right_ne_nil _ (List.cons_ne_nil _ _)
    have hchars : p.chars = joined cs ++ '/' :: c := by
      rw [CanonicalPath.chars_of_ne_nil hne, hcs, joined_append, joined_cons, joined_nil,
        List.append_nil]
    have hparent : p.parent.components = cs := by
      rw [CanonicalPath.components_parent, hcs]
      exact List.dropLast_concat
    have hc : '/' ∉ c := p.separator_not_mem c (by rw [hcs]; simp)
    rw [CanonicalPath.text, hchars, parentPath_append hc, CanonicalPath.text,
      CanonicalPath.chars, hparent]
    cases cs with
    | nil => rfl
    | cons d ds => rfl

end Cxx
