/-
  Hvac/Library/OrdMap.lean
  ========================
  **Finite maps over a linearly ordered key type**, the shape of `std::map`:
  point lookup, insertion that overwrites, erasure, and the ordered search
  `lowerBound` (the first entry whose key is not less than the argument).

  A map is its list of entries together with a proof that the keys increase
  strictly, so a key occurs once and two maps with the same lookups are equal
  (`OrdMap.ext_find?`).  Every later proof about a map goes through
  `find?_insert`, `find?_erase` and `lowerBound_eq_some_iff`; none of them
  looks at the list of entries again.
-/
import Mathlib

universe u v

/-- A finite map with strictly increasing keys. -/
structure OrdMap (K : Type u) (V : Type v) [LinearOrder K] where
  entries : List (K × V)
  sorted : entries.Pairwise fun a b => a.1 < b.1

namespace OrdMap

variable {K : Type u} {V : Type v} [LinearOrder K]

instance [DecidableEq V] : DecidableEq (OrdMap K V) := fun m n =>
  decidable_of_iff (m.entries = n.entries) (by cases m; cases n; simp)

/-! ### Operations -/

def empty : OrdMap K V := ⟨[], List.Pairwise.nil⟩

instance : Inhabited (OrdMap K V) := ⟨empty⟩

/-- The value stored under `k`. -/
def find? (m : OrdMap K V) (k : K) : Option V :=
  (m.entries.find? fun e => decide (e.1 = k)).map Prod.snd

def isEmpty (m : OrdMap K V) : Bool := m.entries.isEmpty

/-- Store `v` under `k`, overwriting an older value. -/
def insert (m : OrdMap K V) (k : K) (v : V) : OrdMap K V where
  entries := m.entries.filter (fun e => decide (e.1 < k)) ++
    (k, v) :: m.entries.filter fun e => decide (k < e.1)
  sorted := by
    rw [List.pairwise_append]
    refine ⟨m.sorted.filter _, ?_, ?_⟩
    · rw [List.pairwise_cons]
      exact ⟨fun e he => by simpa using (List.mem_filter.mp he).2, m.sorted.filter _⟩
    · intro a ha b hb
      have hak : a.1 < k := by simpa using (List.mem_filter.mp ha).2
      rcases List.mem_cons.mp hb with rfl | hb
      · exact hak
      · exact hak.trans (by simpa using (List.mem_filter.mp hb).2)

def erase (m : OrdMap K V) (k : K) : OrdMap K V where
  entries := m.entries.filter fun e => decide (e.1 ≠ k)
  sorted := m.sorted.filter _

/-- The entry with the least key that is not less than `k`. -/
def lowerBound (m : OrdMap K V) (k : K) : Option (K × V) :=
  m.entries.find? fun e => decide (k ≤ e.1)

/-- The entry with the least key. -/
def begin? (m : OrdMap K V) : Option (K × V) := m.entries.head?

/-- The entry reached clockwise from `k`: `lowerBound`, or the first entry when no
    key is left above `k`. -/
def cyclicSucc (m : OrdMap K V) (k : K) : Option (K × V) :=
  match m.lowerBound k with
  | some e => some e
  | none => m.begin?

/-- `operator[]` of the source language: the value under `k`, storing `d` there
    first when the key is absent. -/
def index (m : OrdMap K V) (k : K) (d : V) : V × OrdMap K V :=
  match m.find? k with
  | some v => (v, m)
  | none => (d, m.insert k d)

/-! ### Lookup and membership -/

theorem eq_of_mem_of_mem {l : List (K × V)} (hl : l.Pairwise fun a b => a.1 < b.1)
    {k : K} {v w : V} (hv : (k, v) ∈ l) (hw : (k, w) ∈ l) : v = w := by
  induction l with
  | nil => cases hv
  | cons e l ih =>
    rw [List.pairwise_cons] at hl
    rcases List.mem_cons.mp hv with rfl | hv'
    · rcases List.mem_cons.mp hw with hw' | hw'
      · exact (Prod.mk.inj hw').2.symm
      · exact absurd (hl.1 _ hw') (lt_irrefl _)
    · rcases List.mem_cons.mp hw with rfl | hw'
      · exact absurd (hl.1 _ hv') (lt_irrefl _)
      · exact ih hl.2 hv' hw'

theorem find?_eq_some_iff {m : OrdMap K V} {k : K} {v : V} :
    m.find? k = some v ↔ (k, v) ∈ m.entries := by
  constructor
  · intro h
    obtain ⟨e, he, rfl⟩ := Option.map_eq_some_iff.mp h
    have hkey : e.1 = k := by simpa using List.find?_some he
    rw [← hkey]
    exact List.mem_of_find?_eq_some he
  · intro h
    have hsome : (m.entries.find? fun e => decide (e.1 = k)).isSome := by
      rw [List.find?_isSome]
      exact ⟨(k, v), h, by simp⟩
    obtain ⟨e, he⟩ := Option.isSome_iff_exists.mp hsome
    have hkey : e.1 = k := by simpa using List.find?_some he
    have hmem : (k, e.2) ∈ m.entries := by
      rw [← hkey]; exact List.mem_of_find?_eq_some he
    simp only [find?, he, Option.map_some, eq_of_mem_of_mem m.sorted hmem h]

theorem find?_eq_none_iff {m : OrdMap K V} {k : K} :
    m.find? k = none ↔ ∀ v, (k, v) ∉ m.entries := by
  rw [Option.eq_none_iff_forall_ne_some]
  exact forall_congr' fun v => not_congr find?_eq_some_iff

/-- A map on integers leaves a natural number free. -/
theorem exists_find?_eq_none (m : OrdMap ℤ V) : ∃ n : ℕ, m.find? (n : ℤ) = none := by
  obtain ⟨n, hn⟩ := Infinite.exists_notMem_finset (m.entries.map fun e => e.1.toNat).toFinset
  refine ⟨n, find?_eq_none_iff.mpr fun v hv => hn ?_⟩
  rw [List.mem_toFinset, List.mem_map]
  exact ⟨((n : ℤ), v), hv, Int.toNat_natCast n⟩

/-- Two maps that answer every lookup alike are the same map. -/
theorem ext_find? {m n : OrdMap K V} (h : ∀ k, m.find? k = n.find? k) : m = n := by
  have hmem : ∀ e, e ∈ m.entries ↔ e ∈ n.entries := fun e => by
    rw [← Prod.mk.eta (p := e), ← find?_eq_some_iff, h, find?_eq_some_iff]
  have hnodup : ∀ l : List (K × V), l.Pairwise (fun a b => a.1 < b.1) → l.Nodup :=
    fun l hl => hl.imp fun {a b} (hlt : a.1 < b.1) (heq : a = b) => by
      rw [heq] at hlt
      exact lt_irrefl _ hlt
  have hperm : m.entries.Perm n.entries :=
    (List.perm_ext_iff_of_nodup (hnodup _ m.sorted) (hnodup _ n.sorted)).mpr hmem
  have heq : m.entries = n.entries :=
    hperm.eq_of_pairwise (fun a b _ _ hab hba => absurd (hab.trans hba) (lt_irrefl _))
      m.sorted n.sorted
  cases m; cases n; simpa using heq

@[simp] theorem find?_empty (k : K) : (empty : OrdMap K V).find? k = none := rfl

@[simp] theorem find?_insert (m : OrdMap K V) (k k' : K) (v : V) :
    (m.insert k v).find? k' = if k' = k then some v else m.find? k' := by
  apply Option.ext
  intro w
  rw [find?_eq_some_iff]
  by_cases hk : k' = k
  · subst hk
    simp [insert, eq_comm]
  · have hor : k' < k ∨ k < k' := lt_or_gt_of_ne hk
    simp [insert, hk, find?_eq_some_iff, hor, ← and_or_left]

theorem find?_insert_self (m : OrdMap K V) (k : K) (v : V) : (m.insert k v).find? k = some v := by
  rw [find?_insert, if_pos rfl]

theorem find?_insert_of_ne {k k' : K} (h : k' ≠ k) (m : OrdMap K V) (v : V) :
    (m.insert k v).find? k' = m.find? k' := by
  rw [find?_insert, if_neg h]

@[simp] theorem find?_erase (m : OrdMap K V) (k k' : K) :
    (m.erase k).find? k' = if k' = k then none else m.find? k' := by
  apply Option.ext
  intro w
  rw [find?_eq_some_iff]
  by_cases hk : k' = k
  · subst hk; simp [erase]
  · simp [erase, hk, find?_eq_some_iff]

theorem find?_erase_self (m : OrdMap K V) (k : K) : (m.erase k).find? k = none := by
  rw [find?_erase, if_pos rfl]

theorem find?_erase_of_ne {k k' : K} (h : k' ≠ k) (m : OrdMap K V) :
    (m.erase k).find? k' = m.find? k' := by
  rw [find?_erase, if_neg h]

/-- What is left was there. -/
theorem find?_of_find?_erase {m : OrdMap K V} {k k' : K} {v : V}
    (h : (m.erase k).find? k' = some v) : m.find? k' = some v := by
  rw [find?_erase] at h
  split at h
  · cases h
  · exact h

theorem isEmpty_iff {m : OrdMap K V} : m.isEmpty = true ↔ ∀ k, m.find? k = none := by
  rw [isEmpty, List.isEmpty_iff]
  constructor
  · intro h k
    rw [find?_eq_none_iff, h]
    simp
  · intro h
    apply List.eq_nil_iff_forall_not_mem.mpr
    intro e he
    exact find?_eq_none_iff.mp (h e.1) e.2 he

theorem isEmpty_eq_false {m : OrdMap K V} {k : K} {v : V} (h : m.find? k = some v) :
    m.isEmpty = false := by
  rw [Bool.eq_false_iff]
  intro hempty
  rw [isEmpty_iff.mp hempty k] at h
  cases h

/-- Reading a key that is present through `operator[]` changes nothing. -/
theorem index_of_find? {m : OrdMap K V} {k : K} {v : V} (h : m.find? k = some v) (d : V) :
    m.index k d = (v, m) := by
  simp only [index, h]

/-- `operator[]` keeps the entries that are there. -/
theorem find?_index {m : OrdMap K V} {k : K} {v : V} (h : m.find? k = some v) (k' : K) (d : V) :
    (m.index k' d).2.find? k = some v := by
  rcases hk' : m.find? k' with _ | v'
  · have hne : k ≠ k' := by
      rintro rfl
      rw [hk'] at h
      cases h
    simp only [index, hk']
    exact (find?_insert_of_ne hne ..).trans h
  · rw [index_of_find? hk']
    exact h

/-- Besides them there is the default at most. -/
theorem of_find?_index {m : OrdMap K V} {k k' : K} {d v : V}
    (h : (m.index k d).2.find? k' = some v) : m.find? k' = some v ∨ v = d := by
  rcases hk : m.find? k with _ | w
  · simp only [index, hk, find?_insert] at h
    split at h
    · exact Or.inr (Option.some.inj h).symm
    · exact Or.inl h
  · rw [index_of_find? hk] at h
    exact Or.inl h

/-- It returns the entry, or the default where there is none. -/
theorem index_fst (m : OrdMap K V) (k : K) (d : V) :
    m.find? k = some (m.index k d).1 ∨ (m.index k d).1 = d := by
  rcases hk : m.find? k with _ | v
  · right
    simp only [index, hk]
  · left
    rw [index_of_find? hk]

theorem insert_of_find? {m : OrdMap K V} {k : K} {v : V} (h : m.find? k = some v) :
    m.insert k v = m := by
  apply ext_find?
  intro k'
  by_cases hk : k' = k
  · subst hk; simp [h]
  · simp [hk]

/-! ### The ordered search -/

theorem lowerBound_eq_some_iff {m : OrdMap K V} {k k' : K} {v : V} :
    m.lowerBound k = some (k', v) ↔
      m.find? k' = some v ∧ k ≤ k' ∧ ∀ j, k ≤ j → j < k' → m.find? j = none := by
  rw [lowerBound, find?_eq_some_iff]
  constructor
  · intro h
    refine ⟨List.mem_of_find?_eq_some h, by simpa using List.find?_some h, ?_⟩
    intro j hkj hjk'
    rw [find?_eq_none_iff]
    intro w hw
    obtain ⟨_, l, r, hsplit, hbefore⟩ := List.find?_eq_some_iff_append.mp h
    rw [hsplit] at hw
    rcases List.mem_append.mp hw with hw | hw
    · -- an entry before the one found has a key below `k`
      exact absurd hkj (by simpa using hbefore _ hw)
    · have hsorted := m.sorted
      rw [hsplit, List.pairwise_append, List.pairwise_cons] at hsorted
      rcases List.mem_cons.mp hw with heq | hw
      · exact absurd hjk' (by rw [(Prod.mk.inj heq).1]; exact lt_irrefl _)
      · exact absurd (hsorted.2.1.1 _ hw) (not_lt_of_gt hjk')
  · rintro ⟨hmem, hkk', hnone⟩
    have hsome : (m.entries.find? fun e => decide (k ≤ e.1)).isSome := by
      rw [List.find?_isSome]
      exact ⟨(k', v), hmem, by simpa using hkk'⟩
    obtain ⟨⟨j, w⟩, he⟩ := Option.isSome_iff_exists.mp hsome
    have hjmem := List.mem_of_find?_eq_some he
    have hkj : k ≤ j := by simpa using List.find?_some he
    -- the entry found cannot lie after `(k', v)`, and nothing lies in between
    obtain ⟨_, l, r, hsplit, hbefore⟩ := List.find?_eq_some_iff_append.mp he
    have hjk' : j = k' := by
      rcases lt_trichotomy j k' with hlt | heq | hgt
      · exact absurd hjmem (find?_eq_none_iff.mp (hnone j hkj hlt) w)
      · exact heq
      · have hmem' := hmem
        rw [hsplit] at hmem'
        rcases List.mem_append.mp hmem' with hb | hb
        · exact absurd hkk' (by simpa using hbefore _ hb)
        · have hsorted := m.sorted
          rw [hsplit, List.pairwise_append, List.pairwise_cons] at hsorted
          rcases List.mem_cons.mp hb with heq | hb
          · exact (Prod.mk.inj heq).1.symm
          · exact absurd (hsorted.2.1.1 _ hb) (not_lt_of_gt hgt)
    subst hjk'
    rw [he, eq_of_mem_of_mem m.sorted hjmem hmem]

theorem lowerBound_eq_none_iff {m : OrdMap K V} {k : K} :
    m.lowerBound k = none ↔ ∀ j, k ≤ j → m.find? j = none := by
  rw [lowerBound, List.find?_eq_none]
  constructor
  · intro h j hkj
    rw [find?_eq_none_iff]
    intro w hw
    exact h _ hw (by simpa using hkj)
  · intro h e he hke
    exact find?_eq_none_iff.mp (h e.1 (by simpa using hke)) e.2 he

theorem begin?_eq_some_iff {m : OrdMap K V} {k : K} {v : V} :
    m.begin? = some (k, v) ↔ m.find? k = some v ∧ ∀ j, j < k → m.find? j = none := by
  have hsorted := m.sorted
  rw [begin?, find?_eq_some_iff]
  constructor
  · intro h
    refine ⟨List.mem_of_mem_head? h, ?_⟩
    intro j hj
    rw [find?_eq_none_iff]
    intro w hw
    obtain ⟨tail, htail⟩ := List.head?_eq_some_iff.mp h
    rw [htail, List.pairwise_cons] at hsorted
    rw [htail] at hw
    rcases List.mem_cons.mp hw with heq | hw
    · exact absurd hj (by rw [(Prod.mk.inj heq).1]; exact lt_irrefl _)
    · exact absurd (hsorted.1 _ hw) (not_lt_of_gt hj)
  · rintro ⟨hmem, hnone⟩
    cases hentries : m.entries with
    | nil => rw [hentries] at hmem; cases hmem
    | cons e l =>
      rw [hentries, List.pairwise_cons] at hsorted
      rw [hentries] at hmem
      rcases List.mem_cons.mp hmem with heq | hmem'
      · rw [← heq]; rfl
      · have hlt : e.1 < k := hsorted.1 _ hmem'
        exact absurd (by rw [hentries]; exact List.mem_cons_self)
          (find?_eq_none_iff.mp (hnone e.1 hlt) e.2)

theorem begin?_eq_none_iff {m : OrdMap K V} : m.begin? = none ↔ m.isEmpty = true := by
  rw [begin?, isEmpty, List.head?_eq_none_iff, List.isEmpty_iff]

/-! ### The cyclic successor -/

theorem find?_of_cyclicSucc {m : OrdMap K V} {k k' : K} {v : V}
    (h : m.cyclicSucc k = some (k', v)) : m.find? k' = some v := by
  unfold cyclicSucc at h
  split at h
  · next e he =>
    rw [h] at he
    exact (lowerBound_eq_some_iff.mp he).1
  · exact (begin?_eq_some_iff.mp h).1

theorem cyclicSucc_eq_none_iff {m : OrdMap K V} {k : K} :
    m.cyclicSucc k = none ↔ m.isEmpty = true := by
  unfold cyclicSucc
  split
  · next e he =>
    simp [isEmpty_eq_false (lowerBound_eq_some_iff.mp he).1]
  · exact begin?_eq_none_iff

/-- A key that is present is its own successor. -/
theorem cyclicSucc_of_find? {m : OrdMap K V} {k : K} {v : V} (h : m.find? k = some v) :
    m.cyclicSucc k = some (k, v) := by
  have hlower : m.lowerBound k = some (k, v) :=
    lowerBound_eq_some_iff.mpr ⟨h, le_refl k, fun _ hle hlt => absurd hle (not_le_of_gt hlt)⟩
  simp only [cyclicSucc, hlower]

/-- The key of `S` reached clockwise from `h`: the least one not below `h`, or the
    least one of all when `S` has none there. -/
def Clockwise (S : Set K) (h k : K) : Prop :=
  IsLeast {j | j ∈ S ∧ h ≤ j} k ∨ (∀ j ∈ S, j < h) ∧ IsLeast S k

/-- Among fewer keys the one that was reached still is. -/
theorem Clockwise.subset {S T : Set K} {h k : K} (hclockwise : Clockwise T h k) (hsub : S ⊆ T)
    (hk : k ∈ S) : Clockwise S h k := by
  rcases hclockwise with ⟨⟨-, hle⟩, hleast⟩ | ⟨hbelow, -, hleast⟩
  · exact Or.inl ⟨⟨hk, hle⟩, fun j hj => hleast ⟨hsub hj.1, hj.2⟩⟩
  · exact Or.inr ⟨fun j hj => hbelow j (hsub hj), hk, fun j hj => hleast (hsub hj)⟩

/-- `cyclicSucc` finds the key reached clockwise among those present. -/
theorem cyclicSucc_eq_some_iff {m : OrdMap K V} {h k : K} {v : V} :
    m.cyclicSucc h = some (k, v) ↔
      m.find? k = some v ∧ Clockwise {j | ∃ w, m.find? j = some w} h k := by
  have habsent : ∀ j, m.find? j = none ↔ ¬ ∃ w, m.find? j = some w := by
    intro j
    rw [Option.eq_none_iff_forall_ne_some, not_exists]
  unfold cyclicSucc
  rcases hlower : m.lowerBound h with _ | ⟨k', v'⟩
  · -- no key from `h` on, so the least of all is taken
    have hnone := lowerBound_eq_none_iff.mp hlower
    have hbelow : ∀ j ∈ {j | ∃ w, m.find? j = some w}, j < h := by
      rintro j ⟨w, hw⟩
      by_contra hle
      rw [hnone j (not_lt.mp hle)] at hw
      cases hw
    simp only [begin?_eq_some_iff, Clockwise]
    constructor
    · rintro ⟨hfind, hfirst⟩
      refine ⟨hfind, Or.inr ⟨hbelow, ⟨v, hfind⟩, ?_⟩⟩
      intro j hj
      by_contra hlt
      exact (habsent j).mp (hfirst j (not_le.mp hlt)) hj
    · rintro ⟨hfind, hleast | ⟨-, hleast⟩⟩
      · exact absurd (hbelow k hleast.1.1) (not_lt_of_ge hleast.1.2)
      · refine ⟨hfind, fun j hj => (habsent j).mpr fun hmem => ?_⟩
        exact absurd (hleast.2 hmem) (not_le_of_gt hj)
  · obtain ⟨hfind', hle', hbetween⟩ := lowerBound_eq_some_iff.mp hlower
    have hleast' : IsLeast {j | j ∈ {j | ∃ w, m.find? j = some w} ∧ h ≤ j} k' := by
      refine ⟨⟨⟨v', hfind'⟩, hle'⟩, ?_⟩
      rintro j ⟨hj, hhj⟩
      by_contra hlt
      exact (habsent j).mp (hbetween j hhj (not_le.mp hlt)) hj
    simp only [Option.some.injEq, Prod.mk.injEq]
    constructor
    · rintro ⟨rfl, rfl⟩
      exact ⟨hfind', Or.inl hleast'⟩
    · rintro ⟨hfind, hleast | ⟨hbelow, -⟩⟩
      · obtain rfl : k' = k := hleast'.unique hleast
        rw [hfind] at hfind'
        exact ⟨rfl, (Option.some.inj hfind').symm⟩
      · exact absurd (hbelow k' ⟨v', hfind'⟩) (not_lt_of_ge hle')

/-- Dropping other entries does not move the successor. -/
theorem cyclicSucc_of_submap {m n : OrdMap K V} {k k' : K} {v : V}
    (hsub : ∀ j w, n.find? j = some w → m.find? j = some w)
    (h : m.cyclicSucc k = some (k', v)) (hkept : n.find? k' = some v) :
    n.cyclicSucc k = some (k', v) := by
  have hnone : ∀ j, m.find? j = none → n.find? j = none := by
    intro j hj
    rcases hn : n.find? j with _ | w
    · rfl
    · rw [hsub j w hn] at hj; cases hj
  unfold cyclicSucc at h
  split at h
  · next e he =>
    rw [h] at he
    obtain ⟨-, hle, hbetween⟩ := lowerBound_eq_some_iff.mp he
    have hlower : n.lowerBound k = some (k', v) :=
      lowerBound_eq_some_iff.mpr ⟨hkept, hle, fun j hkj hjk => hnone j (hbetween j hkj hjk)⟩
    simp only [cyclicSucc, hlower]
  · next he =>
    obtain ⟨-, hbefore⟩ := begin?_eq_some_iff.mp h
    have hlower : n.lowerBound k = none :=
      lowerBound_eq_none_iff.mpr fun j hkj => hnone j (lowerBound_eq_none_iff.mp he j hkj)
    have hbegin : n.begin? = some (k', v) :=
      begin?_eq_some_iff.mpr ⟨hkept, fun j hj => hnone j (hbefore j hj)⟩
    simp only [cyclicSucc, hlower, hbegin]

/-! ### Bulk insertion and erasure -/

theorem find?_foldl_insert {α : Type*} (key : α → K) (v : V) (k : K) :
    ∀ (rs : List α) (m : OrdMap K V),
      (rs.foldl (fun m r => m.insert (key r) v) m).find? k =
        if k ∈ rs.map key then some v else m.find? k := by
  intro rs
  induction rs with
  | nil => intro m; simp
  | cons r rs ih =>
    intro m
    rw [List.foldl_cons, ih, find?_insert]
    by_cases hmem : k ∈ rs.map key
    · simp [hmem]
    · by_cases hkey : k = key r
      · simp [hkey]
      · simp [hmem, hkey]

theorem find?_foldl_erase {α : Type*} (key : α → K) (k : K) :
    ∀ (rs : List α) (m : OrdMap K V),
      (rs.foldl (fun m r => m.erase (key r)) m).find? k =
        if k ∈ rs.map key then none else m.find? k := by
  intro rs
  induction rs with
  | nil => intro m; simp
  | cons r rs ih =>
    intro m
    rw [List.foldl_cons, ih, find?_erase]
    by_cases hmem : k ∈ rs.map key
    · simp [hmem]
    · by_cases hkey : k = key r
      · simp [hkey]
      · simp [hmem, hkey]

/-! ### Counting entries -/

/-- How many entries the map has. -/
def size (m : OrdMap K V) : Nat := m.entries.length

/-- The keys under which `v` is stored. -/
def keysOf [DecidableEq V] (m : OrdMap K V) (v : V) : List K :=
  (m.entries.filter fun e => decide (e.2 = v)).map Prod.fst

theorem nodup_keys (m : OrdMap K V) : (m.entries.map Prod.fst).Nodup := by
  rw [List.Nodup, List.pairwise_map]
  exact m.sorted.imp ne_of_lt

theorem mem_keys {m : OrdMap K V} {k : K} :
    k ∈ m.entries.map Prod.fst ↔ ∃ v, m.find? k = some v := by
  simp only [List.mem_map, Prod.exists, exists_and_right, exists_eq_right, find?_eq_some_iff]

theorem nodup_keysOf [DecidableEq V] (m : OrdMap K V) (v : V) : (m.keysOf v).Nodup :=
  m.nodup_keys.sublist (List.filter_sublist.map _)

theorem mem_keysOf [DecidableEq V] {m : OrdMap K V} {k : K} {v : V} :
    k ∈ m.keysOf v ↔ m.find? k = some v := by
  rw [find?_eq_some_iff, keysOf, List.mem_map]
  constructor
  · rintro ⟨⟨k', v'⟩, hmem, rfl⟩
    obtain ⟨hentry, hv⟩ := List.mem_filter.mp hmem
    rwa [← of_decide_eq_true hv]
  · intro hentry
    exact ⟨(k, v), List.mem_filter.mpr ⟨hentry, by simp⟩, rfl⟩

/-- A list that names every key once has the map's size. -/
theorem size_eq_length {m : OrdMap K V} {l : List K} (hl : l.Nodup)
    (h : ∀ k, k ∈ l ↔ ∃ v, m.find? k = some v) : m.size = l.length := by
  have hperm : (m.entries.map Prod.fst).Perm l :=
    (List.perm_ext_iff_of_nodup m.nodup_keys hl).mpr fun k => mem_keys.trans (h k).symm
  rw [size, ← hperm.length_eq, List.length_map]

/-- A list that names every key of `v` once has as many entries as `v`. -/
theorem length_keysOf_eq [DecidableEq V] {m : OrdMap K V} {v : V} {l : List K} (hl : l.Nodup)
    (h : ∀ k, k ∈ l ↔ m.find? k = some v) : (m.keysOf v).length = l.length :=
  ((List.perm_ext_iff_of_nodup (m.nodup_keysOf v) hl).mpr fun k =>
    mem_keysOf.trans (h k).symm).length_eq

end OrdMap
