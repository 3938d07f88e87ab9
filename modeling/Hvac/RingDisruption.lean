/-
  Hvac/RingDisruption.lean
  ========================
  **Which paths move when a failed server leaves the ring.**

  A virtual node is named by the server's name and the replica number with
  nothing between them, so `server1` + `11` and `server11` + `1` are one name and
  one point.  `AddNode` gives that point to the later server, and removing
  `server1` erases it although `server11` owns it.  Up to ten servers no two
  names coincide (`pointName_server_inj`) and a removal moves only the removed
  server's paths; from eleven servers on there is a hash function without
  collisions for which it moves another server's (`clash_moves`).  Both
  directions meet in `minimalDisruption_iff`.
-/
import Hvac.HashRing

namespace Hvac

open Cxx

/-- `VIRTUAL_NODE_CNT` of `hvac_client.cpp`. -/
def VIRTUAL_NODE_CNT : Nat := 100

/-- The string hashed for replica `r` of server `i`. -/
def pointName (i r : Nat) : String := serverName i ++ stringifyReplica r

theorem point_serverName (hash : String → SizeT) (i r : Nat) :
    HashRing.point hash (serverName i) r = hash (pointName i r) := rfl

theorem toList_pointName (i r : Nat) :
    (pointName i r).toList =
      ['s', 'e', 'r', 'v', 'e', 'r'] ++ (Nat.toDigits 10 i ++ Nat.toDigits 10 r) := by
  rw [pointName, String.toList_append, toList_serverName, stringifyReplica, toList_toString,
    List.append_assoc]

/-- The hash gives distinct values to distinct names of virtual nodes. -/
def DistinctPoints (hash : String → SizeT) (N V : Nat) : Prop :=
  ∀ i j r r', 1 ≤ i → i ≤ N → 1 ≤ j → j ≤ N → r < V → r' < V →
    pointName i r ≠ pointName j r' → hash (pointName i r) ≠ hash (pointName j r')

/-- Removing a server moves only the paths that server owned: for every hash
    without collisions, every ring the failover code can have made of the
    initial one, every server `x` and every path. -/
def MinimalDisruption (N : Nat) : Prop :=
  ∀ hash : String → SizeT, DistinctPoints hash N VIRTUAL_NODE_CNT →
    ∀ removed : List Nat, (∀ i ∈ removed, 1 ≤ i ∧ i ≤ N) →
    ∀ (ring : HashRing String),
      ring = removed.foldl (fun ring i => ring.removeNode hash (serverName i))
        (initRing hash N VIRTUAL_NODE_CNT) →
    ∀ x, 1 ≤ x → x ≤ N → ∀ (path node : String), node ≠ serverName x →
      ring.getNode hash path = some node →
      (ring.removeNode hash (serverName x)).getNode hash path = some node

/-! ### Up to ten servers the names are distinct -/

theorem toDigits_inj {m n : Nat} (h : Nat.toDigits 10 m = Nat.toDigits 10 n) : m = n := by
  have hvalue := congrArg (fun l => Nat.ofDigitChars 10 l 0) h
  simpa only [Nat.ofDigitChars_ten_toDigits] using hvalue

/-- Server numbers below ten are one digit, so their name ends before the
    replica begins. -/
theorem pointName_inj_of_lt {i j r r' : Nat} (hi : i < 10) (hj : j < 10)
    (h : pointName i r = pointName j r') : i = j := by
  have hlist := congrArg String.toList h
  rw [toList_pointName, toList_pointName, List.append_cancel_left_eq,
    Nat.toDigits_of_lt_base hi, Nat.toDigits_of_lt_base hj, List.singleton_append,
    List.singleton_append] at hlist
  have hdigit : [i.digitChar] = [j.digitChar] := by rw [(List.cons.inj hlist).1]
  rw [← Nat.toDigits_of_lt_base hi, ← Nat.toDigits_of_lt_base hj] at hdigit
  exact toDigits_inj hdigit

/-- A one-digit server and `server10` never share a name: the replica would have
    to start with a zero and go on. -/
theorem pointName_ne_ten {i r r' : Nat} (hi : i < 10) (hr : r < 100) :
    pointName i r ≠ pointName 10 r' := by
  intro h
  have hlist := congrArg String.toList h
  rw [toList_pointName, toList_pointName, List.append_cancel_left_eq,
    Nat.toDigits_of_lt_base hi, List.singleton_append,
    show Nat.toDigits 10 10 = ['1', '0'] by decide] at hlist
  have htail : Nat.toDigits 10 r = '0' :: Nat.toDigits 10 r' := (List.cons.inj hlist).2
  have hzero : r = 0 := by
    have hhead : ∀ r < 100, (Nat.toDigits 10 r).head? = some '0' → r = 0 := by decide
    exact hhead r hr (by rw [htail]; rfl)
  rw [hzero, Nat.toDigits_zero] at htail
  exact Nat.toDigits_ne_nil (List.cons.inj htail).2.symm

theorem pointName_server_inj {i j r r' : Nat} (hi : i ≤ 10) (hj : j ≤ 10)
    (hr : r < 100) (hr' : r' < 100) (h : pointName i r = pointName j r') : i = j := by
  rcases Nat.lt_or_eq_of_le hi with hi | rfl
  · rcases Nat.lt_or_eq_of_le hj with hj | rfl
    · exact pointName_inj_of_lt hi hj h
    · exact absurd h (pointName_ne_ten hi hr)
  · rcases Nat.lt_or_eq_of_le hj with hj | rfl
    · exact absurd h.symm (pointName_ne_ten hj hr')
    · rfl

theorem minimalDisruption_of_le {N : Nat} (hN : N ≤ 10) : MinimalDisruption N := by
  intro hash hdistinct removed _ ring hring x hx1 hxN path node hne hnode
  have hinv : RingInv hash N ring ∧ ring.replicas = VIRTUAL_NODE_CNT := by
    rw [hring]
    clear hring hnode
    induction removed using List.reverseRecOn with
    | nil => exact ⟨ringInv_initRing hash N _, initRing_replicas N _⟩
    | append_singleton removed i ih =>
      have hrest := ih (fun i hi => by simp_all)
      rw [List.foldl_append]
      exact ⟨hrest.1.removeNode _, hrest.2⟩
  rw [HashRing.getNode_eq] at hnode
  obtain ⟨⟨k, owner⟩, hsucc, rfl⟩ := Option.map_eq_some_iff.mp hnode
  apply HashRing.getNode_removeNode_of_not_mem hsucc
  -- the point belongs to a replica of `owner`, which is another server than `x`
  have hfind := OrdMap.find?_of_cyclicSucc hsucc
  obtain ⟨i, hi1, hiN, howner⟩ := hinv.1.server k owner hfind
  have howns := hinv.1.own k owner hfind
  rw [hinv.2] at howns ⊢
  rw [howner] at howns
  obtain ⟨r, hr, hrk⟩ := HashRing.mem_points.mp howns
  intro hx
  obtain ⟨r', hr', hrk'⟩ := HashRing.mem_points.mp hx
  rw [point_serverName] at hrk hrk'
  by_cases hname : pointName i r = pointName x r'
  · have hix : i = x := pointName_server_inj (by omega) (by omega) hr hr' hname
    exact hne (by rw [howner, hix])
  · exact hdistinct i x r r' hi1 hiN hx1 hxN hr hr' hname (hrk.trans hrk'.symm)

/-! ### From eleven servers on two names coincide -/

/-- The digits read from the least significant one, closed by a one. -/
def clashCode : List Char → Nat
  | [] => 1
  | c :: l => (c.toNat - 48) + 10 * clashCode l

theorem clashCode_pos (l : List Char) : 1 ≤ clashCode l := by
  induction l with
  | nil => exact le_refl _
  | cons c l ih => simp only [clashCode]; omega

theorem digit_lt {c : Char} (h : c.isDigit = true) : 48 ≤ c.toNat ∧ c.toNat ≤ 57 := by
  simp only [Char.isDigit, Bool.and_eq_true, decide_eq_true_eq] at h
  exact ⟨h.1, h.2⟩

theorem clashCode_inj {l m : List Char} (hl : ∀ c ∈ l, c.isDigit = true)
    (hm : ∀ c ∈ m, c.isDigit = true) (h : clashCode l = clashCode m) : l = m := by
  induction l generalizing m with
  | nil =>
    cases m with
    | nil => rfl
    | cons d m =>
      have hpos := clashCode_pos m
      simp only [clashCode] at h
      omega
  | cons c l ih =>
    cases m with
    | nil =>
      have hpos := clashCode_pos l
      simp only [clashCode] at h
      omega
    | cons d m =>
      simp only [clashCode] at h
      have hc := digit_lt (hl c List.mem_cons_self)
      have hd := digit_lt (hm d List.mem_cons_self)
      have hcd : c.toNat = d.toNat := by omega
      have hrest : l = m :=
        ih (fun e he => hl e (List.mem_cons_of_mem _ he))
          (fun e he => hm e (List.mem_cons_of_mem _ he)) (by omega)
      rw [hrest, Char.toNat_inj.mp hcd]

theorem clashCode_lt {l : List Char} (hl : ∀ c ∈ l, c.isDigit = true) :
    clashCode l < 2 * 10 ^ l.length := by
  induction l with
  | nil => decide
  | cons c l ih =>
    have hc := digit_lt (hl c List.mem_cons_self)
    have hrest := ih fun e he => hl e (List.mem_cons_of_mem _ he)
    simp only [clashCode, List.length_cons, Nat.pow_succ]
    omega

/-- The path whose point is the one `server1` and `server11` share. -/
def clashPath : String := "/data/a"

/-- A hash without collisions on names of virtual nodes that puts the shared name
    first and a point of `server2` next. -/
def clashHash (s : String) : SizeT :=
  if s = "server111" ∨ s = clashPath then 0
  else if s = "server20" then 1
  else Fin.ofNat _ (clashCode (s.toList.drop 6) + 2)

theorem pointName_digits (i r : Nat) :
    (pointName i r).toList.drop 6 = Nat.toDigits 10 i ++ Nat.toDigits 10 r := by
  rw [toList_pointName]
  rfl

theorem pointName_isDigit (i r : Nat) :
    ∀ c ∈ (pointName i r).toList.drop 6, c.isDigit = true := by
  intro c hc
  rw [pointName_digits] at hc
  rcases List.mem_append.mp hc with h | h
  · exact isDigit_of_mem_toDigits h
  · exact isDigit_of_mem_toDigits h

theorem pointName_inj_digits {i j r r' : Nat}
    (h : (pointName i r).toList.drop 6 = (pointName j r').toList.drop 6) :
    pointName i r = pointName j r' := by
  rw [pointName_digits, pointName_digits] at h
  rw [← String.toList_inj, toList_pointName, toList_pointName, h]

theorem pointName_ne_clashPath (i r : Nat) : pointName i r ≠ clashPath := by
  intro h
  have hhead := congrArg (fun s => s.toList.head?) h
  simp only [toList_pointName, List.cons_append, List.head?_cons] at hhead
  exact absurd hhead (by decide)

theorem clashCode_small {i r : Nat} (hi : i < 2 ^ 31) (hr : r < 100) :
    clashCode ((pointName i r).toList.drop 6) + 2 < 2 ^ 64 := by
  have hlt := clashCode_lt (pointName_isDigit i r)
  have hlen : ((pointName i r).toList.drop 6).length ≤ 12 := by
    have hli := (Nat.length_toDigits_le_iff (b := 10) (n := i) (k := 10) (by decide)
      (by decide)).mpr (by omega)
    have hlr := (Nat.length_toDigits_le_iff (b := 10) (n := r) (k := 2) (by decide)
      (by decide)).mpr (by omega)
    rw [pointName_digits, List.length_append]
    omega
  have hpow : 10 ^ ((pointName i r).toList.drop 6).length ≤ 10 ^ 12 :=
    Nat.pow_le_pow_right (by decide) hlen
  omega

theorem clashHash_val {i r : Nat} (hi : i < 2 ^ 31) (hr : r < 100)
    (h1 : pointName i r ≠ "server111") (h2 : pointName i r ≠ "server20") :
    (clashHash (pointName i r)).val = clashCode ((pointName i r).toList.drop 6) + 2 := by
  rw [clashHash, if_neg (by rintro (h | h); exacts [h1 h, pointName_ne_clashPath i r h]),
    if_neg h2, Fin.val_ofNat, Nat.mod_eq_of_lt (clashCode_small hi hr)]

theorem clashHash_eq_zero {i r : Nat} (hi : i < 2 ^ 31) (hr : r < 100) :
    clashHash (pointName i r) = 0 ↔ pointName i r = "server111" := by
  constructor
  · intro h
    by_contra h1
    by_cases h2 : pointName i r = "server20"
    · rw [h2] at h
      exact absurd h (by decide)
    · have hval := clashHash_val hi hr h1 h2
      rw [h] at hval
      simp at hval
  · intro h
    rw [clashHash, if_pos (Or.inl h)]

theorem clashHash_eq_one {i r : Nat} (hi : i < 2 ^ 31) (hr : r < 100) :
    clashHash (pointName i r) = 1 ↔ pointName i r = "server20" := by
  constructor
  · intro h
    by_contra h2
    by_cases h1 : pointName i r = "server111"
    · rw [h1] at h
      exact absurd h (by decide)
    · have hval := clashHash_val hi hr h1 h2
      rw [h] at hval
      simp at hval
  · intro h
    rw [h]
    decide

theorem distinctPoints_clashHash {N : Nat} (hN : N < 2 ^ 31) :
    DistinctPoints clashHash N VIRTUAL_NODE_CNT := by
  intro i j r r' _ hi _ hj hr hr' hne heq
  have hi' : i < 2 ^ 31 := by omega
  have hj' : j < 2 ^ 31 := by omega
  by_cases h1 : pointName i r = "server111"
  · have hzero := (clashHash_eq_zero hi' hr).mpr h1
    rw [heq, clashHash_eq_zero hj' hr'] at hzero
    exact hne (h1.trans hzero.symm)
  by_cases h2 : pointName i r = "server20"
  · have hone := (clashHash_eq_one hi' hr).mpr h2
    rw [heq, clashHash_eq_one hj' hr'] at hone
    exact hne (h2.trans hone.symm)
  -- neither name is one of the two special ones, so the codes decide
  have h1' : pointName j r' ≠ "server111" := fun h =>
    h1 ((clashHash_eq_zero hi' hr).mp (heq.trans ((clashHash_eq_zero hj' hr').mpr h)))
  have h2' : pointName j r' ≠ "server20" := fun h =>
    h2 ((clashHash_eq_one hi' hr).mp (heq.trans ((clashHash_eq_one hj' hr').mpr h)))
  have hval := clashHash_val hi' hr h1 h2
  rw [heq, clashHash_val hj' hr' h1' h2'] at hval
  exact hne (pointName_inj_digits (clashCode_inj (pointName_isDigit i r)
    (pointName_isDigit j r') (by omega)))

/-- A server number is read from a proper, nonempty prefix of the digits of its
    virtual nodes' names. -/
theorem exists_prefix_of_digits {i r : Nat} {ds : List Char}
    (h : (pointName i r).toList.drop 6 = ds) :
    ∃ k, 0 < k ∧ k < ds.length ∧ i = Nat.ofDigitChars 10 (ds.take k) 0 := by
  rw [pointName_digits] at h
  have hi : 0 < (Nat.toDigits 10 i).length := Nat.length_toDigits_pos
  have hr : 0 < (Nat.toDigits 10 r).length := Nat.length_toDigits_pos
  refine ⟨(Nat.toDigits 10 i).length, hi, ?_, ?_⟩
  · rw [← h, List.length_append]
    omega
  · rw [← h, List.take_left, Nat.ofDigitChars_ten_toDigits]

theorem server_of_shared_name {i r : Nat} (h : pointName i r = "server111") : i = 1 ∨ i = 11 := by
  obtain ⟨k, hpos, hlt, hi⟩ := exists_prefix_of_digits (congrArg (fun s => s.toList.drop 6) h)
  rw [show ("server111".toList.drop 6) = ['1', '1', '1'] by decide] at hlt hi
  have hk : k = 1 ∨ k = 2 := by simp only [List.length_cons, List.length_nil] at hlt; omega
  rcases hk with rfl | rfl
  · exact Or.inl (hi.trans (by decide))
  · exact Or.inr (hi.trans (by decide))

theorem server_of_next_name {i r : Nat} (h : pointName i r = "server20") : i = 2 := by
  obtain ⟨k, hpos, hlt, hi⟩ := exists_prefix_of_digits (congrArg (fun s => s.toList.drop 6) h)
  rw [show ("server20".toList.drop 6) = ['2', '0'] by decide] at hlt hi
  obtain rfl : k = 1 := by simp only [List.length_cons, List.length_nil] at hlt; omega
  exact hi.trans (by decide)

/-- `clashPath` is served by `server11`; once `server1` is removed it is served by
    `server2`, although `server11` is still there. -/
theorem clash_moves {N : Nat} (hge : 11 ≤ N) (hN : N < 2 ^ 31) :
    (initRing clashHash N VIRTUAL_NODE_CNT).getNode clashHash clashPath = some (serverName 11) ∧
    ((initRing clashHash N VIRTUAL_NODE_CNT).removeNode clashHash (serverName 1)).getNode
      clashHash clashPath = some (serverName 2) := by
  have hzero : (initRing clashHash N VIRTUAL_NODE_CNT).ring.find? 0 = some (serverName 11) := by
    refine find?_initRing_iff.mpr ⟨11, by omega, hge, rfl, ?_, ?_⟩
    · exact HashRing.mem_points.mpr ⟨1, by decide, by decide⟩
    · intro j hj hjN hmem
      obtain ⟨r, hr, hrj⟩ := HashRing.mem_points.mp hmem
      rw [point_serverName, clashHash_eq_zero (by omega) hr] at hrj
      rcases server_of_shared_name hrj with h | h <;> omega
  have hone : (initRing clashHash N VIRTUAL_NODE_CNT).ring.find? 1 = some (serverName 2) := by
    refine find?_initRing_iff.mpr ⟨2, by omega, by omega, rfl, ?_, ?_⟩
    · exact HashRing.mem_points.mpr ⟨0, by decide, by decide⟩
    · intro j hj hjN hmem
      obtain ⟨r, hr, hrj⟩ := HashRing.mem_points.mp hmem
      rw [point_serverName, clashHash_eq_one (by omega) hr] at hrj
      have := server_of_next_name hrj
      omega
  have hpath : clashHash (Stringify.stringify clashPath) = 0 := by decide
  have herased : (0 : SizeT) ∈ HashRing.points clashHash VIRTUAL_NODE_CNT (serverName 1) :=
    HashRing.mem_points.mpr ⟨11, by decide, by decide⟩
  have hkept : (1 : SizeT) ∉ HashRing.points clashHash VIRTUAL_NODE_CNT (serverName 1) := by
    intro hmem
    obtain ⟨r, hr, hr1⟩ := HashRing.mem_points.mp hmem
    rw [point_serverName, clashHash_eq_one (by decide) hr] at hr1
    exact absurd (server_of_next_name hr1) (by decide)
  constructor
  · rw [HashRing.getNode_eq, hpath, OrdMap.cyclicSucc_of_find? hzero]
    rfl
  · -- point 0 is gone, and point 1 is the next one
    have hlower : ((initRing clashHash N VIRTUAL_NODE_CNT).removeNode clashHash
        (serverName 1)).ring.lowerBound 0 = some (1, serverName 2) := by
      refine OrdMap.lowerBound_eq_some_iff.mpr ⟨?_, by decide, ?_⟩
      · rw [HashRing.find?_removeNode, initRing_replicas, if_neg hkept, hone]
      · intro j _ hj
        obtain rfl : j = 0 := by
          apply Fin.ext
          have hj1 : j.val < 1 := hj
          simpa using hj1
        rw [HashRing.find?_removeNode, initRing_replicas, if_pos herased]
    rw [HashRing.getNode_eq, hpath, OrdMap.cyclicSucc, hlower]
    rfl

theorem not_minimalDisruption_of_ge {N : Nat} (hge : 11 ≤ N) (hN : N < 2 ^ 31) :
    ¬ MinimalDisruption N := by
  intro h
  obtain ⟨hbefore, hafter⟩ := clash_moves hge hN
  have hsame := h clashHash (distinctPoints_clashHash hN) [] (by simp) _ rfl 1 (by omega)
    (by omega) clashPath (serverName 11) (by rw [Ne, serverName_inj]; decide) hbefore
  rw [List.foldl_nil, hafter, Option.some.injEq, serverName_inj] at hsame
  exact absurd hsame (by decide)

/-- **Minimal disruption, exactly.**  Removing a failed server moves only the
    paths that server owned if and only if there are at most ten servers. -/
theorem minimalDisruption_iff {N : Nat} (hN : N < 2 ^ 31) : MinimalDisruption N ↔ N ≤ 10 := by
  constructor
  · intro h
    by_contra hgt
    exact not_minimalDisruption_of_ge (by omega) hN h
  · exact minimalDisruption_of_le

theorem minimalDisruption_iff_ten : MinimalDisruption 10 ↔ 10 ≤ 10 :=
  minimalDisruption_iff (by decide)

/-- With eleven servers a path of `server11` moves to `server2` when `server1` is
    removed. -/
theorem minimalDisruption_fails_at_eleven :
    ¬ MinimalDisruption 11 ∧ DistinctPoints clashHash 11 VIRTUAL_NODE_CNT ∧
    (initRing clashHash 11 VIRTUAL_NODE_CNT).getNode clashHash clashPath = some (serverName 11) ∧
    ((initRing clashHash 11 VIRTUAL_NODE_CNT).removeNode clashHash (serverName 1)).getNode
      clashHash clashPath = some (serverName 2) :=
  ⟨not_minimalDisruption_of_ge (by decide) (by decide), distinctPoints_clashHash (by decide),
    clash_moves (by decide) (by decide)⟩

end Hvac
