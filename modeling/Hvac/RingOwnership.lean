/-
  Hvac/RingOwnership.lean
  =======================
  **How many points each server owns after the initialisation.**

  `initialize_hash_ring` is to give every server `VIRTUAL_NODE_CNT` points.  It
  does so exactly when no two virtual nodes share a name: with up to ten servers
  the names are distinct (`pointName_inj`), so a hash without collisions keeps
  all points apart; from eleven servers on `server11` takes over the point that
  `server1` put on `server110` (`shared_point_lost`).  `fullOwnership_iff` is the
  two directions for one hash.
-/
import Hvac.RingDisruption

namespace Hvac

open Cxx

/-- The ring of `initialize_hash_ring(N, 100)` has `N * 100` points, and each of
    the `N` servers owns `100` of them. -/
def FullOwnership (hash : String → SizeT) (N : Nat) : Prop :=
  (initRing hash N VIRTUAL_NODE_CNT).ring.size = N * VIRTUAL_NODE_CNT ∧
  ∀ i, 1 ≤ i → i ≤ N →
    ((initRing hash N VIRTUAL_NODE_CNT).ring.keysOf (serverName i)).length = VIRTUAL_NODE_CNT

variable {hash : String → SizeT} {N : Nat}

/-! ### Up to ten servers -/

theorem pointName_inj {i j r r' : Nat} (hi : i ≤ 10) (hj : j ≤ 10) (hr : r < 100) (hr' : r' < 100)
    (h : pointName i r = pointName j r') : i = j ∧ r = r' := by
  have hij : i = j := pointName_server_inj hi hj hr hr' h
  subst hij
  have hlist := congrArg String.toList h
  rw [toList_pointName, toList_pointName, List.append_cancel_left_eq,
    List.append_cancel_left_eq] at hlist
  exact ⟨rfl, toDigits_inj hlist⟩

/-- Equal points come from the same replica of the same server. -/
theorem point_inj (hN : N ≤ 10) (hdistinct : DistinctPoints hash N VIRTUAL_NODE_CNT)
    {i j r r' : Nat} (hi1 : 1 ≤ i) (hiN : i ≤ N) (hj1 : 1 ≤ j) (hjN : j ≤ N)
    (hr : r < VIRTUAL_NODE_CNT) (hr' : r' < VIRTUAL_NODE_CNT)
    (h : HashRing.point hash (serverName i) r = HashRing.point hash (serverName j) r') :
    i = j ∧ r = r' := by
  rw [point_serverName, point_serverName] at h
  by_cases hname : pointName i r = pointName j r'
  · exact pointName_inj (by omega) (by omega) hr hr' hname
  · exact absurd h (hdistinct i j r r' hi1 hiN hj1 hjN hr hr' hname)

theorem nodup_points (hN : N ≤ 10) (hdistinct : DistinctPoints hash N VIRTUAL_NODE_CNT)
    {i : Nat} (hi1 : 1 ≤ i) (hiN : i ≤ N) :
    (HashRing.points hash VIRTUAL_NODE_CNT (serverName i)).Nodup := by
  apply List.Nodup.map_on
  · intro r hr r' hr' h
    exact (point_inj hN hdistinct hi1 hiN hi1 hiN (List.mem_range.mp hr) (List.mem_range.mp hr')
      h).2
  · exact List.nodup_range

/-- A server owns all its points: no later server lies on one of them. -/
theorem find?_initRing_of_le (hN : N ≤ 10) (hdistinct : DistinctPoints hash N VIRTUAL_NODE_CNT)
    {i : Nat} (hi1 : 1 ≤ i) (hiN : i ≤ N) {k : SizeT} :
    k ∈ HashRing.points hash VIRTUAL_NODE_CNT (serverName i) ↔
      (initRing hash N VIRTUAL_NODE_CNT).ring.find? k = some (serverName i) := by
  rw [find?_initRing_iff]
  constructor
  · intro hmem
    refine ⟨i, hi1, hiN, rfl, hmem, ?_⟩
    intro j hij hjN hmem'
    obtain ⟨r, hr, hrk⟩ := HashRing.mem_points.mp hmem
    obtain ⟨r', hr', hrk'⟩ := HashRing.mem_points.mp hmem'
    have hsame := point_inj hN hdistinct hi1 hiN (by omega) hjN hr hr' (hrk.trans hrk'.symm)
    omega
  · rintro ⟨j, -, -, hname, hmem, -⟩
    rwa [hname]

/-- All points, server by server. -/
def allPoints (hash : String → SizeT) (N : Nat) : List SizeT :=
  (List.range' 1 N).flatMap fun i => HashRing.points hash VIRTUAL_NODE_CNT (serverName i)

theorem length_allPoints : (allPoints hash N).length = N * VIRTUAL_NODE_CNT := by
  simp [allPoints, List.length_flatMap, HashRing.points]

theorem nodup_allPoints (hN : N ≤ 10) (hdistinct : DistinctPoints hash N VIRTUAL_NODE_CNT) :
    (allPoints hash N).Nodup := by
  rw [allPoints, List.nodup_flatMap]
  constructor
  · intro i hi
    rw [List.mem_range'_1] at hi
    exact nodup_points hN hdistinct hi.1 (by omega)
  · refine List.Pairwise.imp_of_mem ?_ List.nodup_range'
    intro i j hi hj hij k hk hk'
    rw [List.mem_range'_1] at hi hj
    obtain ⟨r, hr, hrk⟩ := HashRing.mem_points.mp hk
    obtain ⟨r', hr', hrk'⟩ := HashRing.mem_points.mp hk'
    exact hij (point_inj hN hdistinct hi.1 (by omega) hj.1 (by omega) hr hr'
      (hrk.trans hrk'.symm)).1

theorem fullOwnership_of_le (hN : N ≤ 10) (hdistinct : DistinctPoints hash N VIRTUAL_NODE_CNT) :
    FullOwnership hash N := by
  constructor
  · have hlength : (allPoints hash N).length = N * VIRTUAL_NODE_CNT := length_allPoints
    rw [← hlength]
    apply OrdMap.size_eq_length (nodup_allPoints hN hdistinct)
    intro k
    rw [allPoints, List.mem_flatMap]
    constructor
    · rintro ⟨i, hi, hk⟩
      rw [List.mem_range'_1] at hi
      exact ⟨_, (find?_initRing_of_le hN hdistinct hi.1 (by omega)).mp hk⟩
    · rintro ⟨v, hv⟩
      obtain ⟨i, hi1, hiN, -, hk, -⟩ := find?_initRing_iff.mp hv
      exact ⟨i, List.mem_range'_1.mpr ⟨hi1, by omega⟩, hk⟩
  · intro i hi1 hiN
    rw [OrdMap.length_keysOf_eq (nodup_points hN hdistinct hi1 hiN)
      fun k => find?_initRing_of_le hN hdistinct hi1 hiN]
    simp [HashRing.points]

/-! ### From eleven servers on -/

/-- `server1`'s replica 10 and `server11`'s replica 0 have one name. -/
theorem shared_point :
    HashRing.point hash (serverName 1) 10 = HashRing.point hash (serverName 11) 0 := by
  have hname : pointName 1 10 = pointName 11 0 := by decide
  rw [point_serverName, point_serverName, hname]

/-- The point `server1` puts on its replica 10 belongs to another server. -/
theorem shared_point_lost (hge : 11 ≤ N) :
    (initRing hash N VIRTUAL_NODE_CNT).ring.find? (HashRing.point hash (serverName 1) 10) ≠
      some (serverName 1) := by
  intro h
  obtain ⟨i, -, -, hname, -, hlast⟩ := find?_initRing_iff.mp h
  obtain rfl : 1 = i := serverName_inj.mp hname
  apply hlast 11 (by decide) hge
  rw [shared_point]
  exact HashRing.mem_points.mpr ⟨0, by decide, rfl⟩

theorem not_fullOwnership_of_ge (hge : 11 ≤ N) : ¬ FullOwnership hash N := by
  intro h
  have hcount := h.2 1 (le_refl _) (by omega)
  -- the points `server1` owns, and the one it lost, are all among its hundred points
  have hnodup : (HashRing.point hash (serverName 1) 10 ::
      (initRing hash N VIRTUAL_NODE_CNT).ring.keysOf (serverName 1)).Nodup := by
    rw [List.nodup_cons, OrdMap.mem_keysOf]
    exact ⟨shared_point_lost hge, OrdMap.nodup_keysOf _ _⟩
  have hsubset : (HashRing.point hash (serverName 1) 10 ::
      (initRing hash N VIRTUAL_NODE_CNT).ring.keysOf (serverName 1)) ⊆
        HashRing.points hash VIRTUAL_NODE_CNT (serverName 1) := by
    intro k hk
    rcases List.mem_cons.mp hk with rfl | hk
    · exact HashRing.mem_points.mpr ⟨10, by decide, rfl⟩
    · have hown := (ringInv_initRing hash N VIRTUAL_NODE_CNT).own k _ (OrdMap.mem_keysOf.mp hk)
      rwa [initRing_replicas] at hown
  have hle := (hnodup.subperm hsubset).length_le
  rw [List.length_cons, hcount] at hle
  simp only [HashRing.points, List.length_map, List.length_range] at hle
  omega

/-- **Full ownership, exactly.**  Under a hash that keeps the hashed names apart,
    the ring has `N * 100` points and each server owns a hundred of them if and
    only if there are at most ten servers. -/
theorem fullOwnership_iff (hdistinct : DistinctPoints hash N VIRTUAL_NODE_CNT) :
    FullOwnership hash N ↔ N ≤ 10 := by
  constructor
  · intro h
    by_contra hgt
    exact not_fullOwnership_of_ge (by omega) h
  · intro hN
    exact fullOwnership_of_le hN hdistinct

theorem fullOwnership_iff_ten : FullOwnership clashHash 10 ↔ 10 ≤ 10 :=
  fullOwnership_iff (distinctPoints_clashHash (by decide))

/-- With eleven servers and a hash without collisions `server1` does not own the
    point of its replica 10. -/
theorem fullOwnership_fails_at_eleven :
    DistinctPoints clashHash 11 VIRTUAL_NODE_CNT ∧ ¬ FullOwnership clashHash 11 ∧
    (initRing clashHash 11 VIRTUAL_NODE_CNT).ring.find?
      (HashRing.point clashHash (serverName 1) 10) ≠ some (serverName 1) :=
  ⟨distinctPoints_clashHash (by decide), not_fullOwnership_of_ge (le_refl _),
    shared_point_lost (le_refl _)⟩

end Hvac
