/-
  Hvac/HashRing.lean
  ==================
  **The consistent-hash ring** (`hvac_hashing.h`) and the ring a client starts
  with (`initialize_hash_ring` in `hvac_client.cpp`).

  The ring is a `map<size_t, Node>`; a node contributes one point for each of its
  `replicas_` replicas, at the hash of the node's name followed by the decimal
  replica number.  `AddNode` overwrites a point that is already there and
  `RemoveNode` erases the node's points whoever owns them, so two nodes whose
  points coincide interfere.  What survives any such interference is
  `RingInv`: a point is owned by one of the servers, and lies on a replica of
  its owner.  `find?_addNode`, `find?_removeNode` and `getNode_eq` say once what
  each operation does.
-/
import Hvac.Library.OrdMap
import Hvac.Library.Cxx

namespace Hvac

open Cxx

/-! ### `HashRing<Node, Data, Hash>` -/

/-- `StringifyNode` and `StringifyData`: a string is itself, a number is rendered. -/
class Stringify (α : Type) where
  stringify : α → String

instance : Stringify String := ⟨id⟩
instance : Stringify Nat := ⟨Cxx.toString⟩

structure HashRing (Node : Type) where
  ring : OrdMap SizeT Node
  replicas : Nat
deriving DecidableEq

def stringifyReplica (num : Nat) : String := Cxx.toString num

namespace HashRing

variable {Node Data : Type} [Stringify Node] [Stringify Data] (hash : String → SizeT)

/-- Where replica `r` of `node` lies. -/
def point (node : Node) (r : Nat) : SizeT :=
  hash (Stringify.stringify node ++ stringifyReplica r)

/-- `AddNode`.  No caller reads the hash it returns. -/
def addNode (ring : HashRing Node) (node : Node) : HashRing Node :=
  { ring with
    ring := (List.range ring.replicas).foldl (fun m r => m.insert (point hash node r) node)
      ring.ring }

def removeNode (ring : HashRing Node) (node : Node) : HashRing Node :=
  { ring with
    ring := (List.range ring.replicas).foldl (fun m r => m.erase (point hash node r)) ring.ring }

/-- `GetNode`; `none` where it throws `runtime_error("Empty ring")`. -/
def getNode (ring : HashRing Node) (data : Data) : Option Node :=
  if ring.ring.isEmpty then none
  else
    match ring.ring.lowerBound (hash (Stringify.stringify data)) with
    | some it => some it.2
    | none => (ring.ring.begin?).map Prod.snd

/-- `ConvertHostToNumber`; `none` where it throws (no "server" in the name, or
    `stoi` of the rest does). -/
def convertHostToNumber (node : Node) : Option Int :=
  if find (Stringify.stringify node) "server" then
    (stoi ((Stringify.stringify node).toList.drop 6)).map (· - 1)
  else none

/-- The points of all replicas of `node`. -/
def points (replicas : Nat) (node : Node) : List SizeT :=
  (List.range replicas).map (point hash node)

variable {hash}

theorem mem_points {replicas : Nat} {node : Node} {k : SizeT} :
    k ∈ points hash replicas node ↔ ∃ r, r < replicas ∧ point hash node r = k := by
  simp [points]

@[simp] theorem addNode_replicas (ring : HashRing Node) (node : Node) :
    (ring.addNode hash node).replicas = ring.replicas := rfl

@[simp] theorem removeNode_replicas (ring : HashRing Node) (node : Node) :
    (ring.removeNode hash node).replicas = ring.replicas := rfl

theorem find?_addNode (ring : HashRing Node) (node : Node) (k : SizeT) :
    (ring.addNode hash node).ring.find? k =
      if k ∈ points hash ring.replicas node then some node else ring.ring.find? k :=
  OrdMap.find?_foldl_insert (point hash node) node k _ _

theorem find?_removeNode (ring : HashRing Node) (node : Node) (k : SizeT) :
    (ring.removeNode hash node).ring.find? k =
      if k ∈ points hash ring.replicas node then none else ring.ring.find? k :=
  OrdMap.find?_foldl_erase (point hash node) k _ _

/-- Removing a node adds no point and changes no owner. -/
theorem find?_of_removeNode {ring : HashRing Node} {x node : Node} {k : SizeT}
    (h : (ring.removeNode hash x).ring.find? k = some node) : ring.ring.find? k = some node := by
  rw [find?_removeNode] at h
  split at h
  · cases h
  · exact h

omit [Stringify Node] in
/-- `GetNode` is the owner of the point reached clockwise from the hash. -/
theorem getNode_eq (ring : HashRing Node) (data : Data) :
    ring.getNode hash data =
      (ring.ring.cyclicSucc (hash (Stringify.stringify data))).map Prod.snd := by
  unfold getNode
  split
  · next hempty =>
    rw [OrdMap.cyclicSucc_eq_none_iff.mpr hempty]
    rfl
  · unfold OrdMap.cyclicSucc
    split
    · next it hit => rw [hit]; rfl
    · next hnone => rw [hnone]

omit [Stringify Node] in
theorem getNode_eq_none_iff (ring : HashRing Node) (data : Data) :
    ring.getNode hash data = none ↔ ring.ring.isEmpty = true := by
  rw [getNode_eq, Option.map_eq_none_iff, OrdMap.cyclicSucc_eq_none_iff]

omit [Stringify Node] in
/-- A node that `GetNode` returns owns a point. -/
theorem exists_point_of_getNode {ring : HashRing Node} {data : Data} {node : Node}
    (h : ring.getNode hash data = some node) : ∃ k, ring.ring.find? k = some node := by
  rw [getNode_eq] at h
  obtain ⟨⟨k, owner⟩, hsucc, rfl⟩ := Option.map_eq_some_iff.mp h
  exact ⟨k, OrdMap.find?_of_cyclicSucc hsucc⟩

/-- Removing `x` moves only data whose point was one of `x`'s points. -/
theorem getNode_removeNode_of_not_mem {ring : HashRing Node} {data : Data} {x node : Node}
    {k : SizeT}
    (h : ring.ring.cyclicSucc (hash (Stringify.stringify data)) = some (k, node))
    (hk : k ∉ points hash ring.replicas x) :
    (ring.removeNode hash x).getNode hash data = some node := by
  have hkept : (ring.removeNode hash x).ring.find? k = some node := by
    rw [find?_removeNode, if_neg hk]
    exact OrdMap.find?_of_cyclicSucc h
  rw [getNode_eq, OrdMap.cyclicSucc_of_submap (fun _ _ => find?_of_removeNode) h hkept]
  rfl

end HashRing

/-! ### The servers' ring -/

/-- The name under which server `i` joins the ring. -/
def serverName (i : Nat) : String := "server" ++ Cxx.toString i

theorem toList_serverName (i : Nat) :
    (serverName i).toList = ['s', 'e', 'r', 'v', 'e', 'r'] ++ Nat.toDigits 10 i := by
  rw [serverName, String.toList_append, toList_toString]
  rfl

theorem serverName_inj {i j : Nat} : serverName i = serverName j ↔ i = j := by
  rw [← String.toList_inj, toList_serverName, toList_serverName, List.append_cancel_left_eq,
    ← toList_toString, ← toList_toString, String.toList_inj, toString_inj]

theorem convertHostToNumber_serverName {i : Nat} (h : i < 2 ^ 31) :
    HashRing.convertHostToNumber (serverName i) = some ((i : Int) - 1) := by
  have hfind : find (serverName i) "server" = true := by
    simp only [find, decide_eq_true_eq, toList_serverName]
    exact (List.prefix_append _ _).isInfix
  have hdrop : (serverName i).toList.drop 6 = Nat.toDigits 10 i := by
    rw [toList_serverName]
    rfl
  simp only [HashRing.convertHostToNumber, Stringify.stringify, id, hfind, if_true, hdrop,
    stoi_toDigits h, Option.map_some]

/-- The ring `initialize_hash_ring` builds: `server1`, …, `server<serverCount>`
    added in this order to an empty ring. -/
def initRing (hash : String → SizeT) (serverCount vnodes : Nat) : HashRing String :=
  (List.range' 1 serverCount).foldl (fun ring i => ring.addNode hash (serverName i))
    ⟨OrdMap.empty, vnodes⟩

section InitRing

variable {hash : String → SizeT}

theorem initRing_succ (N V : Nat) :
    initRing hash (N + 1) V = (initRing hash N V).addNode hash (serverName (N + 1)) := by
  rw [initRing, List.range'_1_concat, List.foldl_append, initRing, Nat.add_comm 1 N]
  rfl

@[simp] theorem initRing_replicas (N V : Nat) : (initRing hash N V).replicas = V := by
  induction N with
  | zero => rfl
  | succ N ih => rw [initRing_succ, HashRing.addNode_replicas, ih]

/-- The owner of a point after the initialisation is the last server with a
    replica there. -/
theorem find?_initRing_iff {N V : Nat} {k : SizeT} {node : String} :
    (initRing hash N V).ring.find? k = some node ↔
      ∃ i, 1 ≤ i ∧ i ≤ N ∧ node = serverName i ∧
        k ∈ HashRing.points hash V (serverName i) ∧
        ∀ j, i < j → j ≤ N → k ∉ HashRing.points hash V (serverName j) := by
  induction N with
  | zero =>
    constructor
    · intro h; cases h
    · rintro ⟨i, h1, h2, -⟩; omega
  | succ N ih =>
    rw [initRing_succ, HashRing.find?_addNode, initRing_replicas]
    by_cases hlast : k ∈ HashRing.points hash V (serverName (N + 1))
    · rw [if_pos hlast]
      constructor
      · intro h
        exact ⟨N + 1, by omega, le_refl _, (Option.some.inj h).symm, hlast,
          fun j h1 h2 => absurd h2 (by omega)⟩
      · rintro ⟨i, h1, h2, rfl, -, habove⟩
        -- a smaller server cannot be the last one on this point
        have hi : i = N + 1 := by
          by_contra hne
          exact habove (N + 1) (by omega) (le_refl _) hlast
        rw [hi]
    · rw [if_neg hlast, ih]
      constructor
      · rintro ⟨i, h1, h2, hnode, hmem, habove⟩
        refine ⟨i, h1, by omega, hnode, hmem, ?_⟩
        intro j hij hj
        rcases Nat.lt_or_ge N j with hgt | hle
        · rw [show j = N + 1 by omega]; exact hlast
        · exact habove j hij hle
      · rintro ⟨i, h1, h2, hnode, hmem, habove⟩
        have hi : i ≤ N := by
          by_contra hgt
          exact hlast (by rw [show N + 1 = i by omega]; exact hmem)
        exact ⟨i, h1, hi, hnode, hmem, fun j hij hj => habove j hij (by omega)⟩

/-- What every history of removals preserves: points belong to servers, and lie
    on a replica of their owner. -/
structure RingInv (hash : String → SizeT) (N : Nat) (ring : HashRing String) : Prop where
  server : ∀ k node, ring.ring.find? k = some node → ∃ i, 1 ≤ i ∧ i ≤ N ∧ node = serverName i
  own : ∀ k node, ring.ring.find? k = some node → k ∈ HashRing.points hash ring.replicas node

theorem ringInv_initRing (hash : String → SizeT) (N V : Nat) :
    RingInv hash N (initRing hash N V) where
  server k node h := by
    obtain ⟨i, h1, h2, hnode, -⟩ := find?_initRing_iff.mp h
    exact ⟨i, h1, h2, hnode⟩
  own k node h := by
    obtain ⟨i, -, -, rfl, hmem, -⟩ := find?_initRing_iff.mp h
    rw [initRing_replicas]
    exact hmem

theorem RingInv.removeNode {N : Nat} {ring : HashRing String} (h : RingInv hash N ring)
    (x : String) : RingInv hash N (ring.removeNode hash x) where
  server k node hk := h.server k node (HashRing.find?_of_removeNode hk)
  own k node hk := h.own k node (HashRing.find?_of_removeNode hk)

/-- A removed node owns no point. -/
theorem RingInv.find?_removeNode_ne {N : Nat} {ring : HashRing String} (h : RingInv hash N ring)
    (x : String) (k : SizeT) : (ring.removeNode hash x).ring.find? k ≠ some x := by
  intro hk
  have hmem := (h.removeNode x).own k x hk
  rw [HashRing.removeNode_replicas] at hmem
  rw [HashRing.find?_removeNode, if_pos hmem] at hk
  cases hk

/-- `ConvertHostToNumber(GetNode(path))` is defined and names a server. -/
theorem RingInv.exists_host {N : Nat} (hN : N < 2 ^ 31) {ring : HashRing String}
    (h : RingInv hash N ring) {path node : String}
    (hnode : ring.getNode hash path = some node) :
    ∃ i, i < N ∧ node = serverName (i + 1) ∧
      HashRing.convertHostToNumber node = some (i : Int) := by
  obtain ⟨k, hk⟩ := HashRing.exists_point_of_getNode hnode
  obtain ⟨i, h1, h2, rfl⟩ := h.server k node hk
  refine ⟨i - 1, by omega, by rw [show i - 1 + 1 = i by omega], ?_⟩
  rw [convertHostToNumber_serverName (by omega)]
  simp only [Option.some.injEq]
  omega

end InitRing

end Hvac
