/-
  Hvac/RingReference.lean
  =======================
  **The ring against its reference.**  What `GetNode` answers is a function of
  the history of `AddNode` and `RemoveNode` calls: each point of the ring is
  decided by the last call that touched it, and the answer is the node at the
  next decided point clockwise.

  The hash is any function of the hashed string (`hash_(s.c_str())` of the
  source); nodes may share points, with each other and with themselves.
  `find?_afterCalls` is the induction over the history, `getNode_afterCalls` the
  lookup.  A ring that grows moves data to the nodes that are new, and to no
  others (`getNode_addNodes`).
-/
import Hvac.HashRing

namespace Hvac

open Cxx

namespace HashRing

/-- A call that changes the ring. -/
inductive RingCall (Node : Type)
  | addNode (node : Node)
  | removeNode (node : Node)
deriving DecidableEq

namespace RingCall

variable {Node : Type}

def node : RingCall Node → Node
  | addNode node => node
  | removeNode node => node

variable [Stringify Node] (hash : String → SizeT) (replicas : Nat)

def apply (ring : HashRing Node) : RingCall Node → HashRing Node
  | addNode node => ring.addNode hash node
  | removeNode node => ring.removeNode hash node

/-- The call writes or erases the point `k`. -/
def Touches (call : RingCall Node) (k : SizeT) : Prop := k ∈ points hash replicas call.node

instance (call : RingCall Node) (k : SizeT) : Decidable (call.Touches hash replicas k) :=
  inferInstanceAs (Decidable (k ∈ points hash replicas call.node))

end RingCall

section Calls

variable {Node Data : Type} [Stringify Node] [Stringify Data]
variable (hash : String → SizeT) (replicas : Nat)

/-- The ring after `calls` on an empty one. -/
def afterCalls (calls : List (RingCall Node)) : HashRing Node :=
  calls.foldl (RingCall.apply hash) ⟨OrdMap.empty, replicas⟩

/-- The last of `calls` that touched `k` is `call`. -/
def LastTouch (calls : List (RingCall Node)) (k : SizeT) (call : RingCall Node) : Prop :=
  ∃ before after, calls = before ++ call :: after ∧ call.Touches hash replicas k ∧
    ∀ later ∈ after, ¬ later.Touches hash replicas k

/-- The last call touching `k` was an `AddNode`. -/
def Live (calls : List (RingCall Node)) (k : SizeT) : Prop :=
  ∃ node, LastTouch hash replicas calls k (.addNode node)

variable {hash replicas}

theorem not_lastTouch_nil {k : SizeT} {call : RingCall Node} :
    ¬ LastTouch hash replicas [] k call := by
  rintro ⟨before, after, hsplit, -⟩
  cases before <;> cases hsplit

/-- A call that touches `k` becomes the last one that does. -/
theorem lastTouch_append_of_touches {calls : List (RingCall Node)} {k : SizeT}
    {last call : RingCall Node} (h : last.Touches hash replicas k) :
    LastTouch hash replicas (calls ++ [last]) k call ↔ call = last := by
  constructor
  · rintro ⟨before, after, hsplit, -, hlater⟩
    rcases List.eq_nil_or_concat' after with rfl | ⟨front, final, rfl⟩
    · exact (List.append_inj' hsplit rfl).2 |> List.cons.inj |>.1.symm
    · rw [← List.cons_append, ← List.append_assoc] at hsplit
      obtain rfl : last = final := (List.cons.inj (List.append_inj' hsplit rfl).2).1
      exact absurd h (hlater last (by simp))
  · rintro rfl
    exact ⟨calls, [], rfl, h, by simp⟩

/-- A call that does not touch `k` leaves the last one as it was. -/
theorem lastTouch_append_of_not_touches {calls : List (RingCall Node)} {k : SizeT}
    {last call : RingCall Node} (h : ¬ last.Touches hash replicas k) :
    LastTouch hash replicas (calls ++ [last]) k call ↔ LastTouch hash replicas calls k call := by
  constructor
  · rintro ⟨before, after, hsplit, htouch, hlater⟩
    rcases List.eq_nil_or_concat' after with rfl | ⟨front, final, rfl⟩
    · obtain rfl : last = call := (List.cons.inj (List.append_inj' hsplit rfl).2).1
      exact absurd htouch h
    · rw [← List.cons_append, ← List.append_assoc] at hsplit
      refine ⟨before, front, (List.append_inj' hsplit rfl).1, htouch, ?_⟩
      intro later hmem
      exact hlater later (List.mem_append_left _ hmem)
  · rintro ⟨before, after, rfl, htouch, hlater⟩
    refine ⟨before, after ++ [last], by simp, htouch, ?_⟩
    intro later hmem
    rcases List.mem_append.mp hmem with hmem | hmem
    · exact hlater later hmem
    · rwa [List.mem_singleton.mp hmem]

@[simp] theorem afterCalls_append (calls : List (RingCall Node)) (last : RingCall Node) :
    afterCalls hash replicas (calls ++ [last]) =
      RingCall.apply hash (afterCalls hash replicas calls) last := by
  rw [afterCalls, List.foldl_append]
  rfl

@[simp] theorem afterCalls_replicas (calls : List (RingCall Node)) :
    (afterCalls hash replicas calls).replicas = replicas := by
  induction calls using List.reverseRecOn with
  | nil => rfl
  | append_singleton calls last ih =>
    rw [afterCalls_append]
    cases last <;> exact ih

/-- A point takes the node of the `AddNode` that touches it, and loses its owner to
    a `RemoveNode`. -/
theorem find?_apply_of_touches {ring : HashRing Node} {call : RingCall Node} {k : SizeT}
    (h : call.Touches hash ring.replicas k) (node : Node) :
    (RingCall.apply hash ring call).ring.find? k = some node ↔ call = .addNode node := by
  cases call with
  | addNode added =>
    rw [RingCall.apply, find?_addNode, if_pos (show k ∈ points hash _ added from h)]
    simp only [Option.some.injEq, RingCall.addNode.injEq]
  | removeNode removed =>
    rw [RingCall.apply, find?_removeNode, if_pos (show k ∈ points hash _ removed from h)]
    simp only [reduceCtorEq]

theorem find?_apply_of_not_touches {ring : HashRing Node} {call : RingCall Node} {k : SizeT}
    (h : ¬ call.Touches hash ring.replicas k) :
    (RingCall.apply hash ring call).ring.find? k = ring.ring.find? k := by
  cases call with
  | addNode added =>
    rw [RingCall.apply, find?_addNode, if_neg (show k ∉ points hash _ added from h)]
  | removeNode removed =>
    rw [RingCall.apply, find?_removeNode, if_neg (show k ∉ points hash _ removed from h)]

/-- The owner of a point is the node of the `AddNode` that touched it last. -/
theorem find?_afterCalls (calls : List (RingCall Node)) {k : SizeT} {node : Node} :
    (afterCalls hash replicas calls).ring.find? k = some node ↔
      LastTouch hash replicas calls k (.addNode node) := by
  induction calls using List.reverseRecOn with
  | nil =>
    constructor
    · intro h; cases h
    · intro h; exact absurd h not_lastTouch_nil
  | append_singleton calls last ih =>
    rw [afterCalls_append]
    have hreplicas : (afterCalls hash replicas calls).replicas = replicas :=
      afterCalls_replicas calls
    by_cases htouch : last.Touches hash replicas k
    · rw [find?_apply_of_touches (by rwa [hreplicas]), lastTouch_append_of_touches htouch, eq_comm]
    · rw [find?_apply_of_not_touches (by rwa [hreplicas]),
        lastTouch_append_of_not_touches htouch, ih]

theorem setOf_find?_afterCalls (calls : List (RingCall Node)) :
    {k | ∃ node, (afterCalls hash replicas calls).ring.find? k = some node} =
      {k | Live hash replicas calls k} := by
  ext k
  exact exists_congr fun node => find?_afterCalls calls

/-- **`GetNode` against its reference.**  After any calls on an empty ring it
    throws exactly when no key is live, and otherwise returns the node of the last
    `AddNode` on the live key reached clockwise from the hash of the data. -/
theorem getNode_afterCalls (hash : String → SizeT) (replicas : Nat)
    (calls : List (RingCall Node)) (data : Data) :
    ((afterCalls hash replicas calls).getNode hash data = none ↔
      ∀ k, ¬ Live hash replicas calls k) ∧
    ∀ node, (afterCalls hash replicas calls).getNode hash data = some node ↔
      ∃ k, LastTouch hash replicas calls k (.addNode node) ∧
        OrdMap.Clockwise {j | Live hash replicas calls j} (hash (Stringify.stringify data)) k := by
  constructor
  · rw [getNode_eq_none_iff, OrdMap.isEmpty_iff]
    apply forall_congr'
    intro k
    rw [Option.eq_none_iff_forall_ne_some, Live, not_exists]
    exact forall_congr' fun node => not_congr (find?_afterCalls calls)
  · intro node
    rw [getNode_eq, Option.map_eq_some_iff]
    constructor
    · rintro ⟨⟨k, owner⟩, hsucc, rfl⟩
      rw [OrdMap.cyclicSucc_eq_some_iff, find?_afterCalls, setOf_find?_afterCalls] at hsucc
      exact ⟨k, hsucc⟩
    · rintro ⟨k, hk⟩
      rw [← find?_afterCalls, ← setOf_find?_afterCalls] at hk
      exact ⟨(k, node), OrdMap.cyclicSucc_eq_some_iff.mpr hk, rfl⟩

/-! ### Growth -/

/-- A node that is added takes data over, and moves none between the others. -/
theorem getNode_addNode (ring : HashRing Node) (node : Node) (data : Data) :
    (ring.addNode hash node).getNode hash data = ring.getNode hash data ∨
      (ring.addNode hash node).getNode hash data = some node := by
  have hkept : {j | ∃ owner, ring.ring.find? j = some owner} ⊆
      {j | ∃ owner, (ring.addNode hash node).ring.find? j = some owner} := by
    rintro j ⟨owner, hj⟩
    show ∃ owner, _
    rw [find?_addNode]
    split
    · exact ⟨node, rfl⟩
    · exact ⟨owner, hj⟩
  rw [getNode_eq, getNode_eq]
  rcases hsucc : (ring.addNode hash node).ring.cyclicSucc (hash (Stringify.stringify data)) with
    _ | ⟨k, owner⟩
  · -- nothing is on the larger ring, so nothing was on the smaller one
    left
    rw [OrdMap.cyclicSucc_eq_none_iff, OrdMap.isEmpty_iff] at hsucc
    have hempty : ring.ring.isEmpty = true := by
      refine OrdMap.isEmpty_iff.mpr fun k => Option.eq_none_iff_forall_ne_some.mpr fun owner hk => ?_
      obtain ⟨owner', hk'⟩ := hkept ⟨owner, hk⟩
      rw [hsucc k] at hk'
      cases hk'
    rw [OrdMap.cyclicSucc_eq_none_iff.mpr hempty]
  · obtain ⟨hfind, hclockwise⟩ := OrdMap.cyclicSucc_eq_some_iff.mp hsucc
    rw [find?_addNode] at hfind
    split at hfind
    · right
      rw [Option.map_some, hfind]
    · left
      have hbefore := hclockwise.subset hkept ⟨owner, hfind⟩
      rw [OrdMap.cyclicSucc_eq_some_iff.mpr ⟨hfind, hbefore⟩]

/-- **Whatever nodes are added to whatever ring, data stays where it was or goes to a
    new one.** -/
theorem getNode_addNodes (hash : String → SizeT) (ring : HashRing Node) (nodes : List Node)
    (data : Data) :
    (nodes.foldl (addNode hash) ring).getNode hash data = ring.getNode hash data ∨
      ∃ node ∈ nodes, (nodes.foldl (addNode hash) ring).getNode hash data = some node := by
  induction nodes using List.reverseRecOn with
  | nil => exact Or.inl rfl
  | append_singleton nodes last ih =>
    rw [List.foldl_append, List.foldl_cons, List.foldl_nil]
    rcases getNode_addNode (nodes.foldl (addNode hash) ring) last data with hsame | hlast
    · rw [hsame]
      exact ih.imp id fun ⟨node, hmem, hnode⟩ => ⟨node, List.mem_append_left _ hmem, hnode⟩
    · exact Or.inr ⟨last, List.mem_append_right _ (List.mem_singleton_self last), hlast⟩

end Calls

end HashRing

theorem initRing_add (hash : String → SizeT) (N more V : Nat) :
    initRing hash (N + more) V =
      ((List.range' (N + 1) more).map serverName).foldl (HashRing.addNode hash)
        (initRing hash N V) := by
  induction more with
  | zero => rfl
  | succ more ih =>
    rw [← Nat.add_assoc, initRing_succ, ih, List.range'_1_concat, List.map_append,
      List.foldl_append, Nat.add_right_comm]
    rfl

/-- **With more servers, a path stays with its server or goes to one of those that
    came.** -/
theorem getNode_initRing_add (hash : String → SizeT) (N more V : Nat) (path : String) :
    (initRing hash (N + more) V).getNode hash path = (initRing hash N V).getNode hash path ∨
      ∃ i, N < i ∧ i ≤ N + more ∧
        (initRing hash (N + more) V).getNode hash path = some (serverName i) := by
  rw [initRing_add]
  refine (HashRing.getNode_addNodes hash (initRing hash N V) _ path).imp id ?_
  rintro ⟨node, hmem, hnode⟩
  obtain ⟨i, hi, rfl⟩ := List.mem_map.mp hmem
  rw [List.mem_range'_1] at hi
  exact ⟨i, by omega, by omega, hnode⟩

end Hvac
