import Mathlib.Data.List.Basic
import Mathlib.Logic.Relation
import QueryPlanner.Store

namespace QueryPlanner.Store

variable {s t : Store} {done done' is js : List Nat} {i j x : Nat}

theorem inputs_eq {n : Node} (h : s.nodes[i]? = some n) : s.inputs i = n.inputs := by
  rw [inputs, h]
  rfl

theorem lt_of_mem_inputs (h : j ∈ s.inputs i) : j < i := by
  cases hn : s.nodes[i]?
  case none   => simp [inputs, hn] at h
  case some n => exact s.ordered i n hn j (inputs_eq hn ▸ h)

-- The nodes below a node in the order in which they are estimated: inputs before the nodes over
-- them, from left to right. A shared node comes up once for every way that leads to it.
def postorder (s : Store) (i : Nat) : List Nat :=
  let before := (s.inputs i).attach.flatMap fun ⟨j, hj⟩ =>
    have := lt_of_mem_inputs hj
    s.postorder j
  before ++ [i]
termination_by i

theorem postorder_eq (s : Store) (i : Nat) :
    s.postorder i = (s.inputs i).flatMap s.postorder ++ [i] := by
  rw [postorder]
  simp

theorem mem_postorder_self (s : Store) (i : Nat) : i ∈ s.postorder i := by
  rw [postorder_eq]
  exact List.mem_append_right _ (List.mem_singleton_self i)

theorem postorder_congr (h : t.nodes = s.nodes) (i : Nat) : t.postorder i = s.postorder i := by
  induction i using Nat.strongRecOn
  case ind i hi =>
    have hj : t.inputs i = s.inputs i := by rw [inputs, inputs, h]
    rw [postorder_eq, postorder_eq, hj]
    exact congrArg (· ++ [i]) (List.flatMap_congr fun j hj => hi j (lt_of_mem_inputs hj))

def Reaches (s : Store) : Nat → Nat → Prop :=
  Relation.ReflTransGen fun i j => j ∈ s.inputs i

theorem mem_postorder_iff : x ∈ s.postorder i ↔ s.Reaches i x := by
  induction i using Nat.strongRecOn
  case ind i hi =>
    rw [postorder_eq, List.mem_append, List.mem_flatMap, List.mem_singleton, Reaches,
      Relation.ReflTransGen.cases_head_iff, eq_comm, or_comm]
    refine or_congr_right (exists_congr fun j => and_congr_right fun hj => ?_)
    exact hi j (lt_of_mem_inputs hj)

def Grounded (s : Store) (done : List Nat) : List Nat → Prop
  | []      => True
  | i :: is => (∀ j ∈ s.inputs i, j ∈ done) ∧ s.Grounded (done ++ [i]) is

theorem grounded_append :
    s.Grounded done (is ++ js) ↔ s.Grounded done is ∧ s.Grounded (done ++ is) js := by
  induction is generalizing done
  case nil          => simp [Grounded]
  case cons i is hi => simp [Grounded, hi, and_assoc]

theorem grounded_flatMap {f : Nat → List Nat} (h : ∀ i ∈ is, ∀ done, s.Grounded done (f i)) :
    s.Grounded done (is.flatMap f) := by
  induction is generalizing done
  case nil          => trivial
  case cons i is hi =>
    obtain ⟨h, hs⟩ := List.forall_mem_cons.mp h
    exact grounded_append.mpr ⟨h done, hi hs⟩

theorem grounded_postorder (s : Store) (done : List Nat) (i : Nat) :
    s.Grounded done (s.postorder i) := by
  induction i using Nat.strongRecOn generalizing done
  case ind i hi =>
    rw [postorder_eq]
    have hs : s.Grounded done ((s.inputs i).flatMap s.postorder) :=
      grounded_flatMap fun j hj done => hi j (lt_of_mem_inputs hj) done
    refine grounded_append.mpr ⟨hs, fun j hj => ?_, trivial⟩
    exact List.mem_append_right _ (List.mem_flatMap.mpr ⟨j, hj, s.mem_postorder_self j⟩)

def estimateAll (s : Store) : List Nat → Store × Except Failure Unit
  | []      => (s, .ok ())
  | i :: is =>
    match s.estimate i with
    | (s, .ok _)    => s.estimateAll is
    | (s, .error e) => (s, .error e)

def Visit.outstanding (s : Store) (v : Visit) : List Nat :=
  if v.expanded then [v.node] else s.postorder v.node

theorem outstanding_expanded (s : Store) (i : Nat) (stack : List Visit) :
    (({ node := i, expanded := true } : Visit) :: stack).flatMap (Visit.outstanding s) =
      i :: stack.flatMap (Visit.outstanding s) :=
  rfl

theorem nodes_estimate (s : Store) (i : Nat) : (s.estimate i).1.nodes = s.nodes := by
  unfold estimate
  split <;> rfl

-- At any time the stack stands for the rest of the nodes in post-order.
theorem estimateStack_eq (s : Store) (stack : List Visit) :
    s.estimateStack stack = s.estimateAll (stack.flatMap (Visit.outstanding s)) := by
  fun_induction estimateStack s stack
  case case1                       => rfl
  case case2 s i stack t r hr hi   =>
    have hn : t.nodes = s.nodes := by rw [← nodes_estimate s i, hr]
    have ho : Visit.outstanding t = Visit.outstanding s := by
      funext v
      rw [Visit.outstanding, Visit.outstanding, postorder_congr hn]
    rw [hi, ho, outstanding_expanded, estimateAll, hr]
  case case3 s i stack t e hr      =>
    rw [outstanding_expanded, estimateAll, hr]
  case case4 s i stack hi          =>
    rw [hi]
    congr 1
    simp [Visit.outstanding, postorder_eq s i, List.flatMap_map]

theorem estimatePlan_postorder (s : Store) (i : Nat) : s.estimateStack [{ node := i }] =
    s.estimateAll (s.postorder i) := by
  rw [estimateStack_eq]
  simp [Visit.outstanding]

end QueryPlanner.Store
