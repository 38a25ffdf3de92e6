import QueryPlanner.Proofs.BottomUp
import QueryPlanner.Proofs.Consistency

namespace QueryPlanner.Store

variable {ν : Type} {R : Nat → ν → Prop} {s t : Store} {i : Nat} {q : Plan Relation}

theorem paired_empty : ({} : Store).Paired :=
  rfl

namespace Paired

theorem addRelation (h : s.Paired) (r : NamedRelation) : (s.addRelation r).Paired :=
  h

theorem addAttribute (h : s.Paired) (k : Nat) (a : Attribute) : (s.addAttribute k a).Paired :=
  h

theorem addNode? {n : Node} (h : s.Paired) (ht : s.addNode? n = some t) : t.Paired := by
  unfold Store.addNode? at ht
  split at ht
  case isFalse => cases ht
  case isTrue  => cases ht; simpa [Paired] using h

theorem estimate (h : s.Paired) (i : Nat) : (s.estimate i).1.Paired := by
  unfold Store.estimate
  split
  case h_1 => exact (List.length_set ..).trans h
  case h_2 => exact h

end Paired

-- The nodes below `i` make up a plan, with notes that `R` relates them to. A shared node occurs in it
-- more than once.
inductive Holds (s : Store) (R : Nat → ν → Prop) : Nat → Plan ν → Prop
  | scan {i k n} (node : s.nodes[i]? = some (.scan k)) (note : R i n) :
    s.Holds R i (.scan n (s.relation k))
  | select {i j n p q} (node : s.nodes[i]? = some (.select p j)) (note : R i n)
    (input : s.Holds R j q) : s.Holds R i (.select n p q)
  | project {i j n as q} (node : s.nodes[i]? = some (.project as j)) (note : R i n)
    (input : s.Holds R j q) : s.Holds R i (.project n as q)
  | product {i j k n l r} (node : s.nodes[i]? = some (.product j k)) (note : R i n)
    (left : s.Holds R j l) (right : s.Holds R k r) : s.Holds R i (.product n l r)
  | join {i j k n p l r} (node : s.nodes[i]? = some (.join p j k)) (note : R i n)
    (left : s.Holds R j l) (right : s.Holds R k r) : s.Holds R i (.join n p l r)

theorem holds_of_plan? {p : Plan (Option Relation)} (h : s.plan? i = some p) :
    s.Holds (fun i n => s.output i = n) i p := by
  fun_induction plan? s i generalizing p
  case case1       => cases h
  case case2 hn    => cases h; exact .scan hn rfl
  case case3 hn _ hi =>
    obtain ⟨q, hq, hp⟩ := Option.bind_eq_some_iff.mp h
    cases hp; exact .select hn rfl (hi hq)
  case case4 hn _ hi =>
    obtain ⟨q, hq, hp⟩ := Option.bind_eq_some_iff.mp h
    cases hp; exact .project hn rfl (hi hq)
  case case5 hn _ _ hl hr =>
    obtain ⟨l, hl', hp⟩ := Option.bind_eq_some_iff.mp h
    obtain ⟨r, hr', hp⟩ := Option.bind_eq_some_iff.mp hp
    cases hp; exact .product hn rfl (hl hl') (hr hr')
  case case6 hn _ _ hl hr =>
    obtain ⟨l, hl', hp⟩ := Option.bind_eq_some_iff.mp h
    obtain ⟨r, hr', hp⟩ := Option.bind_eq_some_iff.mp hp
    cases hp; exact .join hn rfl (hl hl') (hr hr')

namespace Holds

theorem plan?_eq {p : Plan ν} {f : ν → Option Relation} (h : s.Holds R i p)
    (hf : ∀ i n, R i n → s.output i = f n) : s.plan? i = some (p.map f) := by
  induction h
  all_goals
    rw [plan?]
    split
    all_goals simp_all [Plan.map]
  all_goals exact hf _ _ ‹_›

theorem bottomUp {p : Plan ν} (h : s.Holds R i p) (hp : p.estimate = .ok q) :
    s.bottomUp i = .ok q.output := by
  induction h generalizing q
  all_goals rw [bottomUp_eq]
  case scan node _ =>
    cases hp
    simp only [node]
    rfl
  case select node _ _ hi =>
    obtain ⟨p, m, hpi, hm, rfl⟩ := Plan.estimate_select.mp hp
    simp only [node, hi hpi, bind, Except.bind, hm]
    rfl
  case project node _ _ hi =>
    obtain ⟨p, hpi, rfl⟩ := Plan.estimate_project.mp hp
    simp only [node, hi hpi, bind, Except.bind]
    rfl
  case product node _ _ _ hl hr =>
    obtain ⟨l, r, hpl, hpr, rfl⟩ := Plan.estimate_product.mp hp
    simp only [node, hl hpl, hr hpr, bind, Except.bind]
    rfl
  case join node _ _ _ hl hr =>
    obtain ⟨l, r, m, hpl, hpr, hm, rfl⟩ := Plan.estimate_join.mp hp
    simp only [node, hl hpl, hr hpr, bind, Except.bind, hm]
    rfl

theorem estimated {p : Plan ν} (h : s.Holds R i p) (hp : p.estimate = .ok q) (ha : s.Alike t)
    (ho : ∀ x, s.Reaches i x → ∃ r, s.bottomUp x = .ok r ∧ t.output x = some r) :
    t.Holds (fun x n => t.output x = some n) i q := by
  have output {i} {p : Plan ν} {q} (h : s.Holds R i p) (hp : p.estimate = .ok q)
      (ho : ∀ x, s.Reaches i x → ∃ r, s.bottomUp x = .ok r ∧ t.output x = some r) :
      t.output i = some q.output := by
    obtain ⟨r, hr, ho⟩ := ho i .refl
    cases hr.symm.trans (h.bottomUp hp)
    exact ho
  -- What holds of all nodes that can be reached from a node holds below its inputs.
  have below {i j n} (node : s.nodes[i]? = some n) (hj : j ∈ n.inputs)
      (ho : ∀ x, s.Reaches i x → ∃ r, s.bottomUp x = .ok r ∧ t.output x = some r) :
      ∀ x, s.Reaches j x → ∃ r, s.bottomUp x = .ok r ∧ t.output x = some r :=
    fun x hx => ho x (.head (inputs_eq node ▸ hj) hx)
  have first {j : Nat} {js : List Nat} : j ∈ j :: js := List.mem_cons_self ..
  have second {j k : Nat} : k ∈ [j, k] := List.mem_cons_of_mem _ (List.mem_singleton_self _)
  induction h generalizing q
  case scan node hn =>
    have hr := output (.scan node hn) hp ho
    cases hp
    rw [← ha.relation] at hr ⊢
    exact .scan (ha.nodes ▸ node) hr
  case select node hn h hi =>
    have hr := output (.select node hn h) hp ho
    obtain ⟨p, m, hpi, hm, rfl⟩ := Plan.estimate_select.mp hp
    exact .select (ha.nodes ▸ node) hr (hi hpi (below node first ho))
  case project node hn h hi =>
    have hr := output (.project node hn h) hp ho
    obtain ⟨p, hpi, rfl⟩ := Plan.estimate_project.mp hp
    exact .project (ha.nodes ▸ node) hr (hi hpi (below node first ho))
  case product node hn hl hr il ir =>
    have hq := output (.product node hn hl hr) hp ho
    obtain ⟨l, r, hpl, hpr, rfl⟩ := Plan.estimate_product.mp hp
    exact .product (ha.nodes ▸ node) hq (il hpl (below node first ho)) (ir hpr (below node second ho))
  case join node hn hl hr il ir =>
    have hq := output (.join node hn hl hr) hp ho
    obtain ⟨l, r, m, hpl, hpr, hm, rfl⟩ := Plan.estimate_join.mp hp
    exact .join (ha.nodes ▸ node) hq (il hpl (below node first ho)) (ir hpr (below node second ho))

end Holds

theorem estimatePlan_eq {p : Plan (Option Relation)} (h : s.plan? i = some p)
    (hp : p.estimate = .ok q) (hs : s.Paired) :
    (s.estimatePlan i).2 = .ok q.output ∧ (s.estimatePlan i).1.plan? i = some (q.map some) := by
  have h := holds_of_plan? h
  obtain ⟨t, ht, f⟩ := estimatePlan_ok hs (h.bottomUp hp)
  rw [ht]
  refine ⟨rfl, (h.estimated hp f.alike fun x hx => ?_).plan?_eq fun _ _ => id⟩
  exact f.estimated x (mem_postorder_iff.mpr hx)

theorem estimatePlan_copy {p : Plan ν} (h : (s.plan? i).map Plan.bare = some p.bare)
    (hp : p.estimate = .ok q) (hs : s.Paired) :
    (s.estimatePlan i).2 = .ok q.output ∧ (s.estimatePlan i).1.plan? i = some (q.map some) := by
  obtain ⟨p', hp', he⟩ := Option.map_eq_some_iff.mp h
  refine estimatePlan_eq hp' ?_ hs
  calc p'.estimate
    _ = p'.bare.estimate := (Plan.estimate_map ..).symm
    _ = p.bare.estimate  := by rw [he]
    _ = p.estimate       := Plan.estimate_map ..
    _ = .ok q            := hp

end QueryPlanner.Store
