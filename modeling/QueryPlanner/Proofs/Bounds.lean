import QueryPlanner.Proofs.Reestimation

namespace QueryPlanner

namespace Relation

variable {r s t : Relation} {p : JoinPredicate} {q : Predicate} {names : List String}

theorem fdiv_le {m n : Int} (hm : 0 ≤ m) (hn : 0 ≤ n) : m.fdiv n ≤ m := by
  rw [Int.fdiv_eq_ediv_of_nonneg _ hn]
  exact Int.ediv_le_self n hm

theorem tupleCount_of? {n : Int} {as : List Attribute} (h : of? n as = .ok t) :
    (t.tupleCount : Int) = n := by
  obtain ⟨hn, rfl⟩ := of?_eq_ok_iff.mp h
  exact Int.toNat_of_nonneg hn

theorem populated_project (h : r.Populated) (hn : ∀ n ∈ names, r.has n) :
    (r.project names).Populated where
  tuples := h.tuples
  values := by
    refine counts_of (Int.ofNat_le.mpr h.tuples) fun a ha => ?_
    obtain ⟨n, hm, rfl⟩ := List.mem_map.mp ha
    obtain ⟨b, hb⟩ := Option.isSome_iff_exists.mp (hn n hm)
    rw [hb]
    exact h.values b (get?_mem hb)

theorem tupleCount_select_le (h : r.Counts 0) (ht : r.select q = .ok t) :
    t.tupleCount ≤ r.tupleCount := by
  have divided {n : Int} {as : List Attribute} (hn : 0 ≤ n)
      (ht : of? (Int.fdiv r.tupleCount n) as = .ok t) : t.tupleCount ≤ r.tupleCount := by
    have := fdiv_le (Int.natCast_nonneg r.tupleCount) hn
    have := tupleCount_of? ht
    omega
  have degraded (ht : r.degraded = t) : t.tupleCount ≤ r.tupleCount := ht ▸ Nat.zero_le _
  cases q
  case value p =>
    simp only [select, selectValue] at ht
    split at ht
    case h_1      => exact degraded (Except.ok.inj ht)
    case h_2 a ha => exact divided (h a (get?_mem ha)) ht
  case join p =>
    simp only [select, selectEqual] at ht
    split at ht
    case h_1 a b ha hb => exact divided (le_max_of_le_left (h a (get?_mem ha))) ht
    case h_2           => exact degraded (Except.ok.inj ht)

theorem tupleCount_join_le (hr : r.Counts 0) (ht : r.join s p = .ok t) :
    t.tupleCount ≤ r.tupleCount * s.tupleCount := by
  unfold join at ht
  split at ht
  case h_1       => exact Except.ok.inj ht ▸ Nat.zero_le _
  case h_2 a b he =>
    have hmax : 0 ≤ max a.valueCount b.valueCount :=
      le_max_of_le_left (hr a (joinSides_mem he).left)
    have hmul : (0 : Int) ≤ r.tupleCount * s.tupleCount :=
      mul_nonneg (Int.natCast_nonneg _) (Int.natCast_nonneg _)
    zify
    rw [tupleCount_of? ht]
    exact fdiv_le hmul hmax

theorem min_le_tupleCount_join (hr : r.Populated) (hp : (r.joinSides s p).isSome)
    (ht : r.join s p = .ok t) : min r.tupleCount s.tupleCount ≤ t.tupleCount := by
  obtain ⟨⟨a, b⟩, he⟩ := Option.isSome_iff_exists.mp hp
  obtain ⟨ha, hb⟩ := joinSides_mem he
  simp only [join, he] at ht
  have hle : min (r.tupleCount : Int) s.tupleCount * max a.valueCount b.valueCount ≤
      r.tupleCount * s.tupleCount := calc
    _ ≤ min (r.tupleCount : Int) s.tupleCount * max (r.tupleCount : Int) s.tupleCount :=
      mul_le_mul_of_nonneg_left (max_le_max (r.capped a ha) (s.capped b hb)) (by omega)
    _ = r.tupleCount * s.tupleCount := min_mul_max ..
  zify
  rw [tupleCount_of? ht]
  exact le_fdiv (le_max_of_le_left (hr.values a ha)) hle

theorem joinSides_isSome_iff : (r.joinSides s p).isSome ↔
    r.has p.left ∧ s.has p.right ∨ r.has p.right ∧ s.has p.left := by
  simp only [joinSides, has]
  cases r.get? p.left <;> cases s.get? p.right <;> cases r.get? p.right <;> cases s.get? p.left <;> simp

end Relation

namespace Plan

variable {ν : Type} {plan : Plan ν} {q : Plan Relation}

def columns : Plan ν → List String
  | scan _ r                     => r.statistics.names
  | select _ _ i                 => i.columns
  | project _ as _               => as
  | product _ l r | join _ _ l r => l.columns ++ r.columns

-- Every attribute that a node names comes out of its input. The two attributes of a join come out of
-- different inputs, either way round.
def Resolved : Plan ν → Prop
  | scan _ _       => True
  | select _ p i   => (∀ n ∈ p.attributes, n ∈ i.columns) ∧ i.Resolved
  | project _ as i => (∀ n ∈ as, n ∈ i.columns) ∧ i.Resolved
  | product _ l r  => l.Resolved ∧ r.Resolved
  | join _ p l r   =>
    (p.left ∈ l.columns ∧ p.right ∈ r.columns ∨ p.right ∈ l.columns ∧ p.left ∈ r.columns) ∧
      l.Resolved ∧ r.Resolved

-- No selection has more tuples than its input, and every join has between the smaller of the numbers of
-- tuples of its inputs and their product.
def Proportioned : Plan Relation → Prop
  | scan _ _      => True
  | select n _ i  => n.tupleCount ≤ i.tupleCount ∧ i.Proportioned
  | project _ _ i => i.Proportioned
  | product _ l r => l.Proportioned ∧ r.Proportioned
  | join n _ l r  =>
    (min l.tupleCount r.tupleCount ≤ n.tupleCount ∧ n.tupleCount ≤ l.tupleCount * r.tupleCount) ∧
      l.Proportioned ∧ r.Proportioned

theorem bare_of_estimate (h : plan.estimate = .ok q) : q.bare = plan.bare := by
  induction plan generalizing q
  case scan => cases h; rfl
  case select hi =>
    obtain ⟨i, n, hp, _, rfl⟩ := estimate_select.mp h
    exact congrArg (select () _) (hi hp)
  case project hi =>
    obtain ⟨i, hp, rfl⟩ := estimate_project.mp h
    exact congrArg (project () _) (hi hp)
  case product hl hr =>
    obtain ⟨i, j, hp, hp', rfl⟩ := estimate_product.mp h
    exact congrArg₂ (product ()) (hl hp) (hr hp')
  case join hl hr =>
    obtain ⟨i, j, n, hp, hp', _, rfl⟩ := estimate_join.mp h
    exact congrArg₂ (join () _) (hl hp) (hr hp')

theorem names_of_estimate (h : plan.estimate = .ok q) : q.output.names = plan.columns := by
  induction plan generalizing q
  case scan => cases h; rfl
  case select hi =>
    obtain ⟨i, n, hp, hn, rfl⟩ := estimate_select.mp h
    exact (Relation.names_select hn).trans (hi hp)
  case project hi =>
    obtain ⟨i, hp, rfl⟩ := estimate_project.mp h
    exact Relation.names_project ..
  case product hl hr =>
    obtain ⟨i, j, hp, hp', rfl⟩ := estimate_product.mp h
    exact (Relation.names_product ..).trans (congrArg₂ _ (hl hp) (hr hp'))
  case join hl hr =>
    obtain ⟨i, j, n, hp, hp', hn, rfl⟩ := estimate_join.mp h
    exact (Relation.names_join hn).trans (congrArg₂ _ (hl hp) (hr hp'))

theorem has_of_estimate (h : plan.estimate = .ok q) {n : String} (hn : n ∈ plan.columns) :
    q.output.has n :=
  Relation.has_iff.mpr ((names_of_estimate h).symm ▸ hn)

theorem estimate_nonneg (hs : ∀ r ∈ plan.scans, r.statistics.Counts 0) :
    ∃ q, plan.estimate = .ok q ∧ q.Everywhere (Relation.Counts 0) := by
  induction plan
  case scan _ r => exact ⟨scanning r, rfl, hs r (List.mem_singleton_self r)⟩
  case select p _ hi =>
    obtain ⟨i, hp, hc⟩ := hi hs
    obtain ⟨n, hn, ht⟩ := Relation.nonneg_select hc.note p
    exact ⟨_, estimate_select.mpr ⟨i, n, hp, hn, rfl⟩, ht, hc⟩
  case project names _ hi =>
    obtain ⟨i, hp, hc⟩ := hi hs
    exact ⟨_, estimate_project.mpr ⟨i, hp, rfl⟩, Relation.nonneg_project hc.note names, hc⟩
  case product hl hr =>
    obtain ⟨hsl, hsr⟩ := List.forall_mem_append.mp hs
    obtain ⟨i, hp, hc⟩ := hl hsl
    obtain ⟨j, hp', hc'⟩ := hr hsr
    exact ⟨_, estimate_product.mpr ⟨i, j, hp, hp', rfl⟩, Relation.nonneg_product hc.note hc'.note, hc, hc'⟩
  case join p _ _ hl hr =>
    obtain ⟨hsl, hsr⟩ := List.forall_mem_append.mp hs
    obtain ⟨i, hp, hc⟩ := hl hsl
    obtain ⟨j, hp', hc'⟩ := hr hsr
    obtain ⟨n, hn, ht⟩ := Relation.nonneg_join hc.note hc'.note p
    exact ⟨_, estimate_join.mpr ⟨i, j, n, hp, hp', hn, rfl⟩, ht, hc, hc'⟩

theorem estimate_populated (hs : ∀ r ∈ plan.scans, r.statistics.Populated) (hr : plan.Resolved)
    (h : plan.estimate = .ok q) : q.Everywhere Relation.Populated ∧ q.Proportioned := by
  induction plan generalizing q
  case scan _ r => cases h; exact ⟨hs r (List.mem_singleton_self r), trivial⟩
  case select hi =>
    obtain ⟨i, n, hp, hn, rfl⟩ := estimate_select.mp h
    obtain ⟨hc, hb⟩ := hi hs hr.right hp
    obtain ⟨t, ht, hpop⟩ := Relation.populated_select hc.note fun m hm => has_of_estimate hp (hr.left m hm)
    cases hn.symm.trans ht
    exact ⟨⟨hpop, hc⟩, Relation.tupleCount_select_le hc.note.nonneg hn, hb⟩
  case project hi =>
    obtain ⟨i, hp, rfl⟩ := estimate_project.mp h
    obtain ⟨hc, hb⟩ := hi hs hr.right hp
    exact ⟨⟨Relation.populated_project hc.note fun m hm => has_of_estimate hp (hr.left m hm), hc⟩, hb⟩
  case product hil hir =>
    obtain ⟨hsl, hsr⟩ := List.forall_mem_append.mp hs
    obtain ⟨i, j, hp, hp', rfl⟩ := estimate_product.mp h
    obtain ⟨hc, hb⟩ := hil hsl hr.left hp
    obtain ⟨hc', hb'⟩ := hir hsr hr.right hp'
    exact ⟨⟨Relation.populated_product hc.note hc'.note, hc, hc'⟩, hb, hb'⟩
  case join hil hir =>
    obtain ⟨hsl, hsr⟩ := List.forall_mem_append.mp hs
    obtain ⟨i, j, n, hp, hp', hn, rfl⟩ := estimate_join.mp h
    obtain ⟨hc, hb⟩ := hil hsl hr.right.left hp
    obtain ⟨hc', hb'⟩ := hir hsr hr.right.right hp'
    -- The predicate is resolved the one way or the other, so the join finds its attributes.
    have sides : (i.output.joinSides j.output _).isSome := Relation.joinSides_isSome_iff.mpr <|
      hr.left.imp (And.imp (has_of_estimate hp) (has_of_estimate hp'))
        (And.imp (has_of_estimate hp) (has_of_estimate hp'))
    obtain ⟨t, ht, hpop⟩ := Relation.populated_join_of_isSome hc.note hc'.note sides
    cases hn.symm.trans ht
    exact ⟨⟨hpop, hc, hc'⟩, ⟨Relation.min_le_tupleCount_join hc.note sides hn,
      Relation.tupleCount_join_le hc.note.nonneg hn⟩, hb, hb'⟩

end Plan

-- An estimate keeps all counts within their bounds, and it does not come to nothing where every attribute
-- is found. The same goes for a copy of the plan in a store, where inputs may be shared.
theorem estimate_bounded {ν : Type} (plan : Plan ν) (hs : ∀ r ∈ plan.scans, r.statistics.Bounded) :
    ∃ q, plan.estimate = .ok q ∧ q.bare = plan.bare ∧ q.Everywhere Relation.Bounded ∧
      ((∀ r ∈ plan.scans, r.statistics.Populated) → plan.Resolved →
        q.Everywhere Relation.Populated ∧ q.Proportioned) ∧
      ∀ (s : Store) (i : Nat), s.Paired → (s.plan? i).map Plan.bare = some plan.bare →
        (s.estimatePlan i).2 = .ok q.output ∧ (s.estimatePlan i).1.plan? i = some (q.map some) := by
  obtain ⟨q, hq, hc⟩ := Plan.estimate_nonneg fun r hr a ha => (hs r hr a ha).left
  refine ⟨q, hq, Plan.bare_of_estimate hq, hc.imp fun _ h => h.bounded, ?populated, ?copies⟩
  case populated => exact fun hp hr => Plan.estimate_populated hp hr hq
  case copies    => exact fun s i hs hb => Store.estimatePlan_copy hb hq hs

def sharing : Plan Unit :=
  let s : NamedRelation := { name := "s", statistics := .of 4 [⟨"c", 4⟩, ⟨"a", 2⟩] }
  .project () ["c", "a"] <|
  .join () { occurrence := 0, left := "c", right := "b" }
    (.select () (.value { occurrence := 1, name := "a", value := "x" })
      (.scan () { name := "r", statistics := .of 6 [⟨"a", 3⟩, ⟨"b", 2⟩] }))
    (.product () (.scan () s) (.scan () s))

def sharingStore : Store where
  relations := [
    { name := "r", statistics := .of 6 [⟨"a", 3⟩, ⟨"b", 2⟩] },
    { name := "s", statistics := .of 4 [⟨"c", 4⟩, ⟨"a", 2⟩] }]
  nodes     := [
    .scan 0,
    .select (.value { occurrence := 1, name := "a", value := "x" }) 0,
    .scan 1,
    .product 2 2,
    .join { occurrence := 0, left := "c", right := "b" } 1 3,
    .project ["c", "a"] 4]
  outputs   := List.replicate 6 none
  ordered   := by
    rintro (_ | _ | _ | _ | _ | _ | i) n hn
    all_goals cases hn
    all_goals decide

theorem estimate_bounded_sharing :
    ((∀ r ∈ sharing.scans, r.statistics.Bounded ∧ r.statistics.Populated) ∧ sharing.Resolved ∧
      sharingStore.Paired ∧ (sharingStore.plan? 5).map Plan.bare = some sharing.bare) ∧
    ∃ q, sharing.estimate = .ok q ∧ q.bare = sharing.bare ∧ q.Everywhere Relation.Bounded ∧
      (q.Everywhere Relation.Populated ∧ q.Proportioned) ∧
      (sharingStore.estimatePlan 5).2 = .ok q.output ∧
        (sharingStore.estimatePlan 5).1.plan? 5 = some (q.map some) := by
  have hc : ∀ r ∈ sharing.scans, r.statistics.Counts 0 := by decide
  have hb : ∀ r ∈ sharing.scans, r.statistics.Bounded := fun r hr => (hc r hr).bounded
  have hp : ∀ r ∈ sharing.scans, r.statistics.Populated := by decide
  have hr : sharing.Resolved :=
    ⟨by decide, .inr (by decide), ⟨by decide, trivial⟩, trivial, trivial⟩
  have hcopy : (sharingStore.plan? 5).map Plan.bare = some sharing.bare := by decide +kernel
  obtain ⟨q, hq, hbare, hbounded, hpopulated, hstore⟩ := estimate_bounded sharing hb
  exact ⟨⟨fun r hm => ⟨hb r hm, hp r hm⟩, hr, rfl, hcopy⟩, q, hq, hbare, hbounded, hpopulated hp hr,
    hstore sharingStore 5 rfl hcopy⟩

example : sharing.estimate.toOption.map (·.output.render) = some "8:c,2:a,1" := by
  cbv

end QueryPlanner
