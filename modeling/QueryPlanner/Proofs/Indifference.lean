import QueryPlanner.Proofs.Lookup
import QueryPlanner.Proofs.View

namespace QueryPlanner

open Unlimited

namespace Relation

variable {r s t : Relation} {p : Predicate} {j : JoinPredicate}

def levelled (r : Relation) : Relation :=
  of (min r.tupleCount 1) r.attributes

@[simp]
theorem tupleCount_levelled (r : Relation) : r.levelled.tupleCount = min r.tupleCount 1 :=
  rfl

@[simp]
theorem names_levelled (r : Relation) : r.levelled.names = r.names :=
  names_of ..

theorem levelled_of (n : Nat) (as : List Attribute) : (of n as).levelled = of (min n 1) as := by
  refine Relation.ext rfl ?_
  simp only [levelled, of_attributes, of_tupleCount, List.map_map]
  exact List.map_congr_left fun a _ => a.cappedAt_cappedAt (Nat.min_le_left ..)

theorem Populated.levelled_eq (hr : r.Populated) (hs : s.Populated) (hn : s.names = r.names) :
    s.levelled = r.levelled := by
  have level {t : Relation} (ht : t.Populated) :
      t.levelled = of 1 (t.names.map fun n => { name := n, valueCount := 1 }) := by
    refine Relation.ext (min_eq_right ht.tuples) ?_
    rw [levelled, min_eq_right ht.tuples, of_attributes, of_attributes, names, List.map_map, List.map_map]
    refine List.map_congr_left fun a ha => ?_
    rw [Attribute.cappedAt_eq, Nat.cast_one, min_eq_right (ht.values a ha)]
    rfl
  rw [level hr, level hs, hn]

theorem get?_levelled (r : Relation) (n : String) :
    r.levelled.get? n = (r.get? n).map (·.cappedAt (min r.tupleCount 1)) :=
  get?_of ..

theorem joinSides_levelled (r s : Relation) (j : JoinPredicate) :
    r.levelled.joinSides s.levelled j = (r.joinSides s j).map
      (Prod.map (·.cappedAt (min r.tupleCount 1)) (·.cappedAt (min s.tupleCount 1))) := by
  simp only [joinSides, get?_levelled]
  cases r.get? j.left <;> cases s.get? j.right <;> cases r.get? j.right <;> cases s.get? j.left <;> rfl

-- No division by more than there is comes to nothing.
theorem fdiv_levelled {n : Nat} {m m' : Int} (hm : 0 < n → m ≤ n ∧ m' = min m 1)
    (h : 0 ≤ Int.fdiv n m) : Int.fdiv (min n 1 : Nat) m' = min (Int.fdiv n m) 1 := by
  by_cases hn : n = 0
  case pos => simp [hn]
  case neg =>
    obtain ⟨hle, rfl⟩ := hm (Nat.pos_of_ne_zero hn)
    have hn' : min n 1 = 1 := by omega
    rw [hn', Nat.cast_one]
    obtain hneg | rfl | hpos := lt_trichotomy m 0
    case inl =>
      have : Int.fdiv n m < 0 :=
        Int.neg_fdiv_neg .. ▸ Int.fdiv_neg_of_neg_of_pos (by omega) (by omega)
      omega
    case inr.inl => simp
    case inr.inr =>
      rw [min_eq_right (by omega : 1 ≤ m), min_eq_right (one_le_fdiv hpos hle)]
      rfl

theorem divided_levelled {n : Nat} {m m' : Int} {as bs : List Attribute}
    (h : of? (Int.fdiv n m) as = .ok t) (hm : 0 < n → m ≤ n ∧ m' = min m 1)
    (ha : ∀ k ≤ min n 1, bs.map (·.cappedAt k) = as.map (·.cappedAt k)) :
    of? (Int.fdiv (min n 1 : Nat) m') bs = .ok t.levelled := by
  obtain ⟨hq, rfl⟩ := of?_eq_ok_iff.mp h
  have hdiv := fdiv_levelled hm hq
  have hk : (min (Int.fdiv n m) 1).toNat = min (Int.fdiv n m).toNat 1 := by omega
  have hle : min (Int.fdiv n m).toNat 1 ≤ min n 1 := by
    by_cases hn : n = 0
    case pos => simp [hn]
    case neg => omega
  refine of?_eq_ok_iff.mpr ⟨by omega, ?_⟩
  rw [levelled_of, hdiv, hk]
  exact Relation.ext rfl (ha _ hle)

theorem degraded_levelled (r : Relation) : r.levelled.degraded = r.degraded.levelled := by
  rw [degraded, degraded, levelled_of]
  refine Relation.ext rfl ?_
  simp only [levelled, of_attributes, List.map_map]
  exact List.map_congr_left fun a _ => a.cappedAt_cappedAt (Nat.zero_le _)

theorem select_levelled (h : r.select p = .ok t) : r.levelled.select p = .ok t.levelled := by
  have hattributes : r.levelled.attributes = r.attributes.map (·.cappedAt (min r.tupleCount 1)) := rfl
  cases p
  case value p =>
    simp only [select, selectValue, get?_levelled] at h ⊢
    cases ha : r.get? p.name
    case none   =>
      rw [ha] at h
      cases h
      exact congrArg _ (degraded_levelled r)
    case some a =>
      rw [ha] at h
      refine divided_levelled h (fun hn => ⟨r.capped a (get?_mem ha), ?_⟩) fun k hk =>
        recount_capped hk rfl ..
      rw [Attribute.cappedAt_valueCount]
      omega
  case join p =>
    simp only [select, selectEqual, get?_levelled] at h ⊢
    cases ha : r.get? p.left <;> cases hb : r.get? p.right <;> rw [ha, hb] at h
    case some.some a b =>
      have hle  := r.capped a (get?_mem ha)
      have hle' := r.capped b (get?_mem hb)
      simp only [Option.map_some, Attribute.cappedAt_valueCount]
      exact divided_levelled h (fun hn => ⟨by omega, by omega⟩) fun k hk =>
        recount_capped hk (by omega) ..
    all_goals
      cases h
      exact congrArg _ (degraded_levelled r)

theorem project_levelled (r : Relation) (names : List String) :
    r.levelled.project names = (r.project names).levelled := by
  rw [project, project, levelled_of]
  refine Relation.ext rfl ?_
  simp only [of_attributes, tupleCount_levelled, List.map_map]
  refine List.map_congr_left fun n _ => ?_
  rw [Function.comp, Function.comp, get?_levelled]
  cases r.get? n
  case none   => rfl
  case some a => exact a.cappedAt_cappedAt le_rfl

theorem min_mul_one (m n : Nat) : min m 1 * min n 1 = min (m * n) 1 := by
  by_cases h : m * n = 0
  case pos => obtain rfl | rfl := Nat.mul_eq_zero.mp h <;> simp
  case neg =>
    obtain ⟨hm, hn⟩ := Nat.mul_ne_zero_iff.mp h
    rw [min_eq_right (by omega), min_eq_right (by omega), min_eq_right (by omega)]

theorem min_mul_le (m n : Nat) : min (m * n) 1 ≤ min m 1 ∧ min (m * n) 1 ≤ min n 1 := by
  rw [← min_mul_one]
  exact ⟨mul_le_of_le_one_right (Nat.zero_le _) (Nat.min_le_right ..),
    mul_le_of_le_one_left (Nat.zero_le _) (Nat.min_le_right ..)⟩

theorem append_levelled {k : Nat} (hk : k ≤ min (r.tupleCount * s.tupleCount) 1) :
    (r.levelled.attributes ++ s.levelled.attributes).map (·.cappedAt k) =
      (r.attributes ++ s.attributes).map (·.cappedAt k) := by
  obtain ⟨hr, hs⟩ := min_mul_le r.tupleCount s.tupleCount
  simp only [levelled, of_attributes, List.map_append, List.map_map]
  congr 1
  · exact List.map_congr_left fun a _ => a.cappedAt_cappedAt (hk.trans hr)
  · exact List.map_congr_left fun a _ => a.cappedAt_cappedAt (hk.trans hs)

theorem product_levelled (r s : Relation) :
    r.levelled.product s.levelled = (r.product s).levelled := by
  rw [product, product, levelled_of, tupleCount_levelled, tupleCount_levelled, min_mul_one]
  exact Relation.ext rfl (append_levelled le_rfl)

theorem join_levelled (h : r.join s j = .ok t) : r.levelled.join s.levelled j = .ok t.levelled := by
  simp only [join, joinSides_levelled, tupleCount_levelled] at h ⊢
  cases hab : r.joinSides s j
  case none =>
    rw [hab] at h
    cases h
    rw [levelled_of]
    exact congrArg Except.ok (Relation.ext rfl (append_levelled (Nat.zero_le _)))
  case some ab =>
    obtain ⟨a, b⟩ := ab
    rw [hab] at h
    obtain ⟨ha, hb⟩ := joinSides_mem hab
    simp only [Option.map_some, Prod.map, Attribute.cappedAt_valueCount, Attribute.cappedAt_name,
      ← Nat.cast_mul, min_mul_one] at h ⊢
    refine divided_levelled h (fun hn => ?_) fun k hk => ?_
    case refine_1 =>
      have hr := Nat.le_mul_of_pos_right r.tupleCount (Nat.pos_of_mul_pos_left hn)
      have hs := Nat.le_mul_of_pos_left s.tupleCount (Nat.pos_of_mul_pos_right hn)
      have := r.capped a ha
      have := s.capped b hb
      exact ⟨by omega, by omega⟩
    case refine_2 =>
      obtain ⟨hr, hs⟩ := min_mul_le r.tupleCount s.tupleCount
      rw [List.map_append, List.map_append]
      exact congrArg₂ (· ++ ·) (recount_capped (hk.trans hr) (by omega) ..)
        (recount_capped (hk.trans hs) (by omega) ..)

end Relation

def NamedRelation.levelled (r : NamedRelation) : NamedRelation :=
  { r with statistics := r.statistics.levelled }

namespace Plan

variable {ν μ : Type}

def levelled : Plan Relation → Plan Relation
  | scan n r       => scan n.levelled r.levelled
  | select n p i   => select n.levelled p i.levelled
  | project n as i => project n.levelled as i.levelled
  | product n l r  => product n.levelled l.levelled r.levelled
  | join n p l r   => join n.levelled p l.levelled r.levelled

section Estimated

variable (plan : Plan Relation)

theorem output_levelled : plan.levelled.output = plan.output.levelled := by
  cases plan <;> rfl

theorem levelled_projecting (names : List String) :
    (projecting names plan).levelled = projecting names plan.levelled := by
  rw [projecting, projecting, output_levelled, Relation.project_levelled]
  rfl

theorem levelled_view : View True levelled id id where
  names p             := by rw [output_levelled, Relation.names_levelled]
  empty p             := by
    rw [tupleCount, output_levelled, Relation.tupleCount_levelled, tupleCount]
    omega
  placeholder p       := by cases p <;> rfl
  nothing             := rfl
  withoutProjection p := by cases p <;> rfl
  projecting _ p      := levelled_projecting p _
  projects _ p        := by cases p <;> simp [operator, levelled]
  multiplying l r     := by
    rw [multiplying, multiplying, output_levelled, output_levelled, Relation.product_levelled]
    rfl
  selecting h         := by
    obtain ⟨o, ho, rfl⟩ := selecting_eq_ok_iff.mp h
    exact selecting_eq_ok_iff.mpr ⟨_, output_levelled _ ▸ Relation.select_levelled ho, rfl⟩
  joining h           := by
    obtain ⟨o, ho, rfl⟩ := joining_eq_ok_iff.mp h
    refine joining_eq_ok_iff.mpr ⟨_, ?_, rfl⟩
    rw [output_levelled, output_levelled]
    exact Relation.join_levelled ho
  predicates h        := h.right trivial
  joins h             := h.right trivial

end Estimated

-- Two plans that differ in their notes and in the counts of their relations. Neither names nor the
-- order of attributes may differ.
inductive Recounted : Plan ν → Plan μ → Prop
  | scan (n : ν) (m : μ) {r s : NamedRelation} :
    s.name = r.name → s.statistics.names = r.statistics.names → Recounted (.scan n r) (.scan m s)
  | select (n : ν) (m : μ) (p : Predicate) {i : Plan ν} {i' : Plan μ} :
    Recounted i i' → Recounted (.select n p i) (.select m p i')
  | project (n : ν) (m : μ) (names : List String) {i : Plan ν} {i' : Plan μ} :
    Recounted i i' → Recounted (.project n names i) (.project m names i')
  | product (n : ν) (m : μ) {l r : Plan ν} {l' r' : Plan μ} :
    Recounted l l' → Recounted r r' → Recounted (.product n l r) (.product m l' r')
  | join (n : ν) (m : μ) (p : JoinPredicate) {l r : Plan ν} {l' r' : Plan μ} :
    Recounted l l' → Recounted r r' → Recounted (.join n p l r) (.join m p l' r')

namespace Recounted

variable {plan : Plan ν} {plan' : Plan μ} {p q : Plan Relation}

theorem text_eq (h : Recounted plan plan') : plan'.text = plan.text := by
  induction h
  case scan hn _         => exact hn
  case select hi         => simp [text, hi]
  case project hi        => simp [text, hi]
  case product hl hr     => simp [text, hl, hr]
  case join hl hr        => simp [text, hl, hr]

theorem of_levelled (h : q.levelled = p.levelled) : Recounted p q := by
  induction p generalizing q
  case scan n r =>
    cases q
    case scan m s =>
      have hr : s.levelled = r.levelled := (scan.inj h).right
      have hnames := congrArg (·.statistics.names) hr
      exact .scan _ _ (congrArg (·.name) hr :) (by simpa [NamedRelation.levelled] using hnames)
    all_goals cases h
  case select n p i hi =>
    cases q
    case select m t i' =>
      obtain ⟨_, rfl, h'⟩ := select.inj h
      exact .select _ _ _ (hi h')
    all_goals cases h
  case project n as i hi =>
    cases q
    case project m as' i' =>
      obtain ⟨_, rfl, h'⟩ := project.inj h
      exact .project _ _ _ (hi h')
    all_goals cases h
  case product n l r hl hr =>
    cases q
    case product m l' r' =>
      obtain ⟨_, hl', hr'⟩ := product.inj h
      exact .product _ _ (hl hl') (hr hr')
    all_goals cases h
  case join n j l r hl hr =>
    cases q
    case join m k l' r' =>
      obtain ⟨_, rfl, hl', hr'⟩ := join.inj h
      exact .join _ _ _ (hl hl') (hr hr')
    all_goals cases h

end Recounted
end Plan

variable {ν μ : Type} {plan : Plan ν} {plan' : Plan μ} {options : Options} {d e : Demand}
variable {kept : Multiset String}

theorem Plan.Recounted.parallel (h : Recounted plan plan') (ho : options.reorderJoins = false)
    (hs : ∀ r ∈ plan.scans, r.statistics.Populated) (hs' : ∀ r ∈ plan'.scans, r.statistics.Populated)
    (hc : d.Covers kept) (ha : d.Alike True Eq e) :
    (Reshaping.ofPlan options plan).Parallel True Eq (fun _ p q => q.levelled = p.levelled)
      (Reshaping.ofPlan options plan') d e := by
  have C := levelled_view.congruent
  have ho : Guided True options fun _ p q => q.levelled = p.levelled :=
    ⟨.inl trivial, fun h => by simp [ho] at h⟩
  induction h generalizing d e kept
  case scan n m r s hn hnames =>
    have hr := hs r (List.mem_singleton_self r)
    have hr' := hs' s (List.mem_singleton_self s)
    have hlevel : s.levelled = r.levelled := by
      rw [NamedRelation.levelled, NamedRelation.levelled, hr.levelled_eq hr' hnames, hn]
    have hhas : s.has = r.has := funext fun n => Relation.has_eq_of_names hnames n
    refine C.scan (N := fun _ => true) hhas (.inl trivial) hc ha ?_
    rw [scanning, levelled, hlevel, hr.levelled_eq hr' hnames]
    rfl
  case select n m p i i' _ hi =>
    have hl : [(m, p)].length = [(n, p)].length := rfl
    exact C.selects hl (hi hs hs' (hc.deferAll [p]) (ha.deferAll (.refl [p])))
  case project n m names i i' _ hi =>
    exact C.projection hc ha fun _ _ ha hc _ => hi hs hs' hc ha
  case product n m l r l' r' _ _ hl hr =>
    obtain ⟨hsl, hsr⟩ := List.forall_mem_append.mp hs
    obtain ⟨hsl', hsr'⟩ := List.forall_mem_append.mp hs'
    exact C.product ho hc (.inl trivial) (hl hsl hsl' hc ha) fun _ _ ha hc _ => hr hsr hsr' hc ha
  case join n m p l r l' r' _ _ hl hr =>
    obtain ⟨hsl, hsr⟩ := List.forall_mem_append.mp hs
    obtain ⟨hsl', hsr'⟩ := List.forall_mem_append.mp hs'
    exact C.join ho hc (.inl trivial)
      (hl hsl hsl' (hc.defer (.join p)) (ha.deferJoin (.refl p)))
      fun _ _ ha hc _ => hr hsr hsr' hc ha

-- Where the search may not reorder, the counts of the relations have no influence on the plan.
theorem optimise_recounted (ho : options.reorderJoins = false) (h : plan.Recounted plan')
    (hs : ∀ r ∈ plan.scans, r.statistics.Populated) (hs' : ∀ r ∈ plan'.scans, r.statistics.Populated) :
    ∃ o o', optimise options plan = .ok o ∧ optimise options plan' = .ok o' ∧
      o'.value.text = o.value.text ∧ o.value.Recounted o'.value := by
  obtain ⟨r, hr⟩ : ∃ r, reshape options plan {} = .ok r := reshape_returns fun r hr => (hs r hr).nonneg
  obtain ⟨r', hr'⟩ : ∃ r, reshape options plan' {} = .ok r :=
    reshape_returns fun r hr => (hs' r hr).nonneg
  have hm := (h.parallel ho hs hs' Demand.covers_empty (.refl rfl)).plan r r' hr hr'
  obtain ⟨o, o', hok, hok', hv⟩ := optimise_match hr hr' hm.demands
  have hlevel : o'.value.levelled = o.value.levelled := by
    cases hv
    case inl hv =>
      rw [hv.left, hv.right]
      exact Plan.levelled_view.congruent.of_abreast (N := fun _ => true) hm
    case inr hv => rw [hv.left, hv.right]
  have hv := Plan.Recounted.of_levelled hlevel
  exact ⟨o, o', hok, hok', hv.text_eq, hv⟩

def weighed (m n : Nat) : Plan Unit :=
  .project () ["a", "e"] <|
  .select () (.join { occurrence := 0, left := "a", right := "c" }) <|
  .select () (.join { occurrence := 1, left := "b", right := "d" }) <|
  .product ()
    (.product () (.scan () { name := "r", statistics := .of 4 [⟨"a", 2⟩, ⟨"b", 2⟩] })
      (.scan () { name := "s", statistics := .of m [⟨"c", 1⟩] }))
    (.scan () { name := "t", statistics := .of n [⟨"d", 1⟩, ⟨"e", 2⟩] })

theorem optimise_recounted_weighed :
    ((weighed 9 2).Recounted (weighed 1 50) ∧
      (∀ r ∈ (weighed 9 2).scans, r.statistics.Populated) ∧
      ∀ r ∈ (weighed 1 50).scans, r.statistics.Populated) ∧
    ∃ o o', optimise { reorderJoins := false } (weighed 9 2) = .ok o ∧
      optimise { reorderJoins := false } (weighed 1 50) = .ok o' ∧
      o'.value.text = o.value.text ∧ o.value.Recounted o'.value := by
  have hs  : ∀ r ∈ (weighed 9 2).scans, r.statistics.Populated := by decide
  have hs' : ∀ r ∈ (weighed 1 50).scans, r.statistics.Populated := by decide
  have h : (weighed 9 2).Recounted (weighed 1 50) := .project _ _ _ <| .select _ _ _ <| .select _ _ _ <|
    .product _ _ (.product _ _ (.scan _ _ rfl rfl) (.scan _ _ rfl rfl)) (.scan _ _ rfl rfl)
  exact ⟨⟨h, hs, hs'⟩, optimise_recounted rfl h hs hs'⟩

example : [weighed 9 2, weighed 1 50].map (fun plan => (optimise {} plan).toOption.map (·.value.text)) = [
    some "PROJECT [a,e] ((PROJECT [a,e] ((r) JOIN [b=d] (t))) JOIN [a=c] (s))",
    some "PROJECT [a,e] ((PROJECT [a,b] ((r) JOIN [a=c] (s))) JOIN [b=d] (t))"] := by
  cbv

end QueryPlanner
