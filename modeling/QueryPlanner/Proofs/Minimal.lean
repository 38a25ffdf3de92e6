import QueryPlanner.Proofs.Balance
import QueryPlanner.Proofs.Carrying
import QueryPlanner.Proofs.Collapse
import QueryPlanner.Proofs.JoinOrder.Offers

namespace QueryPlanner

open Candidate (predicates)
open Run (Meets)
open Unlimited

variable {ν : Type} {exact : Prop} {G : Plan Relation → Prop} {leaves : List Handle} {mode : Bool}
variable {kept : Multiset String} {budget : Multiset Part} {c c' : Components} {ks : List Candidate}
variable {k : Candidate} {qs : List (Plan Relation)} {plan q : Plan Relation} {d d' : Demand}
variable {options : Options} {tree : Plan ν} {n : String} {needed : String → Bool}

def Candidate.attributes (k : Candidate) : List String :=
  (k.predicate.map JoinPredicate.attributes).getD []

theorem Candidate.isRequired_released (k : Candidate)
    (hc : d.Covers (kept + Predicate.mentions (predicates [k]))) (n : String) :
    d.required.isRequired n = ((k.released d).required.isRequired n || n ∈ k.attributes) := by
  unfold released attributes
  cases hp : k.predicate
  case none   => simp
  case some p =>
    have hk : predicates [k] = {.join p} := by simp [predicates, hp]
    by_cases hn : n ∈ p.attributes
    case pos =>
      have : d.required.isRequired n := hc.isRequired (by
        simp [hk, Predicate.mem_mentions, Predicate.attributes, hn])
      simp [this, hn]
    case neg =>
      simp [Requirements.isRequired, Demand.releaseJoin, Demand.count_releaseAll, hn,
        List.count_eq_zero_of_not_mem hn]

namespace Components

theorem Combined.pared (h : c.Combined k plan)
    (u : Underway exact G leaves mode kept budget c (k :: ks) d) (hb : (offered budget).Nodup)
    (e : c.Each (Plan.Pared d.required.isRequired) leaves)
    (hw : ∀ n, d.required.isRequired n = (needed n || n ∈ k.attributes)) :
    plan.Carries d.required.isRequired ∧ plan.Minimal needed ∧ plan.offers.Nodup := by
  have hl := u.sides k (List.mem_cons_self ..) k.left k.left_mem_sides
  have hr := u.sides k (List.mem_cons_self ..) k.right k.right_mem_sides
  -- Below the new node the names of its predicate are required, above it only those that are needed.
  have related {p} (hp : k.predicate = some p) :
      (fun n => needed n || n ∈ p.attributes) = d.required.isRequired :=
    funext fun n => by rw [hw n, Candidate.attributes, hp]; rfl
  have both {p l r : Plan Relation} (hp : p.offers = l.offers ++ r.offers)
      (hn : p.output.names = l.output.names ++ r.output.names) (hl : l.Carries d.required.isRequired)
      (hr : r.Carries d.required.isRequired) : p.Carries d.required.isRequired := by
    rw [Plan.Carries, hn, hp, List.filter_append]
    exact congrArg₂ _ hl hr
  cases h
  case built ho hb' =>
    have ho := (isOutstanding_iff.mp ho).right.right
    cases hb'
    case product l r hn pl pr =>
      have el := e.of_roots hl pl
      have er := e.of_roots hr pr
      have hw : d.required.isRequired = needed := funext fun n => by simp [hw n, Candidate.attributes, hn]
      have hof : (Plan.multiplying l r).offers = l.offers ++ r.offers := Plan.offers_product ..
      refine ⟨both hof (Relation.names_product ..) el.carries er.carries, ?_, ?_⟩
      · rw [hw] at el er
        exact ⟨⟨el.carries, er.carries⟩, el.minimal, er.minimal⟩
      · exact hof ▸ u.offers_append_nodup hb hl hr ho pl pr
    case join p l r hp pl pr hj =>
      have el := e.of_roots hl pl
      have er := e.of_roots hr pr
      obtain ⟨s, hs, rfl⟩ := Plan.joining_eq_ok_iff.mp hj
      have hof : (Plan.join s p l r).offers = l.offers ++ r.offers := Plan.offers_join ..
      refine ⟨both hof (Relation.names_join hs) el.carries er.carries, ?_, ?_⟩
      · rw [← related hp] at el er
        exact ⟨⟨el.carries, er.carries⟩, el.minimal, er.minimal⟩
      · exact hof ▸ u.offers_append_nodup hb hl hr ho pl pr
  case selected p q hp ho pl hs =>
    have el := e.of_roots hl pl
    obtain ⟨s, hs', rfl⟩ := Plan.selecting_eq_ok_iff.mp hs
    have hd : q.offers.Nodup := u.offers_nodup hb hl pl
    refine ⟨(Relation.names_select hs').trans el.carries, ?_, hd⟩
    rw [← related hp] at el
    exact el.minimal

-- A round leaves components that carry what is needed now. For the new one that is by narrowing. The
-- others have nothing that the predicate of the candidate needed.
theorem Round.pared (r : c.Round k plan d c' d')
    (u : Underway exact G leaves true kept budget c (k :: ks) d) (hb : (offered budget).Nodup)
    (e : c.Each (Plan.Pared d.required.isRequired) leaves) :
    c'.Each (Plan.Pared d'.required.isRequired) leaves := by
  have hc : d.Covers (kept + Predicate.mentions (predicates [k])) :=
    u.covers.mono (add_le_add_right (Predicate.mentions_mono (by
      rw [Candidate.predicates_cons k ks]
      exact Multiset.le_add_right ..)) kept)
  have hw := k.isRequired_released hc
  rw [← r.demand] at hw
  have hn : d'.narrowing = true := by
    rw [r.demand, ← u.narrows, Candidate.released]
    split
    · rfl
    · exact Demand.narrowing_releaseAll ..
  obtain ⟨hcar, hmin, hdis⟩ := r.combined.pared u hb e hw
  refine e.round r u.inside (hcar.narrowed hn hdis hmin fun n hr => ?_) fun h hh hs q hq ep => ?_
  · simp [hw n, hr]
  · refine ep.congr fun n hno => ?_
    have apart {x} (hx : x ∈ k.sides) (ho : c.owner h ≠ c.owner x) (hp : c.provides n x) : False := by
      have hr := u.sides k (List.mem_cons_self ..) x hx
      obtain ⟨px, hpx, hnx⟩ := provides_iff.mp hp
      have := u.offers_append_nodup hb (owner_mem_roots hh) hr ho hq hpx
      exact List.disjoint_of_nodup_append this hno ((e.of_roots hr hpx).carries.mem_offers hnx)
    have hna : n ∉ k.attributes := by
      unfold Candidate.attributes
      cases hp : k.predicate
      case none   => exact List.not_mem_nil
      case some p =>
        obtain ⟨hl, hr⟩ := u.provided k (List.mem_cons_self ..) p hp
        intro hm
        obtain rfl | rfl := List.mem_pair.mp hm
        · exact apart k.left_mem_sides (hs ∘ .inl) hl
        · exact apart k.right_mem_sides (hs ∘ .inr) hr
    rw [hw n]
    simp [hna]

theorem pared_carried (hb : (offered budget).Nodup) (leaves : List Handle) :
    Carried exact G leaves true kept budget fun c _ d =>
      c.Each (Plan.Pared d.required.isRequired) leaves where
  perm _ e     := e
  products _ e := e
  settle _ e   := e
  round u e r _ := r.pared u hb e

end Components

open Components

theorem joinOrder_pared {root : Operator}
    (y : Yields False (fun _ => True) true kept budget qs d) (hb : (offered budget).Nodup)
    (hq : ∀ q ∈ qs, q.Pared d.required.isRequired) :
    Meets (fun _ => True) (joinOrder options root qs) d fun q d' => q.Pared d'.required.isRequired := by
  refine joinOrder_carries
    (H := fun leaves c _ d => c.Each (Plan.Pared d.required.isRequired) leaves) .free False.elim
    (fun _ e _ _ => e) (fun _ e => e) id (pared_carried hb) y ?start ?finished
    (fun _ => Plan.pared_nothing)
  case finished =>
    rintro leaves c d q _ e (rfl | ⟨h, hh, hp⟩)
    · exact Plan.pared_nothing
    · exact e h hh q hp
  case start =>
    refine (selfJoins_carries
      (K := fun _ c d => c.Each (Plan.Pared d.required.isRequired) (List.range qs.length))
      .free False.elim (fun e _ => e) ?_ (.ofLeaves y) (owner_ofLeaves qs) ?_).mono fun c d' e h hh => ?_
    · rintro p _ c d h q c' _ d'' e _ rfl u r
      exact r.pared u hb e
    · exact fun h _ q hp => hq q (List.mem_of_getElem? (standsFor_ofLeaves.mp hp))
    · exact e h (List.mem_filter.mp hh).left

structure Shaved (names : List String) (d : Demand) (qs : List (Plan Relation)) (d' : Demand) : Prop where
  pared   : ∀ q ∈ qs, q.Pared d'.required.isRequired
  within  : ∀ q ∈ qs, ∀ n ∈ q.offers, n ∈ names
  others  : ∀ n ∉ names, d'.required.isRequired n = d.required.isRequired n
  narrows : d'.narrowing = d.narrowing

theorem Shaved.append {xs ys : List String} {rs : List (Plan Relation)} {d'' : Demand}
    (h : Shaved xs d qs d') (h' : Shaved ys d' rs d'') (hd : (xs ++ ys).Nodup) :
    Shaved (xs ++ ys) d (qs ++ rs) d'' where
  pared   := by
    refine List.forall_mem_append.mpr ⟨fun q hq => (h.pared q hq).congr fun n hn => ?_, h'.pared⟩
    exact (h'.others n (List.disjoint_of_nodup_append hd (h.within q hq n hn))).symm
  within  := List.forall_mem_append.mpr
    ⟨fun q hq n hn => List.mem_append_left _ (h.within q hq n hn),
      fun q hq n hn => List.mem_append_right _ (h'.within q hq n hn)⟩
  others n hn := by
    rw [List.mem_append, not_or] at hn
    rw [h'.others n hn.right, h.others n hn.left]
  narrows := h'.narrows.trans h.narrows

theorem placeScan_shaved (r : NamedRelation) (hr : r.statistics.names.Nodup) (hn : d.narrowing) :
    Meets (fun _ => True) (placeScan r) d fun q d' => Shaved r.statistics.names d [q] d' := by
  refine (placeScan_result r d).mono ?_
  rintro q d' ⟨⟨top, htop, rfl⟩, hd⟩
  have hn' : d'.narrowing = d.narrowing := hd ▸ Demand.narrowing_releaseAll ..
  have hof : top.offers = r.statistics.names := by
    obtain ⟨ns, rfl, -⟩ := Plan.stack_eq_selects htop
    rw [Plan.offers_selects]
    exact List.append_nil _
  have hmin {needed} : top.Minimal needed := by
    obtain ⟨ns, rfl, -⟩ := Plan.stack_eq_selects htop
    clear htop hof
    induction ns generalizing needed
    case nil          => trivial
    case cons _ _ hi  => exact hi
  have hcar : top.Carries fun _ => true := by
    rw [Plan.Carries, List.filter_true, hof]
    exact Plan.names_of_stack htop
  refine ⟨?_, ?_, fun n hm => ?_, hn'⟩
  · simpa using hcar.narrowed (hn'.trans hn) (hof ▸ hr) hmin fun _ _ => rfl
  · simpa [← hof] using fun n => Demand.mem_offers_narrowed
  · -- The predicates that are placed have their attributes in the relation.
    have : n ∉ (r.values d).map (·.name) ++ (r.equations d).flatMap (·.attributes) := by
      rw [List.mem_append, not_or]
      constructor
      · intro hv
        obtain ⟨p, hp, rfl⟩ := List.mem_map.mp hv
        exact hm (Relation.has_iff.mp (List.mem_filter.mp hp).right)
      · intro hj
        obtain ⟨p, hp, hnp⟩ := List.mem_flatMap.mp hj
        have := (NamedRelation.settles_iff (p := .join p)).mp (List.mem_filter.mp hp).right
        exact hm (Relation.has_iff.mp (this.right n hnp))
    rw [hd, Requirements.isRequired, Demand.count_releaseAll, List.count_eq_zero_of_not_mem this]
    rfl

theorem products_shaved (ht : tree.IsProducts) (ho : tree.offers.Nodup) (hn : d.narrowing) :
    Meets (fun _ => True) (Reshaping.ofPlan options tree).leaves d (Shaved tree.offers d) := by
  induction tree generalizing d
  case scan n r =>
    have hof : (Plan.scan n r).offers = r.statistics.names := List.append_nil _
    rw [hof] at ho ⊢
    refine (placeScan_shaved r ho hn).bind fun q d' h => ?_
    unfold Reshaping.keepLeaf
    split
    case isTrue  =>
      exact Run.meets_report_bind (Run.meets_pure { h with pared := by simp, within := by simp })
    case isFalse => exact Run.meets_pure h
  case product n l r hl hr =>
    rw [Plan.offers_product] at ho ⊢
    obtain ⟨hol, hor, -⟩ := List.nodup_append.mp ho
    refine (hl ht.left hol hn).bind fun qs d' h => ?_
    exact (hr ht.right hor (h.narrows.trans hn)).bind fun rs d'' h' => Run.meets_pure (h.append h' ho)
  all_goals exact ht.elim

theorem products_pared (ht : tree.IsProducts) (ho : tree.offers.Nodup) (hn : d.narrowing)
    (hc : d.Covers kept) :
    Meets (fun _ => True) (Reshaping.ofPlan options tree).plan d fun q d' =>
      q.Pared d'.required.isRequired := by
  cases tree
  case scan n r =>
    refine (placeScan_shaved r ?_ hn).mono fun q _ h => h.pared q (List.mem_singleton_self q)
    exact List.append_nil r.statistics.names ▸ ho
  case product n l r =>
    have hy : Meets (fun _ => True) (Reshaping.ofPlan options (.product n l r)).leaves d _ :=
      (Reshaping.ofPlan_takes .free _ (fun _ _ => trivial) False.elim False.elim hc hn).leaves
    have ht : Meets (fun _ => True) (Reshaping.ofPlan options (.product n l r)).leaves d _ :=
      products_shaved ht ho hn
    refine (ht.and hy).bind ?_
    rintro qs d' ⟨h, y, _⟩
    refine joinOrder_pared y ?_ h.pared
    rw [offered_add, offered_predicates, add_zero, Plan.offered_contents]
    exact Multiset.coe_nodup.mpr ho
  all_goals exact ht.elim

theorem Demand.Balanced.isRequired {names : List String} {vain : Nat} (h : d.Balanced names vain)
    (hu : d.unmatched = []) (hj : ∀ p ∈ d.joins, p.isSameName = false) (n : String) :
    d.required.isRequired n = (n ∈ names : Bool) := by
  obtain ⟨hp, hs⟩ := pending_of_unmatched hu
  have hj : d.joins = [] := List.eq_nil_iff_forall_not_mem.mpr fun p hm => by
    simpa [hj p hm] using hs p hm
  rw [hj] at hp
  rw [Requirements.isRequired, h.count, hp]
  simp [Multiset.coe_count, List.count_pos_iff]

theorem reshape_minimal {m : ν} {names : List String} {ps : List (ν × Predicate)}
    (ho : options.pushProjections = true) (ht : tree.IsProducts)
    (hs : ∀ r ∈ tree.scans, r.isPlaceholder = false) (hd : tree.offers.Nodup)
    (hp : ∀ p ∈ ps, p.2.isSameName = false) :
    Meets (fun _ => True) (reshape options (.project m names (tree.selects ps))) {} fun q d =>
      d.unmatched = [] → q.Minimal fun n => n ∈ names := by
  let e : Demand := { Demand.requireAll {} names with narrowing := options.pushProjections }
  have hb : e.Balanced (names + 0) 0 := ⟨(Demand.Balanced.empty.requireAll names).count,
    (Demand.Balanced.empty.requireAll names).overdrawn⟩
  rw [add_zero] at hb
  have he : e.pending = 0 := Demand.pending_requireAll {} names
  have scans : (tree.selects ps).scans = tree.scans := Plan.scans_selects ps tree
  -- The run below the projection.
  have bal := reshape_balanced options (tree.selects ps)
    (fun r hr hrp => by simp [hs r (scans ▸ hr)] at hrp) hb
  have yie : Meets (fun _ => True) (Reshaping.ofPlan options (tree.selects ps)).plan e _ :=
    (Reshaping.ofPlan_takes .free _ (fun _ _ => trivial) False.elim False.elim hb.covers rfl).plan
  have par : Meets (fun _ => True) (Reshaping.ofPlan options (tree.selects ps)).plan e fun q d =>
      q.Pared d.required.isRequired := by
    unfold Meets
    rw [Reshaping.plan_selects]
    exact products_pared ht hd ((Demand.narrowing_deferAll ..).trans ho) (hb.covers.deferAll _)
  refine Run.meets_demand_bind <| Run.meets_modify_bind <| ((bal.and yie).and par).bind ?_
  rintro q d ⟨⟨hb, y⟩, hq⟩
  have hle := y.retained.left
  rw [he, Multiset.map_zero, add_zero, List.map_singleton, List.sum_singleton] at hle
  have hno : q.offers.Nodup := by
    have := offered_mono ((Multiset.le_add_right ..).trans hle)
    rw [Plan.offered_contents, Plan.offered_contents, Plan.offers_selects] at this
    exact Multiset.nodup_of_le this hd
  have hj : ∀ p ∈ d.joins, p.isSameName = false := fun p hm => by
    have hm : Sum.inr (.join p) ∈ (tree.selects ps).contents := Multiset.mem_of_le
      ((Multiset.le_add_left ..).trans hle) (Multiset.mem_map_of_mem _ (Demand.mem_pending_join.mpr hm))
    rw [Plan.inr_mem_contents, ht.predicates_selects] at hm
    obtain ⟨p', hm, he⟩ := List.mem_map.mp hm
    simpa [he, Predicate.isSameName] using hp p' hm
  refine (narrow_result q d).bind ?_
  rintro _ _ ⟨rfl, rfl⟩
  refine Run.meets_modify_bind (Run.meets_pure fun hu => ?_)
  rw [Demand.unmatched_releaseAll] at hu
  have hw := hb.isRequired hu hj
  have := hq.carries.narrowed (y.narrows.trans ho) hno hq.minimal fun _ => id
  exact (this.minimal.congr fun n _ => hw n).ensureProjection names

-- With projections pushed down, under a projection at the root, whatever is combined carries exactly
-- those attributes of its relations that are named at the root or by a predicate on the way there.
theorem optimise_minimal {m : ν} {names : List String} {ps : List (ν × Predicate)}
    (ho : options.pushProjections = true) (ht : tree.IsProducts)
    (hs : ∀ r ∈ tree.scans, r.statistics.Counts 0 ∧ r.isPlaceholder = false)
    (hd : (tree.scans.flatMap (·.statistics.names)).Nodup) (hp : ∀ p ∈ ps, p.2.isSameName = false) :
    ∃ o, optimise options (.project m names (tree.selects ps)) = .ok o ∧
      (o.value = .nothing ∧ o.demand.unmatched ≠ [] ∧ .unmatched o.demand.unmatched ∈ o.events ∨
        o.value.Minimal fun n => n ∈ names) := by
  have scans : (Plan.project m names (tree.selects ps)).scans = tree.scans := Plan.scans_selects ps tree
  obtain ⟨r, hr⟩ : ∃ r, reshape options (.project m names (tree.selects ps)) {} = .ok r :=
    reshape_returns fun r hr => (hs r (scans ▸ hr)).left
  have hq := (reshape_minimal ho ht (fun r hr => (hs r hr).right) hd hp).elim hr
  by_cases hu : r.demand.unmatched = []
  case pos => exact ⟨_, optimise_eq_ok_iff.mpr ⟨r, hr, .inl ⟨hu, rfl⟩⟩, .inr (hq hu)⟩
  case neg => exact ⟨_, optimise_eq_ok_iff.mpr ⟨r, hr, .inr ⟨hu, rfl⟩⟩, .inl ⟨rfl, hu, by simp⟩⟩

def threeway : Plan Unit :=
  .product ()
    (.product ()
      (.scan () { name := "r", statistics := .of 4 [⟨"a", 2⟩, ⟨"x", 4⟩, ⟨"b", 2⟩] })
      (.scan () { name := "s", statistics := .of 6 [⟨"c", 3⟩, ⟨"d", 2⟩, ⟨"y", 1⟩] }))
    (.scan () { name := "t", statistics := .of 5 [⟨"z", 5⟩, ⟨"e", 1⟩] })

def threewayConditions : List (Unit × Predicate) := [
  ((), .join { occurrence := 0, left := "b", right := "c" }),
  ((), .value { occurrence := 1, name := "d", value := "v" })]

theorem optimise_minimal_threeway :
    (threeway.IsProducts ∧
      (∀ r ∈ threeway.scans, r.statistics.Counts 0 ∧ r.isPlaceholder = false) ∧
      (threeway.scans.flatMap (·.statistics.names)).Nodup ∧
      ∀ p ∈ threewayConditions, p.2.isSameName = false) ∧
    ∃ o, optimise {} (.project () ["e", "a"] (threeway.selects threewayConditions)) = .ok o ∧
      (o.value = .nothing ∧ o.demand.unmatched ≠ [] ∧ .unmatched o.demand.unmatched ∈ o.events ∨
        o.value.Minimal fun n => n ∈ ["e", "a"]) := by
  have ht : threeway.IsProducts := ⟨⟨trivial, trivial⟩, trivial⟩
  have hs : ∀ r ∈ threeway.scans, r.statistics.Counts 0 ∧ r.isPlaceholder = false := by decide
  have hd : (threeway.scans.flatMap (·.statistics.names)).Nodup := by decide
  have hp : ∀ p ∈ threewayConditions, p.2.isSameName = false := by decide
  exact ⟨⟨ht, hs, hd, hp⟩, optimise_minimal rfl ht hs hd hp⟩

example : (optimise {} (.project () ["e", "a"] (threeway.selects threewayConditions))).toOption.map
    (·.value.text) = some ("PROJECT [e,a] ((PROJECT [e] (t)) TIMES (PROJECT [a] (" ++
      "(PROJECT [a,b] (r)) JOIN [b=c] (PROJECT [c] (SELECT [d=\"v\"] (s))))))") := by
  cbv

end QueryPlanner
