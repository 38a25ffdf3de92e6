import QueryPlanner.Proofs.Conservation
import QueryPlanner.Proofs.Reordering
import QueryPlanner.Proofs.Repetition.First
import QueryPlanner.Proofs.Repetition.Rejoin

namespace QueryPlanner

open Run (Meets)
open Reshaping (ofPlan chain)
open Unlimited

variable {modes : Bool → Bool → Prop} {kept : Multiset String} {options : Options}
variable {d d' e : Demand} {q q' l r top : Plan Relation} {j : JoinPredicate} {p : Predicate}
variable {ps : List ValuePredicate} {qs : List JoinPredicate}

namespace Demand

def Spares (d : Demand) (q : Plan Relation) : Prop :=
  ∀ p ∈ d.pending, p.Legible ∧ ¬∀ n ∈ p.attributes, q.output.has n

theorem Spares.alike (h : d.Spares q) (ha : d.Alike False modes e) : e.Spares q := by
  intro p hp
  have ⟨p', hp', he⟩ := ha.exists_pending hp
  have hattr : p'.attributes = p.attributes := by
    rw [← Predicate.unnumbered_attributes, he, Predicate.unnumbered_attributes]
  have := h p' hp'
  rwa [Predicate.Legible, hattr] at this

-- The demand of a plan for its own predicates comes last. Here they stand first, and in the order of
-- their texts.
def fronted (d : Demand) (ps : List ValuePredicate) (qs : List JoinPredicate) : Demand where
  selects   := ps ++ d.selects
  joins     := qs ++ d.joins
  required  := (d.deferAll (ps.map Predicate.value ++ qs.map Predicate.join).reverse).required
  narrowing := d.narrowing

theorem mem_pending_fronted : p ∈ (d.fronted ps qs).pending ↔
    p ∈ ps.map Predicate.value ++ qs.map Predicate.join ∨ p ∈ d.pending := by
  simp only [pending, fronted, Multiset.mem_add, Multiset.mem_coe, List.map_append, List.mem_append]
  tauto

theorem fronted_alike (d : Demand) (ps : List ValuePredicate) (qs : List JoinPredicate) :
    (d.fronted ps qs).Alike False Eq
      (d.deferAll (ps.map Predicate.value ++ qs.map Predicate.join).reverse) where
  selects   := .of_perm <| by
    have : (ps.map Predicate.value ++ qs.map Predicate.join).reverse.filterMap Predicate.value? =
        ps.reverse := by simp [Predicate.value?, List.filterMap_map, Function.comp_def]
    rw [selects_deferAll, this]
    exact List.perm_append_comm.trans (ps.reverse_perm.append_right _)
  joins     := .of_perm <| by
    have : (ps.map Predicate.value ++ qs.map Predicate.join).reverse.filterMap Predicate.join? =
        qs.reverse := by simp [Predicate.join?, List.filterMap_map, Function.comp_def]
    rw [joins_deferAll, this]
    exact List.perm_append_comm.trans (qs.reverse_perm.append_right _)
  counts _  := rfl
  narrowing := (d.narrowing_deferAll _).symm

theorem alike_of_fronted
    (h : (releaseAll { d.fronted ps qs with selects := d.selects, joins := d.joins }
      (ps.map (·.name) ++ qs.flatMap (·.attributes))).Alike False Eq e) : d.Alike False Eq e where
  selects   := by simpa [releaseAll_eq] using h.selects
  joins     := by simpa [releaseAll_eq] using h.joins
  counts n  := by
    have hvalue : (ps.map Predicate.value).flatMap Predicate.attributes = ps.map (·.name) := by
      rw [List.flatMap_map, ← List.flatMap_pure_eq_map]
      rfl
    have hjoin : (qs.map Predicate.join).flatMap Predicate.attributes =
        qs.flatMap (·.attributes) := by
      simp [List.flatMap_map, Predicate.attributes]
    have := d.count_deferAll (ps.map Predicate.value ++ qs.map Predicate.join).reverse n
    rw [((List.reverse_perm _).flatMap_right _).count_eq, List.flatMap_append, hvalue, hjoin] at this
    rw [h.counts, count_releaseAll]
    simp only [fronted]
    omega
  narrowing := by simpa [narrowing_releaseAll, fronted] using h.narrowing

end Demand

-- Another search for a plan gives it back up to the numbers of its predicates, and takes nothing else
-- off the pending lists.
def Returned (q : Plan Relation) (d : Demand) (q' : Plan Relation) (d' : Demand) : Prop :=
  q'.unnumbered = q.unnumbered ∧ d.Alike False Eq d'

theorem scan_again {r : NamedRelation} (values : ∀ p ∈ ps, r.has p.name)
    (joins : ∀ p ∈ qs, r.decides p) (valuesOrder : InTextOrder ValuePredicate.text ps)
    (joinsOrder : InTextOrder JoinPredicate.text qs)
    (stacked : Plan.stack (ps.map .value ++ qs.map .join) (.scanning r) = .ok q)
    (hg : r.statistics.Counts 0) (hl : ∀ p ∈ q.predicates, p.Legible) (hc : d.Covers kept)
    (hn : d.narrowing = false) (hs : d.Spares q) :
    Meets (fun _ => True) (placeScan r)
      (d.deferAll (ps.map Predicate.value ++ qs.map Predicate.join).reverse) (Returned q d) := by
  have ha := d.fronted_alike ps qs
  have hc₀ : (d.fronted ps qs).Covers kept := ha.covers (hc.deferAll _)
  have hhas (n : String) : q.output.has n = r.has n := Plan.has_of_stack stacked n
  -- Of all pending predicates the scan takes those that were stacked on it, in the order they had.
  have hvalues : r.values (d.fronted ps qs) = ps := valuesOrder.filter_sortByText values fun p hp => by
    have := (hs (.value p) (Demand.mem_pending_value.mpr hp)).right
    simpa [Predicate.attributes, hhas] using this
  have hjoins : r.equations (d.fronted ps qs) = qs := joinsOrder.filter_sortByText joins fun p hp => by
    have := (hs (.join p) (Demand.mem_pending_join.mpr hp)).right
    rw [← Bool.not_eq_true, NamedRelation.decides, Bool.and_eq_true, Bool.and_eq_true]
    rintro ⟨⟨_, hl⟩, hr⟩
    exact this (by simp [Predicate.attributes, JoinPredicate.attributes, hhas, hl, hr])
  have hl₀ : ∀ p ∈ (d.fronted ps qs).pending, p.Legible := fun p hp => by
    cases Demand.mem_pending_fronted.mp hp
    case inl hp =>
      refine hl p ?_
      rw [Plan.predicates_of_stack stacked]
      exact List.mem_append_left _ (List.mem_reverse.mpr hp)
    case inr hp => exact (hs p hp).left
  have hy : Yields False (·.Everywhere (Relation.Counts 0)) d.narrowing kept _ [.scanning r]
    (d.fronted ps qs) := scanning_yields hg hc₀ rfl
  have ref := (placeScan_meets .nonneg False.elim hy).and_of_any
    (placeScan_result r (d.fronted ps qs))
  -- The run is known from a demand with these predicates in front, which the actual demand matches.
  have hm := placeScan_match (Renumbered.congruent.simulation kept) rfl (.inr hl₀) hc₀ ha
    (rfl : Renumbered _ (.scanning r) (.scanning r))
  refine (hm.meets ref).mono ?_
  rintro q' d' ⟨q₀, e, ⟨_, ⟨top, htop, hq₀⟩, he⟩, ha', _, hq'⟩
  have hn' : e.narrowing = false := by rw [he, Demand.narrowing_releaseAll]; exact hn
  obtain rfl : q₀ = top := hq₀.trans (if_pos hn')
  rw [hvalues, hjoins] at htop he
  obtain rfl := Except.ok.inj (stacked.symm.trans htop)
  rw [he] at ha'
  have ha' : (Demand.releaseAll { d.fronted ps qs with selects := d.selects, joins := d.joins }
      (ps.map (·.name) ++ qs.flatMap (·.attributes))).Alike False Eq d' := by
    simpa only [Demand.fronted, append_diff_self] using ha'
  exact ⟨hq', Demand.alike_of_fronted ha'⟩

theorem Steady.leaves_eq (h : Steady q) :
    (ofPlan options q).leaves = (ofPlan options q).plan >>= Reshaping.keepLeaf := by
  cases q
  case product n l r => exact absurd rfl (h.ne_product n l r)
  all_goals rfl

theorem Steady.leaf_again {N : String → Bool} (h : Steady q)
    (hq : Meets (fun _ => True) (ofPlan options q).plan d (Returned q d)) :
    Meets (fun _ => True) (ofPlan options q).leaves d fun qs d' =>
      List.Forall₂ (Renumbered N) ([q].filter (0 < ·.tupleCount)) qs ∧ d.Alike False Eq d' := by
  rw [h.leaves_eq]
  refine hq.bind fun q' d' ⟨hq', ha⟩ => ?_
  have hcount : q'.tupleCount = q.tupleCount := Renumbered.tupleCount_eq (N := N) hq'
  unfold Reshaping.keepLeaf
  split
  case isTrue hz =>
    refine Run.meets_report_bind (Run.meets_pure ⟨?_, ha⟩)
    simp [← hcount, hz]
  case isFalse hz =>
    refine Run.meets_pure ⟨?_, ha⟩
    have hpos : 0 < q.tupleCount := by omega
    have : [q].filter (0 < ·.tupleCount) = [q] := by simp [hpos]
    rw [this]
    exact .cons hq' .nil

namespace Joint

theorem eq_selects (J : Joint j qs l r top q) : ∃ n ns, q = Plan.selects ns (.join n j l r) ∧
    ns.map (·.2) = (qs.map Predicate.join).reverse := by
  obtain ⟨n, _, htop⟩ := Plan.joining_eq_ok_iff.mp J.joined
  have ⟨ns, hns, hp⟩ := Plan.stack_eq_selects J.stacked
  exact ⟨n, ns, htop ▸ hns, hp⟩

theorem predicates_eq (J : Joint j qs l r top q) :
    q.predicates = ((j :: qs).map Predicate.join).reverse ++ (l.predicates ++ r.predicates) := by
  obtain ⟨n, ns, rfl, hns⟩ := J.eq_selects
  rw [Plan.predicates_selects, hns, Plan.predicates, List.map_cons, List.reverse_cons,
    List.append_assoc, List.singleton_append]

theorem everywhere {P : Relation → Prop} (J : Joint j qs l r top q) (hq : q.Everywhere P) :
    l.Everywhere P ∧ r.Everywhere P := by
  obtain ⟨n, _, rfl⟩ := Plan.joining_eq_ok_iff.mp J.joined
  exact (hq.of_stack J.stacked).right

theorem spares (J : Joint j qs l r top q) (hl : ∀ p ∈ q.predicates, p.Legible) (hs : d.Spares q) :
    (d.fronted [] (j :: qs)).Spares l ∧ (d.fronted [] (j :: qs)).Spares r := by
  have spares {x} (hx : x ∈ [l, r]) : (d.fronted [] (j :: qs)).Spares x := by
    intro p hp
    cases Demand.mem_pending_fronted.mp hp
    case inl hp =>
      refine ⟨hl p ?_, ?_⟩
      · rw [J.predicates_eq]
        exact List.mem_append_left _ (List.mem_reverse.mpr hp)
      · obtain ⟨p, hp, he⟩ := List.mem_map.mp hp
        subst he
        simpa [Predicate.attributes, JoinPredicate.attributes] using J.spanned (p := p) (by simpa using hp) hx
    case inr hp =>
      obtain ⟨hp, hq⟩ := hs p hp
      refine ⟨hp, fun hx' => hq fun n hn => J.has_iff.mpr ?_⟩
      obtain rfl | rfl := List.mem_pair.mp hx
      · exact .inl (hx' n hn)
      · exact .inr (hx' n hn)
  exact ⟨spares (by simp), spares (by simp)⟩

theorem chain_again {N : String → Bool} (J : Joint j qs l r top q) (hl : Steady l) (hr : Steady r)
    (hl' : Meets (fun _ => True) (ofPlan options l).plan d (Returned l d))
    (hr' : ∀ d', d.Alike False Eq d' → Meets (fun _ => True) (ofPlan options r).plan d' (Returned r d')) :
    Meets (fun _ => True) (chain (ofPlan options l) (ofPlan options r)) d fun qs d' =>
      List.Forall₂ (Renumbered N) [l, r] qs ∧ d.Alike False Eq d' := by
  have hfl : [l].filter (0 < ·.tupleCount) = [l] := by simp [J.leftTuples]
  have hfr : [r].filter (0 < ·.tupleCount) = [r] := by simp [J.rightTuples]
  refine (hl.leaf_again (N := N) hl').bind fun ls d₁ ⟨hls, ha⟩ => ?_
  refine (hr.leaf_again (N := N) (hr' d₁ ha)).bind fun rs d₂ ⟨hrs, ha'⟩ => Run.meets_pure ?_
  rw [hfl] at hls
  rw [hfr] at hrs
  exact ⟨List.rel_append hls hrs, ha.trans ha'⟩

theorem again (J : Joint j qs l r top q) (ho : options.reorderJoins)
    (hg : q.Everywhere (Relation.Counts 0)) (hl : ∀ p ∈ q.predicates, p.Legible)
    (hn : d.narrowing = false) (hs : d.Spares q) {N : String → Bool}
    {root : Operator} {qs' : List (Plan Relation)} (ha : (d.fronted [] (j :: qs)).Alike False Eq e)
    (hqs : List.Forall₂ (Renumbered N) [l, r] qs') (hce : e.Covers kept) :
    Meets (fun _ => True) (joinOrder options root qs') e (Returned q d) := by
  obtain ⟨hgl, hgr⟩ := J.everywhere hg
  have y : Yields False (·.Everywhere (Relation.Counts 0)) false kept
      (([l, r].map Plan.contents).sum + (d.fronted [] (j :: qs)).pending.map .inr) [l, r]
      (d.fronted [] (j :: qs)) := {
    good     := by simpa using ⟨hgl, hgr⟩
    covers   := ha.covers hce
    retained := .refl _
    narrows  := hn
  }
  have joint : Meets _ (joinOrder options root [l, r]) _ _ :=
    joinOrder_joint J ho { y with good := fun _ _ => trivial } rfl fun p hp => by
      have := (hs (.join p) (Demand.mem_pending_join.mpr hp)).right
      simpa [Predicate.attributes, JoinPredicate.attributes] using this
  have ref := (joinOrder_meets .nonneg False.elim False.elim y).and_of_any joint
  have hlegible : ∀ p, .inr p ∈ (([l, r].map Plan.contents).sum +
      (d.fronted [] (j :: qs)).pending.map .inr : Multiset Part) → p.Legible := fun p hp => by
    have hp : (p ∈ l.predicates ∨ p ∈ r.predicates) ∨ p ∈ (d.fronted [] (j :: qs)).pending := by
      simpa [Plan.inr_mem_contents] using hp
    cases hp
    case inl hp =>
      refine hl p ?_
      rw [J.predicates_eq]
      exact List.mem_append_right _ (List.mem_append.mpr hp)
    case inr hp => exact ((J.spares hl hs).left p hp).left
  have S := Renumbered.congruent.simulation kept
  have hm : Run.Match (joinOrder options root [l, r]) (joinOrder options root qs') _ _ _ :=
    joinOrder_match S .nonneg (Renumbered.guided ho) (.inr hlegible) ha hqs y
  refine (hm.meets ref).mono ?_
  rintro q' d' ⟨q₀, e', ⟨_, hq₀, he'⟩, ha', hq'⟩
  subst hq₀ he'
  refine ⟨?_, @Demand.alike_of_fronted d d' [] (j :: qs) ha'⟩
  cases hq'
  case inl hq' => exact hq'
  case inr hq' => rw [hq'.left, hq'.right]

end Joint

theorem Steady.again (h : Steady q) (ho : options.reorderJoins)
    (hg : q.Everywhere (Relation.Counts 0)) (hl : ∀ p ∈ q.predicates, p.Legible)
    (hc : d.Covers kept) (hn : d.narrowing = false) (hs : d.Spares q) :
    Meets (fun _ => True) (ofPlan options q).plan d (Returned q d) := by
  induction h generalizing d kept
  case scan r ps qs q values joins valuesOrder joinsOrder stacked =>
    obtain ⟨ns, rfl, hns⟩ := Plan.stack_eq_selects stacked
    have hm := scan_again values joins valuesOrder joinsOrder stacked (hg.of_stack stacked) hl hc hn hs
    rw [← hns] at hm
    unfold Meets
    rw [Reshaping.plan_selects]
    exact hm
  case join j qs l r top q hsl hsr J hil hir =>
    obtain ⟨hgl, hgr⟩ := J.everywhere hg
    obtain ⟨hsl', hsr'⟩ := J.spares hl hs
    obtain ⟨hll, hlr⟩ := List.forall_mem_append.mp (List.forall_mem_append.mp (J.predicates_eq ▸ hl)).right
    -- The predicate of the join is put off last, as if it were one more selection.
    have ha := d.fronted_alike [] (j :: qs)
    have hd : (d.deferAll (qs.map Predicate.join).reverse).deferJoin j =
        d.deferAll (([] : List ValuePredicate).map Predicate.value ++
          (j :: qs).map Predicate.join).reverse := by
      simp [Demand.deferAll, Demand.defer]
    have hc' := hc.deferAll (([] : List ValuePredicate).map Predicate.value ++
      (j :: qs).map Predicate.join).reverse
    rw [← hd] at ha hc'
    have hch := J.chain_again (N := fun _ => true) hsl hsr
      (hil hgl hll hc' (ha.narrowing ▸ hn) (hsl'.alike ha)) fun d' ha' =>
        hir hgr hlr (ha'.symm.covers hc') (ha'.narrowing ▸ ha.narrowing ▸ hn)
          (hsr'.alike (ha.trans ha'))
    obtain ⟨n, ns, hq, hns⟩ := J.eq_selects
    unfold Meets
    rw [hq, Reshaping.plan_selects, hns, ← hq]
    refine Run.meets_modify_bind <| hch.bind ?_
    rintro qs' e ⟨hqs, ha'⟩
    exact J.again ho hg hl hn hs (ha.trans ha') hqs (ha'.symm.covers hc')

-- Selections over products lead to a plan that the optimiser gives back, once there is no product and
-- no empty input of a join in it. Two products of equal size may change places.
theorem optimise_again {ν : Type} {tree : Plan ν} {ns : List (ν × Predicate)}
    {o : Outcome (Plan Relation)} (ho : options.reorderJoins) (ht : tree.IsProducts)
    (ha : tree.Unambiguous) (hs : ∀ r ∈ tree.scans, r.statistics.Counts 0)
    (hl : ∀ p ∈ (tree.selects ns).predicates, p.Legible)
    (h : optimise options (tree.selects ns) = .ok o) (hv : o.value.Tidy) :
    ∃ o', optimise options o.value = .ok o' ∧ o'.value.text = o.value.text ∧
      o'.value.unnumbered = o.value.unnumbered := by
  have hs : ∀ r ∈ (tree.selects ns).scans, r.statistics.Counts 0 := by rwa [Plan.scans_selects]
  obtain ⟨scans, predicates⟩ := subperm_of_contents_le (contents_le_of_optimise h)
  have hs' : ∀ r ∈ o.value.scans, r.statistics.Counts 0 := fun r hr => by
    by_cases hp : r = .placeholder
    case pos => subst hp; decide
    case neg => exact hs r (scans.subset (List.mem_filter.mpr ⟨hr, by simpa using hp⟩))
  have hg : o.value.Everywhere (Relation.Counts 0) := (optimise_meets .nonneg hs).elim h
  have hm : Meets _ (reshape options o.value) {} _ :=
    ((optimise_composed ho ht ha h).steady hv).again ho hg (fun p hp => hl p (predicates.subset hp))
      Demand.covers_empty rfl (by simp [Demand.Spares, Demand.pending])
  obtain ⟨r, hr⟩ : ∃ r, reshape options o.value {} = .ok r := reshape_returns hs'
  obtain ⟨heq, hd⟩ := hm.elim hr
  refine ⟨_, optimise_eq_ok_iff.mpr ⟨r, hr, .inl ⟨hd.unmatched_eq_nil_iff.mpr rfl, rfl⟩⟩, ?_, heq⟩
  rw [← Plan.text_unnumbered, heq, Plan.text_unnumbered]

def relayed : Plan Unit :=
  Plan.selects [((), .join { occurrence := 0, left := "a", right := "b" }),
    ((), .join { occurrence := 1, left := "c", right := "d" })] <|
  .product ()
    (.product ()
      (.scan () { name := "r", statistics := .of 9 [⟨"a", 3⟩] })
      (.scan () { name := "s", statistics := .of 6 [⟨"b", 2⟩, ⟨"c", 6⟩] }))
    (.scan () { name := "t", statistics := .of 2 [⟨"d", 2⟩] })

example : ((optimise {} relayed).toOption.map (·.value.text),
    (optimise {} relayed >>= fun o => optimise {} o.value).toOption.map (·.value.text)) =
    (some "(r) JOIN [a=b] ((s) JOIN [c=d] (t))", some "(r) JOIN [a=b] ((s) JOIN [c=d] (t))") := by
  cbv

end QueryPlanner
