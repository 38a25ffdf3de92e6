import QueryPlanner.Proofs.Pushdown
import QueryPlanner.Proofs.Quiet
import QueryPlanner.Proofs.Repetition.Leaves
import QueryPlanner.Proofs.Repetition.Placing

namespace QueryPlanner

open Run (Keeps Meets)
open Unlimited

variable {ν : Type} {options : Options} {kept : Multiset String} {d d' d'' : Demand}
variable {r : NamedRelation} {rs rs' : List NamedRelation} {qs qs' : List (Plan Relation)}
variable {plan q : Plan Relation} {p : Predicate} {n : String}

namespace Predicate

def isSameName : Predicate → Bool
  | join p  => p.isSameName
  | value _ => false

-- The predicate asks for an attribute that none of the relations has. A predicate on one name alone
-- asks for nothing.
def Unresolved (rs : List NamedRelation) (p : Predicate) : Prop :=
  p.isSameName = false ∧ ∃ n ∈ p.attributes, ∀ r ∈ rs, r.has n = false

instance (rs : List NamedRelation) (p : Predicate) : Decidable (p.Unresolved rs) :=
  inferInstanceAs (Decidable (_ ∧ _))

theorem attributes_ne_nil (p : Predicate) : p.attributes ≠ [] := by
  cases p <;> simp [attributes, JoinPredicate.attributes]

end Predicate

namespace NamedRelation

def settles (r : NamedRelation) : Predicate → Bool
  | .value p => r.has p.name
  | .join p  => r.decides p

theorem settles_iff : r.settles p ↔ p.isSameName = false ∧ ∀ n ∈ p.attributes, r.has n := by
  cases p <;> simp [settles, decides, Predicate.isSameName, Predicate.attributes,
    JoinPredicate.attributes, and_assoc]

theorem settles_eq_false_iff (hs : p.isSameName = false) :
    r.settles p = false ↔ ∃ n ∈ p.attributes, r.has n = false := by
  rw [← Bool.not_eq_true, settles_iff]
  simp [hs]

end NamedRelation

theorem Demand.mem_unmatched : p ∈ d.unmatched ↔ p ∈ d.pending ∧ p.isSameName = false := by
  cases p
  case value p => simp [unmatched, pending, Predicate.isSameName]
  case join p  => simp [unmatched, pending, Predicate.isSameName]

@[simp]
theorem Demand.unmatched_releaseAll (d : Demand) (names : List String) :
    (d.releaseAll names).unmatched = d.unmatched := by
  rw [releaseAll_eq]; rfl

theorem Plan.populated_of_stack {ps : List Predicate} (h : Plan.stack ps plan = .ok q)
    (hp : plan.output.Populated) (hn : ∀ p ∈ ps, ∀ n ∈ p.attributes, plan.output.has n) :
    q.output.Populated := by
  induction ps generalizing plan
  case nil          => exact stack_nil.mp h ▸ hp
  case cons p ps hi =>
    have ⟨s, hs, hq⟩ := stack_cons.mp h
    obtain ⟨o, ho, rfl⟩ := selecting_eq_ok_iff.mp hs
    have ⟨hn, hn'⟩ := List.forall_mem_cons.mp hn
    have ⟨t, ht, hp'⟩ := Relation.populated_select hp hn
    obtain rfl := Except.ok.inj (ho.symm.trans ht)
    refine hi hq hp' fun p' hp' n hn => ?_
    exact (Relation.has_eq_of_names (Relation.names_select ho) n).trans (hn' p' hp' n hn)

theorem Plan.withoutProjection_of_stack {ps : List Predicate}
    (h : Plan.stack ps (.scanning r) = .ok q) : q.withoutProjection = q := by
  obtain ⟨ns, rfl, -⟩ := stack_eq_selects h
  cases ns <;> rfl

namespace Narrowed

theorem has_of_has (h : Narrowed d plan q) (hn : q.output.has n) : plan.output.has n := by
  cases h
  case kept    => exact hn
  case emptied => cases hn
  case cut     =>
    rw [Relation.has_iff, Plan.projecting, Plan.output, Plan.note, Relation.names_project] at hn
    exact (Requirements.mem_names_presentIn.mp hn).right

theorem tuples (h : Narrowed d plan q) (hp : plan.withoutProjection = plan) (ht : 0 < plan.tupleCount) :
    0 < q.tupleCount ∨ q.tupleCount = 0 ∧ ∀ n, plan.output.has n → ¬d.required.isRequired n := by
  cases h
  case kept       => exact .inl ht
  case emptied hu => exact .inr ⟨rfl, hu⟩
  case cut        => exact .inl (hp.symm ▸ ht)

end Narrowed

theorem placeScan_pending (r : NamedRelation) (d : Demand) :
    Meets (fun _ => True) (placeScan r) d fun _ d' =>
      ∀ p, p ∈ d'.pending ↔ p ∈ d.pending ∧ r.settles p = false := by
  refine (placeScan_result r d).mono fun _ d' ⟨_, hd⟩ p => ?_
  rw [hd, Demand.pending_releaseAll]
  cases p
  case value p => rw [Demand.mem_pending_value, Demand.mem_pending_value]; exact mem_diff_sorted
  case join p  => rw [Demand.mem_pending_join, Demand.mem_pending_join]; exact mem_diff_sorted

-- What is left of the scans in a chain: no leaf without tuples, and none that could decide a predicate
-- which is still pending. If an attribute of such a predicate is found in any of the relations then it
-- is found in one of the leaves.
structure Sifted (rs : List NamedRelation) (d : Demand) (qs : List (Plan Relation)) (d' : Demand) :
    Prop where
  tuples  : ∀ q ∈ qs, 0 < q.tupleCount
  within  : ∀ q ∈ qs, ∃ r ∈ rs, ∀ n, q.output.has n → r.has n
  pending : ∀ p, p ∈ d'.pending ↔ p ∈ d.pending ∧ ∀ r ∈ rs, r.settles p = false
  present : ∀ p ∈ d'.pending, ∀ n ∈ p.attributes, ∀ r ∈ rs, r.has n → ∃ q ∈ qs, q.output.has n

theorem Sifted.append (h : Sifted rs d qs d') (h' : Sifted rs' d' qs' d'') :
    Sifted (rs ++ rs') d (qs ++ qs') d'' where
  tuples  := List.forall_mem_append.mpr ⟨h.tuples, h'.tuples⟩
  within  := List.forall_mem_append.mpr
    ⟨fun q hq => (h.within q hq).imp fun _ ⟨hr, hn⟩ => ⟨List.mem_append_left _ hr, hn⟩,
      fun q hq => (h'.within q hq).imp fun _ ⟨hr, hn⟩ => ⟨List.mem_append_right _ hr, hn⟩⟩
  pending p := by rw [h'.pending, h.pending, List.forall_mem_append, and_assoc]
  present p hp n hn := List.forall_mem_append.mpr
    ⟨fun r hr hn' => (h.present p ((h'.pending p).mp hp).left n hn r hr hn').imp fun _ ⟨hq, hn⟩ =>
        ⟨List.mem_append_left _ hq, hn⟩,
      fun r hr hn' => (h'.present p hp n hn r hr hn').imp fun _ ⟨hq, hn⟩ =>
        ⟨List.mem_append_right _ hq, hn⟩⟩

namespace Reshaping

theorem scan_sifts (hr : r.statistics.Populated) (hc : d.Covers kept) :
    Meets (fun _ => True) (leaf (placeScan r)).leaves d (Sifted [r] d) := by
  have hy := placeScan_meets .free nofun (scanning_yields (G := fun _ => True) (r := r) trivial hc rfl)
  refine (((placeScan_result r d).and (placeScan_pending r d)).and hy).bind
    fun q d' ⟨⟨⟨⟨top, htop, hq⟩, _⟩, hleft⟩, y⟩ => ?_
  have hpop : top.output.Populated := by
    refine Plan.populated_of_stack htop hr fun p hp n hn => ?_
    cases List.mem_append.mp hp
    case inl hp =>
      have ⟨v, hv, he⟩ := List.mem_map.mp hp
      subst he
      exact List.mem_singleton.mp hn ▸ (List.mem_filter.mp hv).right
    case inr hp =>
      have ⟨j, hj, he⟩ := List.mem_map.mp hp
      subst he
      exact (NamedRelation.settles_iff (p := .join j)).mp (List.mem_filter.mp hj).right |>.right n hn
  have hhas (n : String) : top.output.has n = r.has n := Plan.has_of_stack htop n
  have hnar : Narrowed d' top q := hq ▸ d'.narrowed_narrowed top
  have hpending (p : Predicate) : p ∈ d'.pending ↔ p ∈ d.pending ∧ ∀ s ∈ [r], s.settles p = false := by
    simpa using hleft p
  have hreq {p} (hp : p ∈ d'.pending) {n} (hn : n ∈ p.attributes) : d'.required.isRequired n :=
    y.covers.isRequired_of_pending hp n hn
  -- A leaf without tuples is dropped. Then it has lost all its names, because none is required.
  unfold keepLeaf
  cases hnar.tuples (Plan.withoutProjection_of_stack htop) hpop.tuples
  case inl ht =>
    rw [if_neg ht.ne']
    refine Run.meets_pure {
      tuples  := by simpa using ht
      within  := by simpa using fun n hn => (hhas n).symm.trans (hnar.has_of_has hn)
      pending := hpending
      present := fun p hp n hn s hs hsn => ?_
    }
    obtain rfl := List.mem_singleton.mp hs
    exact ⟨q, List.mem_singleton_self q, hnar.has (hreq hp hn) ((hhas n).trans hsn)⟩
  case inr ht =>
    have ⟨ht, hu⟩ := ht
    rw [if_pos ht]
    refine Run.meets_report_bind <| Run.meets_pure {
      tuples  := nofun
      within  := nofun
      pending := hpending
      present := fun p hp n hn s hs hsn => ?_
    }
    obtain rfl := List.mem_singleton.mp hs
    exact absurd (hreq hp hn) (hu n ((hhas n).trans hsn))

theorem products_sift {tree : Plan ν} (ht : tree.IsProducts)
    (hs : ∀ r ∈ tree.scans, r.statistics.Populated) (hc : d.Covers kept) :
    Meets (fun _ => True) (ofPlan options tree).leaves d (Sifted tree.scans d) := by
  induction tree generalizing d
  case scan r => exact scan_sifts (hs r (List.mem_singleton_self r)) hc
  case product l r hl hr =>
    have ⟨hsl, hsr⟩ := List.forall_mem_append.mp hs
    have hy : Meets (fun _ => True) (ofPlan options l).leaves d _ :=
      (ofPlan_takes .free l (fun _ _ => trivial) nofun nofun hc rfl).leaves
    refine ((hl ht.left hsl hc).and hy).bind fun _ _ ⟨h, y, _⟩ => ?_
    exact (hr ht.right hsr y.covers).bind fun _ _ h' => Run.meets_pure (h.append h')
  all_goals exact ht.elim

end Reshaping

namespace Components

theorem forall_provides_eq_false_iff :
    (∀ h ∈ List.range qs.length, (ofLeaves qs).provides n h = false) ↔
      ∀ q ∈ qs, q.output.has n = false := by
  simp only [← Bool.not_eq_true, provides_ofLeaves, not_exists, not_and, List.mem_range]
  constructor
  · intro h q hq
    have ⟨i, hi, he⟩ := List.getElem_of_mem hq
    exact h i hi q (List.getElem?_eq_some_iff.mpr ⟨hi, he⟩)
  · exact fun h i _ q hq => h q (List.mem_of_getElem? hq)

theorem pairFor?_isNone {p : JoinPredicate} (hp : p.isSameName = false) :
    ((ofLeaves qs).pairFor? (List.range qs.length) p).isNone ↔
      ∃ n ∈ p.attributes, ∀ q ∈ qs, q.output.has n = false := by
  rw [Option.isNone_iff_eq_none, pairFor?_eq_none_iff, Unpaired, if_neg (by simp [hp]),
    forall_provides_eq_false_iff, forall_provides_eq_false_iff]
  simp [JoinPredicate.attributes]

end Components

open Components

theorem joinOrder_unmatched {root : Operator} (ht : ∀ q ∈ qs, 0 < q.tupleCount)
    (hv : ∀ p ∈ d.selects, ∀ q ∈ qs, q.output.has p.name = false)
    (hj : ∀ p ∈ d.joins, Undecided qs p) :
    Meets (fun _ => True) (joinOrder options root qs) d fun _ d' => ∀ p,
      p ∈ d'.unmatched ↔ p ∈ d.unmatched ∧ ∃ n ∈ p.attributes, ∀ q ∈ qs, q.output.has n = false := by
  by_cases hn : qs = []
  case pos =>
    subst hn
    refine Run.meets_report_bind <| Run.meets_pure fun p => (and_iff_left ?_).symm
    exact (List.exists_mem_of_ne_nil _ p.attributes_ne_nil).imp fun _ hn => ⟨hn, nofun⟩
  case neg =>
    rw [joinOrder_eq options root hn]
    refine (opening_of_undecided hj (filter_hasTuples_ofLeaves ht)).bind ?_
    rintro _ d₁ ⟨rfl, hd₁⟩
    -- The search itself only releases what was claimed.
    refine (Keeps.meets (E := fun _ => True) (f := Demand.unmatched) ?_ d₁).mono fun _ d' hd' p => ?_
    case refine_1 =>
      dsimp only
      split
      case h_1 => exact .pure _
      case h_2 => exact plan_keeps _ _
      case h_3 =>
        exact reduce_keeps (fun d p => d.unmatched_releaseAll p.attributes) (fun _ _ => trivial) options _ _ _ _
    rw [hd', hd₁, Demand.mem_unmatched, Demand.mem_unmatched]
    cases p
    case value p =>
      simp only [Demand.mem_pending_value, Predicate.attributes, List.mem_singleton, exists_eq_left]
      exact ⟨fun h => ⟨h, hv p h.left⟩, And.left⟩
    case join p =>
      simp only [Demand.mem_pending_join, List.mem_filter, Predicate.attributes, Predicate.isSameName]
      constructor
      · rintro ⟨⟨hp, hn⟩, hs⟩
        exact ⟨⟨hp, hs⟩, (pairFor?_isNone hs).mp hn⟩
      · rintro ⟨⟨hp, hs⟩, hn⟩
        exact ⟨⟨hp, (pairFor?_isNone hs).mpr hn⟩, hs⟩

namespace Sifted

theorem not_has_value {p : ValuePredicate} (h : Sifted rs d qs d') (hp : p ∈ d'.selects) :
    ∀ q ∈ qs, q.output.has p.name = false := by
  intro q hq
  have ⟨r, hr, hn⟩ := h.within q hq
  have := ((h.pending (.value p)).mp (Demand.mem_pending_value.mpr hp)).right r hr
  by_contra hq
  simp [NamedRelation.settles, hn p.name (by simpa using hq)] at this

theorem undecided {p : JoinPredicate} (h : Sifted rs d qs d') (hp : p ∈ d'.joins) :
    Undecided qs p := by
  refine or_iff_not_imp_left.mpr fun hs q hq ⟨hl, hr⟩ => ?_
  have ⟨r, hm, hn⟩ := h.within q hq
  have := ((h.pending (.join p)).mp (Demand.mem_pending_join.mpr hp)).right r hm
  simp [NamedRelation.settles, NamedRelation.decides, hs, hn _ hl, hn _ hr] at this

theorem unresolved_iff (h : Sifted rs d qs d') :
    (p ∈ d'.unmatched ∧ ∃ n ∈ p.attributes, ∀ q ∈ qs, q.output.has n = false) ↔
      p ∈ d.pending ∧ p.Unresolved rs := by
  rw [Demand.mem_unmatched]
  constructor
  · intro ⟨⟨hp, hs⟩, n, hn, hq⟩
    refine ⟨((h.pending p).mp hp).left, hs, n, hn, fun r hr => ?_⟩
    by_contra hrn
    have ⟨q, hm, hqn⟩ := h.present p hp n hn r hr (by simpa using hrn)
    simp [hq q hm] at hqn
  · intro ⟨hp, hs, n, hn, hr⟩
    have hsettles (r) (hm : r ∈ rs) : r.settles p = false :=
      (NamedRelation.settles_eq_false_iff hs).mpr ⟨n, hn, hr r hm⟩
    refine ⟨⟨(h.pending p).mpr ⟨hp, hsettles⟩, hs⟩, n, hn, fun q hm => ?_⟩
    have ⟨r, hrm, hq⟩ := h.within q hm
    by_contra hqn
    have := hq n (by simpa using hqn)
    simp [hr r hrm] at this

end Sifted

theorem products_unmatched {tree : Plan ν} (ht : tree.IsProducts)
    (hs : ∀ r ∈ tree.scans, r.statistics.Populated) (hc : d.Covers kept) :
    Meets (fun _ => True) (Reshaping.ofPlan options tree).plan d fun _ d' => ∀ p,
      p ∈ d'.unmatched ↔ p ∈ d.pending ∧ p.Unresolved tree.scans := by
  cases tree
  case scan r =>
    refine (placeScan_pending r d).mono fun _ d' h p => ?_
    rw [Demand.mem_unmatched, h, and_assoc, and_comm (a := r.settles p = false)]
    refine and_congr_right fun _ => and_congr_right fun hs => ?_
    simp [NamedRelation.settles_eq_false_iff hs, Plan.scans]
  case product n l r =>
    have h : Meets (fun _ => True) (Reshaping.ofPlan options (.product n l r)).leaves d _ :=
      Reshaping.products_sift ht hs hc
    refine h.bind fun qs d' h => ?_
    refine (joinOrder_unmatched h.tuples (fun p => h.not_has_value) fun p => h.undecided).mono ?_
    exact fun _ d'' hd p => (hd p).trans h.unresolved_iff
  all_goals exact ht.elim

end QueryPlanner
