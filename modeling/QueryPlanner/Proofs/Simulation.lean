import QueryPlanner.Optimise.Run
import QueryPlanner.Proofs.Demand
import QueryPlanner.Proofs.Narrow
import QueryPlanner.Proofs.Numbering

namespace QueryPlanner

open Unlimited

variable {exact : Prop} {modes : Bool → Bool → Prop} {kept : Multiset String}
variable {same : (String → Bool) → Plan Relation → Plan Relation → Prop}

structure Demand.Alike (exact : Prop) (modes : Bool → Bool → Prop) (d e : Demand) : Prop where
  selects   : Shuffled exact ValuePredicate.unnumbered d.selects e.selects
  joins     : Shuffled exact JoinPredicate.unnumbered d.joins e.joins
  counts    : ∀ n, e.required.count n = d.required.count n
  narrowing : modes d.narrowing e.narrowing

theorem Demand.selects_deferAll (d : Demand) (ps : List Predicate) :
    (d.deferAll ps).selects = d.selects ++ ps.filterMap Predicate.value? := by
  induction ps generalizing d
  case nil => exact (List.append_nil _).symm
  case cons p ps hi =>
    rw [deferAll, List.foldl_cons, ← deferAll, hi]
    cases p
    case value p => exact List.append_assoc ..
    case join p  => rw [defer, deferJoin, requireAll_eq]; rfl

theorem Demand.joins_deferAll (d : Demand) (ps : List Predicate) :
    (d.deferAll ps).joins = d.joins ++ ps.filterMap Predicate.join? := by
  induction ps generalizing d
  case nil => exact (List.append_nil _).symm
  case cons p ps hi =>
    rw [deferAll, List.foldl_cons, ← deferAll, hi]
    cases p
    case value p => rfl
    case join p  => exact List.append_assoc ..

namespace Demand.Alike

variable {d e : Demand}

theorem refl (hm : modes d.narrowing d.narrowing) : d.Alike exact modes d :=
  ⟨.refl _, .refl _, fun _ => rfl, hm⟩

theorem trans {f : Demand} (h : d.Alike exact Eq e) (h' : e.Alike exact Eq f) :
    d.Alike exact Eq f :=
  ⟨h.selects.trans h'.selects, h.joins.trans h'.joins, fun n => (h'.counts n).trans (h.counts n),
    h.narrowing.trans h'.narrowing⟩

theorem symm (h : d.Alike False Eq e) : e.Alike False Eq d :=
  ⟨⟨h.selects.left.symm, nofun⟩, ⟨h.joins.left.symm, nofun⟩, fun n => (h.counts n).symm,
    h.narrowing.symm⟩

theorem pending_unnumbered (h : d.Alike exact modes e) :
    e.pending.map Predicate.unnumbered = d.pending.map Predicate.unnumbered := by
  have hs := h.selects.left.map Predicate.value
  have hj := h.joins.left.map Predicate.join
  rw [List.map_map, List.map_map] at hs hj
  simp only [pending, Multiset.map_add, Multiset.map_coe, List.map_map]
  exact congrArg₂ (· + ·) (Multiset.coe_eq_coe.mpr hs) (Multiset.coe_eq_coe.mpr hj)

theorem exists_pending {p : Predicate} (h : d.Alike exact modes e) (hp : p ∈ e.pending) :
    ∃ q ∈ d.pending, q.unnumbered = p.unnumbered :=
  Multiset.mem_map.mp (h.pending_unnumbered ▸ Multiset.mem_map_of_mem _ hp)

theorem covers (h : d.Alike exact modes e) (hc : e.Covers kept) : d.Covers kept := by
  have mentions_unnumbered (ps : Multiset Predicate) :
      Predicate.mentions (ps.map Predicate.unnumbered) = Predicate.mentions ps := by
    simp [Predicate.mentions, Multiset.bind_map]
  intro n
  have := hc n
  rwa [h.counts, ← mentions_unnumbered, h.pending_unnumbered, mentions_unnumbered] at this

theorem isRequired (h : d.Alike exact modes e) (n : String) :
    e.required.isRequired n = d.required.isRequired n := by
  rw [Requirements.isRequired, h.counts, Requirements.isRequired]

theorem presentIn (h : d.Alike exact modes e) (r : Relation) :
    e.required.presentIn r = d.required.presentIn r := by
  rw [Requirements.presentIn, funext fun a : Attribute => h.isRequired a.name, Requirements.presentIn]

theorem requireAll (h : d.Alike exact modes e) (names : List String) :
    (d.requireAll names).Alike exact modes (e.requireAll names) := by
  refine ⟨?_, ?_, fun n => by rw [count_requireAll, count_requireAll, h.counts], ?_⟩
  all_goals rw [requireAll_eq, requireAll_eq]
  · exact h.selects
  · exact h.joins
  · exact h.narrowing

theorem releaseAll (h : d.Alike exact modes e) (names : List String) :
    (d.releaseAll names).Alike exact modes (e.releaseAll names) := by
  refine ⟨?_, ?_, fun n => by rw [count_releaseAll, count_releaseAll, h.counts], ?_⟩
  all_goals rw [releaseAll_eq, releaseAll_eq]
  · exact h.selects
  · exact h.joins
  · exact h.narrowing

theorem deferJoin {p q : JoinPredicate} (h : d.Alike exact modes e)
    (hp : Agree exact JoinPredicate.unnumbered p q) :
    (d.deferJoin p).Alike exact modes (e.deferJoin q) where
  selects   := by simpa only [Demand.deferJoin, requireAll_eq] using h.selects
  joins     := h.joins.append (.of_agree hp)
  counts n  := by
    have ⟨hl, hr⟩ := JoinPredicate.unnumbered_eq_iff.mp hp.left
    have ha : q.attributes = p.attributes := by simp [JoinPredicate.attributes, hl, hr]
    exact (congrArg (fun ns => (e.requireAll ns).required.count n) ha).trans
      ((h.requireAll p.attributes).counts n)
  narrowing := by simpa only [Demand.deferJoin, requireAll_eq] using h.narrowing

theorem deferAll {ps qs : List Predicate} (h : d.Alike exact modes e)
    (hp : Shuffled exact Predicate.unnumbered ps qs) :
    (d.deferAll ps).Alike exact modes (e.deferAll qs) where
  selects   := by
    rw [selects_deferAll, selects_deferAll]
    refine h.selects.append (hp.filterMap Predicate.value? ?_ ?_ fun _ _ _ => rfl)
    all_goals exact fun p _ => by cases p <;> rfl
  joins     := by
    rw [joins_deferAll, joins_deferAll]
    refine h.joins.append (hp.filterMap Predicate.join? ?_ ?_ fun _ _ _ => rfl)
    all_goals exact fun p _ => by cases p <;> rfl
  counts n  := by
    have attributes (ps : List Predicate) :
        (ps.map Predicate.unnumbered).flatMap Predicate.attributes = ps.flatMap Predicate.attributes := by
      simp [List.flatMap_map]
    have hn := (hp.left.flatMap_right Predicate.attributes).count_eq n
    rw [attributes, attributes] at hn
    rw [count_deferAll, count_deferAll, h.counts, hn]
  narrowing := by
    rw [narrowing_deferAll, narrowing_deferAll]
    exact h.narrowing

theorem placeJoin {p q : JoinPredicate} {d' e' : Demand} (h : d.Alike exact modes e)
    (hp : Agree exact JoinPredicate.unnumbered p q) (hd : d.placeJoin p = .ok d')
    (he : e.placeJoin q = .ok e') :
    d'.Alike exact modes e' ∧ ∀ n, d'.required.isRequired n → d.required.isRequired n := by
  have hpd := mem_of_placeJoin hd
  have hqe := mem_of_placeJoin he
  obtain rfl := Except.ok.inj ((placeJoin_of_mem hpd).symm.trans hd)
  obtain rfl := Except.ok.inj ((placeJoin_of_mem hqe).symm.trans he)
  obtain ⟨hl, hr⟩ := JoinPredicate.unnumbered_eq_iff.mp hp.left
  have hq : q.attributes = p.attributes := by simp [JoinPredicate.attributes, hl, hr]
  have h' : Demand.Alike exact modes { d with joins := d.joins.erase p }
      { e with joins := e.joins.erase q } := { h with joins := h.joins.erase hp hpd hqe }
  exact ⟨hq ▸ h'.releaseAll p.attributes, fun _ hn => (isRequired_of_releaseAll hn :)⟩

theorem placeSelect {p q : ValuePredicate} {d' e' : Demand} (h : d.Alike exact modes e)
    (hp : Agree exact ValuePredicate.unnumbered p q) (hd : d.placeSelect p = .ok d')
    (he : e.placeSelect q = .ok e') :
    d'.Alike exact modes e' ∧ ∀ n, d'.required.isRequired n → d.required.isRequired n := by
  have hpd := mem_of_placeSelect hd
  have hqe := mem_of_placeSelect he
  obtain rfl := Except.ok.inj ((placeSelect_of_mem hpd).symm.trans hd)
  obtain rfl := Except.ok.inj ((placeSelect_of_mem hqe).symm.trans he)
  obtain ⟨hq, _⟩ := ValuePredicate.unnumbered_eq_iff.mp hp.left
  have h' : Demand.Alike exact modes { d with selects := d.selects.erase p }
      { e with selects := e.selects.erase q } := { h with selects := h.selects.erase hp hpd hqe }
  exact ⟨hq ▸ h'.releaseAll [p.name], fun _ hn => (isRequired_of_releaseAll hn :)⟩

theorem sorted_selects (h : d.Alike exact modes e) (hd : exact ∨ ∀ p ∈ d.pending, p.Legible) :
    Agree exact (List.map ValuePredicate.unnumbered)
      (sortByText ValuePredicate.text d.selects) (sortByText ValuePredicate.text e.selects) :=
  h.selects.sortByText ValuePredicate.text ValuePredicate.text (fun _ => rfl) <|
    hd.imp_right fun hd _ hp _ hq =>
      Predicate.value_eq_of_text (hd _ (mem_pending_value.mpr hp)) (hd _ (mem_pending_value.mpr hq))

theorem sorted_joins (h : d.Alike exact modes e) (hd : exact ∨ ∀ p ∈ d.pending, p.Legible) :
    Agree exact (List.map JoinPredicate.unnumbered)
      (sortByText JoinPredicate.text d.joins) (sortByText JoinPredicate.text e.joins) :=
  h.joins.sortByText JoinPredicate.text JoinPredicate.text (fun _ => rfl) <|
    hd.imp_right fun hd _ hp _ hq =>
      Predicate.join_eq_of_text (hd _ (mem_pending_join.mpr hp)) (hd _ (mem_pending_join.mpr hq))

theorem unmatched_eq_nil_iff (h : d.Alike exact modes e) : e.unmatched = [] ↔ d.unmatched = [] := by
  have hs := h.selects.length
  have hj := (h.joins.filter (P := fun p => !p.isSameName) (Q := fun p => !p.isSameName)
    (fun p => !p.isSameName) (fun _ _ => rfl) (fun _ _ => rfl) (fun _ _ _ => rfl)).length
  rw [unmatched, unmatched, ← List.length_eq_zero_iff, ← List.length_eq_zero_iff]
  simp only [List.length_append, List.length_map, hs, hj]

end Demand.Alike

-- A relation between the plans of two runs, for attributes that are still required, that every step
-- of the optimiser keeps.
structure Simulation (exact : Prop) (modes : Bool → Bool → Prop) (kept : Multiset String)
    (same : (String → Bool) → Plan Relation → Plan Relation → Prop) : Prop where
  mono        : ∀ {N N' p q}, (∀ n, N' n → N n) → same N p q → same N' p q
  has         : ∀ {N p q n}, same N p q → N n → q.output.has n = p.output.has n
  placeholder : ∀ {N p q}, same N p q → q.isPlaceholder = p.isPlaceholder
  empty       : ∀ {N p q}, same N p q → (q.tupleCount = 0 ↔ p.tupleCount = 0)
  product     : ∀ {N l l' r r'}, same N l l' → same N r r' →
    same N (.multiplying l r) (.multiplying l' r')
  select      : ∀ {N p q p' q' s t}, same N p q → Agree exact Predicate.unnumbered s t →
    (∀ n ∈ s.attributes, N n) → Plan.selecting s p = .ok p' → Plan.selecting t q = .ok q' →
    same N p' q'
  join        : ∀ {N l l' r r' p q s t}, same N l l' → same N r r' →
    Agree exact JoinPredicate.unnumbered s t → (∀ n ∈ s.attributes, N n) →
    Plan.joining s l r = .ok p → Plan.joining t l' r' = .ok q → same N p q
  narrow      : ∀ {d e : Demand} {p q}, d.Alike exact modes e → d.Covers kept →
    same d.required.isRequired p q → same d.required.isRequired (d.narrowed p) (e.narrowed q)

-- What makes two searches choose alike:
-- (1) Their candidates are the same ones in the same order, or the order does not matter.
-- (2) If candidates are chosen by what they cost then plans that correspond to each other cost the same.
structure Guided (exact : Prop) (options : Options)
    (same : (String → Bool) → Plan Relation → Plan Relation → Prop) : Prop where
  queued : exact ∨ options.reorderJoins
  priced : options.reorderJoins → ∀ {N p q}, same N p q → q.tupleCount = p.tupleCount

section Steps

open Run (Match)

variable {d e : Demand} {plan plan' : Plan Relation} (S : Simulation exact modes kept same)
include S

theorem selecting_match {p q : Predicate} (hp : Agree exact Predicate.unnumbered p q)
    (hn : ∀ n ∈ p.attributes, d.required.isRequired n) (hs : same d.required.isRequired plan plan') :
    Match (Run.ofEstimate (Plan.selecting p plan)) (Run.ofEstimate (Plan.selecting q plan')) d e
      fun r d₁ r' e₁ => d = d₁ ∧ e = e₁ ∧ same d.required.isRequired r r' :=
  Run.match_ofEstimate fun _ _ hr hr' => ⟨rfl, rfl, S.select hs hp hn hr hr'⟩

theorem place_match {p q : Predicate} {f g : Demand → Except NotPending Demand}
    (hp : Agree exact Predicate.unnumbered p q) (hn : ∀ n ∈ p.attributes, d.required.isRequired n)
    (hs : same d.required.isRequired plan plan')
    (hf : ∀ d₁ e₁, f d = .ok d₁ → g e = .ok e₁ → d₁.Alike exact modes e₁ ∧
      ∀ n, d₁.required.isRequired n → d.required.isRequired n) :
    Match (do let r ← Run.ofEstimate (Plan.selecting p plan); Run.place f; return r)
      (do let r ← Run.ofEstimate (Plan.selecting q plan'); Run.place g; return r) d e
      fun r d₁ r' e₁ => d₁.Alike exact modes e₁ ∧
        (∀ n, d₁.required.isRequired n → d.required.isRequired n) ∧
          same d.required.isRequired r r' := by
  refine (selecting_match S hp hn hs).bind ?_
  rintro r _ r' _ ⟨rfl, rfl, hs⟩
  refine (Run.match_place (R := fun _ d₁ _ e₁ => d₁.Alike exact modes e₁ ∧
    ∀ n, d₁.required.isRequired n → d.required.isRequired n) hf).bind ?_
  rintro _ _ _ _ ⟨ha, hn⟩
  exact Run.match_pure ⟨ha, hn, hs⟩

theorem selectJoin_match {p q : JoinPredicate} (ha : d.Alike exact modes e)
    (hp : Agree exact JoinPredicate.unnumbered p q) (hn : ∀ n ∈ p.attributes, d.required.isRequired n)
    (hs : same d.required.isRequired plan plan') :
    Match (selectJoin p plan) (selectJoin q plan') d e fun r d₁ r' e₁ =>
      d₁.Alike exact modes e₁ ∧ (∀ n, d₁.required.isRequired n → d.required.isRequired n) ∧
        same d.required.isRequired r r' :=
  place_match S (hp.map (k := Predicate.join) fun _ => rfl) hn hs fun _ _ => ha.placeJoin hp

theorem selectValue_match {p q : ValuePredicate} (ha : d.Alike exact modes e)
    (hp : Agree exact ValuePredicate.unnumbered p q) (hn : d.required.isRequired p.name)
    (hs : same d.required.isRequired plan plan') :
    Match (selectValue p plan) (selectValue q plan') d e fun r d₁ r' e₁ =>
      d₁.Alike exact modes e₁ ∧ (∀ n, d₁.required.isRequired n → d.required.isRequired n) ∧
        same d.required.isRequired r r' :=
  place_match S (hp.map (k := Predicate.value) fun _ => rfl) (List.forall_mem_singleton.mpr hn) hs
    fun _ _ => ha.placeSelect hp

theorem narrow_match (ha : d.Alike exact modes e) (hc : d.Covers kept)
    (hs : same d.required.isRequired plan plan') :
    Match (narrow plan) (narrow plan') d e fun r d₁ r' e₁ =>
      d = d₁ ∧ e = e₁ ∧ same d.required.isRequired r r' := by
  refine Match.of_meets (narrow_result (F := fun _ => True) plan d)
    (narrow_result (F := fun _ => True) plan' e) ?_
  rintro _ _ _ _ ⟨rfl, rfl⟩ ⟨rfl, rfl⟩
  exact ⟨rfl, rfl, S.narrow ha hc hs⟩

end Steps
end QueryPlanner
