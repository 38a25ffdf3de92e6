import QueryPlanner.Proofs.View

namespace QueryPlanner

open Run (Match Meets)
open Unlimited

namespace Relation

variable {r s : Relation}

theorem select_unnumbered (p : Predicate) : r.select p.unnumbered = r.select p := by
  cases p <;> rfl

theorem join_unnumbered (p : JoinPredicate) : r.join s p.unnumbered = r.join s p :=
  rfl

end Relation

namespace Plan

variable {ν μ : Type}

def unnumbered : Plan ν → Plan ν
  | scan n r      => scan n r
  | select n p i  => select n p.unnumbered i.unnumbered
  | project n as i => project n as i.unnumbered
  | product n l r => product n l.unnumbered r.unnumbered
  | join n p l r  => join n p.unnumbered l.unnumbered r.unnumbered

@[simp]
theorem note_unnumbered (plan : Plan ν) : plan.unnumbered.note = plan.note := by
  cases plan <;> rfl

@[simp]
theorem isPlaceholder_unnumbered (plan : Plan ν) :
    plan.unnumbered.isPlaceholder = plan.isPlaceholder := by
  cases plan <;> rfl

@[simp]
theorem text_unnumbered (plan : Plan ν) : plan.unnumbered.text = plan.text := by
  induction plan
  case scan              => rfl
  case select _ _ _ hi   => simp [unnumbered, text, hi]
  case project _ _ _ hi  => simp [unnumbered, text, hi]
  case product hl hr     => simp [unnumbered, text, hl, hr]
  case join _ _ _ hl hr  => simp [unnumbered, text, hl, hr]

theorem unnumbered_view :
    View False unnumbered Predicate.unnumbered JoinPredicate.unnumbered where
  names p             := by rw [Plan.output, note_unnumbered]
  empty p             := by rw [tupleCount, Plan.output, note_unnumbered]; rfl
  placeholder         := isPlaceholder_unnumbered
  nothing             := rfl
  withoutProjection p := by cases p <;> rfl
  projecting _ p      := by simp [projecting, unnumbered]
  projects _ p        := by cases p <;> simp [operator, unnumbered]
  multiplying l r     := by simp [multiplying, unnumbered]
  selecting h         := by
    obtain ⟨o, ho, rfl⟩ := selecting_eq_ok_iff.mp h
    refine selecting_eq_ok_iff.mpr ⟨o, ?_, rfl⟩
    rwa [Plan.output, note_unnumbered, Relation.select_unnumbered]
  joining h           := by
    obtain ⟨o, ho, rfl⟩ := joining_eq_ok_iff.mp h
    refine joining_eq_ok_iff.mpr ⟨o, ?_, rfl⟩
    rwa [Plan.output, note_unnumbered, Plan.output, note_unnumbered, Relation.join_unnumbered]
  predicates h        := h.left
  joins h             := h.left

-- Two plans that differ in the order of consecutive selections, in the numbers of their predicates
-- and in their notes.
inductive Reordered : Plan ν → Plan μ → Prop
  | scan (n : ν) (m : μ) (r : NamedRelation) : Reordered (.scan n r) (.scan m r)
  | project (n : ν) (m : μ) (names : List String) {i : Plan ν} {i' : Plan μ} :
    Reordered i i' → Reordered (.project n names i) (.project m names i')
  | product (n : ν) (m : μ) {l r : Plan ν} {l' r' : Plan μ} :
    Reordered l l' → Reordered r r' → Reordered (.product n l r) (.product m l' r')
  | join (n : ν) (m : μ) {p p' : JoinPredicate} {l r : Plan ν} {l' r' : Plan μ} :
    p'.unnumbered = p.unnumbered → Reordered l l' → Reordered r r' →
      Reordered (.join n p l r) (.join m p' l' r')
  | selects {ps : List (ν × Predicate)} {ps' : List (μ × Predicate)} {i : Plan ν} {i' : Plan μ} :
    (ps'.map (·.2.unnumbered)).Perm (ps.map (·.2.unnumbered)) → Reordered i i' →
      Reordered (i.selects ps) (i'.selects ps')

namespace Reordered

variable {plan : Plan ν} {plan' : Plan μ}

theorem refl (plan : Plan ν) : Reordered plan plan := by
  induction plan
  case scan               => exact .scan ..
  case select n p i hi    =>
    have hp : ([(n, p)].map (·.2.unnumbered)).Perm ([(n, p)].map (·.2.unnumbered)) := .refl _
    exact .selects hp hi
  case project hi         => exact .project _ _ _ hi
  case product hl hr      => exact .product _ _ hl hr
  case join hl hr         => exact .join _ _ rfl hl hr

theorem scans_eq (h : Reordered plan plan') : plan'.scans = plan.scans := by
  induction h
  case scan               => rfl
  case project hi         => exact hi
  case product hl hr      => exact congrArg₂ (· ++ ·) hl hr
  case join hl hr         => exact congrArg₂ (· ++ ·) hl hr
  case selects hi         => rw [scans_selects, scans_selects, hi]

end Reordered
end Plan

variable {kept : Multiset String} {options : Options} {d e : Demand}
variable {ν μ : Type} {plan : Plan ν} {plan' : Plan μ}

def Renumbered (_ : String → Bool) (p q : Plan Relation) : Prop :=
  q.unnumbered = p.unnumbered

namespace Renumbered

variable {N : String → Bool} {p q : Plan Relation}

theorem output_eq (h : Renumbered N p q) : q.output = p.output := by
  have := congrArg Plan.note h
  rwa [Plan.note_unnumbered, Plan.note_unnumbered] at this

theorem tupleCount_eq (h : Renumbered N p q) : q.tupleCount = p.tupleCount :=
  congrArg Relation.tupleCount h.output_eq

theorem guided (ho : options.reorderJoins) : Guided False options Renumbered where
  queued   := .inr ho
  priced _ := fun h => h.tupleCount_eq

theorem congruent : Congruent False Renumbered :=
  Plan.unnumbered_view.congruent

theorem of_abreast {modes : Bool → Bool → Prop} {e : Demand}
    (h : Abreast False modes Renumbered p d q e) : Renumbered N p q :=
  congruent.of_abreast h

end Renumbered

theorem Plan.Reordered.parallel (h : Reordered plan plan') (ho : options.reorderJoins)
    (hp : ∀ p ∈ plan.predicates, p.Legible) (hd : ∀ p ∈ d.pending, p.Legible) (hc : d.Covers kept)
    (ha : d.Alike False Eq e) :
    (Reshaping.ofPlan options plan).Parallel False Eq Renumbered (Reshaping.ofPlan options plan')
      d e := by
  have C := Renumbered.congruent
  have ho := Renumbered.guided ho
  induction h generalizing d e kept
  case scan n m r => exact C.scan (N := fun _ => true) rfl (.inr hd) hc ha rfl
  case project names i i' _ hi =>
    exact C.projection hc ha fun _ _ ha hc hpending => hi hp (hpending ▸ hd) hc ha
  case product l r l' r' _ _ hl hr =>
    have ⟨hpl, hpr⟩ := List.forall_mem_append.mp hp
    exact C.product ho hc (.inr ⟨hp, hd⟩) (hl hpl hd hc ha) fun _ _ ha hc hd₁ =>
      hr hpr (fun p hm => (hd₁ p hm).elim (hpl p) (hd p)) hc ha
  case join j j' l r l' r' hj _ _ hl hr =>
    have ⟨hj', hp'⟩ := List.forall_mem_cons.mp hp
    have ⟨hpl, hpr⟩ := List.forall_mem_append.mp hp'
    have hd' : ∀ p ∈ (d.defer (.join j)).pending, p.Legible := by
      rw [Demand.pending_defer]
      exact Multiset.forall_mem_cons.mpr ⟨hj', hd⟩
    exact C.join ho hc (.inr ⟨hp, hd⟩) (hl hpl hd' (hc.defer (.join j)) (ha.deferJoin ⟨hj, nofun⟩))
      fun _ _ ha hc hd₁ => hr hpr (fun p hm => (hd₁ p hm).elim (hpl p) (hd' p)) hc ha
  case selects ps ps' i i' hs _ hi =>
    rw [predicates_selects] at hp
    have ⟨hps, hp⟩ := List.forall_mem_append.mp hp
    have hd : ∀ p ∈ (d.deferAll (ps.map (·.2))).pending, p.Legible := by
      rw [Demand.pending_deferAll]
      exact fun p hm => (Multiset.mem_add.mp hm).elim (hps p) (hd p)
    have hsh : Shuffled False Predicate.unnumbered (ps.map (·.2)) (ps'.map (·.2)) := by
      refine ⟨?_, nofun⟩
      rwa [List.map_map, List.map_map]
    have hl : ps'.length = ps.length := by simpa using hs.length_eq
    exact C.selects hl (hi hp hd (hc.deferAll _) (ha.deferAll hsh))

-- The optimised plan does not depend on the order in which selections follow each other. The search
-- has to be free to reorder, and the text of a predicate has to show what its attributes are.
theorem optimise_reordered (ho : options.reorderJoins) (h : plan.Reordered plan')
    (hs : ∀ r ∈ plan.scans, r.statistics.Counts 0) (hp : ∀ p ∈ plan.predicates, p.Legible) :
    ∃ o o', optimise options plan = .ok o ∧ optimise options plan' = .ok o' ∧
      o'.value.text = o.value.text ∧ o'.value.unnumbered = o.value.unnumbered := by
  obtain ⟨r, hr⟩ : ∃ r, reshape options plan {} = .ok r := reshape_returns hs
  obtain ⟨r', hr'⟩ : ∃ r, reshape options plan' {} = .ok r := reshape_returns (h.scans_eq ▸ hs)
  have hm := (h.parallel (d := {}) ho hp (by simp [Demand.pending]) Demand.covers_empty (.refl rfl)).plan
    r r' hr hr'
  obtain ⟨o, o', hok, hok', hv⟩ := optimise_match hr hr' hm.demands
  have heq : o'.value.unnumbered = o.value.unnumbered := by
    cases hv
    case inl hv => rw [hv.left, hv.right]; exact Renumbered.of_abreast (N := fun _ => true) hm
    case inr hv => rw [hv.left, hv.right]
  refine ⟨o, o', hok, hok', ?_, heq⟩
  rw [← Plan.text_unnumbered, heq, Plan.text_unnumbered]

def pairUnder (ps : List Predicate) : Plan Unit :=
  .project () ["b"] <| Plan.selects (ps.map fun p => ((), p)) <| .product ()
    (.scan () { name := "r", statistics := .of 2 [{ name := "a", valueCount := 2 }] })
    (.scan () { name := "s", statistics := .of 3 [{ name := "b", valueCount := 1 }] })

theorem optimise_reordered_pairUnder :
    let plan  := pairUnder
      [.join { occurrence := 0, left := "a", right := "b" },
        .value { occurrence := 1, name := "b", value := "x" }]
    let plan' := pairUnder
      [.value { occurrence := 0, name := "b", value := "x" },
        .join { occurrence := 1, left := "a", right := "b" }]
    (plan.Reordered plan' ∧ (∀ r ∈ plan.scans, r.statistics.Counts 0) ∧
      ∀ p ∈ plan.predicates, p.Legible) ∧
    ∃ o o', optimise {} plan = .ok o ∧ optimise {} plan' = .ok o' ∧
      o'.value.text = o.value.text ∧ o'.value.unnumbered = o.value.unnumbered := by
  intro plan plan'
  have h : plan.Reordered plan' := .project _ _ _ <| .selects (.swap ..) (.refl _)
  have hs : ∀ r ∈ plan.scans, r.statistics.Counts 0 := by decide
  have hp : ∀ p ∈ plan.predicates, p.Legible := by decide
  exact ⟨⟨h, hs, hp⟩, optimise_reordered rfl h hs hp⟩

end QueryPlanner
