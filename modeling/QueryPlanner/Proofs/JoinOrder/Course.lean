import QueryPlanner.Proofs.JoinOrder.ParallelLeaves
import QueryPlanner.Proofs.JoinOrder.Sound

namespace QueryPlanner

open Run (Meets)
open Unlimited

def Failure.IsNegative (e : Failure) : Prop :=
  ∃ n, e = .negativeTupleCount n

namespace Components

variable {F : Failure → Prop} {c : Components} {k : Candidate} {d : Demand} {plan : Plan Relation}
variable {options : Options}

theorem build_total (hs : ∀ h ∈ k.sides, ∃ plan, c.StandsFor h plan)
    (hF : k.predicate ≠ none → ∀ n, F (.negativeTupleCount n)) :
    Meets F (c.build k) d fun _ d' => d' = d := by
  obtain ⟨l, hl⟩ := hs k.left k.left_mem_sides
  obtain ⟨r, hr⟩ := hs k.right k.right_mem_sides
  unfold build
  rw [hl.plan_eq, hr.plan_eq, pure_bind, pure_bind]
  cases hp : k.predicate
  case none   => exact Run.meets_pure rfl
  case some p => exact Run.meets_ofEstimate (fun _ _ => rfl) fun e _ => hF (by simp [hp]) e.count

theorem cost_total (hs : ∀ h ∈ k.sides, ∃ plan, c.StandsFor h plan)
    (hF : k.predicate ≠ none → ∀ n, F (.negativeTupleCount n)) :
    Meets F (c.cost k) d fun _ d' => d' = d :=
  (build_total hs hF).bind fun _ _ hd => Run.meets_report_bind (Run.meets_pure hd)

theorem cheapest_total {first : Candidate} {rest : List Candidate}
    (hs : ∀ k ∈ first :: rest, ∀ h ∈ k.sides, ∃ plan, c.StandsFor h plan)
    (hF : ∀ k ∈ first :: rest, k.predicate ≠ none → ∀ n, F (.negativeTupleCount n)) :
    Meets F (c.cheapest options first rest) d fun _ d' => d' = d := by
  obtain ⟨hsf, hs⟩ := List.forall_mem_cons.mp hs
  obtain ⟨hFf, hF⟩ := List.forall_mem_cons.mp hF
  refine (cost_total hsf hFf).bind fun best d' hd => ?_
  split
  case isFalse => exact Run.meets_pure hd
  case isTrue  =>
    refine (Run.meets_foldlM (I := fun ks _ d' => ks ⊆ rest ∧ d' = d) ?_ rest best d'
      ⟨List.Subset.refl _, hd⟩).mono fun _ _ h => h.right
    rintro k ks best d' ⟨hk, rfl⟩
    have hm := hk (List.mem_cons_self ..)
    refine (cost_total (hs k hm) (hF k hm)).bind fun _ _ hd => Run.meets_pure ?_
    exact ⟨List.subset_of_cons_subset hk, hd⟩

theorem finish_total {leaves : List Handle} (hl : ∀ h ∈ c.live leaves, ∃ plan, c.StandsFor h plan)
    (hone : (c.live leaves).length ≤ 1) :
    Meets F (c.finish leaves) d fun q d' => d' = d ∧
      (∀ h ∈ c.live leaves, c.StandsFor h q) ∧ (c.live leaves = [] → q.isPlaceholder) := by
  unfold finish
  split
  case h_1 hn => exact Run.meets_pure ⟨rfl, by simp [hn], fun _ => rfl⟩
  case h_2 h hs hh =>
    obtain ⟨plan, hp⟩ := hl h (hh ▸ List.mem_cons_self ..)
    have hs : hs = [] := by simpa [hh] using hone
    rw [hp.plan_eq]
    exact Run.meets_pure ⟨rfl, by simpa [hh, hs] using hp, by simp [hh]⟩

end Components

namespace Moment

open Components

variable {options : Options} {leaves : List Handle} {m m' : Moment} {e : Failure}

namespace Sound

theorem next_failure {F : Failure → Prop} (s : m.Sound leaves)
    (hdue : m.due ≠ [] → ∀ n, F (.negativeTupleCount n))
    (hjoin : ∀ k ∈ m.candidates, k.predicate ≠ none → ∀ n, F (.negativeTupleCount n))
    (h : m.next options leaves = .error e) : F e := by
  cases m.turn leaves
  case select hd =>
    have hp := s.orderly.standsFor (s.dues _ (hd ▸ List.mem_cons_self ..))
    exact (takes_select hd).failure
      (selectWithin_takeOver (.inl hp) fun _ e _ _ => hdue (by simp [hd]) e.count) h
  case settle hd hu     => cases (next_settle hd hu).symm.trans h
  case connect hd hk hp => cases (next_connect hd hk hp).symm.trans h
  case combine first rest hd ho hk =>
    have hs : ∀ k ∈ first :: rest, ∀ h ∈ k.sides, ∃ plan, m.components.StandsFor h plan :=
      fun k hm x hx => s.orderly.standsFor (s.sides k (hk ▸ hm) x hx)
    have hc : Meets F (m.components.combine options first rest) m.demand fun _ _ => True :=
      (cheapest_total hs (hk ▸ hjoin)).bind fun _ _ _ =>
        (materialise_takeOver ..).bind fun _ _ _ => Run.meets_pure trivial
    exact (takes_combine hd ho hk).failure hc h
  case last hd hk hp => cases (next_last hd hk hp).symm.trans h

theorem next_isNegative (s : m.Sound leaves) (h : m.next options leaves = .error e) : e.IsNegative :=
  s.next_failure (fun _ n => ⟨n, rfl⟩) (fun _ _ _ n => ⟨n, rfl⟩) h

end Sound

def Ready (m : Moment) : Prop :=
  m.due = [] ∧ m.candidates ≠ [] ∧ ∀ k ∈ m.candidates, m.components.isOutstanding k

instance (m : Moment) : Decidable m.Ready :=
  inferInstanceAs (Decidable (_ ∧ _ ∧ _))

-- Each step takes away a component, comes to combining two of them, or works off what is listed.
def weight (leaves : List Handle) (m : Moment) : Nat ×ₗ Nat ×ₗ Nat :=
  toLex ((m.components.roots leaves).card,
    toLex (if m.Ready then 0 else 1, 2 * m.candidates.length + m.due.length))

theorem weight_lt_of_card_lt (h : (m'.components.roots leaves).card < (m.components.roots leaves).card) :
    m'.weight leaves < m.weight leaves :=
  Prod.Lex.toLex_lt_toLex.mpr (.inl h)

theorem weight_lt_of_ready (h : (m'.components.roots leaves).card = (m.components.roots leaves).card)
    (hm : ¬m.Ready) (hm' : m'.Ready) : m'.weight leaves < m.weight leaves := by
  refine Prod.Lex.toLex_lt_toLex.mpr (.inr ⟨h, Prod.Lex.toLex_lt_toLex.mpr (.inl ?_)⟩)
  simp [hm, hm']

theorem weight_lt_of_listed (h : (m'.components.roots leaves).card = (m.components.roots leaves).card)
    (hm : ¬m.Ready) (hl : 2 * m'.candidates.length + m'.due.length <
      2 * m.candidates.length + m.due.length) : m'.weight leaves < m.weight leaves := by
  by_cases hm' : m'.Ready
  case pos => exact weight_lt_of_ready h hm hm'
  case neg =>
    refine Prod.Lex.toLex_lt_toLex.mpr (.inr ⟨h, Prod.Lex.toLex_lt_toLex.mpr (.inr ⟨?_, hl⟩)⟩)
    simp [hm, hm']

-- A candidate that is dropped makes room for the predicate that is due in its place.
theorem length_settled (hu : ∃ k ∈ m.candidates, m.components.isOutstanding k = false) :
    2 * m.settled.candidates.length + m.settled.due.length < 2 * m.candidates.length := by
  have hout : (m.candidates.filter m.components.isOutstanding).length < m.candidates.length :=
    List.length_filter_lt_length_iff_exists.mpr <| by simpa using hu
  have hdue : (m.candidates.filterMap m.components.collapsed?).length ≤
      (m.candidates.filter fun k => !m.components.isOutstanding k).length := by
    rw [List.length_filterMap_eq_countP, ← List.countP_eq_length_filter]
    refine List.countP_mono_left fun k _ hk => ?_
    obtain ⟨kp, hkp⟩ := Option.isSome_iff_exists.mp hk
    obtain ⟨_, ho, _⟩ := collapsed?_eq_some_iff.mp hkp
    simp [isOutstanding, ho]
  have hsum := List.length_eq_length_filter_add m.components.isOutstanding (l := m.candidates)
  have hsort := (sortByText_perm (·.2.text) (m.candidates.filterMap m.components.collapsed?)).length_eq
  unfold settled
  dsimp only
  omega

theorem Sound.weight_lt (s : m.Sound leaves) (h : m.Step options leaves m') :
    m'.weight leaves < m.weight leaves := by
  have hc := s.counted
  have hc' := (s.step h).counted
  cases h
  case select hd hp hq =>
    refine weight_lt_of_listed (by dsimp only at hc' ⊢; omega) (fun hr => ?_) ?_
    · exact List.cons_ne_nil _ _ (hd.symm.trans hr.left)
    · simp [hd]
  case settle hd hu =>
    refine weight_lt_of_listed rfl (fun hr => ?_) ?_
    · obtain ⟨k, hk, ho⟩ := hu
      exact Bool.noConfusion (ho.symm.trans (hr.right.right k hk))
    · simpa [hd] using length_settled hu
  case connect hd hk hp =>
    refine weight_lt_of_ready rfl (fun hr => hr.right.left hk) ⟨hd, hp, ?_⟩
    exact fun k hk => s.orderly.formed.isOutstanding_pairs hk
  case combine best plan hd ho hch =>
    refine weight_lt_of_card_lt ?_
    rw [List.length_append, List.length_singleton] at hc'
    dsimp only at hc' ⊢
    omega

theorem Sound.acc (s : m.Sound leaves) :
    Acc (fun m' m : Moment => m.next options leaves = .ok (some m')) m := by
  induction m using (InvImage.wf (weight leaves) wellFounded_lt).induction
  case h m hi =>
    exact ⟨_, fun m' hn => hi m' (s.weight_lt (next_step hn)) (s.step (next_step hn))⟩

end Moment
end QueryPlanner
