import QueryPlanner.Optimise.Reshape
import QueryPlanner.Proofs.Narrow

namespace QueryPlanner

variable {plan q : Plan Relation} {d : Demand} {n : String} {needed needed' : String → Bool}

namespace Plan

def Carries (needed : String → Bool) (q : Plan Relation) : Prop :=
  q.output.names = q.offers.filter needed

-- Where plans are combined each of them carries just what is needed further up, or by a predicate on
-- the way there.
def Minimal (needed : String → Bool) : Plan Relation → Prop
  | scan _ _      => True
  | select _ p i  => i.Minimal fun n => needed n || n ∈ p.attributes
  | project _ _ i => i.Minimal needed
  | product _ l r => (l.Carries needed ∧ r.Carries needed) ∧ l.Minimal needed ∧ r.Minimal needed
  | join _ p l r  =>
    let needed := fun n => needed n || n ∈ p.attributes
    (l.Carries needed ∧ r.Carries needed) ∧ l.Minimal needed ∧ r.Minimal needed

theorem Carries.mem_offers (h : q.Carries needed) (hn : q.output.has n) : n ∈ q.offers := by
  rw [Relation.has_iff, show q.output.names = _ from h] at hn
  exact List.mem_of_mem_filter hn

theorem Carries.congr (h : q.Carries needed) (hn : ∀ n ∈ q.offers, needed n = needed' n) :
    q.Carries needed' :=
  h.trans (List.filter_congr hn)

theorem Minimal.congr (h : q.Minimal needed) (hn : ∀ n ∈ q.offers, needed n = needed' n) :
    q.Minimal needed' := by
  have both {l r : Plan Relation} {p : Plan Relation} (hp : p.offers = l.offers ++ r.offers)
      {needed needed' : String → Bool} (hn : ∀ n ∈ p.offers, needed n = needed' n) :
      (∀ n ∈ l.offers, needed n = needed' n) ∧ ∀ n ∈ r.offers, needed n = needed' n := by
    rw [hp] at hn
    exact List.forall_mem_append.mp hn
  induction q generalizing needed needed'
  case scan       => trivial
  case select hi  => exact hi h fun n hm => by rw [hn n hm]
  case project hi => exact hi h hn
  case product hl hr =>
    obtain ⟨⟨hcl, hcr⟩, hml, hmr⟩ := h
    obtain ⟨hnl, hnr⟩ := both (offers_product ..) hn
    exact ⟨⟨hcl.congr hnl, hcr.congr hnr⟩, hl hml hnl, hr hmr hnr⟩
  case join p _ _ hl hr =>
    obtain ⟨⟨hcl, hcr⟩, hml, hmr⟩ := h
    obtain ⟨hnl, hnr⟩ := both (offers_join ..) hn
    have hnl n hm := congrArg (· || decide (n ∈ p.attributes)) (hnl n hm)
    have hnr n hm := congrArg (· || decide (n ∈ p.attributes)) (hnr n hm)
    exact ⟨⟨hcl.congr hnl, hcr.congr hnr⟩, hl hml hnl, hr hmr hnr⟩

theorem Minimal.withoutProjection (h : q.Minimal needed) : q.withoutProjection.Minimal needed := by
  cases q <;> exact h

theorem Minimal.ensureProjection (h : q.Minimal needed) (names : List String) :
    (ensureProjection names q).Minimal needed := by
  unfold QueryPlanner.ensureProjection
  split
  case h_1 => split <;> exact h
  case h_2 => exact h

structure Pared (needed : String → Bool) (q : Plan Relation) : Prop where
  carries : q.Carries needed
  minimal : q.Minimal needed

theorem Pared.congr (h : q.Pared needed) (hn : ∀ n ∈ q.offers, needed n = needed' n) :
    q.Pared needed' :=
  ⟨h.carries.congr hn, h.minimal.congr hn⟩

theorem pared_nothing : nothing.Pared needed :=
  ⟨rfl, trivial⟩

end Plan

theorem Requirements.firstOccurrences_of_nodup {as : List Attribute}
    (h : (as.map Attribute.name).Nodup) : firstOccurrences as = as := by
  induction as
  case nil          => rfl
  case cons a as hi =>
    obtain ⟨ha, has⟩ := List.nodup_cons.mp h
    rw [firstOccurrences, hi has]
    refine congrArg _ (List.filter_eq_self.mpr fun b hb => ?_)
    simpa using fun he : b.name = a.name => ha (he ▸ List.mem_map_of_mem hb)

theorem Demand.mem_offers_narrowed (h : n ∈ (d.narrowed q).offers) : n ∈ q.offers := by
  have hn := d.narrowed_narrowed q
  generalize d.narrowed q = q' at hn h
  cases hn
  case kept    => exact h
  case emptied => cases h
  case cut     => exact Plan.offers_withoutProjection q ▸ h

theorem Plan.Carries.narrowed (h : q.Carries needed) (hn : d.narrowing) (hd : q.offers.Nodup)
    (hm : q.Minimal d.required.isRequired) (hw : ∀ n, d.required.isRequired n → needed n) :
    (d.narrowed q).Pared d.required.isRequired := by
  have hd' : q.output.names.Nodup := by
    rw [show q.output.names = _ from h]
    exact hd.filter _
  have names : q.output.names.filter d.required.isRequired = q.offers.filter d.required.isRequired := by
    rw [show q.output.names = _ from h, List.filter_filter]
    refine List.filter_congr fun n _ => ?_
    cases hr : d.required.isRequired n
    case false => rfl
    case true  => rw [hw n hr]; rfl
  have present : (d.required.presentIn q.output).map Attribute.name =
      q.output.names.filter d.required.isRequired := by
    have hf : (q.output.attributes.filter (d.required.isRequired ·.name)).map Attribute.name =
        q.output.names.filter d.required.isRequired := by rw [Relation.names, List.filter_map]; rfl
    rw [Requirements.presentIn, Requirements.firstOccurrences_of_nodup (hf ▸ hd'.filter _), hf]
  unfold Demand.narrowed
  rw [if_neg (by simp [hn])]
  split
  case isTrue => exact Plan.pared_nothing
  case isFalse =>
    split
    case isTrue hl =>
      refine ⟨Eq.trans (Eq.symm ?_) names, hm⟩
      refine List.filter_sublist.eq_of_length_le ?_
      rw [← present, List.length_map, Relation.names, List.length_map]
      exact hl
    case isFalse =>
      refine ⟨?_, hm.withoutProjection⟩
      rw [Carries, show (projecting _ _).offers = _ from q.offers_withoutProjection, ← names, ← present]
      exact Relation.names_project ..

end QueryPlanner
