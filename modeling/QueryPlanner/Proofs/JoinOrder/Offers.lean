import QueryPlanner.Proofs.JoinOrder.Reduce

namespace QueryPlanner

variable {ν : Type} {exact : Prop} {G : Plan Relation → Prop} {leaves : List Handle} {mode : Bool}
variable {kept : Multiset String} {budget : Multiset Part} {c : Components} {ks : List Candidate}
variable {d : Demand} {x y : Handle} {q r : Plan Relation}

def Part.offers : Part → List String
  | .inl r => r.statistics.names
  | .inr _ => []

def offered (parts : Multiset Part) : Multiset String :=
  parts.bind fun p => (Part.offers p : Multiset String)

theorem offered_add (s t : Multiset Part) : offered (s + t) = offered s + offered t :=
  Multiset.add_bind ..

theorem offered_mono {s t : Multiset Part} (h : s ≤ t) : offered s ≤ offered t := by
  obtain ⟨u, rfl⟩ := Multiset.le_iff_exists_add.mp h
  exact offered_add s u ▸ Multiset.le_add_right ..

theorem offered_predicates (ps : Multiset Predicate) : offered (ps.map .inr) = 0 := by
  rw [offered, Multiset.bind_map]
  exact Multiset.bind_zero ps

theorem Plan.offered_contents (plan : Plan ν) : offered plan.contents = plan.offers := by
  have cons (p : Predicate) (s : Multiset Part) : offered (.inr p ::ₘ s) = offered s :=
    (Multiset.cons_bind ..).trans (zero_add _)
  induction plan
  case scan _ r =>
    by_cases hr : r = .placeholder
    case pos =>
      subst hr
      rfl
    case neg =>
      rw [contents, if_neg hr, offered, Multiset.singleton_bind]
      exact congrArg _ (List.append_nil _).symm
  case select hi     => exact (cons ..).trans hi
  case project hi    => exact hi
  case product hl hr =>
    rw [contents, offered_add, hl, hr, offers_product]
    rfl
  case join hl hr    =>
    rw [contents, cons, offered_add, hl, hr, offers_join]
    rfl

-- In a search no name occurs twice if none does among the parts that it is made of.
namespace Underway

variable (u : Underway exact G leaves mode kept budget c ks d) (hb : (offered budget).Nodup)
include u hb

theorem offered_nodup : (offered (c.contents leaves)).Nodup :=
  Multiset.nodup_of_le (offered_mono <| (Multiset.le_add_right ..).trans <|
    (Multiset.le_add_right ..).trans u.retained.left) hb

theorem offers_nodup (hr : c.owner x ∈ c.roots leaves) (hx : c.StandsFor x q) : q.offers.Nodup := by
  have hle := offered_mono (Components.contentsAt_le hr)
  rw [hx.contentsAt, Plan.offered_contents] at hle
  exact Multiset.nodup_of_le hle (u.offered_nodup hb)

theorem offers_append_nodup (hrx : c.owner x ∈ c.roots leaves) (hry : c.owner y ∈ c.roots leaves)
    (ho : c.owner x ≠ c.owner y) (hx : c.StandsFor x q) (hy : c.StandsFor y r) :
    (q.offers ++ r.offers).Nodup := by
  have hle : c.contentsAt (c.owner x) + c.contentsAt (c.owner y) ≤ c.contents leaves := by
    rw [Components.contents, ← Finset.add_sum_erase _ _ hrx,
      ← Finset.add_sum_erase _ _ (Finset.mem_erase.mpr ⟨ho.symm, hry⟩), ← add_assoc]
    exact Multiset.le_add_right ..
  have hle := offered_mono hle
  rw [hx.contentsAt, hy.contentsAt, offered_add, Plan.offered_contents, Plan.offered_contents] at hle
  exact Multiset.nodup_of_le hle (u.offered_nodup hb)

end Underway

end QueryPlanner
