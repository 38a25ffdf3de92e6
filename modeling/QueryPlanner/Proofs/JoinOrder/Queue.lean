import QueryPlanner.Proofs.JoinOrder.Choice
import QueryPlanner.Proofs.Numbering

namespace QueryPlanner

namespace Candidate

def unnumbered (k : Candidate) : Candidate :=
  { k with predicate := k.predicate.map JoinPredicate.unnumbered }

variable {k l : Candidate}

theorem rank_congr (h : k.unnumbered = l.unnumbered) : k.rank = l.rank := by
  have rank_unnumbered (k : Candidate) : k.unnumbered.rank = k.rank := by
    unfold rank unnumbered
    cases k.predicate <;> rfl
  rw [← rank_unnumbered, h, rank_unnumbered]

theorem rank_eq_iff : k.rank = l.rank ↔
    (k.predicate = none ∧ l.predicate = none) ∨
      ∃ p q, k.predicate = some p ∧ l.predicate = some q ∧ p.text = q.text := by
  unfold rank
  cases k.predicate <;> cases l.predicate <;> simp

theorem isNone_congr (h : k.unnumbered = l.unnumbered) :
    k.predicate.isNone = l.predicate.isNone := by
  have := congrArg (·.predicate.isNone) h
  simpa [unnumbered] using this

end Candidate

open Candidate (unnumbered)

-- The outstanding candidates of two searches:
-- (1) They agree in some order.
-- (2) Those without a predicate are in the same order.
-- (3) The text of its predicate tells a candidate from the others.
structure Queued (exact : Prop) (ks ls : List Candidate) : Prop where
  shuffled : Shuffled exact unnumbered ks ls
  products : ls.filter (·.predicate.isNone) = ks.filter (·.predicate.isNone)
  told     : exact ∨ ∀ k ∈ ks, ∀ l ∈ ks, ∀ p q, k.predicate = some p → l.predicate = some q →
    p.text = q.text → k.unnumbered = l.unnumbered

namespace Queued

variable {exact : Prop} {ks ls : List Candidate} {k l : Candidate}

theorem told_of_subset (q : Queued exact ks ls) {ks' : List Candidate} (hs : ks' ⊆ ks) :
    exact ∨ ∀ k ∈ ks', ∀ l ∈ ks', ∀ p q, k.predicate = some p → l.predicate = some q →
      p.text = q.text → k.unnumbered = l.unnumbered :=
  q.told.imp_right fun ht k hk l hl => ht k (hs hk) l (hs hl)

theorem of_products (hk : ∀ k ∈ ks, k.predicate = none) : Queued exact ks ks where
  shuffled := .refl ks
  products := rfl
  told     := .inr fun k hm _ _ p _ hp => by simp [hk k hm] at hp

theorem filter {P Q : Candidate → Bool} (q : Queued exact ks ls)
    (hP : ∀ k, P k.unnumbered = P k) (hQ : ∀ k ∈ ks, Q k = P k) (hQ' : ∀ l ∈ ls, Q l = P l) :
    Queued exact (ks.filter P) (ls.filter Q) where
  shuffled := q.shuffled.filter P (fun k _ => (hP k).symm) (fun l hl => (hQ' l hl).trans (hP l).symm)
    fun _ => hQ
  products := by
    rw [List.filter_congr hQ', List.filter_filter, List.filter_filter]
    simp only [Bool.and_comm _ (P _)]
    rw [← List.filter_filter, ← List.filter_filter, q.products]
  told := q.told_of_subset (List.filter_subset_self ks)

theorem erase (q : Queued exact ks ls) (ha : Agree exact unnumbered k l) (hk : k ∈ ks)
    (hl : l ∈ ls) (hp : k.predicate = none → l = k) : Queued exact (ks.erase k) (ls.erase l) where
  shuffled := q.shuffled.erase ha hk hl
  products := by
    rw [← List.erase_filter, ← List.erase_filter, q.products]
    cases hn : k.predicate
    case none => rw [hp hn]
    case some =>
      have skip {m : Candidate} (hm : m.predicate.isNone = false) (ms : List Candidate) :
          (ms.filter (·.predicate.isNone)).erase m = ms.filter (·.predicate.isNone) :=
        List.erase_of_not_mem fun h => by simp [hm] at h
      have hk : k.predicate.isNone = false := by simp [hn]
      rw [skip hk, skip ((Candidate.isNone_congr ha.left).trans hk)]
  told := q.told_of_subset List.erase_subset

theorem append_products {ms : List Candidate} (q : Queued exact ks ls)
    (hm : ∀ k ∈ ms, k.predicate = none) : Queued exact (ks ++ ms) (ls ++ ms) where
  shuffled := q.shuffled.append (.refl ms)
  products := by rw [List.filter_append, List.filter_append, q.products]
  told     := q.told.imp_right fun ht k hk l hl p r hp hr => by
    have related {k p} (hk : k ∈ ks ++ ms) (hp : k.predicate = some p) : k ∈ ks := by
      cases List.mem_append.mp hk
      case inl hk => exact hk
      case inr hk => simp [hm k hk] at hp
    exact ht k (related hk hp) l (related hl hr) p r hp hr

end Queued

namespace Components.Chosen

variable {exact : Prop} {options : Options} {c c' : Components} {ks ls : List Candidate}
variable {best best' : Candidate × Plan Relation}

section Agree

variable (hc : c.Chosen options ks best) (hc' : c'.Chosen options ls best')
variable (hp : options.reorderJoins → ∀ k ∈ ks, ∀ l ∈ ls, Agree exact unnumbered k l → ∀ plan plan',
  c.built? k = some plan → c'.built? l = some plan' → plan'.tupleCount = plan.tupleCount)
include hc hc' hp

theorem key_eq {k l : Candidate} (hk : k ∈ ks) (hl : l ∈ ls) (ha : Agree exact unnumbered k l) :
    c'.key options l = c.key options k := by
  unfold key
  split
  case isFalse => rfl
  case isTrue ho =>
    obtain ⟨plan, hb⟩ := Option.isSome_iff_exists.mp (hc.all ho k hk)
    obtain ⟨plan', hb'⟩ := Option.isSome_iff_exists.mp (hc'.all ho l hl)
    rw [Candidate.rank_congr ha.left, price, price, hb, hb']
    exact congrArg (fun n => toLex (n, k.rank)) (hp ho k hk l hl ha plan plan' hb hb')

theorem rank_eq (q : Queued exact ks ls) (ho : options.reorderJoins) :
    best'.1.rank = best.1.rank := by
  have hm  := hc.first.mem
  have hm' := hc'.first.mem
  obtain ⟨l, hl, hal⟩ := q.shuffled.exists_agree' hm
  obtain ⟨k, hk, hak⟩ := q.shuffled.exists_agree hm'
  have hkey : c'.key options best'.1 = c.key options best.1 := by
    refine le_antisymm ?_ ?_
    · exact (hc'.first.le hl).trans_eq (key_eq hc hc' hp hm hl hal)
    · exact (hc.first.le hk).trans_eq (key_eq hc hc' hp hk hm' hak).symm
  unfold Components.key at hkey
  rw [if_pos ho, if_pos ho] at hkey
  exact congrArg (fun x => (ofLex x).2) hkey

theorem agree (q : Queued exact ks ls) (ho : exact ∨ options.reorderJoins) :
    Agree exact unnumbered best.1 best'.1 ∧ (best.1.predicate = none → best'.1 = best.1) := by
  by_cases hx : exact
  case pos =>
    obtain rfl := q.shuffled.right hx
    have := (hc'.first.congr fun k hk => (key_eq hc hc' hp hk hk (.refl k)).symm).unique hc.first
    exact ⟨this ▸ .refl _, fun _ => this⟩
  case neg =>
    obtain ⟨k, hk, hak⟩ := q.shuffled.exists_agree hc'.first.mem
    have hrank := rank_eq hc hc' hp q (ho.resolve_left hx)
    cases Candidate.rank_eq_iff.mp ((Candidate.rank_congr hak.left).symm.trans hrank)
    case inr h =>
      obtain ⟨p, r, hp, hr, ht⟩ := h
      have := q.told.resolve_left hx k hk best.1 hc.first.mem p r hp hr ht
      exact ⟨⟨hak.left.trans this, (absurd · hx)⟩, fun hn => by simp [hn] at hr⟩
    case inl h =>
      -- Both are the first one of the same products.
      have hn : best.1.predicate.isNone := by simp [h.right]
      have hn' : best'.1.predicate.isNone := by simp [Candidate.isNone_congr hak.left, h.left]
      have hf  := hc.first.filter (P := (·.predicate.isNone)) hn
      have hf' := hc'.first.filter (P := (·.predicate.isNone)) hn'
      rw [q.products] at hf'
      have := (hf'.congr fun k hk => ?_).unique hf
      · exact ⟨this ▸ .refl _, fun _ => this⟩
      · have hk' := (List.mem_filter.mp (q.products ▸ hk)).left
        exact (key_eq hc hc' hp (List.mem_filter.mp hk).left hk' (.refl k)).symm

end Agree
end Components.Chosen
end QueryPlanner
