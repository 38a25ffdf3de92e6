import QueryPlanner.Proofs.Termination

namespace QueryPlanner

open Run (Meets)
open Unlimited

variable {options : Options} {leaves : List Handle} {m m' : Moment} {k : Candidate}
variable {qs : List (Plan Relation)} {d : Demand}

namespace Moment

def outstanding (m : Moment) : List Candidate :=
  (m.created.diff m.combined).filter m.components.isOutstanding

theorem Sound.outstanding_eq (s : m.Sound leaves) :
    m.outstanding = m.candidates.filter m.components.isOutstanding := by
  have spent (ks : List Candidate) (h : ∀ k ∈ ks, m.components.isOutstanding k = false)
      (ls : List Candidate) :
      (ls.diff ks).filter m.components.isOutstanding = ls.filter m.components.isOutstanding := by
    induction ks generalizing ls
    case nil          => rfl
    case cons k ks hi =>
      obtain ⟨hk, hks⟩ := List.forall_mem_cons.mp h
      rw [List.diff_cons, hi hks, ← List.erase_filter, List.erase_of_not_mem]
      simp [hk]
  rw [s.listed]
  refine spent _ (fun k hk => ?_) _
  simp [Components.isOutstanding, s.spent k hk]

-- The choice of a candidate is greedy: everything outstanding can be built on the components as they are,
-- and nothing of it is cheaper, or as cheap and before it. Of what remains the first one is taken.
structure Greedy (m : Moment) (k : Candidate) : Prop where
  builds   : ∀ l ∈ m.outstanding, ∃ plan, m.components.built? l = some plan ∧
    m.components.price l = plan.tupleCount
  least    : FirstLeast (fun l => toLex (m.components.price l, l.rank)) m.outstanding k
  cheapest : ∀ l ∈ m.outstanding, m.components.price k ≤ m.components.price l
  joins    : ∀ l ∈ m.outstanding, m.components.price l = m.components.price k →
    k.predicate = none → l.predicate = none

theorem Sound.greedy (s : m.Sound leaves) (ho : options.reorderJoins)
    (h : m.Combines options leaves m' k) : m.Greedy k := by
  obtain ⟨hout, plan, hch, _⟩ := h.chosen
  have hm : m.outstanding = m.candidates := by
    rw [s.outstanding_eq, List.filter_eq_self]
    exact hout
  have hkey : m.components.key options = fun l => toLex (m.components.price l, l.rank) :=
    funext fun l => if_pos ho
  have least : FirstLeast (fun l => toLex (m.components.price l, l.rank)) m.outstanding k :=
    hm ▸ hkey ▸ hch.first
  refine ⟨fun l hl => ?_, least, fun l hl => ?_, fun l hl hp hk => ?_⟩
  · obtain ⟨plan, hb⟩ := Option.isSome_iff_exists.mp (hch.all ho l (hm ▸ hl))
    exact ⟨plan, hb, by rw [Components.price, hb]⟩
  · exact (Prod.Lex.toLex_le_toLex.mp (least.le hl)).elim le_of_lt fun h => h.left.le
  · obtain h | h := Prod.Lex.toLex_le_toLex.mp (least.le hl)
    · exact absurd hp h.ne'
    · have hrank : l.rank = ⊤ := top_le_iff.mp (by simpa [Candidate.rank, hk] using h.right)
      cases hl : l.predicate
      case none   => rfl
      case some p => simp [Candidate.rank, hl] at hrank

end Moment

theorem search_greedy (ho : options.reorderJoins) (root : Operator) (qs : List (Plan Relation))
    (d : Demand) :
    (qs ≠ [] → Meets (Moment.Breaks options qs d) (joinOrder options root qs) d fun q d' =>
      ∃ leaves m, Moment.Reached options qs d leaves m ∧ m.demand = d' ∧ m.Ends options leaves q) ∧
    ∀ leaves m m' k, Moment.Reached options qs d leaves m → m.Combines options leaves m' k →
      m.Greedy k ∧ ∃ plan, m.components.built? k = some plan ∧
        m'.components =
          m.components.takeOver [k.left, k.right] ((k.released m.demand).narrowed plan) := by
  refine ⟨Moment.joinOrder_follows options root d, fun leaves m m' k hm hk => ?_⟩
  obtain ⟨_, plan, hch, hc⟩ := hk.chosen
  exact ⟨hm.sound.greedy ho hk, plan, hch.built, hc⟩

theorem search_greedy_tie :
    let scan (n : String) (k : Nat) : Plan Relation := .scanning { name := n, statistics := .of k [⟨n, k⟩] }
    let qs := [scan "T" 1, scan "R" 4, scan "S" 5]
    let p : JoinPredicate := ⟨0, "R", "S"⟩
    let d : Demand := Demand.deferJoin {} p
    Options.reorderJoins {} ∧ ∃ leaves m m' k, Moment.Reached {} qs d leaves m ∧
      m.Combines {} leaves m' k ∧ k.predicate = some p ∧
      m.outstanding.map m.components.price = [4, 4, 5] ∧ m.Greedy k := by
  intro scan qs p d
  let ks : List Candidate := [⟨1, 2, some p⟩, ⟨0, 1, none⟩, ⟨0, 2, none⟩]
  let m := Moment.start (.ofLeaves qs) ks { d with joins := [] }
  have hm : Moment.Reached {} qs d [0, 1, 2] m :=
    ⟨⟨([0, 1, 2], .ofLeaves qs, ks), { d with joins := [] }, []⟩, by with_unfolding_all rfl, rfl, .refl⟩
  have hnext : (m.next {} [0, 1, 2]).toOption.join.map (·.combined) = some [⟨1, 2, some p⟩] := by
    decide +kernel
  obtain ⟨m', hm', hc⟩ := Option.map_eq_some_iff.mp hnext
  have hk : m.Combines {} [0, 1, 2] m' ⟨1, 2, some p⟩ := by
    refine ⟨?_, hc⟩
    cases hn : m.next {} [0, 1, 2] <;> simp_all [Except.toOption]
  have hg := (search_greedy (show Options.reorderJoins {} from rfl) .product qs d).right _ _ _ _ hm hk
  exact ⟨rfl, [0, 1, 2], m, m', _, hm, hk, rfl, by decide +kernel, hg.left⟩

end QueryPlanner
