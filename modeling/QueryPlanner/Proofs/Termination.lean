import QueryPlanner.Proofs.JoinOrder.Opening
import QueryPlanner.Proofs.Reshape

namespace QueryPlanner

open Run (Meets)
open Reshaping (ofPlan chain)
open Unlimited

variable {options : Options} {leaves : List Handle} {m m' : Moment} {k : Candidate}

namespace Moment

def Combines (options : Options) (leaves : List Handle) (m m' : Moment) (k : Candidate) : Prop :=
  m.next options leaves = .ok (some m') ∧ m'.combined = m.combined ++ [k]

theorem Combines.chosen (h : m.Combines options leaves m' k) :
    (∀ l ∈ m.candidates, m.components.isOutstanding l) ∧
      ∃ plan, m.components.Chosen options m.candidates (k, plan) ∧
        m'.components = m.components.takeOver [k.left, k.right] ((k.released m.demand).narrowed plan) := by
  obtain ⟨hn, hc⟩ := h
  cases next_step hn
  case select            => simp at hc
  case settle            => simp [settled] at hc
  case connect           => simp [connected] at hc
  case combine best plan _ ho hch =>
    obtain rfl : best = k := by simpa using hc
    exact ⟨ho, plan, hch, rfl⟩

-- A search ends and does no more than it has to:
-- (1) There are no infinitely many steps.
-- (2) Redirects go to larger handles, however many ways were made short, so that each way has an end.
-- (3) Only components that differ and are not gone are combined, and that less often than there are leaves.
-- (4) If none of them goes away, then one component is all that is left of the leaves.
structure Economical (options : Options) (leaves : List Handle) (m : Moment) : Prop where
  ends     : Acc (fun m' m : Moment => m.next options leaves = .ok (some m')) m
  climbs   : ∀ hs : List Handle,
    (hs.foldl Redirects.compress m.components.redirects).Climbs m.components.plans.size
  resolves : ∀ h, m.components.redirects.Leads h (m.components.owner h) ∧
    m.components.redirects.target? (m.components.owner h) = none
  apart    : ∀ m' k, m.Combines options leaves m' k →
    m.components.owner k.left ∈ m.components.live leaves ∧
      m.components.owner k.right ∈ m.components.live leaves ∧
      m.components.owner k.left ≠ m.components.owner k.right
  few      : m.combined.length ≤ leaves.length - 1
  all      : m.next options leaves = .ok none → (∀ h ∈ leaves, m.components.isEliminated h = false) →
    m.combined.length = leaves.length - 1 ∧ ∃ root, ∀ h ∈ leaves, m.components.owner h = root

namespace Sound

open Components

theorem few (s : m.Sound leaves) : m.combined.length ≤ leaves.length - 1 := by
  have hc := s.counted
  by_cases hl : leaves = []
  case pos =>
    subst hl
    exact Nat.le_of_add_right_le hc.le
  case neg =>
    have := card_roots_pos (c := m.components) hl
    omega

theorem isEliminated_owner (s : m.Sound leaves) (h : Handle) :
    m.components.isEliminated (m.components.owner h) = m.components.isEliminated h := by
  rw [isEliminated, s.orderly.formed.owner_owner, isEliminated]

theorem all (s : m.Sound leaves) (hn : m.next options leaves = .ok none)
    (he : ∀ h ∈ leaves, m.components.isEliminated h = false) :
    m.combined.length = leaves.length - 1 ∧ ∃ root, ∀ h ∈ leaves, m.components.owner h = root := by
  have hone := Candidate.length_of_pairs_nil (next_eq_none_iff.mp hn).right.right
  have hsub : m.components.roots leaves ⊆ (m.components.live leaves).toFinset := fun x hx => by
    obtain ⟨h, hh, rfl⟩ := List.mem_map.mp (List.mem_toFinset.mp hx)
    exact List.mem_toFinset.mpr (mem_live.mpr ⟨hx, (s.isEliminated_owner h).trans (he h hh)⟩)
  have hcard : (m.components.roots leaves).card ≤ 1 :=
    (Finset.card_le_card hsub).trans ((List.toFinset_card_le _).trans hone)
  refine ⟨?_, ?_⟩
  · have := s.few
    have := s.counted
    omega
  · by_cases hl : leaves = []
    case pos => exact ⟨0, by simp [hl]⟩
    case neg =>
      obtain ⟨h, hh⟩ := List.exists_mem_of_ne_nil _ hl
      exact ⟨m.components.owner h, fun k hk =>
        Finset.card_le_one.mp hcard _ (owner_mem_roots hk) _ (owner_mem_roots hh)⟩

theorem economical (s : m.Sound leaves) : m.Economical options leaves where
  ends   := s.acc
  climbs := s.orderly.climbs.compressAll
  resolves h :=
    ⟨m.components.redirects.leads_owner h, s.orderly.formed.acyclic.target?_owner h⟩
  apart m' k hk := by
    obtain ⟨ho, plan, hch, _⟩ := hk.chosen
    have hm := hch.first.mem
    obtain ⟨hl, hr, hne⟩ := isOutstanding_iff.mp (ho k hm)
    have hs := s.sides k hm
    exact ⟨mem_live.mpr ⟨hs _ k.left_mem_sides, (s.isEliminated_owner _).trans hl⟩,
      mem_live.mpr ⟨hs _ k.right_mem_sides, (s.isEliminated_owner _).trans hr⟩, hne⟩
  few := s.few
  all := s.all

end Sound
end Moment

inductive Gathers {ν : Type} (options : Options) :
    Plan ν → Demand → Operator → List (Plan Relation) → Demand → Prop
  | product {n l r d o} (gathered : chain (ofPlan options l) (ofPlan options r) d = .ok o) :
    Gathers options (.product n l r) d .product o.value o.demand
  | join {n p l r d o}
    (gathered : chain (ofPlan options l) (ofPlan options r) (d.deferJoin p) = .ok o) :
    Gathers options (.join n p l r) d (.join p) o.value o.demand

variable {ν : Type} {plan : Plan ν} {d e : Demand} {root : Operator} {qs : List (Plan Relation)}
variable {F : Failure → Prop} {Q : Plan Relation → Demand → Prop}

theorem Gathers.meets (g : Gathers options plan d root qs e)
    (h : Meets F (joinOrder options root qs) e Q) : Meets F (reshape options plan) d Q := by
  have gather {x : Run (List (Plan Relation))} {o d} (hx : x d = .ok o) :
      Meets F x d fun qs e => qs = o.value ∧ e = o.demand := by simp [Meets, hx]
  cases g
  case product hx => exact (gather hx).bind fun _ _ ho => ho.left ▸ ho.right ▸ h
  case join hx    =>
    exact Run.meets_modify_bind <| (gather hx).bind fun _ _ ho => ho.left ▸ ho.right ▸ h

theorem search_terminates (g : Gathers options plan d root qs e) :
    ((∃ r, reshape options plan d = .ok r ∧ (qs = [] ∧ r.value = .nothing ∨
        ∃ leaves m, Moment.Reached options qs e leaves m ∧ m.demand = r.demand ∧
          m.Ends options leaves r.value)) ∨
      ∃ n, reshape options plan d = .error (.negativeTupleCount n)) ∧
    ∀ leaves m, Moment.Reached options qs e leaves m → m.Economical options leaves := by
  have hs : Meets Failure.IsNegative (joinOrder options root qs) e fun q d' =>
      qs = [] ∧ q = .nothing ∨ ∃ leaves m, Moment.Reached options qs e leaves m ∧ m.demand = d' ∧
        m.Ends options leaves q := by
    by_cases hq : qs = []
    case pos =>
      subst hq
      exact Run.meets_report_bind (Run.meets_pure (.inl ⟨rfl, rfl⟩))
    case neg =>
      have hf := Moment.joinOrder_follows options root e hq
      exact (hf.weaken fun _ => And.left).mono fun _ _ => .inr
  refine ⟨?_, fun leaves m hm => hm.sound.economical⟩
  have hr := g.meets hs
  unfold Meets at hr
  cases ho : reshape options plan d <;> simp only [ho] at hr
  case ok r    => exact .inl ⟨r, rfl, hr⟩
  case error f =>
    obtain ⟨n, rfl⟩ := hr
    exact .inr ⟨n, rfl⟩

theorem search_terminates_threeway :
    let scan (n : String) (k : Nat) : Plan Unit := .scan () { name := n, statistics := .of k [⟨n ++ ".a", k⟩] }
    let plan : Plan Unit := .product () (.join () ⟨0, "R.a", "S.a"⟩ (scan "R" 4) (scan "S" 5)) (scan "T" 2)
    ∃ qs e, Gathers {} plan {} .product qs e ∧
      ((∃ r, reshape {} plan {} = .ok r ∧ (qs = [] ∧ r.value = .nothing ∨
          ∃ leaves m, Moment.Reached {} qs e leaves m ∧ m.demand = r.demand ∧ m.Ends {} leaves r.value)) ∨
        ∃ n, reshape {} plan {} = .error (.negativeTupleCount n)) ∧
      ∀ leaves m, Moment.Reached {} qs e leaves m → m.Economical {} leaves := by
  intro scan plan
  have hs : ∀ r ∈ plan.scans, r.statistics.Counts 0 := by unfold Relation.Counts; decide
  have ht : (ofPlan {} plan).Takes False _ _ _ _ _ {} :=
    Reshaping.ofPlan_takes .nonneg plan hs False.elim False.elim Demand.covers_empty rfl
  obtain ⟨o, ho, _⟩ := ht.leaves.returns
  have g : Gathers {} plan {} .product o.value o.demand := .product ho
  exact ⟨o.value, o.demand, g, search_terminates g⟩

end QueryPlanner
