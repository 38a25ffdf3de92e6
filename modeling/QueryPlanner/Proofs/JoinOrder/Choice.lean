import Mathlib.Data.Prod.Lex
import Mathlib.Data.String.Basic
import Mathlib.Order.WithBot
import QueryPlanner.JoinOrder.Search
import QueryPlanner.Proofs.JoinOrder.Components

namespace QueryPlanner

open Unlimited

def FirstLeast {α β : Type} [LinearOrder β] (key : α → β) (xs : List α) (x : α) : Prop :=
  ∃ pre post, xs = pre ++ x :: post ∧ (∀ y ∈ pre, key x < key y) ∧ ∀ y ∈ post, key x ≤ key y

namespace FirstLeast

variable {α β : Type} [LinearOrder β] {key key' : α → β} {xs : List α} {x y : α}

theorem singleton (key : α → β) (x : α) : FirstLeast key [x] x :=
  ⟨[], [], rfl, by simp, by simp⟩

theorem mem (h : FirstLeast key xs x) : x ∈ xs := by
  obtain ⟨pre, post, rfl, _⟩ := h
  simp

theorem le (h : FirstLeast key xs x) (hy : y ∈ xs) : key x ≤ key y := by
  obtain ⟨pre, post, rfl, hpre, hpost⟩ := h
  simp only [List.mem_append, List.mem_cons] at hy
  obtain hy | rfl | hy := hy
  · exact (hpre y hy).le
  · exact le_rfl
  · exact hpost y hy

theorem snoc (h : FirstLeast key xs x) (y : α) :
    FirstLeast key (xs ++ [y]) (if key y < key x then y else x) := by
  split
  case isTrue hlt => exact ⟨xs, [], rfl, fun z hz => hlt.trans_le (h.le hz), by simp⟩
  case isFalse hlt =>
    obtain ⟨pre, post, rfl, hpre, hpost⟩ := h
    refine ⟨pre, post ++ [y], by simp, hpre, fun z hz => ?_⟩
    cases List.mem_append.mp hz
    case inl hz => exact hpost z hz
    case inr hz => exact List.mem_singleton.mp hz ▸ not_lt.mp hlt

theorem find?_eq (h : FirstLeast key xs x) : xs.find? (key · = key x) = some x := by
  obtain ⟨pre, post, rfl, hpre, _⟩ := h
  rw [List.find?_append, List.find?_eq_none.mpr fun y hy => by simpa using (hpre y hy).ne']
  simp

theorem unique (h : FirstLeast key xs x) (h' : FirstLeast key xs y) : x = y := by
  have hxy : key x = key y := (h.le h'.mem).antisymm (h'.le h.mem)
  have := h'.find?_eq
  rw [← hxy, h.find?_eq] at this
  exact Option.some.inj this

theorem filter {P : α → Bool} (h : FirstLeast key xs x) (hx : P x) :
    FirstLeast key (xs.filter P) x := by
  obtain ⟨pre, post, rfl, hpre, hpost⟩ := h
  refine ⟨pre.filter P, post.filter P, by simp [hx], fun y hy => ?_, fun y hy => ?_⟩
  · exact hpre y (List.mem_filter.mp hy).left
  · exact hpost y (List.mem_filter.mp hy).left

theorem congr (h : FirstLeast key xs x) (hk : ∀ y ∈ xs, key' y = key y) :
    FirstLeast key' xs x := by
  obtain ⟨pre, post, rfl, hpre, hpost⟩ := h
  simp only [List.forall_mem_append, List.forall_mem_cons] at hk
  have ⟨hk₁, hk₂, hk₃⟩ := hk
  refine ⟨pre, post, rfl, fun y hy => ?_, fun y hy => ?_⟩
  · rw [hk₂, hk₁ y hy]
    exact hpre y hy
  · rw [hk₂, hk₃ y hy]
    exact hpost y hy

end FirstLeast

def Candidate.rank (k : Candidate) : WithTop String :=
  match k.predicate with
  | some p => (p.text : WithTop String)
  | none   => ⊤

theorem Candidate.before_iff {k l : Candidate} : k.before l ↔ k.rank < l.rank := by
  unfold Candidate.before Candidate.rank
  cases k.predicate <;> cases l.predicate <;> simp [WithTop.coe_lt_coe]

namespace Components

open Run (Meets)

variable {c : Components} {k : Candidate} {ks : List Candidate} {d : Demand} {options : Options}
variable {plan : Plan Relation} {o : Outcome (Plan Relation)}

def built? (c : Components) (k : Candidate) : Option (Plan Relation) :=
  match c.build k {} with
  | .ok o    => some o.value
  | .error _ => none

theorem build_built (c : Components) (k : Candidate) (d : Demand) :
    Meets (fun _ => True) (c.build k) d fun plan d' => d' = d ∧ c.built? k = some plan := by
  unfold built? build Components.plan
  cases c.plans[c.owner k.left]?
  case none => exact trivial
  case some l =>
    cases c.plans[c.owner k.right]?
    case none => exact trivial
    case some r =>
      simp only [pure_bind]
      cases k.predicate
      case none   => exact ⟨rfl, rfl⟩
      case some p =>
        dsimp only
        generalize Plan.joining _ l r = joined
        cases joined
        case error => exact trivial
        case ok    => exact ⟨rfl, rfl⟩

def price (c : Components) (k : Candidate) : Nat :=
  match c.built? k with
  | some plan => plan.tupleCount
  | none      => 0

-- What candidates are compared by. If joins are not reordered they are all the same.
def key (c : Components) (options : Options) (k : Candidate) : Nat ×ₗ WithTop String :=
  if options.reorderJoins then toLex (c.price k, k.rank) else toLex (0, ⊤)

structure Chosen (c : Components) (options : Options) (ks : List Candidate)
    (best : Candidate × Plan Relation) : Prop where
  built : c.built? best.1 = some best.2
  all   : options.reorderJoins → ∀ k ∈ ks, (c.built? k).isSome
  first : FirstLeast (c.key options) ks best.1

theorem cost_built (c : Components) (k : Candidate) (d : Demand) :
    Meets (fun _ => True) (c.cost k) d fun r d' => d' = d ∧ r.1 = k ∧ c.built? k = some r.2 :=
  (build_built c k d).bind fun _ _ ⟨hd, hb⟩ =>
    Run.meets_report_bind <| Run.meets_pure ⟨hd, rfl, hb⟩

theorem cheaper_eq {best next : Candidate × Plan Relation} (ho : options.reorderJoins)
    (hb : c.built? best.1 = some best.2) (hn : c.built? next.1 = some next.2) :
    (cheaper best next).1 = if c.key options next.1 < c.key options best.1 then next.1 else best.1 := by
  unfold cheaper key
  simp only [ho, if_true, Prod.Lex.toLex_lt_toLex, price, hb, hn, Candidate.before_iff]
  split <;> rfl

theorem Chosen.snoc {next : Candidate × Plan Relation} {ls : List Candidate}
    {best : Candidate × Plan Relation} (hc : c.Chosen options ls best) (ho : options.reorderJoins)
    (hn : c.built? next.1 = some next.2) :
    c.Chosen options (ls ++ [next.1]) (cheaper best next) where
  built := by
    unfold cheaper
    split
    · exact hn
    · exact hc.built
  all _ := by
    simp only [List.forall_mem_append, List.forall_mem_singleton]
    exact ⟨hc.all ho, by simp [hn]⟩
  first := cheaper_eq ho hc.built hn ▸ hc.first.snoc next.1

theorem cheapest_chosen (c : Components) (options : Options) (first : Candidate)
    (rest : List Candidate) (d : Demand) :
    Meets (fun _ => True) (c.cheapest options first rest) d fun best d' =>
      d' = d ∧ c.Chosen options (first :: rest) best := by
  refine (cost_built c first d).bind fun best d' ⟨hd, hf, hb⟩ => ?_
  subst hf
  split
  case isFalse ho =>
    refine Run.meets_pure ⟨hd, hb, (absurd · ho), [], rest, rfl, by simp, fun _ _ => ?_⟩
    simp [key, ho]
  case isTrue ho =>
    -- The best of those that were compared.
    have start : c.Chosen options [best.1] best :=
      ⟨hb, fun _ => by simp [hb], .singleton ..⟩
    refine (Run.meets_foldlM (I := fun ks best' d' =>
      d' = d ∧ ∃ ls, best.1 :: rest = ls ++ ks ∧ c.Chosen options ls best') ?_ rest best d'
      ⟨hd, [best.1], rfl, start⟩).mono
      fun best' d' ⟨hd, ls, hls, hc⟩ => ⟨hd, by rwa [hls, List.append_nil]⟩
    intro k ks best' d' ⟨hd, ls, hls, hc⟩
    refine (cost_built c k d').bind fun next e ⟨he, hk, hn⟩ => Run.meets_pure ?_
    subst hk
    exact ⟨he.trans hd, ls ++ [next.1], by simp [hls], hc.snoc ho hn⟩

end Components
end QueryPlanner
