import QueryPlanner.Proofs.JoinOrder.Reduce
import QueryPlanner.Proofs.Repetition.Steady

namespace QueryPlanner.Components

open Run (Meets)
open Unlimited

variable {leaves : List Handle} {kept : Multiset String} {budget : Multiset Part}
variable {c c' c'' : Components} {k : Handle × JoinPredicate} {rest : List (Handle × JoinPredicate)}
variable {ks : List Candidate} {d : Demand} {h : Handle} {n : String} {plan q : Plan Relation}
variable {P : Plan Relation → Prop}

structure Keeps (c c' : Components) : Prop where
  size       : c.plans.size ≤ c'.plans.size
  owners     : ∀ x < c.plans.size, ∀ y < c.plans.size,
    c'.owner x = c'.owner y ↔ c.owner x = c.owner y
  provides   : ∀ n, ∀ x < c.plans.size, c'.provides n x = c.provides n x
  eliminated : ∀ x < c.plans.size, c'.isEliminated x → c.isEliminated x

namespace Keeps

theorem refl (c : Components) : c.Keeps c :=
  ⟨le_rfl, fun _ _ _ _ => .rfl, fun _ _ _ => rfl, fun _ _ => id⟩

theorem trans (m : c.Keeps c') (m' : c'.Keeps c'') : c.Keeps c'' where
  size := m.size.trans m'.size
  owners x hx y hy :=
    (m'.owners x (hx.trans_le m.size) y (hy.trans_le m.size)).trans (m.owners x hx y hy)
  provides n x hx := (m'.provides n x (hx.trans_le m.size)).trans (m.provides n x hx)
  eliminated x hx he := m.eliminated x hx (m'.eliminated x (hx.trans_le m.size) he)

theorem isOutstanding {k : Candidate} (m : c.Keeps c') (hl : k.left < c.plans.size)
    (hr : k.right < c.plans.size) (ho : c.isOutstanding k) : c'.isOutstanding k := by
  rw [isOutstanding_iff] at ho ⊢
  refine ⟨?_, ?_, (m.owners _ hl _ hr).not.mpr ho.right.right⟩
  · exact Bool.eq_false_iff.mpr fun he => by simp [m.eliminated _ hl he] at ho
  · exact Bool.eq_false_iff.mpr fun he => by simp [m.eliminated _ hr he] at ho

end Keeps

section TakeOver

variable {hs : List Handle}

theorem owner_takeOver_singleton (hc : c.WellFormed) (k : Handle) (q : Plan Relation) (h : Handle) :
    (c.takeOver [k] q).owner h = if c.owner h = c.owner k then c.plans.size else c.owner h := by
  simpa using owner_takeOver hc [k] q h

theorem keeps_takeOver {k : Handle} (hc : c.WellFormed) (hp : c.StandsFor k plan)
    (hn : q.output.names = plan.output.names) (hq : q.isPlaceholder = false) :
    c.Keeps (c.takeOver [k] q) where
  size := by simp
  owners x hx y hy := by
    have hx := (hc.inside x hx).ne
    have hy := (hc.inside y hy).ne
    rw [owner_takeOver_singleton hc, owner_takeOver_singleton hc]
    split
    case isTrue he =>
      split
      case isTrue he' => simp [he, he']
      case isFalse he' => exact iff_of_false hy.symm fun hxy => he' (hxy ▸ he)
    case isFalse he =>
      split
      case isTrue he' => exact iff_of_false hx fun hxy => he (hxy ▸ he')
      case isFalse => rfl
  provides n x hx := by
    rw [provides_takeOver hc hx]
    split
    case isFalse => rfl
    case isTrue ho =>
      have ho := List.mem_singleton.mp ho
      rw [(hp.congr ho).provides_eq, Relation.has_eq_of_names hn]
  eliminated x hx := by
    rw [isEliminated_takeOver hc hx]
    split
    case isFalse => exact id
    case isTrue  => simp [hq]

end TakeOver

def due (c : Components) (h : Handle) (ks : List (Handle × JoinPredicate)) : List Predicate :=
  (ks.filter (c.owner ·.1 = h)).map (.join ·.2)

def Ripens (P : Plan Relation → Prop) (leaves : List Handle) (c : Components)
    (ks : List (Handle × JoinPredicate)) : Prop :=
  ∀ h ∈ leaves, ∀ plan, c.StandsFor h plan →
    ∀ q, Plan.stack (c.due (c.owner h) ks) plan = .ok q → P q

theorem Ripens.nil (r : c.Ripens P leaves []) (hh : h ∈ leaves) (hp : c.StandsFor h plan) : P plan :=
  r h hh plan hp plan (Plan.stack_nil.mpr rfl)

theorem Ripens.step (r : c.Ripens P leaves (k :: rest)) (hc : c.WellFormed)
    (hl : ∀ h ∈ leaves, h < c.plans.size) (hr : ∀ k' ∈ rest, k'.1 < c.plans.size)
    (hp : c.StandsFor k.1 plan) (hq : Plan.selecting (.join k.2) plan = .ok q) :
    (c.takeOver [k.1] q).Ripens P leaves rest := by
  intro h hh plan' hp' q' hq'
  have hlt := (hc.inside h (hl h hh)).ne
  rw [standsFor_takeOver_iff hc (hl h hh)] at hp'
  rw [owner_takeOver_singleton hc] at hq'
  simp only [List.map_cons, List.map_nil, List.mem_singleton] at hp'
  split at hp'
  case isTrue ho =>
    -- The first selection that was due is on the plan, and the others follow it.
    subst hp'
    rw [if_pos ho] at hq'
    refine r h hh plan (hp.congr ho) q' ?_
    have hdue : c.due (c.owner h) (k :: rest) =
        .join k.2 :: (c.takeOver [k.1] plan').due c.plans.size rest := by
      rw [due, List.filter_cons_of_pos (by simp [ho]), List.map_cons, due]
      congr 2
      refine List.filter_congr fun k' hk' => decide_eq_decide.mpr ?_
      have hlt' := (hc.inside k'.1 (hr k' hk')).ne
      rw [owner_takeOver_singleton hc, ho]
      split <;> simp_all
    rw [hdue, Plan.stack_cons]
    exact ⟨plan', hq, hq'⟩
  case isFalse ho =>
    -- Nothing changes for another component, as `k` was not due there.
    rw [if_neg ho] at hq'
    refine r h hh plan' hp' q' ?_
    have hdue : c.due (c.owner h) (k :: rest) = (c.takeOver [k.1] q).due (c.owner h) rest := by
      rw [due, List.filter_cons_of_neg (by simpa using Ne.symm ho), due]
      congr 1
      refine List.filter_congr fun k' hk' => decide_eq_decide.mpr ?_
      have hlt' := (hc.inside k'.1 (hr k' hk')).ne
      rw [owner_takeOver_singleton hc]
      split
      case isTrue he => exact iff_of_false (fun hx => ho (hx ▸ he)) hlt.symm
      case isFalse => rfl
    rwa [hdue]

theorem selectWithin_result (hn : d.narrowing = false) (hp : c.StandsFor k.1 plan) :
    Meets (fun _ => True) (c.selectWithin k) d fun c' d' =>
      ∃ q, Plan.selecting (.join k.2) plan = .ok q ∧ c' = c.takeOver [k.1] q ∧
        d' = d.releaseJoin k.2 := by
  refine (selectWithin_takeOver (.inl ⟨plan, hp⟩) fun _ _ _ _ => trivial).mono ?_
  rintro _ d' ⟨rfl, plan', q, hp', hq, rfl⟩
  obtain rfl := hp.unique hp'
  have hn' : (d.releaseJoin k.2).narrowing = false := (Demand.narrowing_releaseAll ..).trans hn
  exact ⟨q, hq, by rw [Demand.narrowed, if_pos hn'], rfl⟩

structure Ripened (P : Plan Relation → Prop) (leaves : List Handle) (c : Components)
    (ks : List Candidate) (d : Demand) (c' : Components) (ls : List Candidate) (d' : Demand) :
    Prop where
  keeps       : c.Keeps c'
  queue       : ls = ks.filter c.isOutstanding
  outstanding : ∀ k ∈ ls, c'.isOutstanding k
  plans       : ∀ h ∈ leaves, ∀ plan, c'.StandsFor h plan → P plan
  demand      : d' = d.releaseAll
    ((sortByText (·.2.text) (ks.filterMap c.collapsed?)).flatMap (·.2.attributes))

-- The components while they are settled, with the predicates in `rest` still to be applied. What has
-- been released and what is going to be released are always the same together.
structure Ripening (P : Plan Relation → Prop) (leaves : List Handle) (kept : Multiset String)
    (budget : Multiset Part) (c : Components) (ks : List Candidate) (d : Demand)
    (rest : List (Handle × JoinPredicate)) (c' : Components) (d' : Demand) : Prop where
  underway : Underway False (fun _ => True) leaves false kept budget c'
    (rest.map within ++ ks.filter c.isOutstanding) d'
  keeps    : c.Keeps c'
  ripens   : c'.Ripens P leaves rest
  demand   : d'.releaseAll (rest.flatMap (·.2.attributes)) = d.releaseAll
    ((sortByText (·.2.text) (ks.filterMap c.collapsed?)).flatMap (·.2.attributes))

namespace Ripening

theorem start (u : Underway False (fun _ => True) leaves false kept budget c ks d)
    (r : c.Ripens P leaves (sortByText (·.2.text) (ks.filterMap c.collapsed?))) :
    Ripening P leaves kept budget c ks d (sortByText (·.2.text) (ks.filterMap c.collapsed?)) c d where
  underway := (settled_underway u .free).perm (c.settled_perm ks)
  keeps    := .refl c
  ripens   := r
  demand   := rfl

theorem select {d' : Demand} (g : Ripening P leaves kept budget c ks d (k :: rest) c' d') :
    Meets (fun _ => True) (c'.selectWithin k) d' (Ripening P leaves kept budget c ks d rest) := by
  have u := g.underway
  have side {k'} (hk : k' ∈ k :: rest) : c'.owner k'.1 ∈ c'.roots leaves :=
    u.sides (within k') (List.mem_append_left _ (List.mem_map_of_mem hk)) k'.1
      (within k').left_mem_sides
  obtain ⟨plan, hp, _⟩ := u.standsFor (side (List.mem_cons_self ..))
  refine ((selectWithin_meets u .free False.elim).and (selectWithin_result u.narrows hp)).mono ?_
  rintro _ _ ⟨⟨u', _⟩, q, hq, rfl, rfl⟩
  obtain ⟨s, hs, rfl⟩ := Plan.selecting_eq_ok_iff.mp hq
  exact {
    underway := u'
    keeps    := g.keeps.trans (keeps_takeOver u.formed hp (Relation.names_select hs) rfl)
    ripens   := g.ripens.step u.formed u.inside
      (fun k' hk' => u.lt_size (side (List.mem_cons_of_mem _ hk'))) hp hq
    demand   := (List.foldl_append ..).symm.trans g.demand
  }

theorem ripened {d' : Demand} (g : Ripening P leaves kept budget c ks d [] c' d')
    (u : Underway False (fun _ => True) leaves false kept budget c ks d) :
    Ripened P leaves c ks d c' (ks.filter c.isOutstanding) d' where
  keeps           := g.keeps
  queue           := rfl
  outstanding k hk := by
    obtain ⟨hk, ho⟩ := List.mem_filter.mp hk
    exact g.keeps.isOutstanding (u.lt_size (u.sides k hk _ k.left_mem_sides))
      (u.lt_size (u.sides k hk _ k.right_mem_sides)) ho
  plans _ hh _ hp := g.ripens.nil hh hp
  demand          := g.demand

end Ripening

-- The selections of a first round leave nothing to do for a second one.
theorem settle_go_ripens (fuel : Nat) (hf : ks.length ≤ fuel)
    (u : Underway False (fun _ => True) leaves false kept budget c ks d)
    (r : c.Ripens P leaves (sortByText (·.2.text) (ks.filterMap c.collapsed?))) :
    Meets (fun _ => True) (settle.go fuel c ks) d fun s d' => Ripened P leaves c ks d s.1 s.2 d' := by
  have g := Ripening.start u r
  cases fuel
  case zero =>
    obtain rfl := List.length_eq_zero_iff.mp (Nat.le_zero.mp hf)
    rw [List.filterMap_nil, sortByText_nil] at g
    exact Run.meets_pure (g.ripened u)
  case succ fuel =>
    rw [settle.go]
    split
    case h_1 hc =>
      rw [hc, sortByText_nil] at g
      exact Run.meets_pure (g.ripened u)
    case h_2 =>
      refine (Run.meets_foldlM (fun _ _ _ _ => Ripening.select) _ c d g).bind fun c' d' g => ?_
      have s := g.ripened u
      rw [settle_go_of_outstanding fuel s.outstanding]
      exact Run.meets_pure s

end QueryPlanner.Components
