import QueryPlanner.Proofs.JoinOrder.Carried
import QueryPlanner.Proofs.JoinOrder.Pairing

namespace QueryPlanner

open Run (Meets)
open Unlimited

variable {ν : Type} {G : Plan Relation → Prop} {exact : Prop} {leaves : List Handle} {mode : Bool}
variable {kept : Multiset String} {budget : Multiset Part} {c c' : Components} {ks : List Candidate}
variable {k : Candidate} {p : JoinPredicate} {rest : List JoinPredicate} {h x : Handle} {n : String}
variable {d d' d'' : Demand} {plan q : Plan Relation} {qs : List (Plan Relation)} {options : Options}

namespace Plan

def Composite : Plan ν → Prop
  | scan _ _                     => False
  | select _ _ i | project _ _ i => i.Composite
  | product _ _ _ | join _ _ _ _ => True

def Served (q : Plan Relation) : Prop :=
  0 < q.tupleCount ∨ q.Composite

-- Where plans are combined no relation without tuples takes part, nor one that a selection has left
-- without any.
def Stocked : Plan Relation → Prop
  | scan _ _                     => True
  | select _ _ i | project _ _ i => i.Stocked
  | product _ l r | join _ _ l r => (l.Served ∧ r.Served) ∧ l.Stocked ∧ r.Stocked

theorem Composite.narrowed (h : q.Composite) (d : Demand) :
    d.narrowed q = .nothing ∨ (d.narrowed q).Composite := by
  have hq := d.narrowed_narrowed q
  generalize d.narrowed q = q' at hq
  cases hq
  case kept    => exact .inr h
  case emptied => exact .inl rfl
  case cut     => cases q <;> exact .inr h

namespace Stocked

theorem narrowed (h : q.Stocked) (d : Demand) : (d.narrowed q).Stocked := by
  have hq := d.narrowed_narrowed q
  generalize d.narrowed q = q' at hq
  cases hq
  case kept    => exact h
  case emptied => trivial
  case cut     => cases q <;> exact h

theorem ensureProjection (h : q.Stocked) (names : List String) :
    (ensureProjection names q).Stocked := by
  unfold QueryPlanner.ensureProjection
  split
  case h_1 => split <;> exact h
  case h_2 => exact h

theorem of_stack {r : NamedRelation} {ps : List Predicate} (h : stack ps (.scanning r) = .ok q) :
    q.Stocked := by
  obtain ⟨ns, rfl, -⟩ := stack_eq_selects h
  clear h
  induction ns
  case nil         => trivial
  case cons _ _ hi => exact hi

end Stocked
end Plan

namespace Components

theorem Combined.exists_of_within (h' : c.Combined (within (h, p)) q) :
    ∃ plan, c.StandsFor h plan ∧ Plan.selecting (.join p) plan = .ok q := by
  cases h'
  case built ho _         => exact absurd rfl (isOutstanding_iff.mp ho).right.right
  case selected hr _ hp hq =>
    cases hr
    exact ⟨_, hp, hq⟩

theorem Round.provides (r : c.Round (within (h, p)) q d c' d') (hx : x < c.plans.size)
    (hn : c'.provides n x) : c.provides n x := by
  rw [provides_iff] at hn ⊢
  obtain ⟨q', hq', hn⟩ := hn
  by_cases hs : c.Sides (within (h, p)) x
  case neg => exact ⟨q', (r.others x hx hs q').mp hq', hn⟩
  case pos =>
    obtain rfl := (r.taken x hx hs).unique hq'
    obtain ⟨plan, hp, hq⟩ := r.combined.exists_of_within
    exact ⟨plan, hp.congr (or_self_iff.mp hs), d'.has_of_narrowed_selecting hq hn⟩

structure Sorting (leaves : List Handle) (rest : List JoinPredicate) (c : Components) (d : Demand) :
    Prop where
  plans   : c.Each Plan.Stocked leaves
  pending : ∃ done, d.joins.Perm (rest ++ done) ∧ ∀ p ∈ done, c.LeavesOpen leaves p

namespace Sorting

theorem skip (s : Sorting leaves (p :: rest) c d) (hp : c.LeavesOpen leaves p) :
    Sorting leaves rest c d :=
  ⟨s.plans, Screened.skip s.pending hp⟩

theorem step (s : Sorting leaves (p :: rest) c d)
    (u : Underway exact G leaves mode kept budget c [within (h, p)]
      { d with joins := d.joins.erase p })
    (r : c.Round (within (h, p)) q { d with joins := d.joins.erase p } c' d') :
    Sorting leaves rest c' d' where
  plans   := by
    obtain ⟨plan, hp, hq⟩ := r.combined.exists_of_within
    obtain ⟨o, _, rfl⟩ := Plan.selecting_eq_ok_iff.mp hq
    have hs : plan.Stocked :=
      s.plans.of_roots (u.sides _ (List.mem_singleton_self _) h (List.mem_cons_self ..)) hp
    exact s.plans.round r u.inside (.narrowed (q := .select o _ plan) hs d') fun _ _ _ _ _ => id
  pending := by
    have hj : d'.joins = d.joins.erase p := by
      rw [r.demand]
      exact congrArg Demand.joins (Demand.releaseAll_eq ..)
    exact Screened.place s.pending hj fun _ x hx => r.provides (u.inside x hx)

end Sorting

structure Opening (leaves : List Handle) (c : Components) (ks : List Candidate) (d : Demand) : Prop where
  distinct : leaves.Nodup
  apart    : ∀ x, c.owner x = x
  plans    : c.Each (fun q => q.Stocked ∧ 0 < q.tupleCount) leaves
  pending  : ∀ p ∈ d.joins, c.LeavesOpen leaves p
  related  : ∀ k ∈ ks, k.predicate.isSome → k.left ≠ k.right

structure Supplied (leaves : List Handle) (c : Components) (ks : List Candidate) : Prop where
  plans     : c.Each (fun q => q.Stocked ∧ (q.isPlaceholder ∨ q.Served)) leaves
  collapsed : ∀ k ∈ ks, k.predicate.isSome → c.owner k.left = c.owner k.right →
    ∀ q, c.StandsFor k.left q → q.Composite

theorem Opening.claim (o : Opening leaves c ks d) (hk : c.pairFor? leaves p = some (h, x))
    (hp : p ∈ d.joins) : Opening leaves c ({ left := h, right := x, predicate := some p } :: ks)
      { d with joins := d.joins.erase p } :=
  { o with
    pending := fun p hp => o.pending p (List.mem_of_mem_erase hp)
    related := List.forall_mem_cons.mpr
      ⟨fun _ => pairFor?_apart o.distinct hk (o.pending p hp), o.related⟩ }

theorem Opening.supplied (o : Opening leaves c ks d) : Supplied leaves c ks where
  plans h hh q hq           := (o.plans h hh q hq).imp_right fun ht => .inr (.inl ht)
  collapsed k hk hp ho _ _  := by
    rw [o.apart, o.apart] at ho
    exact absurd ho (o.related k hk hp)

theorem Supplied.perm {ls : List Candidate} (hp : ks.Perm ls) (s : Supplied leaves c ks) :
    Supplied leaves c ls :=
  ⟨s.plans, fun k hk => s.collapsed k (hp.mem_iff.mpr hk)⟩

theorem Combined.composite (h : c.Combined k plan) (s : Supplied leaves c (k :: ks)) :
    plan.Composite := by
  cases h
  case built hb =>
    cases hb
    case product => trivial
    case join hj =>
      obtain ⟨_, _, rfl⟩ := Plan.joining_eq_ok_iff.mp hj
      trivial
  case selected hr ho hp hq =>
    obtain ⟨_, _, rfl⟩ := Plan.selecting_eq_ok_iff.mp hq
    have hc := s.collapsed k (List.mem_cons_self ..) (by simp [hr]) ho _ hp
    exact hc

theorem Combined.stocked (h : c.Combined k plan)
    (u : Underway exact G leaves mode kept budget c (k :: ks) d) (s : Supplied leaves c (k :: ks)) :
    plan.Stocked := by
  have side {x q} (hx : x ∈ k.sides) (hq : c.StandsFor x q) :=
    s.plans.of_roots (u.sides k (List.mem_cons_self ..) x hx) hq
  -- What is gone is not combined any more.
  have served {x q} (hx : x ∈ k.sides) (he : c.isEliminated x = false) (hq : c.StandsFor x q) :
      q.Served :=
    (side hx hq).right.resolve_left (Bool.eq_false_iff.mp (hq.isEliminated_eq.symm.trans he))
  have hl := k.left_mem_sides
  have hr := k.right_mem_sides
  cases h
  case built ho hb =>
    obtain ⟨hel, her, _⟩ := isOutstanding_iff.mp ho
    cases hb
    case product l r _ pl pr =>
      exact ⟨⟨served hl hel pl, served hr her pr⟩, (side hl pl).left, (side hr pr).left⟩
    case join l r _ _ pl pr hj =>
      obtain ⟨_, _, rfl⟩ := Plan.joining_eq_ok_iff.mp hj
      exact ⟨⟨served hl hel pl, served hr her pr⟩, (side hl pl).left, (side hr pr).left⟩
  case selected pl hq =>
    obtain ⟨_, _, rfl⟩ := Plan.selecting_eq_ok_iff.mp hq
    exact (side hl pl).left

theorem Round.supplied (r : c.Round k plan d c' d')
    (u : Underway exact G leaves mode kept budget c (k :: ks) d)
    (u' : Underway exact G leaves mode kept budget c' ks d') (s : Supplied leaves c (k :: ks)) :
    Supplied leaves c' ks := by
  have hc := (r.combined.composite s).narrowed d'
  refine ⟨s.plans.round r u.inside ⟨(r.combined.stocked u s).narrowed d', ?_⟩ fun _ _ _ _ _ => id, ?_⟩
  · exact hc.imp (fun he => by rw [he]; rfl) .inr
  · intro k' hk' hp ho q hq
    have size {x} (hx : x ∈ k'.sides) := u.lt_size (u.sides k' (List.mem_cons_of_mem _ hk') x hx)
    have hl : k'.left < c.plans.size := size k'.left_mem_sides
    have hr : k'.right < c.plans.size := size k'.right_mem_sides
    by_cases hs : c.Sides k k'.left
    case pos =>
      obtain rfl := (r.taken k'.left hl hs).unique hq
      obtain ⟨p, hp⟩ := Option.isSome_iff_exists.mp hp
      have hn := hq.has (u'.provided k' hk' p hp).left
      refine hc.resolve_left fun he => ?_
      rw [he] at hn
      cases hn
    case neg =>
      have ho := ((r.owners _ hl _ hr).mp ho).resolve_right fun hb => hs hb.left
      exact s.collapsed k' (List.mem_cons_of_mem _ hk') hp ho q ((r.others k'.left hl hs q).mp hq)

theorem Supplied.settle (s : Supplied leaves c ks) : Supplied leaves c (c.settled ks) where
  plans     := s.plans
  collapsed := by
    intro k hk hp ho
    obtain hk | ⟨k', hk', p, hp', ho', rfl⟩ := mem_settled hk
    · exact s.collapsed k hk hp ho
    · exact s.collapsed k' hk' (by simp [hp']) ho'

theorem supplied_carried (leaves : List Handle) :
    Carried exact G leaves mode kept budget fun c ks _ => Supplied leaves c ks where
  perm          := Supplied.perm
  products hn s := by
    refine ⟨s.plans, fun k hk => (List.mem_append.mp hk).elim (s.collapsed k) fun hk hp => ?_⟩
    simp [hn k hk] at hp
  settle _ s    := s.settle
  round u s r u' := r.supplied u u' s

end Components

open Components

theorem joinOrder_stocked {root : Operator} (y : Yields False (fun _ => True) mode kept budget qs d)
    (hq : ∀ q ∈ qs, q.Stocked) :
    Meets (fun _ => True) (joinOrder options root qs) d fun q _ => q.Stocked := by
  refine joinOrder_carries (H := Opening) .free False.elim (fun _ o => o.claim) ?perm
    Opening.supplied supplied_carried y ?start ?finished (fun _ => trivial)
  case perm =>
    intro leaves c ks ls d hp o
    exact { o with related := fun k hk => o.related k (hp.mem_iff.mpr hk) }
  case finished =>
    rintro leaves c d q _ s (rfl | ⟨h, hh, hp⟩)
    · trivial
    · exact (s.plans h hh q hp).left
  case start =>
    have s : Sorting (List.range qs.length) (sortByText JoinPredicate.text d.joins) (ofLeaves qs) d := {
      plans   := fun h _ q hp => hq q (List.mem_of_getElem? (standsFor_ofLeaves.mp hp))
      pending := Screened.start ..
    }
    refine ((selfJoins_meets .free False.elim (.ofLeaves y) (owner_ofLeaves qs)).and
      (selfJoins_carries .free False.elim Sorting.skip ?_ (.ofLeaves y) (owner_ofLeaves qs) s)).mono ?_
    · rintro p rest c d h q c' _ d' s _ rfl u r
      exact s.step u r
    · rintro c d' ⟨⟨u, ho⟩, s⟩
      -- The search starts with the leaves that have tuples.
      have hp := Screened.leavesOpen s.pending
      have sub {x} (hx : x ∈ (List.range qs.length).filter c.hasTuples) := List.mem_filter.mp hx
      exact {
        distinct := List.nodup_range.filter _
        apart    := ho
        plans    := by
          intro h hh q hp
          obtain ⟨q', hq', ht⟩ := hasTuples_iff.mp (sub hh).right
          exact ⟨s.plans h (sub hh).left q hp, hq'.unique hp ▸ ht⟩
        pending  := fun p hm => (hp p hm).imp_right fun ho x hx => ho x (sub hx).left
        related  := by simp
      }

theorem steps_stocked (options : Options) :
    Reshaping.Steps options (fun _ => True) (fun _ => True) (fun _ _ => True) Plan.Stocked where
  defer _ _                   := trivial
  enter _ _                   := trivial
  scan {_ d r} _ _            := by
    refine (placeScan_result r d).mono ?_
    rintro _ d' ⟨⟨top, htop, rfl⟩, _⟩
    exact ⟨(Plan.Stocked.of_stack htop).narrowed d', trivial⟩
  project {_ d input names} h := by
    refine Run.meets_demand_bind <| Run.meets_modify_bind <| h.bind fun q d' hq => ?_
    refine (narrow_result q d').bind ?_
    rintro _ _ ⟨rfl, rfl⟩
    exact Run.meets_modify_bind <| Run.meets_pure
      ⟨(hq.left.narrowed _).ensureProjection names, trivial⟩
  search y _ hq               := (joinOrder_stocked y hq).mono fun _ _ h => ⟨h, trivial⟩

-- In the result a plan without tuples is combined with others only if something was combined in it. A
-- relation without tuples, and one that selections have left without any, takes no part.
theorem optimise_stocked {plan : Plan ν} {o : Outcome (Plan Relation)}
    (h : optimise options plan = .ok o) : o.value.Stocked := by
  have hs : Meets (fun _ => True) (reshape options plan) {} fun q _ => q.Stocked ∧ True :=
    (Reshaping.ofPlan_keeps (steps_stocked options) .free plan (fun _ _ => trivial)
      Demand.covers_empty trivial).left
  obtain ⟨r, hr, ⟨_, rfl⟩ | ⟨_, rfl⟩⟩ := optimise_eq_ok_iff.mp h
  · have hq := (hs.elim hr).left
    exact hq
  · trivial

def barrenJoin : Plan Unit :=
  .select () (.join { occurrence := 0, left := "a", right := "b" }) <|
  .product ()
    (.product ()
      (.scan () { name := "r", statistics := .of 4 [⟨"a", 0⟩] })
      (.scan () { name := "s", statistics := .of 3 [⟨"b", 0⟩] }))
    (.scan () { name := "t", statistics := .of 2 [⟨"c", 1⟩] })

example : (optimise {} barrenJoin).toOption.map
    (fun o => (o.value.text, o.value.inputs.map Plan.tupleCount)) =
    some ("(t) TIMES ((r) JOIN [a=b] (s))", [2, 0]) := by
  cbv

end QueryPlanner
