import QueryPlanner.Proofs.Repetition.Leaves

namespace QueryPlanner

open Run (Meets)
open Unlimited

variable {j p : JoinPredicate} {qs rest : List JoinPredicate} {l r top q : Plan Relation}
variable {d d' : Demand} {h : Handle} {n : String} {c c' : Components} {ks : List Candidate}
variable {kept : Multiset String} {budget : Multiset Part} {options : Options} {root : Operator}
variable {plan : Plan Relation}

namespace Joint

theorem relates (J : Joint j qs l r top q) (hp : p ∈ j :: qs) :
    l.output.has p.left ∧ r.output.has p.right ∨ r.output.has p.left ∧ l.output.has p.right := by
  cases List.mem_cons.mp hp
  case inl he => exact .inl (he ▸ ⟨J.leftSide, J.rightSide⟩)
  case inr hp =>
    obtain ⟨x, y, _, ⟨rfl, rfl⟩ | ⟨rfl, rfl⟩, hl, hr, _⟩ := J.rivals p hp
    · exact .inl ⟨hl, hr⟩
    · exact .inr ⟨hl, hr⟩

theorem spanned {x : Plan Relation} (J : Joint j qs l r top q) (hp : p ∈ j :: qs) (hx : x ∈ [l, r]) :
    ¬(x.output.has p.left ∧ x.output.has p.right) := by
  intro ⟨hl, hr⟩
  have apart {n} (hl : l.output.has n) (hr : r.output.has n) : False := by
    simp [J.apart n hl] at hr
  obtain ⟨hl', hr'⟩ | ⟨hl', hr'⟩ := J.relates hp
  · obtain rfl | rfl := List.mem_pair.mp hx
    · exact apart hr hr'
    · exact apart hl' hl
  · obtain rfl | rfl := List.mem_pair.mp hx
    · exact apart hl hl'
    · exact apart hr' hr

theorem has_iff (J : Joint j qs l r top q) : q.output.has n ↔ l.output.has n ∨ r.output.has n := by
  obtain ⟨s, hs, htop⟩ := Plan.joining_eq_ok_iff.mp J.joined
  rw [Plan.has_of_stack J.stacked, htop, Plan.output, Plan.note,
    Relation.has_append (Relation.names_join hs), Bool.or_eq_true]

theorem isPlaceholder_eq (J : Joint j qs l r top q) : q.isPlaceholder = false := by
  obtain ⟨s, _, rfl⟩ := Plan.joining_eq_ok_iff.mp J.joined
  obtain ⟨ns, rfl, -⟩ := Plan.stack_eq_selects J.stacked
  cases ns <;> rfl

end Joint

namespace Components

@[simp]
theorem provides_left (l r : Plan Relation) (n : String) :
    (ofLeaves [l, r]).provides n 0 = l.output.has n :=
  (standsFor_ofLeaves.mpr rfl).provides_eq

@[simp]
theorem provides_right (l r : Plan Relation) (n : String) :
    (ofLeaves [l, r]).provides n 1 = r.output.has n :=
  (standsFor_ofLeaves.mpr rfl).provides_eq

def between (l : Plan Relation) (p : JoinPredicate) : Candidate :=
  if l.output.has p.left then
    { left := 0, right := 1, predicate := some p }
  else
    { left := 1, right := 0, predicate := some p }

theorem predicate_between : (between l p).predicate = some p := by
  unfold between
  split <;> rfl

theorem candidate?_eq_between (J : Joint j qs l r top q) (hp : p ∈ j :: qs) :
    (ofLeaves [l, r]).candidate? [0, 1] p = some (between l p) := by
  have apart {n} (hl : l.output.has n) : r.output.has n = false := J.apart n hl
  have apart' {n} (hr : r.output.has n) : l.output.has n = false := J.apart.symm n hr
  unfold candidate? pairFor? between
  obtain ⟨hl, hr⟩ | ⟨hr, hl⟩ := J.relates hp
  · have hs : p.isSameName = false := by
      simp only [JoinPredicate.isSameName, decide_eq_false_iff_not]
      exact fun he => by simp [he ▸ apart hl] at hr
    simp [hs, hl, hr, apart hl, apart' hr]
  · have hs : p.isSameName = false := by
      simp only [JoinPredicate.isSameName, decide_eq_false_iff_not]
      exact fun he => by simp [he ▸ apart' hr] at hl
    simp [hs, hl, hr, apart hl, apart' hr]

theorem candidate?_eq_none (J : Joint j qs l r top q)
    (hp : ¬(q.output.has p.left ∧ q.output.has p.right)) :
    (ofLeaves [l, r]).candidate? [0, 1] p = none := by
  have none_has {n} (hn : q.output.has n = false) : l.output.has n = false ∧ r.output.has n = false := by
    have := J.has_iff (n := n)
    simpa [hn] using this
  unfold candidate? pairFor?
  by_cases hl : q.output.has p.left
  case neg =>
    obtain ⟨h₁, h₂⟩ := none_has (Bool.eq_false_iff.mpr hl)
    simp [h₁, h₂]
  case pos =>
    have hr : q.output.has p.right = false := Bool.eq_false_iff.mpr fun hr => hp ⟨hl, hr⟩
    have hs : p.isSameName = false := by
      simp only [JoinPredicate.isSameName, decide_eq_false_iff_not]
      exact fun he => by simp [he ▸ hl] at hr
    obtain ⟨h₁, h₂⟩ := none_has hr
    simp [hs, h₁, h₂]

theorem built?_between {x y s : Plan Relation} (ha : l.Apart r)
    (hxy : x = l ∧ y = r ∨ x = r ∧ y = l) (hx : x.output.has p.left)
    (hs : Plan.joining p x y = .ok s) : (ofLeaves [l, r]).built? (between l p) = some s := by
  have ho : Plan.joining (oriented p x) x y = .ok s := by
    rwa [oriented, hx, Bool.not_true, Bool.false_and, if_neg Bool.false_ne_true]
  rw [built?_eq_some_iff]
  obtain ⟨rfl, rfl⟩ | ⟨rfl, rfl⟩ := hxy
  · rw [between, if_pos hx]
    exact ⟨x, y, standsFor_ofLeaves.mpr rfl, standsFor_ofLeaves.mpr rfl, .inr ⟨p, rfl, ho⟩⟩
  · rw [between, if_neg (by simp [ha.symm _ hx])]
    exact ⟨x, y, standsFor_ofLeaves.mpr rfl, standsFor_ofLeaves.mpr rfl, .inr ⟨p, rfl, ho⟩⟩

-- The join that was chosen among its rivals is chosen again.
theorem eq_of_chosen {best : Candidate × Plan Relation} (J : Joint j qs l r top q)
    (ho : options.reorderJoins)
    (ch : (ofLeaves [l, r]).Chosen options ((j :: qs).map (between l)) best) :
    best = (between l j, top) := by
  have hj := built?_between J.apart (.inl ⟨rfl, rfl⟩) J.leftSide J.joined
  have first : FirstLeast ((ofLeaves [l, r]).key options) ((j :: qs).map (between l))
      (between l j) := by
    refine ⟨[], qs.map (between l), rfl, nofun, fun k hk => ?_⟩
    obtain ⟨p, hp, rfl⟩ := List.mem_map.mp hk
    have ⟨x, y, s, hxy, hx, _, hs, hle⟩ := J.rivals p hp
    simp only [key, if_pos ho, price, hj, built?_between J.apart hxy hx hs, Candidate.rank,
      predicate_between]
    simpa [Prod.Lex.toLex_le_toLex] using hle
  have hb := ch.first.unique first
  refine Prod.ext hb (Option.some.inj (ch.built.symm.trans ?_))
  rw [hb, hj]

theorem agenda_of_outstanding (leaves : List Handle) (hk : ks ≠ [])
    (ho : ∀ k ∈ ks, c.isOutstanding k) : c.agenda leaves ks = pure (c, ks) := by
  have hsettle : c.settle ks = pure (c, ks) := settle_go_of_outstanding _ ho
  rw [agenda, hsettle, pure_bind]
  simp [hk]

theorem isOutstanding_between (J : Joint j qs l r top q) (p : JoinPredicate) :
    (ofLeaves [l, r]).isOutstanding (between l p) := by
  have hl : (ofLeaves [l, r]).isEliminated 0 = false :=
    (standsFor_ofLeaves.mpr rfl).isEliminated_eq.trans J.leftPresent
  have hr : (ofLeaves [l, r]).isEliminated 1 = false :=
    (standsFor_ofLeaves.mpr rfl).isEliminated_eq.trans J.rightPresent
  rw [isOutstanding_iff, owner_ofLeaves, owner_ofLeaves]
  unfold between
  split
  · exact ⟨hl, hr, Nat.zero_ne_one⟩
  · exact ⟨hr, hl, Nat.one_ne_zero⟩

def joinedLeaves (l r top : Plan Relation) : Components :=
  (ofLeaves [l, r]).takeOver [0, 1] top

theorem owner_joinedLeaves (hh : h ∈ [0, 1]) : (joinedLeaves l r top).owner h = 2 := by
  rw [joinedLeaves, owner_takeOver (wellFormed_ofLeaves _), if_pos (List.mem_map_of_mem hh)]
  rfl

theorem standsFor_joinedLeaves (hh : h ∈ [0, 1]) : (joinedLeaves l r top).StandsFor h top :=
  standsFor_takeOver (wellFormed_ofLeaves _) (List.mem_map_of_mem hh)

theorem sides_between (l : Plan Relation) (p : JoinPredicate) :
    (between l p).left ∈ [0, 1] ∧ (between l p).right ∈ [0, 1] := by
  unfold between
  split <;> simp

theorem collapsed_joinedLeaves (ht : top.isPlaceholder = false) :
    (qs.map (between l)).filterMap (joinedLeaves l r top).collapsed? =
      qs.map fun p => ((between l p).left, p) := by
  rw [List.filterMap_map, ← List.filterMap_eq_map]
  refine List.filterMap_congr fun p _ => ?_
  have ⟨hl, hr⟩ := sides_between l p
  refine collapsed?_eq_some_iff.mpr ⟨?_, ?_, rfl, predicate_between⟩
  · exact (standsFor_joinedLeaves hl).isEliminated_eq.trans ht
  · rw [owner_joinedLeaves hl, owner_joinedLeaves hr]

theorem sorted_joinedLeaves (J : Joint j qs l r top q) :
    sortByText (·.2.text) ((qs.map (between l)).filterMap (joinedLeaves l r top).collapsed?) =
      qs.map fun p => ((between l p).left, p) := by
  have ht : top.isPlaceholder = false := by
    obtain ⟨s, _, rfl⟩ := Plan.joining_eq_ok_iff.mp J.joined
    rfl
  rw [collapsed_joinedLeaves ht]
  exact InTextOrder.sortByText_eq (List.pairwise_map.mpr J.order)

theorem ripens_joinedLeaves (J : Joint j qs l r top q) :
    (joinedLeaves l r top).Ripens (· = q) [0, 1]
      (sortByText (·.2.text) ((qs.map (between l)).filterMap (joinedLeaves l r top).collapsed?)) := by
  intro h hh plan hp q' hq'
  obtain rfl := (standsFor_joinedLeaves hh).unique hp
  have hdue : (joinedLeaves l r top).due 2 (qs.map fun p => ((between l p).left, p)) =
      qs.map .join := by
    rw [due, List.filter_eq_self.mpr fun k hk => ?_, List.map_map]
    · rfl
    · obtain ⟨p, _, rfl⟩ := List.mem_map.mp hk
      simp [owner_joinedLeaves (sides_between l p).left]
  rw [sorted_joinedLeaves J, owner_joinedLeaves hh, hdue, J.stacked] at hq'
  exact (Except.ok.inj hq').symm

theorem not_isOutstanding_between (l r top : Plan Relation) (p : JoinPredicate) :
    ¬(joinedLeaves l r top).isOutstanding (between l p) := by
  intro ho
  have ⟨hl, hr⟩ := sides_between l p
  exact (isOutstanding_iff.mp ho).right.right (by rw [owner_joinedLeaves hl, owner_joinedLeaves hr])

theorem live_joinedLeaves (m : (joinedLeaves l r top).Keeps c) (hc : c.WellFormed)
    (hp : c.StandsFor 0 plan) (he : plan.isPlaceholder = false) : c.live [0, 1] = [c.owner 0] := by
  have howner : c.owner 1 = c.owner 0 :=
    (m.owners 1 (by simp [joinedLeaves, ofLeaves]) 0 (by simp [joinedLeaves, ofLeaves])).mpr
      (by rw [owner_joinedLeaves (by simp), owner_joinedLeaves (by simp)])
  have hpresent : c.isEliminated (c.owner 0) = false :=
    (hp.congr (hc.owner_owner 0)).isEliminated_eq.trans he
  simp [live, howner, List.eraseDups_cons, hpresent]

-- Once the leaves are joined, the selections that are due make a joint of them.
theorem reduce_joinedLeaves (J : Joint j qs l r top q) (fuel : Nat)
    (u : Underway False (fun _ => True) [0, 1] false kept budget (joinedLeaves l r top)
      (qs.map (between l)) d) :
    Meets (fun _ => True)
      ((joinedLeaves l r top).reduce options [0, 1] (fuel + 1) (qs.map (between l))) d fun q' d' =>
        q' = q ∧ d' = d.releaseAll (qs.flatMap (·.attributes)) := by
  rw [reduce]
  refine ((agenda_meets .free False.elim u).and (agenda_ripens u (ripens_joinedLeaves J))).bind ?_
  rintro ⟨c, ls⟩ e ⟨⟨u', _⟩, s, hls⟩
  dsimp only at u' s hls ⊢
  obtain ⟨plan, hp, -⟩ := u'.standsFor (owner_mem_roots (List.mem_cons_self ..) : c.owner 0 ∈ _)
  have hlive : c.live [0, 1] = [c.owner 0] := live_joinedLeaves s.keeps u'.formed hp
    (s.plans 0 (List.mem_cons_self ..) plan hp ▸ J.isPlaceholder_eq)
  have hnone : (qs.map (between l)).filter (joinedLeaves l r top).isOutstanding = [] :=
    List.filter_eq_nil_iff.mpr fun k hk => by
      obtain ⟨p, _, rfl⟩ := List.mem_map.mp hk
      exact not_isOutstanding_between l r top p
  rw [hnone, hlive] at hls
  obtain rfl : ls = [] := hls
  refine (finish_holds u'.formed (fun hn => by simp [hlive] at hn) s.plans).mono ?_
  rintro q' _ ⟨rfl, hq'⟩
  refine ⟨hq', s.demand.trans ?_⟩
  rw [sorted_joinedLeaves J, List.flatMap_map]

theorem reduce_joint (J : Joint j qs l r top q) (ho : options.reorderJoins)
    (u : Underway False (fun _ => True) [0, 1] false kept budget (ofLeaves [l, r])
      ((j :: qs).map (between l)) d) :
    Meets (fun _ => True)
      ((ofLeaves [l, r]).reduce options [0, 1] 2 ((j :: qs).map (between l))) d fun q' d' =>
        q' = q ∧ d' = d.releaseAll (j.attributes ++ qs.flatMap (·.attributes)) := by
  have hout : ∀ k ∈ (j :: qs).map (between l), (ofLeaves [l, r]).isOutstanding k := fun k hk => by
    obtain ⟨p, _, rfl⟩ := List.mem_map.mp hk
    exact isOutstanding_between J p
  rw [reduce, agenda_of_outstanding _ (by simp) hout, pure_bind]
  dsimp only [List.map_cons] at u hout ⊢
  refine ((cheapest_meets u .free).and (cheapest_chosen _ options _ _ d)).bind ?_
  rintro best e ⟨⟨he, hb, hb'⟩, _, ch⟩
  obtain rfl := eq_of_chosen J ho ch
  subst he
  have hk : between l j = { left := 0, right := 1, predicate := some j } := if_pos J.leftSide
  have hne := (isOutstanding_iff.mp (hout _ hb)).right.right
  refine ((materialise_meets (u.perm (List.perm_cons_erase hb)) .free False.elim hne hb').and
    (materialise_result u.narrows)).bind ?_
  rintro c e' ⟨⟨u', _⟩, hc, he'⟩
  have hc : c = joinedLeaves l r top := by rw [hc, hk]; rfl
  have he' : e' = e.releaseAll j.attributes := by rw [he', hk]; rfl
  subst hc he'
  rw [List.map_cons, List.erase_cons_head] at u'
  rw [List.erase_cons_head]
  refine (reduce_joinedLeaves J 0 u').mono ?_
  rintro q' d' ⟨hq', rfl⟩
  exact ⟨hq', (Demand.releaseAll_append ..).symm⟩

theorem candidates_joint (J : Joint j qs l r top q)
    (hr : ∀ p ∈ rest, ¬(q.output.has p.left ∧ q.output.has p.right)) :
    (ofLeaves [l, r]).candidates [0, 1] (j :: qs ++ rest) = (j :: qs).map (between l) := by
  have hjs : (j :: qs ++ rest).filterMap ((ofLeaves [l, r]).candidate? [0, 1]) =
      (j :: qs).map (between l) := by
    have hrest : rest.filterMap ((ofLeaves [l, r]).candidate? [0, 1]) = [] :=
      List.filterMap_eq_nil_iff.mpr fun p hp => candidate?_eq_none J (hr p hp)
    rw [List.filterMap_append, hrest, List.append_nil, ← List.filterMap_eq_map]
    exact List.filterMap_congr fun p hp => candidate?_eq_between J hp
  have hk : between l j = { left := 0, right := 1, predicate := some j } := if_pos J.leftSide
  rw [candidates, hjs]
  simp [Candidate.products, hk, Candidate.sides]

theorem filter_pairFor?_joint (J : Joint j qs l r top q)
    (hr : ∀ p ∈ rest, ¬(q.output.has p.left ∧ q.output.has p.right)) :
    (j :: qs ++ rest).filter (fun p => ((ofLeaves [l, r]).pairFor? [0, 1] p).isNone) = rest := by
  have isNone (p : JoinPredicate) : ((ofLeaves [l, r]).pairFor? [0, 1] p).isNone =
      ((ofLeaves [l, r]).candidate? [0, 1] p).isNone := by simp [candidate?]
  rw [List.filter_append, List.filter_eq_nil_iff.mpr, List.filter_eq_self.mpr, List.nil_append]
  · exact fun p hp => by simp [isNone, candidate?_eq_none J (hr p hp)]
  · exact fun p hp => by simp [isNone, candidate?_eq_between J hp]

theorem undecided_joint (J : Joint j qs l r top q)
    (hr : ∀ p ∈ rest, ¬(q.output.has p.left ∧ q.output.has p.right)) :
    ∀ p ∈ j :: qs ++ rest, Undecided [l, r] p := by
  intro p hp
  cases List.mem_append.mp hp
  case inl hp => exact .inr fun x hx => J.spanned hp hx
  case inr hp =>
    refine .inr fun x hx hxs => hr p hp ?_
    rw [J.has_iff, J.has_iff]
    obtain rfl | rfl := List.mem_pair.mp hx
    · exact hxs.imp .inl .inl
    · exact hxs.imp .inr .inr

end Components

open Components

-- The inputs of a joint are joined again when its predicates are pending beside others that do not
-- concern it.
theorem joinOrder_joint (J : Joint j qs l r top q) (ho : options.reorderJoins)
    (y : Yields False (fun _ => True) false kept budget [l, r] d) (hd : d.joins = j :: qs ++ rest)
    (hr : ∀ p ∈ rest, ¬(q.output.has p.left ∧ q.output.has p.right)) :
    Meets (fun _ => True) (joinOrder options root [l, r]) d fun q' d' =>
      q' = q ∧ d' = Demand.releaseAll { d with joins := rest }
        (j.attributes ++ qs.flatMap (·.attributes)) := by
  have tuples : ∀ x ∈ [l, r], 0 < x.tupleCount :=
    List.forall_mem_cons.mpr ⟨J.leftTuples, List.forall_mem_singleton.mpr J.rightTuples⟩
  have opens := opening_of_undecided (F := fun _ => True) (hd ▸ undecided_joint J hr)
    (filter_hasTuples_ofLeaves tuples)
  rw [joinOrder_eq options root (List.cons_ne_nil _ _)]
  refine ((opening_meets .free nofun y).and opens).bind ?_
  rintro _ _ ⟨⟨u, -⟩, rfl, rfl⟩
  have hl : List.range [l, r].length = [0, 1] := rfl
  simp only [hl, hd, candidates_joint J hr, filter_pairFor?_joint J hr] at u ⊢
  exact reduce_joint J ho u

end QueryPlanner
