import QueryPlanner.Proofs.JoinOrder.Mirror
import QueryPlanner.Proofs.Repetition.Settling

namespace QueryPlanner

open Candidate (predicates)
open Run (Meets)
open Unlimited

def Plan.Composed (q : Plan Relation) : Prop :=
  (∀ f ∈ q.factors, f.Tidy) → ∀ f ∈ q.factors, Steady f

theorem Steady.composed {q : Plan Relation} (h : Steady q) : q.Composed :=
  fun _ _ hf => List.mem_singleton.mp (h.factors_eq ▸ hf) ▸ h

theorem Plan.Composed.steady {q : Plan Relation} (h : q.Composed) (ht : q.Tidy) : Steady q := by
  have hq := ht.factors_eq
  exact h (by simpa [hq] using ht) q (by simp [hq])

theorem composed_nothing : Plan.nothing.Composed :=
  (Steady.scanning _).composed

section Composed

variable {qs : List JoinPredicate} {j : JoinPredicate} {l r top q : Plan Relation}

theorem composed_product (hl : l.Composed) (hr : r.Composed)
    (hq : Plan.stack (qs.map .join) (.multiplying l r) = .ok q) : q.Composed := by
  intro ht
  cases qs
  case nil =>
    obtain rfl := Plan.stack_nil.mp hq
    have ⟨htl, htr⟩ := List.forall_mem_append.mp ht
    exact List.forall_mem_append.mpr ⟨hl htl, hr htr⟩
  case cons =>
    have hf := Plan.factors_of_stack hq (List.cons_ne_nil _ _)
    exact ((ht q (by simp [hf])).of_stack hq).elim

theorem composed_join (hl : l.Composed) (hr : r.Composed) (hl' : l.isPlaceholder = false)
    (hr' : r.isPlaceholder = false) (ha : l.Apart r)
    (hjl : l.output.has j.left) (hjr : r.output.has j.right) (hj : Plan.joining j l r = .ok top)
    (hqs : ∀ p ∈ qs, Rival l r top j p) (ho : InTextOrder JoinPredicate.text qs)
    (hq : Plan.stack (qs.map .join) top = .ok q) : q.Composed := by
  have ⟨s, _, htop⟩ := Plan.joining_eq_ok_iff.mp hj
  have hf : q.factors = [q] := by
    cases qs
    case nil  => rw [Plan.stack_nil.mp hq, htop]; rfl
    case cons => exact Plan.factors_of_stack hq (List.cons_ne_nil _ _)
  intro ht
  have ht : (Plan.join s j l r).Tidy := htop ▸ (ht q (by simp [hf])).of_stack hq
  have ⟨⟨htl, hl''⟩, htr, hr''⟩ := ht
  rw [hf, List.forall_mem_singleton]
  exact .join (hl.steady hl'') (hr.steady hr'') ⟨htl, htr, hl', hr', ha, hjl, hjr, hj, hqs, ho, hq⟩

end Composed

namespace Components

variable {leaves : List Handle} {kept : Multiset String} {budget : Multiset Part}
variable {c c' : Components} {k : Candidate} {ks ls : List Candidate} {d : Demand} {h t : Handle}
variable {plan q l r : Plan Relation} {p j : JoinPredicate} {P : Plan Relation → Prop}
variable {options : Options} {best : Candidate × Plan Relation}

def Apart (c : Components) (leaves : List Handle) : Prop :=
  ∀ x ∈ leaves, ∀ y ∈ leaves, c.owner x ≠ c.owner y → ∀ n, c.provides n x → c.provides n y = false

theorem Apart.of_roots (ap : c.Apart leaves) {x y : Handle} (hx : c.owner x ∈ c.roots leaves)
    (hy : c.owner y ∈ c.roots leaves) (hxy : c.owner x ≠ c.owner y) {n : String}
    (hn : c.provides n x) : c.provides n y = false := by
  have ⟨x', hx', hox⟩ := List.mem_map.mp (List.mem_toFinset.mp hx)
  have ⟨y', hy', hoy⟩ := List.mem_map.mp (List.mem_toFinset.mp hy)
  rw [← provides_congr hox] at hn
  rw [← provides_congr hoy]
  exact ap x' hx' y' hy' (by rwa [hox, hoy]) n hn

theorem Apart.keeps (ap : c.Apart leaves) (m : c.Keeps c') (hl : ∀ h ∈ leaves, h < c.plans.size) :
    c'.Apart leaves := by
  intro x hx y hy hxy n hn
  rw [m.provides n x (hl x hx)] at hn
  rw [m.provides n y (hl y hy)]
  exact ap x hx y hy ((m.owners x (hl x hx) y (hl y hy)).not.mp hxy) n hn

theorem Apart.plans (ap : c.Apart leaves) {x y : Handle} (hx : c.owner x ∈ c.roots leaves)
    (hy : c.owner y ∈ c.roots leaves) (hxy : c.owner x ≠ c.owner y) (hl : c.StandsFor x l)
    (hr : c.StandsFor y r) : l.Apart r := fun _ hn => by
  rw [← hl.provides_eq] at hn
  rw [← hr.provides_eq, ap.of_roots hx hy hxy hn]

theorem Built.has_iff (b : c.Built k plan) {n : String} :
    plan.output.has n ↔ c.provides n k.left ∨ c.provides n k.right := by
  have {l r : Plan Relation} (hl : c.StandsFor k.left l) (hr : c.StandsFor k.right r)
      (ho : plan.output.names = l.output.names ++ r.output.names) :
      plan.output.has n ↔ c.provides n k.left ∨ c.provides n k.right := by
    rw [Relation.has_append ho, Bool.or_eq_true, hl.provides_eq, hr.provides_eq]
  cases b
  case product hl hr => exact this hl hr (Relation.names_product ..)
  case join hl hr hj =>
    obtain ⟨s, hs, rfl⟩ := Plan.joining_eq_ok_iff.mp hj
    exact this hl hr (Relation.names_join hs)

theorem Apart.takeOver (ap : c.Apart leaves) (hc : c.WellFormed)
    (hl : ∀ h ∈ leaves, h < c.plans.size) (hk : ∀ h ∈ k.sides, c.owner h ∈ c.roots leaves)
    (hb : c.Built k plan) : (c.takeOver [k.left, k.right] plan).Apart leaves := by
  -- The plan of the new component has the names of both, and none of these is in a third one.
  have apart {x y n} (hx : x ∈ leaves) (hy : c.owner y ∈ c.roots leaves)
      (hxy : c.owner x ≠ c.owner y) (hn : c.provides n x) : ¬c.provides n y := by
    rw [ap.of_roots (owner_mem_roots hx) hy hxy hn]
    exact Bool.false_ne_true
  have hkl := hk k.left (List.mem_cons_self ..)
  have hkr := hk k.right (List.mem_cons_of_mem _ (List.mem_singleton_self _))
  intro x hx y hy hxy n hn
  rw [← Bool.not_eq_true, provides_takeOver hc (hl y hy)]
  rw [provides_takeOver hc (hl x hx)] at hn
  rw [owner_takeOver hc, owner_takeOver hc] at hxy
  split at hxy
  case isTrue hox =>
    rw [if_pos hox, hb.has_iff] at hn
    split at hxy
    case isTrue      => exact absurd rfl hxy
    case isFalse hoy =>
      rw [if_neg hoy]
      simp only [List.map_cons, List.map_nil, List.mem_pair, not_or] at hoy
      intro hny
      exact hn.elim (apart hy hkl hoy.left hny) (apart hy hkr hoy.right hny)
  case isFalse hox =>
    rw [if_neg hox] at hn
    simp only [List.map_cons, List.map_nil, List.mem_pair, not_or] at hox
    split at hxy
    case isTrue hoy =>
      rw [if_pos hoy, hb.has_iff]
      exact not_or_intro (apart hx hkl hox.left hn) (apart hx hkr hox.right hn)
    case isFalse hoy =>
      rw [if_neg hoy]
      exact apart hx (owner_mem_roots hy) hxy hn

theorem due_sorted (c : Components) (h : Handle) (ks : List (Handle × JoinPredicate)) :
    ∃ qs : List JoinPredicate, c.due h (sortByText (·.2.text) ks) = qs.map .join ∧
      InTextOrder JoinPredicate.text qs ∧ ∀ p ∈ qs, ∃ x, (x, p) ∈ ks ∧ c.owner x = h := by
  refine ⟨((sortByText (·.2.text) ks).filter (c.owner ·.1 = h)).map (·.2), ?_, ?_, ?_⟩
  · rw [List.map_map]
    rfl
  · have := inTextOrder_sortByText (fun k : Handle × JoinPredicate => k.2.text) ks
    exact List.pairwise_map.mpr (this.sublist List.filter_sublist)
  · intro p hp
    have ⟨⟨x, p'⟩, hx, he⟩ := List.mem_map.mp hp
    subst he
    have ⟨hx, ho⟩ := List.mem_filter.mp hx
    exact ⟨x, mem_sortByText.mp hx, by simpa using ho⟩

theorem Chosen.rival (ch : c.Chosen options ls best) (ho : options.reorderJoins)
    (u : Underway False (fun _ => True) leaves false kept budget c ls d) {l r : Plan Relation}
    (hj : best.1.predicate = some j) (hk : k ∈ ls) (hp : k.predicate = some p) {x y : Plan Relation}
    (hx : c.StandsFor k.left x) (hy : c.StandsFor k.right y) (hxy : x = l ∧ y = r ∨ x = r ∧ y = l) :
    Rival l r best.2 j p := by
  obtain ⟨hl, hr⟩ := u.provided k hk p hp
  obtain ⟨q, hq⟩ := Option.isSome_iff_exists.mp (ch.all ho k hk)
  have hle := ch.first.le hk
  simp only [key, if_pos ho, price, hq, ch.built, Candidate.rank, hj, hp] at hle
  obtain ⟨x', y', hx', hy', hb⟩ := built?_eq_some_iff.mp hq
  obtain rfl := hx.unique hx'
  obtain rfl := hy.unique hy'
  obtain ⟨hn, _⟩ | ⟨p', hp', hq'⟩ := hb
  · simp [hp] at hn
  · obtain rfl : p' = p := Option.some.inj (hp'.symm.trans hp)
    rw [oriented, hx.has hl, Bool.not_true, Bool.false_and, if_neg Bool.false_ne_true] at hq'
    refine ⟨x, y, q, hxy, hx.has hl, hy.has hr, hq', ?_⟩
    simpa [Prod.Lex.toLex_le_toLex] using hle

-- A candidate that collapses when others are combined has the same sides as they have.
theorem sides_of_collapsed {x : Handle} (hc : c.WellFormed) (hl : k.left < c.plans.size)
    (hr : k.right < c.plans.size) (ho : c.owner k.left ≠ c.owner k.right) {hs : List Handle}
    (hk : (c.takeOver hs q).collapsed? k = some (x, p)) :
    k.left = x ∧ k.predicate = some p ∧ (c.takeOver hs q).owner x = c.plans.size ∧
      c.owner k.left ∈ hs.map c.owner ∧ c.owner k.right ∈ hs.map c.owner := by
  have ⟨_, he, hx, hp⟩ := collapsed?_eq_some_iff.mp hk
  have hl := (hc.inside _ hl).ne
  have hr := (hc.inside _ hr).ne
  rw [owner_takeOver hc, owner_takeOver hc] at he
  rw [← hx, owner_takeOver hc]
  split at he
  case isTrue hml =>
    split at he
    case isTrue hmr => exact ⟨rfl, hp, if_pos hml, hml, hmr⟩
    case isFalse    => exact absurd he.symm hr
  case isFalse =>
    split at he
    case isTrue  => exact absurd he hl
    case isFalse => exact absurd he ho

def Spans (c : Components) (ls : List Candidate) (hs : List Handle) (p : JoinPredicate) : Prop :=
  ∃ k ∈ ls, k.predicate = some p ∧ c.owner k.left ≠ c.owner k.right ∧
    c.owner k.left ∈ hs.map c.owner ∧ c.owner k.right ∈ hs.map c.owner

theorem due_takeOver (hs : List Handle) (q : Plan Relation)
    (u : Underway False (fun _ => True) leaves false kept budget c ls d)
    (hout : ∀ k ∈ ls, c.isOutstanding k) (hks : ks ⊆ ls) (hh : h < c.plans.size) :
    ∃ qs : List JoinPredicate,
      (c.takeOver hs q).due ((c.takeOver hs q).owner h)
        (sortByText (·.2.text) (ks.filterMap (c.takeOver hs q).collapsed?)) = qs.map .join ∧
      InTextOrder JoinPredicate.text qs ∧
        ∀ p ∈ qs, c.owner h ∈ hs.map c.owner ∧ c.Spans ls hs p := by
  have ⟨qs, hdue, hsorted, hqs⟩ := due_sorted (c.takeOver hs q) ((c.takeOver hs q).owner h)
    (ks.filterMap (c.takeOver hs q).collapsed?)
  refine ⟨qs, hdue, hsorted, fun p hp => ?_⟩
  have ⟨x, hx, hxo⟩ := hqs p hp
  have ⟨k, hk, hkx⟩ := List.mem_filterMap.mp hx
  have side {y} (hy : y ∈ k.sides) := u.lt_size (u.sides k (hks hk) y hy)
  have hne := (isOutstanding_iff.mp (hout k (hks hk))).right.right
  have ⟨_, hkp, hsize, hl, hr⟩ :=
    sides_of_collapsed u.formed (side k.left_mem_sides) (side k.right_mem_sides) hne hkx
  refine ⟨?_, k, hks hk, hkp, hne, hl, hr⟩
  by_contra hn
  rw [hxo, owner_takeOver u.formed, if_neg hn] at hsize
  exact (u.formed.inside h hh).ne hsize

theorem Chosen.composed (ch : c.Chosen options ls best) (ho : options.reorderJoins)
    (u : Underway False (fun _ => True) leaves false kept budget c ls d)
    (hout : c.isOutstanding best.1)
    (hp : ∀ h ∈ leaves, ∀ plan, c.StandsFor h plan → plan.Composed) (ap : c.Apart leaves)
    (hb : c.Built best.1 best.2) {qs : List JoinPredicate} (hsorted : InTextOrder JoinPredicate.text qs)
    (hqs : ∀ p ∈ qs, c.Spans ls [best.1.left, best.1.right] p)
    (hq : Plan.stack (qs.map .join) best.2 = .ok q) : q.Composed := by
  have side {x} (hx : x ∈ best.1.sides) := u.sides best.1 ch.first.mem x hx
  have composed {x r} (hx : x ∈ best.1.sides) (hr : c.StandsFor x r) : r.Composed := by
    have ⟨y, hy, hoy⟩ := List.mem_map.mp (List.mem_toFinset.mp (side hx))
    exact hp y hy r (hr.congr hoy)
  have hleft := best.1.left_mem_sides
  have hright := best.1.right_mem_sides
  have ⟨hel, her, hne⟩ := isOutstanding_iff.mp hout
  generalize hbest : best.2 = top at *
  cases hb
  case product l r hn hl hr => exact composed_product (composed hleft hl) (composed hright hr) hq
  case join j l r hj hl hr htop =>
    have ⟨hjl, hjr⟩ := u.provided _ ch.first.mem j hj
    refine composed_join (composed hleft hl) (composed hright hr) (hl.isEliminated_eq ▸ hel)
      (hr.isEliminated_eq ▸ her) (ap.plans (side hleft) (side hright) hne hl hr) (hl.has hjl)
      (hr.has hjr) htop (fun p hp => ?_) hsorted hq
    have ⟨k, hk, hkp, hne, hkl, hkr⟩ := hqs p hp
    simp only [List.map_cons, List.map_nil, List.mem_pair] at hkl hkr
    obtain hkl | hkl := hkl <;> obtain hkr | hkr := hkr
    · exact absurd (hkl.trans hkr.symm) hne
    · exact hbest ▸ ch.rival ho u hj hk hkp (hl.congr hkl) (hr.congr hkr) (.inl ⟨rfl, rfl⟩)
    · exact hbest ▸ ch.rival ho u hj hk hkp (hr.congr hkl) (hl.congr hkr) (.inr ⟨rfl, rfl⟩)
    · exact absurd (hkl.trans hkr.symm) hne

theorem ripens_takeOver (ho : options.reorderJoins)
    (u : Underway False (fun _ => True) leaves false kept budget c ls d)
    (hout : ∀ k ∈ ls, c.isOutstanding k)
    (hp : ∀ h ∈ leaves, ∀ plan, c.StandsFor h plan → plan.Composed) (ap : c.Apart leaves)
    (ch : c.Chosen options ls best) (hb : c.Built best.1 best.2) (hks : ks ⊆ ls) :
    (c.takeOver [best.1.left, best.1.right] best.2).Ripens Plan.Composed leaves
      (sortByText (·.2.text)
        (ks.filterMap (c.takeOver [best.1.left, best.1.right] best.2).collapsed?)) := by
  intro h hh plan hplan q hq
  have ⟨qs, hdue, hsorted, hqs⟩ :=
    due_takeOver [best.1.left, best.1.right] best.2 u hout hks (u.inside h hh)
  rw [hdue] at hq
  rw [standsFor_takeOver_iff u.formed (u.inside h hh)] at hplan
  split at hplan
  case isTrue =>
    subst hplan
    exact ch.composed ho u (hout _ ch.first.mem) hp ap hb hsorted (fun p hp => (hqs p hp).right) hq
  case isFalse hn =>
    -- Nothing collapses in the other components.
    obtain rfl : qs = [] := List.eq_nil_iff_forall_not_mem.mpr fun p hp => hn (hqs p hp).left
    exact Plan.stack_nil.mp hq ▸ hp h hh plan hplan

theorem materialise_result (hn : d.narrowing = false) :
    Meets (fun _ => True) (c.materialise k plan) d fun c' d' =>
      c' = c.takeOver [k.left, k.right] plan ∧ d' = (k.predicate.map d.releaseJoin).getD d := by
  refine (materialise_takeOver c k plan d).mono ?_
  rintro _ d' ⟨rfl, rfl⟩
  constructor
  · rw [Demand.narrowed, if_pos ((k.narrowing_released d).trans hn)]
  · unfold Candidate.released
    cases k.predicate <;> rfl

theorem agenda_ripens (u : Underway False (fun _ => True) leaves false kept budget c ks d)
    (r : c.Ripens P leaves (sortByText (·.2.text) (ks.filterMap c.collapsed?))) :
    Meets (fun _ => True) (c.agenda leaves ks) d fun s d' =>
      Ripened P leaves c ks d s.1 (ks.filter c.isOutstanding) d' ∧
        s.2 = if (ks.filter c.isOutstanding).isEmpty then Candidate.pairs (s.1.live leaves)
          else ks.filter c.isOutstanding := by
  refine (settle_go_ripens _ le_rfl u r).bind fun ⟨c', ls⟩ d' s => ?_
  dsimp only at s ⊢
  obtain rfl := s.queue
  split
  case isFalse => exact Run.meets_pure ⟨s, rfl⟩
  case isTrue  =>
    split
    case isTrue  => exact Run.meets_report_bind (Run.meets_pure ⟨s, rfl⟩)
    case isFalse => exact Run.meets_pure ⟨s, rfl⟩

theorem finish_holds (hc : c.WellFormed) (hn : c.live leaves = [] → P .nothing)
    (hp : ∀ h ∈ leaves, ∀ plan, c.StandsFor h plan → P plan) :
    Meets (fun _ => True) (c.finish leaves) d fun q d' => d' = d ∧ P q := by
  unfold finish
  split
  case h_1 hl => exact Run.meets_pure ⟨rfl, hn hl⟩
  case h_2 h hs hh =>
    have hr := (mem_live.mp (hh ▸ List.mem_cons_self ..)).left
    have ⟨x, hx, ho⟩ := List.mem_map.mp (List.mem_toFinset.mp hr)
    have ho : c.owner h = c.owner x := ho ▸ hc.owner_owner x
    unfold Components.plan
    split
    case h_1 q hq => exact Run.meets_pure ⟨rfl, hp x hx q (StandsFor.congr hq ho.symm)⟩
    case h_2      => exact trivial

theorem reduce_composed (ho : options.reorderJoins) (fuel : Nat)
    (u : Underway False (fun _ => True) leaves false kept budget c ks d)
    (r : c.Ripens Plan.Composed leaves (sortByText (·.2.text) (ks.filterMap c.collapsed?)))
    (ap : c.Apart leaves) :
    Meets (fun _ => True) (c.reduce options leaves fuel ks) d fun q _ => q.Composed := by
  induction fuel generalizing c ks d
  case zero => exact trivial
  case succ fuel hi =>
    rw [reduce]
    refine ((agenda_meets .free False.elim u).and (agenda_ripens u r)).bind ?_
    rintro ⟨c', ls⟩ d' ⟨⟨u', hout, -, -⟩, s, -⟩
    dsimp only at u' hout s
    have ap' := ap.keeps s.keeps u.inside
    cases ls
    case nil =>
      exact (finish_holds u'.formed (fun _ => composed_nothing) s.plans).mono fun _ _ h => h.right
    case cons first rest =>
      refine ((cheapest_meets u' .free).and (cheapest_chosen c' options first rest d')).bind ?_
      rintro ⟨best, plan⟩ e ⟨⟨he, hb, hb'⟩, _, ch⟩
      dsimp only at he hb hb' ch ⊢
      subst he
      have hp := List.perm_cons_erase hb
      have hne := (isOutstanding_iff.mp (hout best hb)).right.right
      refine ((materialise_meets (u'.perm hp) .free False.elim hne hb').and
        (materialise_result u'.narrows)).bind ?_
      rintro c'' e ⟨⟨u'', _⟩, hc'', _⟩
      subst hc''
      have hsub : (first :: rest).erase best ⊆ first :: rest := List.erase_subset
      have r' := ripens_takeOver ho u' hout s.plans ap' ch hb' hsub
      exact hi u'' r' (ap'.takeOver u'.formed u'.inside (u'.sides best hb) hb')

end Components
end QueryPlanner
