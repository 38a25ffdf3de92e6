import QueryPlanner.Proofs.JoinOrder.Leaves
import QueryPlanner.Proofs.Repetition.Placing
import QueryPlanner.Proofs.Repetition.Search

namespace QueryPlanner

open Candidate (predicates)
open Run (Meets)
open Unlimited

variable {exact : Prop} {G : Plan Relation → Prop} {F : Failure → Prop} {mode : Bool}
variable {leaves : List Handle} {kept : Multiset String} {budget : Multiset Part}
variable {c c' : Components} {ks ls : List Candidate} {k : Candidate} {d d' : Demand} {h x y : Handle}
variable {plan q : Plan Relation} {qs : List (Plan Relation)} {p : JoinPredicate}
variable {P : Plan Relation → Prop}

namespace Components

inductive Combined (c : Components) (k : Candidate) : Plan Relation → Prop
  | built {plan : Plan Relation} (outstanding : c.isOutstanding k) (built : c.Built k plan) :
    Combined c k plan
  | selected {p : JoinPredicate} {plan q : Plan Relation} (related : k.predicate = some p)
    (joined : c.owner k.left = c.owner k.right) (input : c.StandsFor k.left plan)
    (selected : Plan.selecting (.join p) plan = .ok q) : Combined c k q

def Sides (c : Components) (k : Candidate) (h : Handle) : Prop :=
  c.owner h = c.owner k.left ∨ c.owner h = c.owner k.right

structure Round (c : Components) (k : Candidate) (plan : Plan Relation) (d : Demand) (c' : Components)
    (d' : Demand) : Prop where
  combined : c.Combined k plan
  demand   : d' = k.released d
  taken    : ∀ h < c.plans.size, c.Sides k h → c'.StandsFor h (d'.narrowed plan)
  others   : ∀ h < c.plans.size, ¬c.Sides k h → ∀ q, c'.StandsFor h q ↔ c.StandsFor h q
  owners   : ∀ x < c.plans.size, ∀ y < c.plans.size,
    c'.owner x = c'.owner y ↔ c.owner x = c.owner y ∨ c.Sides k x ∧ c.Sides k y

theorem round_takeOver {hs : List Handle} (hc : c.WellFormed) (hp : c.Combined k plan)
    (hd : d' = k.released d) (hs' : ∀ h, c.owner h ∈ hs.map c.owner ↔ c.Sides k h) :
    c.Round k plan d (c.takeOver hs (d'.narrowed plan)) d' where
  combined := hp
  demand   := hd
  taken h hh hk    := (standsFor_takeOver_iff hc hh).mpr (by rw [if_pos ((hs' h).mpr hk)])
  others h hh hk q := by rw [standsFor_takeOver_iff hc hh, if_neg (hk ∘ (hs' h).mp)]
  owners x hx y hy := by
    have hx := (hc.inside x hx).ne
    have hy := (hc.inside y hy).ne
    rw [owner_takeOver hc, owner_takeOver hc, ← hs' x, ← hs' y]
    by_cases hkx : c.owner x ∈ hs.map c.owner
    case pos =>
      by_cases hky : c.owner y ∈ hs.map c.owner
      case pos => simp only [hkx, hky, if_true, and_self, or_true]
      case neg =>
        simp only [hkx, hky, if_true, if_false, and_false, or_false]
        exact iff_of_false hy.symm fun he => hky (he ▸ hkx)
    case neg =>
      by_cases hky : c.owner y ∈ hs.map c.owner
      case pos =>
        simp only [hkx, hky, if_true, if_false, false_and, or_false]
        exact iff_of_false hx fun he => hkx (he ▸ hky)
      case neg => simp only [hkx, hky, if_false, false_and, or_false]

theorem Combined.isPlaceholder_eq_false (h : c.Combined k plan) : plan.isPlaceholder = false := by
  cases h
  case built hb =>
    cases hb
    case product => rfl
    case join hj =>
      obtain ⟨s, _, rfl⟩ := Plan.joining_eq_ok_iff.mp hj
      rfl
  case selected hs =>
    obtain ⟨s, _, rfl⟩ := Plan.selecting_eq_ok_iff.mp hs
    rfl

theorem materialise_round (hc : c.WellFormed) (ho : c.isOutstanding k) (hb : c.Built k plan) :
    Meets F (c.materialise k plan) d fun c' d' => c.Round k plan d c' d' := by
  refine (materialise_takeOver c k plan d).mono ?_
  rintro _ d' ⟨hd, rfl⟩
  exact round_takeOver hc (.built ho hb) hd fun h => List.mem_pair

theorem selectWithin_round {k : Handle × JoinPredicate} (hc : c.WellFormed) (hp : c.StandsFor k.1 plan) :
    Meets (fun _ => True) (c.selectWithin k) d fun c' d' => ∃ q, c.Round (within k) q d c' d' := by
  refine (selectWithin_takeOver (.inl ⟨plan, hp⟩) fun _ _ _ _ => trivial).mono ?_
  rintro _ d' ⟨hd, plan', q, hp', hq, rfl⟩
  refine ⟨q, round_takeOver hc (.selected rfl rfl hp' hq) hd fun h => ?_⟩
  simp [Sides, within]

def Each (P : Plan Relation → Prop) (leaves : List Handle) (c : Components) : Prop :=
  ∀ h ∈ leaves, ∀ plan, c.StandsFor h plan → P plan

theorem Each.of_roots (e : c.Each P leaves) (hr : c.owner x ∈ c.roots leaves) (hx : c.StandsFor x plan) :
    P plan := by
  obtain ⟨h, hh, ho⟩ := List.mem_map.mp (List.mem_toFinset.mp hr)
  exact e h hh plan (hx.congr ho)

theorem Each.round {P Q : Plan Relation → Prop} (e : c.Each P leaves) (r : c.Round k plan d c' d')
    (hl : ∀ h ∈ leaves, h < c.plans.size) (hn : Q (d'.narrowed plan))
    (ho : ∀ h ∈ leaves, ¬c.Sides k h → ∀ q, c.StandsFor h q → P q → Q q) : c'.Each Q leaves := by
  intro h hh q hq
  by_cases hs : c.Sides k h
  case pos => exact (r.taken h (hl h hh) hs).unique hq ▸ hn
  case neg =>
    have hq := (r.others h (hl h hh) hs q).mp hq
    exact ho h hh hs q hq (e h hh q hq)

-- What a search carries along, with every round:
-- (1) The order of the candidates does not matter, nor do products among them.
-- (2) Neither does it matter that candidates are dropped for components that are gone.
structure Carried (exact : Prop) (G : Plan Relation → Prop) (leaves : List Handle) (mode : Bool)
    (kept : Multiset String) (budget : Multiset Part)
    (J : Components → List Candidate → Demand → Prop) : Prop where
  perm     : ∀ {c ks ls d}, ks.Perm ls → J c ks d → J c ls d
  products : ∀ {c ks ls d}, (∀ k ∈ ls, k.predicate = none) → J c ks d → J c (ks ++ ls) d
  settle   : ∀ {c ks d}, Underway exact G leaves mode kept budget c ks d → J c ks d →
    J c (c.settled ks) d
  round    : ∀ {c k ks plan d c' d'}, Underway exact G leaves mode kept budget c (k :: ks) d →
    J c (k :: ks) d → c.Round k plan d c' d' → Underway exact G leaves mode kept budget c' ks d' →
    J c' ks d'

namespace Carried

variable {J : Components → List Candidate → Demand → Prop}
variable (C : Carried exact G leaves mode kept budget J) (I : PlanInvariant exact G F)
  (hm : exact → mode = false)
include C I hm

theorem settle_go_meets (fuel : Nat) (u : Underway exact G leaves mode kept budget c ks d)
    (hj : J c ks d) (hf : ks.length ≤ fuel) :
    Meets F (settle.go fuel c ks) d fun r d' => J r.1 r.2 d' := by
  refine (meets_settle_go (K := fun c' ks' d' => Underway exact G leaves mode kept budget c' ks' d' ∧
    J c' ks' d') ?perm ?settled ?select fuel ⟨u, hj⟩ hf).mono fun _ _ h => h.left.right
  case perm    => exact fun hp h => ⟨h.left.perm hp, C.perm hp h.right⟩
  case settled => exact fun h => ⟨settled_underway h.left I, C.settle h.left h.right⟩
  case select  =>
    rintro c k ks d ⟨u, hj⟩
    obtain ⟨plan, hp, _⟩ := u.standsFor (u.sides (within k) (List.mem_cons_self ..) k.1
      (List.mem_cons_self ..))
    refine ((selectWithin_meets u I hm).and_of_any (selectWithin_round u.formed hp)).mono ?_
    rintro c' d' ⟨⟨u', _⟩, q, hr⟩
    exact ⟨u', C.round u hj hr u'⟩

theorem agenda_meets (u : Underway exact G leaves mode kept budget c ks d) (hj : J c ks d) :
    Meets F (c.agenda leaves ks) d fun r d' => J r.1 r.2 d' := by
  refine (C.settle_go_meets I hm _ u hj le_rfl).bind ?_
  rintro ⟨c', ls⟩ d' hj'
  dsimp only at hj' ⊢
  split
  case isFalse   => exact Run.meets_pure hj'
  case isTrue hl =>
    obtain rfl := List.isEmpty_iff.mp hl
    have hj' := C.products (fun k hk => (Candidate.mem_pairs (nodup_live c' leaves) hk).left) hj'
    split
    case isTrue  => exact Run.meets_report_bind (Run.meets_pure hj')
    case isFalse => exact Run.meets_pure hj'

theorem reduce_meets {options : Options} (fuel : Nat)
    (u : Underway exact G leaves mode kept budget c ks d) (hf : (c.roots leaves).card ≤ fuel)
    (hl : leaves ≠ []) (hj : J c ks d) :
    Meets F (c.reduce options leaves fuel ks) d fun q d' => ∃ c',
      Underway exact G leaves mode kept budget c' [] d' ∧ J c' [] d' ∧
        (q = .nothing ∨ ∃ h ∈ leaves, c'.StandsFor h q) := by
  induction fuel generalizing c ks d
  case zero =>
    have := card_roots_pos (c := c) hl
    omega
  case succ fuel hi =>
    rw [reduce]
    refine ((Components.agenda_meets I hm u).and (C.agenda_meets I hm u hj)).bind ?_
    rintro ⟨c', ls⟩ d' ⟨⟨u', ho, hc, hone⟩, hj'⟩
    dsimp only at u' ho hc hone hj'
    cases ls
    case nil =>
      refine ((finish_meets I hl u' (hone rfl)).and_of_any
        (finish_holds (P := fun q => q = .nothing ∨ ∃ h ∈ leaves, c'.StandsFor h q)
          u'.formed (fun _ => .inl rfl) fun h hh _ hp => .inr ⟨h, hh, hp⟩)).mono ?_
      rintro q e ⟨_, rfl, hq⟩
      exact ⟨c', u', hj', hq⟩
    case cons first rest =>
      refine (cheapest_meets u' I).bind ?_
      rintro ⟨best, plan⟩ e ⟨he, hb, hb'⟩
      dsimp only at he hb hb' ⊢
      subst he
      have hp := List.perm_cons_erase hb
      have hne := (isOutstanding_iff.mp (ho best hb)).right.right
      refine ((materialise_meets (u'.perm hp) I hm hne hb').and
        (materialise_round u'.formed (ho best hb) hb')).bind ?_
      rintro c'' e ⟨⟨u'', hc''⟩, hr⟩
      exact hi u'' (by omega) (C.round (u'.perm hp) (C.perm hp hj') hr u'')

end Carried

theorem joinCandidates_carries {H : List Candidate → Demand → Prop}
    (claim : ∀ {ks d p h k}, Underway exact G leaves mode kept budget c ks d → H ks d →
      c.pairFor? leaves p = some (h, k) → p ∈ d.joins →
      H ({ left := h, right := k, predicate := some p } :: ks) { d with joins := d.joins.erase p })
    (perm : ∀ {ks ls d}, ks.Perm ls → H ks d → H ls d) (ps : List JoinPredicate)
    (u : Underway exact G leaves mode kept budget c ks d) (hj : H ks d) (hp : ps.Subperm d.joins) :
    Meets F (c.joinCandidates leaves ps) d fun ls d' => H (ls ++ ks) d' := by
  induction ps generalizing ks d
  case nil          => exact Run.meets_pure hj
  case cons p ps hi =>
    rw [joinCandidates]
    split
    case h_1 => exact hi u hj ((List.sublist_cons_self p ps).subperm.trans hp)
    case h_2 h k hk =>
      have hm : p ∈ d.joins := hp.subset (List.mem_cons_self ..)
      have hp' := hp.erase p
      rw [List.erase_cons_head] at hp'
      refine Run.meets_place_bind (Demand.claimJoin_of_mem hm) ?_
      refine (hi (u.claim hk hm) (claim u hj hk hm) hp').bind fun ls d' hj' => Run.meets_pure ?_
      exact perm List.perm_middle hj'

-- A self-join is a round, too, on a single leaf.
theorem SelfJoining.round {rest : List JoinPredicate}
    (s : SelfJoining exact G leaves mode kept budget (p :: rest) c d) (hh : h ∈ leaves)
    (hp : c.StandsFor h plan) (hn : ∀ n ∈ p.attributes, plan.output.has n)
    (hq : Plan.selecting (.join p) plan = .ok q) (hd : d' = { d with joins := d.joins.erase p }) :
    Underway exact G leaves mode kept budget c [within (h, p)] d' ∧
      c.Round (within (h, p)) q d' (c.replace h ((d'.releaseJoin p).narrowed q)) (d'.releaseJoin p) := by
  subst hd
  have u := s.underway
  have hj := Demand.pending_erase_join s.mem
  have hpred : predicates [within (h, p)] = {.join p} := by simp [predicates, within]
  have hr : c.owner h ∈ c.roots leaves := owner_mem_roots hh
  constructor
  · -- The predicate leaves the demand and becomes the one of the candidate.
    refine { u with sides := ?_, provided := ?_, covers := ?_, retained := ?_ }
    · simpa [Candidate.sides, within] using hr
    · simp only [List.mem_singleton, forall_eq, within, Option.some.injEq, provides_iff]
      rintro _ rfl
      exact ⟨⟨plan, hp, hn _ (JoinPredicate.left_mem_attributes _)⟩,
        plan, hp, hn _ (JoinPredicate.right_mem_attributes _)⟩
    · rw [hpred, ← Multiset.cons_zero, Predicate.mentions_cons, Predicate.mentions_zero, add_zero, add_comm]
      exact s.covers.take (p := .join p) hj rfl
    · refine u.retained.trans (.of_eq ?_)
      rw [hpred, hj, Multiset.map_singleton, Multiset.map_cons, ← Multiset.singleton_add, add_assoc]
      simp [predicates]
  · -- No handle is owned by another one yet, so only the leaf at `h` changes.
    have owner (q : Plan Relation) (x : Handle) : (c.replace h q).owner x = x := s.apart x
    have hlt : h < c.plans.size := s.apart h ▸ hp.lt_size
    refine ⟨.selected rfl rfl hp hq, rfl, ?_, ?_, ?_⟩
    · intro x _ hx
      obtain rfl : x = h := by simpa [Sides, within, s.apart] using hx
      rw [StandsFor, owner]
      simp [replace, hlt]
    · intro x _ hx r
      have hx : h ≠ x := by simpa [Sides, within, s.apart, eq_comm] using hx
      rw [StandsFor, StandsFor, owner, s.apart]
      simp [replace, hx]
    · intro x _ y _
      rw [owner, owner]
      simp only [Sides, within, s.apart, or_self]
      exact ⟨.inl, fun h => h.elim id fun hs => hs.left.trans hs.right.symm⟩

theorem selfJoins_carries {K : List JoinPredicate → Components → Demand → Prop}
    (I : PlanInvariant exact G F) (hm : exact → mode = false)
    (skip : ∀ {p rest c d}, K (p :: rest) c d → c.LeavesOpen leaves p → K rest c d)
    (step : ∀ {p rest c d h q c' d' d''}, K (p :: rest) c d → p ∈ d.joins →
      d' = { d with joins := d.joins.erase p } →
      Underway exact G leaves mode kept budget c [within (h, p)] d' →
      c.Round (within (h, p)) q d' c' d'' → K rest c' d'')
    (u : Underway exact G leaves mode kept budget c [] d) (ho : ∀ x, c.owner x = x)
    (hk : K (sortByText JoinPredicate.text d.joins) c d) :
    Meets F (c.selfJoins leaves) d (K []) := by
  refine Run.meets_demand_bind ?_
  refine (Run.meets_foldlM (I := fun rest c' d' =>
    SelfJoining exact G leaves mode kept budget rest c' d' ∧ K rest c' d') ?_ _ c d
    ⟨⟨u, ho, Demand.sortByText_joins_le d⟩, hk⟩).mono fun _ _ h => h.right
  rintro p rest c d ⟨s, hk⟩
  refine (selfJoin_meets I hm s).and_of_any ?_
  unfold selfJoin
  split
  case isTrue hs => exact Run.meets_pure (skip hk (.inl hs))
  case isFalse =>
    split
    case h_1 hf =>
      refine Run.meets_pure (skip hk (.inr fun h hh => ?_))
      simpa using List.find?_eq_none.mp hf h hh
    case h_2 h hf =>
      obtain ⟨hh, plan, hp, _, hn⟩ := s.found hf
      rw [hp.plan_eq, pure_bind]
      refine (selectJoin_result p plan d).bind ?_
      rintro q d' ⟨hq, rfl⟩
      refine (narrow_result q _).bind ?_
      rintro _ _ ⟨rfl, rfl⟩
      obtain ⟨u, r⟩ := s.round hh hp hn hq rfl
      exact Run.meets_pure (step hk s.mem rfl u r)

end Components

open Components

theorem Underway.candidates_eq_nil (u : Underway exact G [] mode kept budget c ks d) : ks = [] :=
  List.eq_nil_iff_forall_not_mem.mpr fun k hk => by
    simpa [roots] using u.sides k hk k.left k.left_mem_sides

section Opening

variable {H J : List Handle → Components → List Candidate → Demand → Prop}
variable (I : PlanInvariant exact G F) (hm : exact → mode = false)
  (claim : ∀ {leaves c ks d p h k}, Underway exact G leaves mode kept budget c ks d →
    H leaves c ks d → c.pairFor? leaves p = some (h, k) → p ∈ d.joins →
    H leaves c ({ left := h, right := k, predicate := some p } :: ks)
      { d with joins := d.joins.erase p })
  (perm : ∀ {leaves c ks ls d}, ks.Perm ls → H leaves c ks d → H leaves c ls d)
  (search : ∀ {leaves c ks d}, H leaves c ks d → J leaves c ks d)
  (C : ∀ leaves, Carried exact G leaves mode kept budget (J leaves))
  (hy : Yields exact G mode kept budget qs d)
  (start : Meets F ((ofLeaves qs).selfJoins (List.range qs.length)) d fun c d' =>
    H ((List.range qs.length).filter c.hasTuples) c [] d')
include I hm claim perm search C hy start

-- What holds after the self-joins and is kept up when predicates are claimed leads to what the search
-- carries along.
theorem opening_carries : Meets F (opening qs) d fun r d' => J r.1 r.2.1 r.2.2 d' := by
  refine ((selfJoins_meets I hm (.ofLeaves hy) (owner_ofLeaves qs)).and start).bind ?_
  rintro c d' ⟨⟨u, _⟩, hj⟩
  refine Run.meets_demand_bind ?_
  refine (joinCandidates_carries claim perm _ (u.filter I) hj (List.Subperm.refl _)).bind ?_
  rintro js d'' hj
  rw [List.append_nil] at hj
  exact Run.meets_pure ((C _).products (fun k hk => (Candidate.mem_products hk).left) (search hj))

theorem joinOrder_carries {options : Options} {root : Operator} {Q : Plan Relation → Demand → Prop}
    (finished : ∀ {leaves c d q}, Underway exact G leaves mode kept budget c [] d → J leaves c [] d →
      (q = .nothing ∨ ∃ h ∈ leaves, c.StandsFor h q) → Q q d)
    (empty : qs = [] → Q .nothing d) : Meets F (joinOrder options root qs) d Q := by
  by_cases hn : qs = []
  case pos =>
    obtain rfl := hn
    exact Run.meets_report_bind (Run.meets_pure (empty rfl))
  case neg =>
    rw [joinOrder_eq options root hn]
    refine ((opening_meets I hm hy).and (opening_carries I hm claim perm search C hy start)).bind ?_
    rintro ⟨leaves, c, ks⟩ d' ⟨⟨u, -⟩, hj⟩
    dsimp only at u hj ⊢
    split
    case h_1 =>
      obtain rfl := u.candidates_eq_nil
      exact Run.meets_pure (finished u hj (.inl rfl))
    case h_2 h =>
      obtain ⟨plan, hs, _⟩ := u.standsFor (h := h) (owner_mem_roots (List.mem_singleton_self h))
      rw [show c.plan h = pure plan from hs.plan_eq]
      exact Run.meets_pure (finished u hj (.inr ⟨h, List.mem_singleton_self h, hs⟩))
    case h_3 hl _ =>
      refine ((C _).reduce_meets I hm _ u card_roots_le hl hj).mono ?_
      rintro q e ⟨c', u', hj', hq⟩
      exact finished u' hj' hq

end Opening
end QueryPlanner
