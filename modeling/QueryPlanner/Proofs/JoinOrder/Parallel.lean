import QueryPlanner.Proofs.JoinOrder.Mirror
import QueryPlanner.Proofs.JoinOrder.Reduce

namespace QueryPlanner.Components

open Candidate (predicates unnumbered)
open Run (Match)
open Unlimited

variable {exact : Prop} {modes : Bool → Bool → Prop} {kept : Multiset String}
variable {same : (String → Bool) → Plan Relation → Plan Relation → Prop}
variable {G : Plan Relation → Prop} {F : Failure → Prop} {leaves : List Handle} {mode : Bool}
variable {budget : Multiset Part} {options : Options}
variable {c c' : Components} {d d₁ e e₁ : Demand} {k l : Candidate} {ks ls : List Candidate}
variable {plan plan' : Plan Relation}

theorem attributes_congr {p q : JoinPredicate} (ha : Agree exact JoinPredicate.unnumbered p q) :
    q.attributes = p.attributes := by
  have ⟨hl, hr⟩ := JoinPredicate.unnumbered_eq_iff.mp ha.left
  simp [JoinPredicate.attributes, hl, hr]

section Steps

variable (S : Simulation exact modes kept same)
include S

theorem takeOver_match {hs hs' : List Handle} (m : c.Mirrors exact modes same d c' e)
    (hh : hs' = hs) (hp : same d.required.isRequired plan plan') (ha : d₁.Alike exact modes e₁)
    (hn : ∀ n, d₁.required.isRequired n → d.required.isRequired n) (hc : d₁.Covers kept) :
    Match (narrow plan >>= fun q => pure (c.takeOver hs q))
      (narrow plan' >>= fun q => pure (c'.takeOver hs' q)) d₁ e₁
      fun c₁ d₁ c₁' e₁ => c₁.Mirrors exact modes same d₁ c₁' e₁ := by
  subst hh
  refine (Match.of_meets (narrow_result (F := fun _ => True) plan d₁)
    (narrow_result (F := fun _ => True) plan' e₁) fun _ _ _ _ h h' => And.intro h h').bind ?_
  rintro _ _ _ _ ⟨⟨rfl, rfl⟩, rfl, rfl⟩
  exact Run.match_pure ((m.demand S ha hn).takeOver _ (S.narrow ha hc (S.mono hn hp)))

theorem release_match {p q : JoinPredicate} {hs hs' : List Handle}
    (m : c.Mirrors exact modes same d c' e) (hh : hs' = hs) (hp : same d.required.isRequired plan plan')
    (ha : Agree exact JoinPredicate.unnumbered p q) (hc : (d.releaseJoin p).Covers kept) :
    Match (Run.modify (·.releaseJoin p) >>= fun _ => narrow plan >>= fun q => pure (c.takeOver hs q))
      (Run.modify (·.releaseJoin q) >>= fun _ => narrow plan' >>= fun q => pure (c'.takeOver hs' q))
      d e fun c₁ d₁ c₁' e₁ => c₁.Mirrors exact modes same d₁ c₁' e₁ := by
  refine Run.match_modify_bind ?_
  refine takeOver_match S m hh hp ?_ (fun _ => Demand.isRequired_of_releaseAll) hc
  rw [Demand.releaseJoin, Demand.releaseJoin, attributes_congr ha]
  exact m.demands.releaseAll p.attributes

theorem materialise_match (m : c.Mirrors exact modes same d c' e)
    (u : Underway False G leaves mode kept budget c (k :: ks) d)
    (ha : Agree exact unnumbered k l) (hp : same d.required.isRequired plan plan') :
    Match (c.materialise k plan) (c'.materialise l plan') d e
      fun c₁ d₁ c₁' e₁ => c₁.Mirrors exact modes same d₁ c₁' e₁ := by
  have hleft : l.unnumbered.left = k.unnumbered.left := congrArg Candidate.left ha.left
  have hright : l.unnumbered.right = k.unnumbered.right := congrArg Candidate.right ha.left
  have hpred : l.predicate.map JoinPredicate.unnumbered = k.predicate.map JoinPredicate.unnumbered :=
    congrArg Candidate.predicate ha.left
  have hsides : [l.left, l.right] = [k.left, k.right] := congrArg₂ (fun x y => [x, y]) hleft hright
  unfold materialise
  refine Run.match_report_bind ?_
  cases hk : k.predicate <;> cases hl : l.predicate
  case none.some | some.none => simp [hk, hl] at hpred
  case none.none =>
    exact takeOver_match S m hsides hp m.demands (fun _ => id)
      (u.covers.mono (Multiset.le_add_right ..))
  case some.some p q =>
    have hpq : Agree exact JoinPredicate.unnumbered p q := by
      refine ⟨by simpa [hk, hl] using hpred, fun hx => ?_⟩
      rw [ha.right hx, hk] at hl
      exact (Option.some.inj hl).symm
    exact release_match S m hsides hp hpq ((u.release hk).mono (Multiset.le_add_right ..))

def unnumberedWithin (k : Handle × JoinPredicate) : Handle × JoinPredicate :=
  (k.1, k.2.unnumbered)

theorem selectWithin_match {k l : Handle × JoinPredicate} (m : c.Mirrors exact modes same d c' e)
    (u : Underway False G leaves mode kept budget c (within k :: ks) d)
    (ha : Agree exact unnumberedWithin k l) :
    Match (c.selectWithin k) (c'.selectWithin l) d e
      fun c₁ d₁ c₁' e₁ => c₁.Mirrors exact modes same d₁ c₁' e₁ := by
  obtain ⟨h, p⟩ := k
  obtain ⟨h', q⟩ := l
  obtain rfl : h' = h := congrArg Prod.fst ha.left
  have hpq : Agree exact JoinPredicate.unnumbered p q :=
    ⟨congrArg Prod.snd ha.left, fun hx => congrArg Prod.snd (ha.right hx)⟩
  have hn : ∀ n ∈ (Predicate.join p).attributes, d.required.isRequired n :=
    u.covers.isRequired_of_mem (List.mem_cons_self ..) rfl
  obtain ⟨plan, hp, _⟩ := u.standsFor (u.sides _ (List.mem_cons_self ..) h' (by simp [Candidate.sides, within]))
  obtain ⟨plan', hp', hs⟩ := m.standsFor hp
  unfold selectWithin
  rw [hp.plan_eq, hp'.plan_eq, pure_bind, pure_bind]
  refine (selecting_match S (hpq.map (k := Predicate.join) fun _ => rfl) hn hs).bind ?_
  rintro q _ q' _ ⟨rfl, rfl, hs⟩
  exact release_match S m (rfl : [h'] = [h']) hs hpq ((u.release rfl).mono (Multiset.le_add_right ..))

theorem collapsed_shuffled (m : c.Mirrors exact modes same d c' e) (q : Queued exact ks ls) :
    Shuffled exact unnumberedWithin (ks.filterMap c.collapsed?) (ls.filterMap c'.collapsed?) := by
  have hc (k : Candidate) : (c.collapsed? k).map unnumberedWithin = c.collapsed? k.unnumbered := by
    unfold collapsed? unnumbered
    split
    case isTrue =>
      rw [Option.map_map, Option.map_map]
      rfl
    case isFalse => rfl
  refine q.shuffled.filterMap c.collapsed? (fun k _ => hc k) (fun l _ => ?_) fun _ k _ => ?_
  · rw [m.collapsed? S, hc]
  · exact m.collapsed? S k

theorem collapsed_agree (m : c.Mirrors exact modes same d c' e) (q : Queued exact ks ls) :
    Agree exact (List.map unnumberedWithin) (sortByText (·.2.text) (ks.filterMap c.collapsed?))
      (sortByText (·.2.text) (ls.filterMap c'.collapsed?)) := by
  let text (a : Handle × JoinPredicate) : String := a.2.text
  refine (collapsed_shuffled S m q).sortByText text text (fun _ => rfl)
    (q.told.imp_right fun ht a ha b hb htext => ?_)
  have ⟨k, hk, hka⟩ := List.mem_filterMap.mp ha
  have ⟨l, hl, hlb⟩ := List.mem_filterMap.mp hb
  have ⟨_, _, hkl, hkp⟩ := collapsed?_eq_some_iff.mp hka
  have ⟨_, _, hll, hlp⟩ := collapsed?_eq_some_iff.mp hlb
  have := ht k hk l hl a.2 b.2 hkp hlp htext
  have hleft : k.unnumbered.left = l.unnumbered.left := congrArg Candidate.left this
  have hpred : k.unnumbered.predicate = l.unnumbered.predicate := congrArg Candidate.predicate this
  unfold unnumberedWithin
  rw [← hkl, ← hll]
  refine Prod.ext hleft ?_
  simpa [unnumbered, hkp, hlp] using hpred

variable (I : PlanInvariant False G F)
include I

theorem settle_go_match (fuel : Nat) (u : Underway False G leaves mode kept budget c ks d)
    (m : c.Mirrors exact modes same d c' e) (q : Queued exact ks ls) :
    Match (settle.go fuel c ks) (settle.go fuel c' ls) d e fun r d₁ r' e₁ =>
      r.1.Mirrors exact modes same d₁ r'.1 e₁ ∧ Queued exact r.2 r'.2 := by
  induction fuel generalizing c d ks c' e ls
  case zero => exact Run.match_pure ⟨m, q⟩
  case succ fuel hi =>
    have hq : Queued exact (ks.filter c.isOutstanding) (ls.filter c'.isOutstanding) :=
      q.filter (fun _ => rfl) (fun k _ => m.isOutstanding S k) (fun l _ => m.isOutstanding S l)
    have hlen := (collapsed_shuffled S m q).length
    rw [settle.go, settle.go]
    split
    case h_1 hn =>
      rw [hn, List.length_nil, List.length_eq_zero_iff] at hlen
      rw [hlen]
      exact Run.match_pure ⟨m, hq⟩
    case h_2 hn =>
      split
      case h_1 hn' =>
        rw [hn', List.length_nil, eq_comm, List.length_eq_zero_iff] at hlen
        exact absurd hlen hn
      case h_2 =>
        -- Both work off their collapsed candidates in line.
        refine (Run.match_foldlM
          (I := fun rest c₁ d₁ c₁' e₁ => c₁.Mirrors exact modes same d₁ c₁' e₁ ∧
            Underway False G leaves mode kept budget c₁
              (rest.map within ++ ks.filter c.isOutstanding) d₁)
          (collapsed_agree S m q).forall₂ ⟨m, (settled_underway u I).perm (c.settled_perm ks)⟩ ?_).bind
          fun _ _ _ _ h => hi h.right h.left hq
        rintro k l rest c₁ d₁ c₁' e₁ hkl ⟨m₁, u₁⟩
        exact ((selectWithin_match S m₁ u₁ hkl).and_meets (selectWithin_meets u₁ I False.elim)).mono
          fun _ _ _ _ h => ⟨h.left, h.right.left⟩

theorem agenda_match (u : Underway False G leaves mode kept budget c ks d)
    (m : c.Mirrors exact modes same d c' e) (q : Queued exact ks ls) :
    Match (c.agenda leaves ks) (c'.agenda leaves ls) d e fun r d₁ r' e₁ =>
      r.1.Mirrors exact modes same d₁ r'.1 e₁ ∧ Queued exact r.2 r'.2 := by
  have h : Match (c.settle ks) (c'.settle ls) d e fun r d₁ r' e₁ =>
      r.1.Mirrors exact modes same d₁ r'.1 e₁ ∧ Queued exact r.2 r'.2 := by
    unfold settle
    rw [q.shuffled.length]
    exact settle_go_match S I ks.length u m q
  refine h.bind fun r d₁ r' e₁ ⟨m₁, q₁⟩ => ?_
  obtain ⟨c₁, ks₁⟩ := r
  obtain ⟨c₁', ls₁⟩ := r'
  dsimp only at m₁ q₁ ⊢
  have he : ls₁.isEmpty = ks₁.isEmpty := by
    rw [Bool.eq_iff_iff, List.isEmpty_iff_length_eq_zero, List.isEmpty_iff_length_eq_zero,
      q₁.shuffled.length]
  rw [he, m₁.live S]
  split
  case isFalse => exact Run.match_pure ⟨m₁, q₁⟩
  case isTrue  =>
    have hp : Queued exact (Candidate.pairs (c₁.live leaves)) (Candidate.pairs (c₁.live leaves)) :=
      .of_products fun k hk => (Candidate.mem_pairs (nodup_live c₁ leaves) hk).left
    split
    case isFalse => exact Run.match_pure ⟨m₁, hp⟩
    case isTrue  => exact Run.match_report_bind (Run.match_pure ⟨m₁, hp⟩)

omit I in
theorem finish_match (m : c.Mirrors exact modes same d c' e) (leaves : List Handle) :
    Match (c.finish leaves) (c'.finish leaves) d e fun q d₁ q' e₁ => d₁.Alike exact modes e₁ ∧
      (same d₁.required.isRequired q q' ∨ q = .nothing ∧ q' = .nothing) := by
  unfold finish
  rw [m.live S]
  split
  case h_1 => exact Run.match_pure ⟨m.demands, .inr ⟨rfl, rfl⟩⟩
  case h_2 h _ _ =>
    unfold Components.plan
    rw [m.owner]
    cases hp : c.plans[c.owner h]? <;> cases hq : c'.plans[c.owner h]?
    case some.some => exact Run.match_pure ⟨m.demands, .inl (m.plans _ _ _ hp hq)⟩
    case none.none | none.some => exact nofun
    case some.none => exact fun _ _ _ => nofun

theorem cheapest_match {first first' : Candidate} {rest rest' : List Candidate}
    (ho : Guided exact options same)
    (u : Underway False G leaves mode kept budget c (first :: rest) d)
    (m : c.Mirrors exact modes same d c' e) (q : Queued exact (first :: rest) (first' :: rest')) :
    Match (c.cheapest options first rest) (c'.cheapest options first' rest') d e
      fun best d₁ best' e₁ => (d₁ = d ∧ e₁ = e ∧ best'.1 ∈ first' :: rest' ∧
        Agree exact unnumbered best.1 best'.1 ∧ (best.1.predicate = none → best'.1 = best.1) ∧
        same d.required.isRequired best.2 best'.2) ∧
        d₁ = d ∧ best.1 ∈ first :: rest ∧ c.Built best.1 best.2 := by
  have hn {k} (hk : k ∈ first :: rest) (p) (hp : k.predicate = some p) :
      ∀ n ∈ p.attributes, d.required.isRequired n :=
    u.covers.isRequired_of_mem hk hp
  refine (Match.of_meets (cheapest_chosen c options first rest d)
    (cheapest_chosen c' options first' rest' e) ?_).and_meets (cheapest_meets u I)
  intro best d₁ best' e₁ ⟨hd, hc⟩ ⟨he, hc'⟩
  have ⟨ha, hpr⟩ := hc.agree hc' (fun hr k hk l _ ha _ _ hb hb' =>
    ho.priced hr (m.built S ha (hn hk) hb hb')) q ho.queued
  exact ⟨hd, he, hc'.first.mem, ha, hpr, m.built S ha (hn hc.first.mem) hc.built hc'.built⟩

theorem reduce_match (ho : Guided exact options same) (fuel : Nat)
    (u : Underway False G leaves mode kept budget c ks d)
    (m : c.Mirrors exact modes same d c' e) (q : Queued exact ks ls) :
    Match (c.reduce options leaves fuel ks) (c'.reduce options leaves fuel ls) d e
      fun q d₁ q' e₁ => d₁.Alike exact modes e₁ ∧
        (same d₁.required.isRequired q q' ∨ q = .nothing ∧ q' = .nothing) := by
  induction fuel generalizing c d ks c' e ls
  case zero => exact nofun
  case succ fuel hi =>
    rw [reduce, reduce]
    refine ((agenda_match S I u m q).and_meets (agenda_meets I False.elim u)).bind ?_
    rintro ⟨c₁, ks₁⟩ d₁ ⟨c₁', ls₁⟩ e₁ ⟨⟨m₁, q₁⟩, u₁, hout, -⟩
    dsimp only at m₁ q₁ u₁ hout
    have hlength := q₁.shuffled.length
    cases ks₁ <;> cases ls₁
    case nil.cons => exact absurd hlength (by simp)
    case cons.nil => exact absurd hlength (by simp)
    case nil.nil  => exact finish_match S m₁ leaves
    case cons.cons first rest first' rest' =>
      refine (cheapest_match S I ho u₁ m₁ q₁).bind ?_
      rintro ⟨best, plan⟩ d₂ ⟨best', plan'⟩ e₂ ⟨⟨_, he, hm', ha, hpr, hs⟩, hd, hm, hb⟩
      dsimp only at he hm' ha hpr hs hd hm hb ⊢
      subst hd he
      have u₁ := u₁.perm (List.perm_cons_erase hm)
      have hne := (isOutstanding_iff.mp (hout best hm)).right.right
      refine ((materialise_match S m₁ u₁ ha hs).and_meets
        (materialise_meets u₁ I False.elim hne hb)).bind ?_
      rintro c₂ d₂ c₂' e₂ ⟨m₂, u₂, _⟩
      exact hi u₂ m₂ (q₁.erase ha hm hm' hpr)

end Steps
end QueryPlanner.Components
