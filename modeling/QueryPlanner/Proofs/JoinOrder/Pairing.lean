import Mathlib.Data.Sym.Sym2
import QueryPlanner.Proofs.Sifting

namespace QueryPlanner

open Run (Meets)
open Unlimited

namespace Candidate

variable {hs others paired : List Handle} {h k : Handle} {z : Sym2 Handle}

def pair (c : Candidate) : Sym2 Handle :=
  s(c.left, c.right)

theorem pair_products_cons_of_mem (h' : h ∈ paired) :
    (products paired (h :: hs) others).map pair = (products paired hs others).map pair := by
  rw [products, if_pos h']

theorem pair_products_cons (h' : h ∉ paired) :
    (products paired (h :: hs) others).map pair =
      (others.erase h).map (s(h, ·)) ++ (products paired hs (others.erase h)).map pair := by
  rw [products, if_neg h', List.map_append, List.map_map]
  rfl

theorem not_mem_pair_products (hh : h ∉ hs) (ho : h ∉ others)
    (hz : z ∈ (products paired hs others).map pair) : h ∉ z := by
  obtain ⟨c, hc, rfl⟩ := List.mem_map.mp hz
  obtain ⟨_, hl, hr⟩ := mem_products hc
  rw [pair, Sym2.mem_iff]
  rintro (rfl | rfl)
  · exact hh hl
  · exact ho hr

theorem nodup_pair_products (hh : hs.Nodup) (ho : others.Nodup) :
    ((products paired hs others).map pair).Nodup := by
  induction hs generalizing others
  case nil          => exact List.nodup_nil
  case cons h hs hi =>
    obtain ⟨hh, hhs⟩ := List.nodup_cons.mp hh
    by_cases hp : h ∈ paired
    case pos =>
      rw [pair_products_cons_of_mem hp]
      exact hi hhs ho
    case neg =>
      have he : (others.erase h).Nodup := ho.erase h
      rw [pair_products_cons hp, List.nodup_append]
      refine ⟨he.map fun _ _ => Sym2.congr_right.mp, hi hhs he, ?_⟩
      rintro _ hz _ hz' rfl
      obtain ⟨x, _, rfl⟩ := List.mem_map.mp hz
      exact not_mem_pair_products hh ho.not_mem_erase hz' (Sym2.mem_mk_left ..)

theorem mem_pair_products (hh : hs.Nodup) (ho : others.Nodup) (hs' : hs ⊆ others)
    (hp : ∀ h ∈ others, h ∉ hs → h ∈ paired) :
    z ∈ (products paired hs others).map pair ↔
      ¬z.IsDiag ∧ (∀ h ∈ z, h ∈ others) ∧ ∃ h ∈ z, h ∉ paired := by
  induction hs generalizing others
  case nil =>
    refine iff_of_false List.not_mem_nil ?_
    rintro ⟨_, hz, h, hm, hn⟩
    exact hn (hp h (hz h hm) List.not_mem_nil)
  case cons h hs hi =>
    obtain ⟨hh, hhs⟩ := List.nodup_cons.mp hh
    obtain ⟨hm, hs'⟩ := List.cons_subset.mp hs'
    by_cases hp' : h ∈ paired
    case pos =>
      -- A handle that has a candidate already is only paired from the other side.
      rw [pair_products_cons_of_mem hp', hi hhs ho hs' fun x hx hn => ?_]
      by_cases he : x = h
      · exact he ▸ hp'
      · exact hp x hx (by simp [he, hn])
    case neg =>
      have hsub : hs ⊆ others.erase h := fun x hx =>
        ho.mem_erase_iff.mpr ⟨fun he => hh (he ▸ hx), hs' hx⟩
      have hpass : ∀ x ∈ others.erase h, x ∉ hs → x ∈ paired := fun x hx hn =>
        have ⟨hne, hx⟩ := ho.mem_erase_iff.mp hx
        hp x hx (by simp [hne, hn])
      rw [pair_products_cons hp', List.mem_append, hi hhs (ho.erase h) hsub hpass]
      by_cases hz : h ∈ z
      case pos =>
        obtain ⟨x, rfl⟩ := Sym2.mem_iff_exists.mp hz
        simp only [List.mem_map, ho.mem_erase_iff, Sym2.congr_right, exists_eq_right,
          Sym2.mk_isDiag_iff, Sym2.mem_iff, forall_eq_or_imp, exists_eq_or_imp, forall_eq,
          exists_eq_left, hp', hm]
        simp [eq_comm]
      case neg =>
        have hn : z ∉ (others.erase h).map (s(h, ·)) := by
          rintro hm
          obtain ⟨x, _, rfl⟩ := List.mem_map.mp hm
          exact hz (Sym2.mem_mk_left ..)
        have he : ∀ x ∈ z, x ∈ others.erase h ↔ x ∈ others := fun x hx =>
          ho.mem_erase_iff.trans (and_iff_right fun he => hz (he ▸ hx))
        rw [or_iff_right hn, forall₂_congr he]

end Candidate

theorem Demand.has_of_narrowed_selecting {plan q : Plan Relation} {p : Predicate} {n : String}
    (d : Demand) (hq : Plan.selecting p plan = .ok q) (hn : (d.narrowed q).output.has n) :
    plan.output.has n := by
  obtain ⟨r, hr, rfl⟩ := Plan.selecting_eq_ok_iff.mp hq
  rw [← Relation.has_eq_of_names (Relation.names_select hr)]
  exact (d.narrowed_narrowed _).has_of_has hn

namespace Components

variable {c c' : Components} {leaves : List Handle} {p : JoinPredicate} {rest : List JoinPredicate}
variable {d d' : Demand} {h x : Handle} {n : String} {plan q : Plan Relation}

structure Relates (c : Components) (leaves : List Handle) (p : JoinPredicate) (k : Candidate) :
    Prop where
  predicate : k.predicate = some p
  left      : k.left ∈ leaves ∧ c.provides p.left k.left
  right     : k.right ∈ leaves ∧ c.provides p.right k.right
  apart     : k.left ≠ k.right

theorem candidate?_relates {k : Candidate} (hn : leaves.Nodup) (ho : c.LeavesOpen leaves p)
    (hk : c.candidate? leaves p = some k) : c.Relates leaves p k := by
  obtain ⟨⟨x, y⟩, hp, rfl⟩ := Option.map_eq_some_iff.mp hk
  obtain ⟨hx, hy, hl, hr⟩ := of_pairFor? hp
  exact ⟨rfl, ⟨hx, hl⟩, ⟨hy, hr⟩, pairFor?_apart hn hp ho⟩

theorem candidate?_eq_none_iff : c.candidate? leaves p = none ↔ c.Unpaired leaves p :=
  Option.map_eq_none_iff.trans pairFor?_eq_none_iff

theorem filterMap_candidate?_relates {ps : List JoinPredicate} (hn : leaves.Nodup)
    (ho : ∀ p ∈ ps, c.LeavesOpen leaves p) :
    List.Forall₂ (c.Relates leaves) (ps.filter (¬c.Unpaired leaves ·))
      (ps.filterMap (c.candidate? leaves)) := by
  induction ps
  case nil          => exact .nil
  case cons p ps hi =>
    obtain ⟨hp, ho⟩ := List.forall_mem_cons.mp ho
    cases hk : c.candidate? leaves p
    case none   =>
      have hu : c.Unpaired leaves p := candidate?_eq_none_iff.mp hk
      rw [List.filterMap_cons_none hk, List.filter_cons_of_neg (by simpa using hu)]
      exact hi ho
    case some k =>
      have hu : ¬c.Unpaired leaves p := fun hu => by simp [candidate?_eq_none_iff.mpr hu] at hk
      rw [List.filterMap_cons_some hk, List.filter_cons_of_pos (by simpa using hu)]
      exact .cons (candidate?_relates hn hp hk) (hi ho)

theorem joinCandidates_relates (hn : leaves.Nodup) (ho : ∀ p ∈ d.joins, c.LeavesOpen leaves p) :
    Meets (fun _ => False) (c.joinCandidates leaves d.joins) d fun ks d' =>
      List.Forall₂ (c.Relates leaves) (d.joins.filter (¬c.Unpaired leaves ·)) ks ∧
        d' = { d with joins := d.joins.filter (c.Unpaired leaves ·) } := by
  refine (joinCandidates_result d.joins [] rfl (by simp)).mono ?_
  rintro ks d' ⟨rfl, rfl⟩
  refine ⟨filterMap_candidate?_relates hn ho, ?_⟩
  simp only [isNone_pairFor?, List.nil_append]

theorem provides_replace (hh : h < c.plans.size) (q : Plan Relation) (n : String) (x : Handle) :
    (c.replace h q).provides n x = if c.owner x = h then q.output.has n else c.provides n x := by
  have owner : (c.replace h q).owner x = c.owner x := rfl
  rw [provides, provides, owner, replace, Array.getElem?_setIfInBounds]
  by_cases he : h = c.owner x
  case pos => simp [← he, hh]
  case neg => simp [he, Ne.symm he]

theorem provides_of_replace (hp : c.StandsFor h plan) (ho : c.owner h = h)
    (hq : ∀ n, q.output.has n → plan.output.has n) (hx : (c.replace h q).provides n x) :
    c.provides n x := by
  rw [provides_replace (ho ▸ hp.lt_size)] at hx
  split at hx
  case isTrue he => exact provides_iff.mpr ⟨plan, hp.congr (he.trans ho.symm), hq n hx⟩
  case isFalse   => exact hx

-- While self-joins are looked for every pending predicate is either still to be looked at or open.
def Screened (c : Components) (leaves : List Handle) (rest : List JoinPredicate) (d : Demand) :
    Prop :=
  ∃ done, d.joins.Perm (rest ++ done) ∧ ∀ p ∈ done, c.LeavesOpen leaves p

namespace Screened

theorem start (c : Components) (leaves : List Handle) (d : Demand) :
    c.Screened leaves (sortByText JoinPredicate.text d.joins) d :=
  ⟨[], by simpa using (sortByText_perm ..).symm, by simp⟩

theorem skip (s : c.Screened leaves (p :: rest) d) (hp : c.LeavesOpen leaves p) :
    c.Screened leaves rest d := by
  obtain ⟨done, hd, ho⟩ := s
  exact ⟨p :: done, hd.trans List.perm_middle.symm, List.forall_mem_cons.mpr ⟨hp, ho⟩⟩

theorem place (s : c.Screened leaves (p :: rest) d) (hd : d'.joins = d.joins.erase p)
    (hp : ∀ n, ∀ x ∈ leaves, c'.provides n x → c.provides n x) : c'.Screened leaves rest d' := by
  obtain ⟨done, hd', ho⟩ := s
  refine ⟨done, ?_, fun p hm => (ho p hm).imp_right fun ho x hx => ?_⟩
  · rw [hd]
    exact (hd'.erase p).trans (by rw [List.cons_append, List.erase_cons_head])
  · exact mt (And.imp (hp _ x hx) (hp _ x hx)) (ho x hx)

theorem leavesOpen (s : c.Screened leaves [] d) : ∀ p ∈ d.joins, c.LeavesOpen leaves p := by
  obtain ⟨done, hd, ho⟩ := s
  exact fun p hp => ho p (hd.mem_iff.mp hp)

end Screened

theorem selfJoin_screens (ho : ∀ x, c.owner x = x) (s : c.Screened leaves (p :: rest) d) :
    Meets (fun _ => True) (c.selfJoin leaves p) d fun c' d' =>
      (∀ x, c'.owner x = x) ∧ c'.Screened leaves rest d' := by
  unfold selfJoin
  split
  case isTrue hs => exact Run.meets_pure ⟨ho, s.skip (.inl hs)⟩
  case isFalse   =>
    split
    case h_1 hf =>
      refine Run.meets_pure ⟨ho, s.skip (.inr fun x hx => ?_)⟩
      simpa using List.find?_eq_none.mp hf x hx
    case h_2 h hf =>
      have hprov := List.find?_some hf
      rw [Bool.and_eq_true] at hprov
      obtain ⟨plan, hp, _⟩ := provides_iff.mp hprov.left
      rw [hp.plan_eq, pure_bind]
      refine (selectJoin_result p plan d).bind ?_
      rintro q d' ⟨hq, hd⟩
      refine (narrow_result q d').bind ?_
      rintro _ e ⟨rfl, rfl⟩
      have hj : e.joins = d.joins.erase p := by rw [hd, Demand.releaseAll_eq]
      exact Run.meets_pure ⟨ho, s.place hj fun n x _ =>
        provides_of_replace hp (ho h) fun _ => e.has_of_narrowed_selecting hq⟩

theorem selfJoins_of_sorted (h : InTextOrder JoinPredicate.text d.joins) (c : Components)
    (leaves : List Handle) :
    c.selfJoins leaves d = d.joins.foldlM (Components.selfJoin leaves) c d := by
  rw [selfJoins, Run.demand_bind_apply, h.sortByText_eq]

theorem selfJoins_open (qs : List (Plan Relation)) (leaves : List Handle) (d : Demand) :
    Meets (fun _ => True) ((ofLeaves qs).selfJoins leaves) d fun c d' =>
      ∀ p ∈ d'.joins, c.LeavesOpen leaves p := by
  refine Run.meets_demand_bind ?_
  let I (rest : List JoinPredicate) (c : Components) (d' : Demand) :=
    (∀ x, c.owner x = x) ∧ c.Screened leaves rest d'
  have step (p rest c d') (h : I (p :: rest) c d') : Meets _ (c.selfJoin leaves p) d' (I rest) :=
    selfJoin_screens h.left h.right
  exact (Run.meets_foldlM step _ _ d ⟨owner_ofLeaves qs, .start ..⟩).mono
    fun _ _ h => h.right.leavesOpen

end Components

open Components

-- Leaves that are there once each have been looked through for self-joins. Then
-- (1) each predicate that pairs them becomes a candidate that relates two of them, and the others
--     stay pending, both in their order, and
-- (2) two leaves form a product if one of them is in no such candidate, and they form a single one.
theorem pairing_complete {qs : List (Plan Relation)} {all leaves : List Handle} {d : Demand}
    {o : Outcome Components} (h : (ofLeaves qs).selfJoins all d = .ok o) (hl : leaves ⊆ all)
    (hn : leaves.Nodup) :
    ∃ r, o.value.joinCandidates leaves o.demand.joins o.demand = .ok r ∧
      List.Forall₂ (o.value.Relates leaves)
        (o.demand.joins.filter (¬o.value.Unpaired leaves ·)) r.value ∧
      r.demand = { o.demand with joins := o.demand.joins.filter (o.value.Unpaired leaves ·) } ∧
      let products := Candidate.products (r.value.flatMap Candidate.sides) leaves leaves
      (∀ k ∈ products, k.predicate = none) ∧ (products.map Candidate.pair).Nodup ∧
        ∀ z, z ∈ products.map Candidate.pair ↔
          ¬z.IsDiag ∧ (∀ h ∈ z, h ∈ leaves) ∧ ∃ h ∈ z, ∀ k ∈ r.value, h ∉ k.sides := by
  have ho : ∀ p ∈ o.demand.joins, o.value.LeavesOpen leaves p := fun p hp =>
    ((selfJoins_open qs all d).elim h p hp).imp_right fun ho x hx => ho x (hl hx)
  obtain ⟨r, hr, hks, hd⟩ := (joinCandidates_relates hn ho).returns
  refine ⟨r, hr, hks, hd, fun k hk => (Candidate.mem_products hk).left,
    Candidate.nodup_pair_products hn hn, fun z => ?_⟩
  rw [Candidate.mem_pair_products hn hn (List.Subset.refl _) fun _ hx hx' => absurd hx hx']
  simp only [List.mem_flatMap, not_exists, not_and]

-- A selection on R, a predicate on a name that is nowhere, a join of R and S, and a predicate on a name
-- that S alone has. T is left for products.
theorem pairing_complete_leftOver :
    let scan (n : String) (as : List Attribute) : Plan Relation :=
      .scanning { name := n, statistics := .of 9 as }
    let qs := [scan "R" [⟨"a", 3⟩, ⟨"x", 3⟩], scan "S" [⟨"b", 3⟩], scan "T" [⟨"c", 3⟩]]
    let ps : List JoinPredicate := [⟨0, "a", "x"⟩, ⟨1, "a", "y"⟩, ⟨2, "b", "a"⟩, ⟨3, "b", "b"⟩]
    let d : Demand := ps.foldl Demand.deferJoin {}
    [0, 1, 2].Nodup ∧ ∃ o r, (ofLeaves qs).selfJoins [0, 1, 2] d = .ok o ∧
      o.value.joinCandidates [0, 1, 2] o.demand.joins o.demand = .ok r ∧
      r.value = [⟨1, 0, some ⟨2, "b", "a"⟩⟩] ∧ r.demand.joins = [⟨1, "a", "y"⟩, ⟨3, "b", "b"⟩] ∧
      let products := Candidate.products (r.value.flatMap Candidate.sides) [0, 1, 2] [0, 1, 2]
      ∀ z, z ∈ products.map Candidate.pair ↔
        ¬z.IsDiag ∧ (∀ h ∈ z, h ∈ [0, 1, 2]) ∧ ∃ h ∈ z, ∀ k ∈ r.value, h ∉ k.sides := by
  intro scan qs ps d
  have run : (((ofLeaves qs).selfJoins [0, 1, 2] d).toOption.bind fun o =>
      (o.value.joinCandidates [0, 1, 2] o.demand.joins o.demand).toOption.map fun r =>
        (r.value, r.demand.joins)) =
      some ([⟨1, 0, some ⟨2, "b", "a"⟩⟩], [⟨1, "a", "y"⟩, ⟨3, "b", "b"⟩]) := by
    have sorted : InTextOrder JoinPredicate.text d.joins := by
      unfold InTextOrder
      decide
    rw [selfJoins_of_sorted sorted]
    decide +kernel
  cases ho : (ofLeaves qs).selfJoins [0, 1, 2] d
  case error => simp [ho, Except.toOption] at run
  case ok o  =>
    obtain ⟨r, hr, _, _, _, _, hz⟩ := pairing_complete ho (List.Subset.refl _) (by decide)
    simp only [ho, hr, Except.toOption, Option.bind_some, Option.map_some, Option.some.injEq,
      Prod.mk.injEq] at run
    exact ⟨by decide, o, r, rfl, hr, run.left, run.right, hz⟩

end QueryPlanner
