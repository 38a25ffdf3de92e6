import Mathlib.Logic.Relation
import QueryPlanner.Proofs.JoinOrder.Carried
import QueryPlanner.Proofs.JoinOrder.Choice

namespace QueryPlanner

open Run (Meets)
open Unlimited

-- A moment of a join search. The predicates that are due have both their sides in one component, and
-- still have to be applied there. Beside what the search works with, all candidates that there ever were
-- are on record, and those that were combined.
structure Moment where
  components : Components
  due        : List (Handle × JoinPredicate) := []
  candidates : List Candidate
  demand     : Demand
  created    : List Candidate
  combined   : List Candidate := []

namespace Moment

def start (c : Components) (ks : List Candidate) (d : Demand) : Moment where
  components := c
  candidates := ks
  demand     := d
  created    := ks

def settled (m : Moment) : Moment :=
  { m with
    due        := sortByText (·.2.text) (m.candidates.filterMap m.components.collapsed?)
    candidates := m.candidates.filter m.components.isOutstanding }

def connected (leaves : List Handle) (m : Moment) : Moment :=
  { m with
    candidates := Candidate.pairs (m.components.live leaves)
    created    := m.created ++ Candidate.pairs (m.components.live leaves) }

-- What a join search does at a moment, if it is not at its end: it applies the next predicate that is due,
-- drops the candidates that are not outstanding, pairs the components that no candidate connects, or
-- combines the cheapest candidate.
def next (options : Options) (leaves : List Handle) (m : Moment) : Except Failure (Option Moment) :=
  match m.due with
  | k :: due => do
    let o ← m.components.selectWithin k m.demand
    return some { m with
      components := o.value
      demand     := o.demand
      due        := due }
  | [] =>
    if m.candidates.all m.components.isOutstanding then
      match m.candidates with
      | []            =>
        return if Candidate.pairs (m.components.live leaves) = [] then none else m.connected leaves
      | first :: rest => do
        let best ← m.components.cheapest options first rest m.demand
        let o ← m.components.materialise best.value.1 best.value.2 best.demand
        return some { m with
          components := o.value
          demand     := o.demand
          due        := []
          candidates := m.candidates.erase best.value.1
          combined   := m.combined ++ [best.value.1] }
    else
      return m.settled

variable {options : Options} {leaves : List Handle} {m : Moment}

inductive Step (options : Options) (leaves : List Handle) (m : Moment) : Moment → Prop
  | select {k due plan q} (first : m.due = k :: due) (input : m.components.StandsFor k.1 plan)
    (selected : Plan.selecting (.join k.2) plan = .ok q) : Step options leaves m { m with
      components := m.components.takeOver [k.1] ((m.demand.releaseJoin k.2).narrowed q)
      demand     := m.demand.releaseJoin k.2
      due        := due }
  | settle (done : m.due = []) (unsettled : ∃ k ∈ m.candidates, m.components.isOutstanding k = false) :
    Step options leaves m m.settled
  | connect (done : m.due = []) (empty : m.candidates = [])
    (apart : Candidate.pairs (m.components.live leaves) ≠ []) :
    Step options leaves m (m.connected leaves)
  | combine {best plan} (done : m.due = []) (settled : ∀ k ∈ m.candidates, m.components.isOutstanding k)
    (chosen : m.components.Chosen options m.candidates (best, plan)) : Step options leaves m { m with
      components := m.components.takeOver [best.left, best.right] ((best.released m.demand).narrowed plan)
      demand     := best.released m.demand
      due        := []
      candidates := m.candidates.erase best
      combined   := m.combined ++ [best] }

end Moment

namespace Components

def combine (options : Options) (c : Components) (first : Candidate) (rest : List Candidate) :
    Run (Candidate × Components) := do
  let best ← c.cheapest options first rest
  return (best.1, ← c.materialise best.1 best.2)

theorem reduce_succ (options : Options) (leaves : List Handle) (fuel : Nat) (c : Components)
    (ks : List Candidate) :
    c.reduce options leaves (fuel + 1) ks = c.agenda leaves ks >>= fun r =>
      match r.2 with
      | []            => r.1.finish leaves
      | first :: rest => r.1.combine options first rest >>= fun s =>
        s.2.reduce options leaves fuel ((first :: rest).erase s.1) := by
  rw [reduce]
  refine bind_congr fun r => ?_
  obtain ⟨c, _ | ⟨first, rest⟩⟩ := r
  · rfl
  · simp only [combine, bind_assoc, pure_bind]

theorem combine_chosen (c : Components) (options : Options) (first : Candidate) (rest : List Candidate)
    (d : Demand) :
    Meets (fun _ => True) (c.combine options first rest) d fun r d' => d' = r.1.released d ∧
      ∃ plan, c.Chosen options (first :: rest) (r.1, plan) ∧
        r.2 = c.takeOver [r.1.left, r.1.right] (d'.narrowed plan) := by
  refine (cheapest_chosen c options first rest d).bind ?_
  rintro best _ ⟨rfl, hch⟩
  refine (materialise_takeOver c best.1 best.2 _).bind ?_
  rintro _ _ ⟨rfl, rfl⟩
  exact Run.meets_pure ⟨rfl, best.2, hch, rfl⟩

end Components

namespace Moment

variable {options : Options} {leaves : List Handle} {m m' : Moment} {e : Failure} {α : Type}

def Takes (options : Options) (leaves : List Handle) (m : Moment) (x : Run α)
    (f : α → Demand → Moment) : Prop :=
  m.next options leaves = (x m.demand).map fun o => some (f o.value o.demand)

namespace Takes

variable {x : Run α} {f : α → Demand → Moment} {F : Failure → Prop} {Q : α → Demand → Prop}

theorem result (t : m.Takes options leaves x f) (h : Meets F x m.demand Q)
    (hn : m.next options leaves = .ok (some m')) : ∃ a d, Q a d ∧ f a d = m' := by
  rw [Takes, hn] at t
  cases hx : x m.demand <;> rw [hx] at t
  case error => cases t
  case ok o  => exact ⟨o.value, o.demand, h.elim hx, (Option.some.inj (Except.ok.inj t)).symm⟩

theorem failure (t : m.Takes options leaves x f) (h : Meets F x m.demand Q)
    (hn : m.next options leaves = .error e) : F e := by
  rw [Takes, hn] at t
  cases hx : x m.demand <;> rw [hx] at t
  case error => exact Except.error.inj t ▸ h.failure hx
  case ok    => cases t

theorem ne_none (t : m.Takes options leaves x f) : m.next options leaves ≠ .ok none := by
  intro hn
  rw [Takes, hn] at t
  cases hx : x m.demand <;> rw [hx] at t <;> cases t

end Takes

theorem takes_select {k : Handle × JoinPredicate} {due : List (Handle × JoinPredicate)}
    (hd : m.due = k :: due) :
    m.Takes options leaves (m.components.selectWithin k) fun c d =>
      { m with components := c, demand := d, due := due } := by
  rw [Takes, next, hd]
  dsimp only
  cases m.components.selectWithin k m.demand <;> rfl

theorem next_settle (hd : m.due = []) (hu : ∃ k ∈ m.candidates, m.components.isOutstanding k = false) :
    m.next options leaves = .ok (some m.settled) := by
  have hu : m.candidates.all m.components.isOutstanding = false := List.all_eq_false.mpr (by simpa using hu)
  simp only [next, hd, hu, Bool.false_eq_true, if_false, pure, Except.pure]

theorem next_connect (hd : m.due = []) (hk : m.candidates = [])
    (hp : Candidate.pairs (m.components.live leaves) ≠ []) :
    m.next options leaves = .ok (some (m.connected leaves)) := by
  simp only [next, hd, hk, hp, List.all_nil, if_true, if_false, pure, Except.pure]

theorem next_last (hd : m.due = []) (hk : m.candidates = [])
    (hp : Candidate.pairs (m.components.live leaves) = []) : m.next options leaves = .ok none := by
  simp only [next, hd, hk, hp, List.all_nil, if_true, pure, Except.pure]

theorem takes_combine {first : Candidate} {rest : List Candidate} (hd : m.due = [])
    (ho : ∀ k ∈ m.candidates, m.components.isOutstanding k) (hk : m.candidates = first :: rest) :
    m.Takes options leaves (m.components.combine options first rest) fun r d => { m with
      components := r.2
      demand     := d
      due        := []
      candidates := m.candidates.erase r.1
      combined   := m.combined ++ [r.1] } := by
  have ho : m.candidates.all m.components.isOutstanding := List.all_eq_true.mpr ho
  simp only [Takes, next, hd, ho, if_true]
  rw [hk]
  dsimp only [Components.combine, bind, Run.bind]
  cases m.components.cheapest options first rest m.demand
  case error => rfl
  case ok b  =>
    dsimp only [Except.bind]
    cases m.components.materialise b.value.1 b.value.2 b.demand <;> rfl

-- What a moment may be like.
inductive Turn (leaves : List Handle) (m : Moment) : Prop
  | select {k due} (first : m.due = k :: due)
  | settle (done : m.due = []) (unsettled : ∃ k ∈ m.candidates, m.components.isOutstanding k = false)
  | connect (done : m.due = []) (empty : m.candidates = [])
    (apart : Candidate.pairs (m.components.live leaves) ≠ [])
  | combine {first rest} (done : m.due = []) (settled : ∀ k ∈ m.candidates, m.components.isOutstanding k)
    (listed : m.candidates = first :: rest)
  | last (done : m.due = []) (empty : m.candidates = [])
    (joined : Candidate.pairs (m.components.live leaves) = [])

theorem turn (leaves : List Handle) (m : Moment) : m.Turn leaves := by
  cases hd : m.due
  case cons => exact .select hd
  case nil  =>
    by_cases ho : ∀ k ∈ m.candidates, m.components.isOutstanding k
    case neg => exact .settle hd (by simpa using ho)
    case pos =>
      cases hk : m.candidates
      case cons => exact .combine hd ho hk
      case nil  =>
        by_cases hp : Candidate.pairs (m.components.live leaves) = []
        case pos => exact .last hd hk hp
        case neg => exact .connect hd hk hp

theorem next_step (h : m.next options leaves = .ok (some m')) : m.Step options leaves m' := by
  cases m.turn leaves
  case select hd =>
    obtain ⟨_, _, ⟨rfl, plan, q, hp, hq, rfl⟩, rfl⟩ := (takes_select hd).result
      (Components.selectWithin_takeOver (F := fun _ => True) (.inr trivial) fun _ _ _ _ => trivial) h
    exact .select hd hp hq
  case settle hd hu =>
    obtain rfl : m.settled = m' := Option.some.inj (Except.ok.inj ((next_settle hd hu).symm.trans h))
    exact .settle hd hu
  case connect hd hk hp =>
    obtain rfl : m.connected leaves = m' :=
      Option.some.inj (Except.ok.inj ((next_connect hd hk hp).symm.trans h))
    exact .connect hd hk hp
  case combine hd ho hk =>
    obtain ⟨_, _, ⟨rfl, plan, hch, hc⟩, rfl⟩ :=
      (takes_combine hd ho hk).result (Components.combine_chosen ..) h
    rw [hc]
    exact .combine hd ho (hk ▸ hch)
  case last hd hk hp => cases (next_last hd hk hp).symm.trans h

theorem next_eq_none_iff : m.next options leaves = .ok none ↔
    m.due = [] ∧ m.candidates = [] ∧ Candidate.pairs (m.components.live leaves) = [] := by
  refine ⟨fun h => ?_, fun h => next_last h.left h.right.left h.right.right⟩
  cases m.turn leaves
  case select hd        => exact absurd h (takes_select hd).ne_none
  case settle hd hu     => cases (next_settle hd hu).symm.trans h
  case connect hd hk hp => cases (next_connect hd hk hp).symm.trans h
  case combine hd ho hk => exact absurd h (takes_combine hd ho hk).ne_none
  case last hd hk hp    => exact ⟨hd, hk, hp⟩

def Reaches (options : Options) (leaves : List Handle) : Moment → Moment → Prop :=
  Relation.ReflTransGen fun m m' => m.next options leaves = .ok (some m')

theorem Step.combined_grows (h : m.Step options leaves m') : m.combined <+: m'.combined := by
  cases h
  case select  => exact List.prefix_rfl
  case settle  => exact List.prefix_rfl
  case connect => exact List.prefix_rfl
  case combine => exact List.prefix_append ..

theorem Reaches.combined_grows (h : m.Reaches options leaves m') : m.combined <+: m'.combined := by
  induction h
  case refl         => exact List.prefix_rfl
  case tail _ hn hi => exact hi.trans (next_step hn).combined_grows

def Fails (options : Options) (leaves : List Handle) (m : Moment) (e : Failure) : Prop :=
  ∃ m', m.Reaches options leaves m' ∧ m'.next options leaves = .error e

theorem Fails.of_reaches (h : m.Reaches options leaves m') (hf : m'.Fails options leaves e) :
    m.Fails options leaves e := by
  obtain ⟨m'', h', he⟩ := hf
  exact ⟨m'', h.trans h', he⟩

theorem Takes.follows {x : Run α} {f : α → Demand → Moment} (t : m.Takes options leaves x f) :
    Meets (m.Fails options leaves) x m.demand fun a d => m.Reaches options leaves (f a d) := by
  unfold Takes at t
  unfold Meets
  cases hx : x m.demand <;> rw [hx] at t
  case error => exact ⟨m, .refl, t⟩
  case ok    => exact .single t

theorem selects_follow {due : List (Handle × JoinPredicate)} (hd : m.due = due) :
    Meets (m.Fails options leaves) (due.foldlM Components.selectWithin m.components) m.demand fun c d =>
      m.Reaches options leaves { m with components := c, demand := d, due := [] } := by
  induction due generalizing m
  case nil => exact Run.meets_pure (hd ▸ .refl)
  case cons k due hi =>
    rw [List.foldlM_cons]
    refine (takes_select hd).follows.bind fun c d hc => ?_
    have hi := hi (m := { m with components := c, demand := d, due := due }) rfl
    exact (hi.weaken fun _ => .of_reaches hc).mono fun _ _ => hc.trans

theorem settle_go_follows (fuel : Nat) (hd : m.due = []) (hf : m.candidates.length ≤ fuel) :
    Meets (m.Fails options leaves) (Components.settle.go fuel m.components m.candidates) m.demand
      fun r d => (∀ k ∈ r.2, r.1.isOutstanding k) ∧
        m.Reaches options leaves { m with components := r.1, candidates := r.2, demand := d } := by
  induction fuel generalizing m
  case zero =>
    have hk : m.candidates = [] := List.length_eq_zero_iff.mp (Nat.le_zero.mp hf)
    exact Run.meets_pure ⟨by simp [hk], .refl⟩
  case succ fuel hi =>
    rw [Components.settle.go]
    split
    case h_1 hc =>
      refine Run.meets_pure ⟨fun k hk => (List.mem_filter.mp hk).right, ?_⟩
      -- Even if nothing collapses, some candidates may not be outstanding, and it is a step to drop them.
      by_cases ho : ∀ k ∈ m.candidates, m.components.isOutstanding k
      case pos =>
        rw [List.filter_eq_self.mpr ho]
        exact .refl
      case neg =>
        have h : m.Reaches options leaves m.settled := .single (next_settle hd (by simpa using ho))
        rw [settled, hc, sortByText_nil, ← hd] at h
        exact h
    case h_2 hc =>
      have hlt := Components.length_outstanding_lt hc
      have hu := List.length_filter_lt_length_iff_exists.mp hlt
      have h : m.Reaches options leaves m.settled := .single (next_settle hd (by simpa using hu))
      refine ((selects_follow (m := m.settled) rfl).weaken fun _ => .of_reaches h).bind fun c d hc => ?_
      have hi := hi (m := { m.settled with components := c, demand := d, due := [] }) rfl
        (show (m.candidates.filter m.components.isOutstanding).length ≤ fuel by omega)
      refine (hi.weaken fun _ => .of_reaches (h.trans hc)).mono ?_
      rintro r d' ⟨ho, hr⟩
      refine ⟨ho, h.trans (hc.trans ?_)⟩
      rw [hd]
      exact hr

end Moment
end QueryPlanner
