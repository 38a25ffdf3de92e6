import QueryPlanner.Proofs.Reshape

namespace QueryPlanner

open Unlimited (noLimit)

variable [DigitLimit] {α β γ ν : Type}

def Outcome.exceeded? (o : Outcome α) : Option Nat :=
  o.events.findSome? Event.exceeded?

theorem Outcome.exceeded?_append (o : Outcome α) (p : Outcome β) :
    Outcome.exceeded? { p with events := o.events ++ p.events } = o.exceeded?.or p.exceeded? :=
  List.findSome?_append

def Outcome.limited (o : Outcome α) : Except Failure (Outcome α) :=
  match o.exceeded? with
  | none   => .ok o
  | some k => .error (.tooManyDigits k)

-- How a run ends without a limit, and how it ends under one.
inductive Limited : Except Failure (Outcome α) → Except Failure (Outcome α) → Prop
  | complete {o} (fits : o.exceeded? = none) : Limited (.ok o) (.ok o)
  | stopped {o k} (exceeds : o.exceeded? = some k) : Limited (.ok o) (.error (.tooManyDigits k))
  | failed {e} : Limited (.error e) (.error e)
  | stoppedEarly {e k} : Limited (.error e) (.error (.tooManyDigits k))

namespace Limited

variable {x y : Except Failure (Outcome α)}

theorem eq_limited {o : Outcome α} (h : Limited (.ok o) y) : y = o.limited := by
  cases h
  case complete hk => simp [Outcome.limited, hk]
  case stopped hk  => simp [Outcome.limited, hk]

theorem error {e : Failure} (h : Limited x (.error e)) : x = .error e ∨ ∃ k, e = .tooManyDigits k := by
  cases h
  case failed => exact .inl rfl
  all_goals exact .inr ⟨_, rfl⟩

end Limited

namespace Run

-- Under the limit `y` does what `x` does without it, up to the first number with too many digits.
def Limits (x y : Run α) : Prop :=
  ∀ d, Limited (x d) (y d)

namespace Limits

variable {x y : Run α} {f g : α → Run β}

theorem pure (a : α) : (pure a : Run α).Limits (pure a) :=
  fun _ => .complete rfl

theorem bind (h : x.Limits y) (hf : ∀ a, (f a).Limits (g a)) : (x >>= f).Limits (y >>= g) := by
  intro d
  have hd := h d
  simp only [Bind.bind, Run.bind]
  generalize x d = r at hd ⊢
  generalize y d = s at hd ⊢
  cases hd
  case failed       => exact .failed
  case stoppedEarly => exact .stoppedEarly
  case stopped o k hk =>
    dsimp only
    cases f o.value o.demand
    case error => exact .stoppedEarly
    case ok p  => exact .stopped (by rw [Outcome.exceeded?_append, hk, Option.some_or])
  case complete o hk =>
    dsimp only
    have ho := hf o.value o.demand
    generalize f o.value o.demand = r at ho ⊢
    generalize g o.value o.demand = s at ho ⊢
    cases ho
    case failed       => exact .failed
    case stoppedEarly => exact .stoppedEarly
    case stopped hp   => exact .stopped (by rw [Outcome.exceeded?_append, hk, hp, Option.none_or])
    case complete hp  => exact .complete (by rw [Outcome.exceeded?_append, hk, hp, Option.none_or])

theorem demand : Run.demand.Limits Run.demand :=
  fun _ => .complete rfl

theorem modify (f : Demand → Demand) : (Run.modify f).Limits (Run.modify f) :=
  fun _ => .complete rfl

theorem fail (e : Failure) : (Run.fail e : Run α).Limits (Run.fail e) :=
  fun _ => .failed

theorem place (f : Demand → Except NotPending Demand) : (Run.place f).Limits (Run.place f) := by
  intro d
  unfold Run.place
  cases f d
  case ok    => exact .complete rfl
  case error => exact .failed

theorem ofEstimate (e : Except NegativeTupleCount α) :
    (Run.ofEstimate e).Limits (Run.ofEstimate e) := by
  intro d
  cases e
  case ok    => exact .complete rfl
  case error => exact .failed

theorem report (ev : Event) : (@Run.report noLimit ev).Limits (Run.report ev) := by
  intro d
  rw [report_apply]
  unfold Run.report
  cases hk : ev.exceeded?
  case none   => exact .complete (by simp [Outcome.exceeded?, hk])
  case some k => exact .stopped (by simp [Outcome.exceeded?, hk])

theorem foldlM {f g : β → γ → Run β} (h : ∀ b c, (f b c).Limits (g b c)) (cs : List γ) (b : β) :
    (cs.foldlM f b).Limits (cs.foldlM g b) := by
  induction cs generalizing b
  case nil          => exact .pure b
  case cons c cs hi => exact (h b c).bind hi

end Limits
end Run

open Run (Limits)

theorem narrow_limits (plan : Plan Relation) : (@narrow noLimit plan).Limits (narrow plan) := by
  refine Limits.demand.bind fun d => ?_
  split
  case isTrue  => exact .pure _
  case isFalse =>
    dsimp only
    split
    case isTrue  => exact (Limits.report _).bind fun _ => .pure _
    case isFalse => split <;> exact .pure _

theorem selectJoin_limits (p : JoinPredicate) (plan : Plan Relation) :
    (selectJoin p plan).Limits (selectJoin p plan) :=
  (Limits.ofEstimate _).bind fun _ => (Limits.place _).bind fun _ => .pure _

theorem selectValue_limits (p : ValuePredicate) (plan : Plan Relation) :
    (selectValue p plan).Limits (selectValue p plan) :=
  (Limits.ofEstimate _).bind fun _ => (Limits.place _).bind fun _ => .pure _

namespace Components

variable {options : Options} {leaves : List Handle} {c : Components}

theorem plan_limits (c : Components) (h : Handle) : (c.plan h).Limits (c.plan h) := by
  unfold Components.plan
  split
  case h_1 => exact .pure _
  case h_2 => exact .fail _

theorem selfJoin_limits (c : Components) (p : JoinPredicate) :
    (@selfJoin noLimit leaves c p).Limits (c.selfJoin leaves p) := by
  unfold selfJoin
  split
  case isTrue  => exact .pure _
  case isFalse =>
    split
    case h_1     => exact .pure _
    case h_2 h _ =>
      exact (c.plan_limits h).bind fun plan => (selectJoin_limits p plan).bind fun q =>
        (narrow_limits q).bind fun _ => .pure _

theorem joinCandidates_limits (ps : List JoinPredicate) :
    (c.joinCandidates leaves ps).Limits (c.joinCandidates leaves ps) := by
  induction ps
  case nil          => exact .pure _
  case cons p ps hi =>
    rw [joinCandidates]
    split
    case h_1 => exact hi
    case h_2 => exact (Limits.place _).bind fun _ => hi.bind fun _ => .pure _

theorem cost_limits (c : Components) (k : Candidate) : (@cost noLimit c k).Limits (c.cost k) := by
  have build : (c.build k).Limits (c.build k) := by
    refine (c.plan_limits k.left).bind fun l => (c.plan_limits k.right).bind fun r => ?_
    split
    case h_1 => exact .pure _
    case h_2 => exact .ofEstimate _
  exact build.bind fun _ => (Limits.report _).bind fun _ => .pure _

theorem cheapest_limits (c : Components) (first : Candidate) (rest : List Candidate) :
    (@cheapest noLimit options c first rest).Limits (c.cheapest options first rest) := by
  refine (c.cost_limits first).bind fun best => ?_
  split
  case isTrue  => exact .foldlM (fun _ k => (c.cost_limits k).bind fun _ => .pure _) rest best
  case isFalse => exact .pure best

theorem materialise_limits (c : Components) (k : Candidate) (plan : Plan Relation) :
    (@materialise noLimit c k plan).Limits (c.materialise k plan) := by
  refine (Limits.report _).bind fun _ => ?_
  split
  case h_1 => exact (Limits.modify _).bind fun _ => (narrow_limits plan).bind fun _ => .pure _
  case h_2 => exact (narrow_limits plan).bind fun _ => .pure _

theorem selectWithin_limits (c : Components) (k : Handle × JoinPredicate) :
    (@selectWithin noLimit c k).Limits (c.selectWithin k) :=
  (c.plan_limits k.1).bind fun _ => (Limits.ofEstimate _).bind fun q =>
    (Limits.modify _).bind fun _ => (narrow_limits q).bind fun _ => .pure _

theorem settle_go_limits (fuel : Nat) (c : Components) (ks : List Candidate) :
    (@settle.go noLimit fuel c ks).Limits (settle.go fuel c ks) := by
  induction fuel generalizing c ks
  case zero         => exact .pure _
  case succ fuel hi =>
    unfold settle.go
    split
    case h_1 => exact .pure _
    case h_2 => exact (Limits.foldlM selectWithin_limits _ c).bind fun _ => hi _ _

theorem agenda_limits (c : Components) (ks : List Candidate) :
    (@agenda noLimit leaves c ks).Limits (c.agenda leaves ks) := by
  refine (settle_go_limits _ c ks).bind fun (c', ls) => ?_
  dsimp only
  split
  case isFalse => exact .pure _
  case isTrue  =>
    split
    case isTrue  => exact (Limits.report _).bind fun _ => .pure _
    case isFalse => exact .pure _

theorem reduce_limits (fuel : Nat) (c : Components) (ks : List Candidate) :
    (@reduce noLimit options leaves fuel c ks).Limits (c.reduce options leaves fuel ks) := by
  induction fuel generalizing c ks
  case zero         => exact .fail _
  case succ fuel hi =>
    refine (c.agenda_limits ks).bind fun (c', ls) => ?_
    match ls with
    | [] =>
      show (c'.finish leaves).Limits (c'.finish leaves)
      unfold finish
      split
      case h_1 => exact .pure _
      case h_2 => exact c'.plan_limits _
    | first :: rest =>
      exact (c'.cheapest_limits first rest).bind fun (best, plan) =>
        (c'.materialise_limits best plan).bind fun _ => hi _ _

end Components

open Components

theorem joinOrder_limits (options : Options) (root : Operator) (leaves : List (Plan Relation)) :
    (@joinOrder noLimit options root leaves).Limits (joinOrder options root leaves) := by
  unfold joinOrder
  split
  case isTrue  => exact (Limits.report _).bind fun _ => .pure _
  case isFalse =>
    refine (Limits.demand.bind fun d => .foldlM selfJoin_limits _ _).bind fun c => ?_
    refine Limits.demand.bind fun d => (joinCandidates_limits _).bind fun js => ?_
    dsimp only
    split
    case h_1 => exact .pure _
    case h_2 => exact c.plan_limits _
    case h_3 => exact reduce_limits _ c _

theorem placeScan_limits (r : NamedRelation) : (@placeScan noLimit r).Limits (placeScan r) :=
  Limits.demand.bind fun _ => (Limits.foldlM (fun q p => selectValue_limits p q) _ _).bind fun _ =>
    Limits.demand.bind fun _ => (Limits.foldlM (fun q p => selectJoin_limits p q) _ _).bind narrow_limits

namespace Reshaping

structure Limits (x y : Reshaping) : Prop where
  plan   : x.plan.Limits y.plan
  leaves : x.leaves.Limits y.leaves

theorem leaf_limits {x y : Run (Plan Relation)} (h : x.Limits y) :
    (@leaf noLimit x).Limits (leaf y) where
  plan   := h
  leaves := h.bind fun q => by
    unfold keepLeaf
    split
    case isTrue  => exact (Run.Limits.report _).bind fun _ => .pure _
    case isFalse => exact .pure _

theorem chain_limits {l l' r r' : Reshaping} (hl : l.Limits l') (hr : r.Limits r') :
    (chain l r).Limits (chain l' r') :=
  hl.leaves.bind fun _ => hr.leaves.bind fun _ => .pure _

theorem ofPlan_limits (options : Options) (plan : Plan ν) :
    (@ofPlan noLimit ν options plan).Limits (ofPlan options plan) := by
  induction plan
  case scan r           => exact leaf_limits (placeScan_limits r)
  case select hi        => exact leaf_limits ((Run.Limits.modify _).bind fun _ => hi.plan)
  case project hi       =>
    refine leaf_limits (Run.Limits.demand.bind fun d => (Run.Limits.modify _).bind fun _ => ?_)
    exact hi.plan.bind fun q => (narrow_limits q).bind fun _ => (Run.Limits.modify _).bind fun _ => .pure _
  case product hl hr    =>
    have h := chain_limits hl hr
    exact ⟨h.bind (joinOrder_limits options _), h⟩
  case join hl hr       =>
    exact leaf_limits <| (Run.Limits.modify _).bind fun _ =>
      (chain_limits hl hr).bind (joinOrder_limits options _)

end Reshaping

theorem reshape_limits (options : Options) (plan : Plan ν) :
    (@reshape noLimit ν options plan).Limits (reshape options plan) :=
  (Reshaping.ofPlan_limits options plan).plan

theorem optimise_limited (options : Options) (plan : Plan ν) :
    Limited (@optimise noLimit ν options plan) (optimise options plan) := by
  refine (reshape_limits options plan).bind (fun q => Limits.demand.bind fun d => ?_) {}
  split
  case h_1 => exact (Limits.report _).bind fun _ => .pure _
  case h_2 => exact (Limits.report _).bind fun _ => .pure _

end QueryPlanner
