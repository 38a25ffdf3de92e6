import QueryPlanner.Optimise.Reshape
import QueryPlanner.Proofs.Run

namespace QueryPlanner

open Unlimited

namespace Run

variable {α β γ δ : Type} {E : Event → Prop} {f : Demand → δ} {x : Run α} {g : α → Run β}

-- A run leaves alone what `f` sees of the demand, and `E` holds of all that it reports.
def Keeps (E : Event → Prop) (f : Demand → δ) (x : Run α) : Prop :=
  ∀ d o, x d = .ok o → f o.demand = f d ∧ ∀ ev ∈ o.events, E ev

abbrev Tells (E : Event → Prop) (x : Run α) : Prop :=
  x.Keeps E fun _ => ()

namespace Keeps

theorem pure (a : α) : (pure a : Run α).Keeps E f := by
  rintro d o ⟨⟩
  exact ⟨rfl, nofun⟩

theorem bind (h : x.Keeps E f) (hg : ∀ a, (g a).Keeps E f) : (x >>= g).Keeps E f := by
  intro d o ho
  obtain ⟨o₁, o₂, ho₁, ho₂, rfl⟩ := bind_eq_ok_iff.mp ho
  have ⟨hd, hev⟩ := h d o₁ ho₁
  have ⟨hd', hev'⟩ := hg o₁.value o₁.demand o₂ ho₂
  exact ⟨hd'.trans hd, fun ev hm => (List.mem_append.mp hm).elim (hev ev) (hev' ev)⟩

theorem demand : Run.demand.Keeps E f := by
  rintro d o ⟨⟩
  exact ⟨rfl, nofun⟩

theorem modify {m : Demand → Demand} (h : ∀ d, f (m d) = f d) : (Run.modify m).Keeps E f := by
  rintro d o ⟨⟩
  exact ⟨h d, nofun⟩

theorem report {ev : Event} (h : E ev) : (Run.report ev).Keeps E f := by
  intro d o ho
  cases (report_apply ev d).symm.trans ho
  exact ⟨rfl, by simpa using h⟩

theorem fail (e : Failure) : (Run.fail e : Run α).Keeps E f :=
  nofun

theorem place {m : Demand → Except NotPending Demand} (h : ∀ d d', m d = .ok d' → f d' = f d) :
    (Run.place m).Keeps E f := by
  intro d o ho
  unfold Run.place at ho
  split at ho
  case h_1 d' hd => cases ho; exact ⟨h d d' hd, nofun⟩
  case h_2       => cases ho

theorem ofEstimate (e : Except NegativeTupleCount α) : (Run.ofEstimate e).Keeps E f := by
  intro d o ho
  unfold Run.ofEstimate at ho
  split at ho
  case h_1 => cases ho; exact ⟨rfl, nofun⟩
  case h_2 => cases ho

theorem foldlM {step : β → γ → Run β} (h : ∀ b c, (step b c).Keeps E f) (cs : List γ) (b : β) :
    (cs.foldlM step b).Keeps E f := by
  induction cs generalizing b
  case nil          => exact .pure b
  case cons c cs hi => exact (h b c).bind hi

theorem meets (h : x.Keeps E f) (d : Demand) : Meets (fun _ => True) x d fun _ d' => f d' = f d := by
  unfold Meets
  cases hd : x d
  case error => exact trivial
  case ok o  => exact (h d o hd).left

end Keeps
end Run

open Run (Keeps)

def Event.Plain (ev : Event) : Prop :=
  ev.severity = .debug ∧ ev.number? = none

variable {δ : Type} {E : Event → Prop} {f : Demand → δ}

section Plain

variable (hp : ∀ ev : Event, ev.Plain → E ev)
include hp

theorem narrow_keeps (plan : Plan Relation) : (narrow plan).Keeps E f := by
  refine Keeps.demand.bind fun d => ?_
  split
  case isTrue  => exact .pure _
  case isFalse =>
    dsimp only
    split
    case isTrue  => exact (Keeps.report (hp _ ⟨rfl, rfl⟩)).bind fun _ => .pure _
    case isFalse => split <;> exact .pure _

theorem placeScan_tells (r : NamedRelation) : (placeScan r).Tells E := by
  have value (plan : Plan Relation) (p : ValuePredicate) : (selectValue p plan).Tells E :=
    (Keeps.ofEstimate _).bind fun _ => (Keeps.place fun _ _ _ => rfl).bind fun _ => .pure _
  have join (plan : Plan Relation) (p : JoinPredicate) : (selectJoin p plan).Tells E :=
    (Keeps.ofEstimate _).bind fun _ => (Keeps.place fun _ _ _ => rfl).bind fun _ => .pure _
  exact Keeps.demand.bind fun _ => (Keeps.foldlM value _ _).bind fun _ => Keeps.demand.bind fun _ =>
    (Keeps.foldlM join _ _).bind (narrow_keeps hp)

theorem keepLeaf_tells (plan : Plan Relation) : (Reshaping.keepLeaf plan).Tells E := by
  unfold Reshaping.keepLeaf
  split
  case isTrue  => exact (Keeps.report (hp _ ⟨rfl, rfl⟩)).bind fun _ => .pure _
  case isFalse => exact .pure _

end Plain

namespace Components

variable {c : Components}

theorem plan_keeps (c : Components) (h : Handle) : (c.plan h).Keeps E f := by
  unfold Components.plan
  split
  case h_1 => exact .pure _
  case h_2 => exact .fail _

theorem build_keeps (c : Components) (k : Candidate) : (c.build k).Keeps E f := by
  refine (c.plan_keeps k.left).bind fun l => (c.plan_keeps k.right).bind fun r => ?_
  split
  case h_1 => exact .pure _
  case h_2 => exact .ofEstimate _

theorem finish_keeps (leaves : List Handle) (c : Components) : (c.finish leaves).Keeps E f := by
  unfold finish
  split
  case h_1 => exact .pure _
  case h_2 => exact c.plan_keeps _

-- Before the search predicates are placed on single leaves and claimed.

theorem selfJoin_tells (hp : ∀ ev : Event, ev.Plain → E ev) (leaves : List Handle) (c : Components)
    (p : JoinPredicate) : (c.selfJoin leaves p).Tells E := by
  unfold selfJoin
  split
  case isTrue  => exact .pure _
  case isFalse =>
    split
    case h_1 => exact .pure _
    case h_2 h _ =>
      refine (c.plan_keeps h).bind fun plan => Keeps.bind ?_ fun q => ?_
      · exact (Keeps.ofEstimate _).bind fun _ => (Keeps.place fun _ _ _ => rfl).bind fun _ => .pure _
      · exact (narrow_keeps hp q).bind fun _ => .pure _

theorem joinCandidates_tells (c : Components) (leaves : List Handle) (ps : List JoinPredicate) :
    (c.joinCandidates leaves ps).Tells E := by
  induction ps
  case nil          => exact .pure _
  case cons p ps hi =>
    rw [joinCandidates]
    split
    case h_1 => exact hi
    case h_2 => exact (Keeps.place fun _ _ _ => rfl).bind fun _ => hi.bind fun _ => .pure _

-- The search only ever releases predicates.
section Search

variable (hf : ∀ d p, f (Demand.releaseJoin d p) = f d)
include hf

theorem selectWithin_keeps (hp : ∀ ev : Event, ev.Plain → E ev) (c : Components)
    (k : Handle × JoinPredicate) : (c.selectWithin k).Keeps E f :=
  (c.plan_keeps k.1).bind fun _ => (Keeps.ofEstimate _).bind fun q =>
    (Keeps.modify fun d => hf d k.2).bind fun _ => (narrow_keeps hp q).bind fun _ => .pure _

theorem settle_go_keeps (hp : ∀ ev : Event, ev.Plain → E ev) (fuel : Nat) (c : Components)
    (ks : List Candidate) : (settle.go fuel c ks).Keeps E f := by
  induction fuel generalizing c ks
  case zero         => exact .pure _
  case succ fuel hi =>
    rw [settle.go]
    split
    case h_1 => exact .pure _
    case h_2 => exact (Keeps.foldlM (selectWithin_keeps hf hp) _ c).bind fun _ => hi _ _

variable (hd : ∀ ev : Event, ev.severity = .debug → E ev)
include hd

omit hf in
theorem cost_keeps (c : Components) (k : Candidate) : (c.cost k).Keeps E f :=
  (c.build_keeps k).bind fun _ => (Keeps.report (hd _ rfl)).bind fun _ => .pure _

omit hf in
theorem cheapest_keeps (options : Options) (c : Components) (first : Candidate)
    (rest : List Candidate) : (c.cheapest options first rest).Keeps E f := by
  refine (cost_keeps hd c first).bind fun best => ?_
  split
  case isTrue  => exact .foldlM (fun _ k => (cost_keeps hd c k).bind fun _ => .pure _) rest best
  case isFalse => exact .pure best

theorem materialise_keeps (c : Components) (k : Candidate) (plan : Plan Relation) :
    (c.materialise k plan).Keeps E f := by
  have narrowed := narrow_keeps (f := f) (fun ev h => hd ev h.left) plan
  refine (Keeps.report (hd _ rfl)).bind fun _ => ?_
  split
  case h_1 p _ => exact (Keeps.modify fun d => hf d p).bind fun _ => narrowed.bind fun _ => .pure _
  case h_2     => exact narrowed.bind fun _ => .pure _

theorem agenda_keeps (leaves : List Handle) (c : Components) (ks : List Candidate) :
    (c.agenda leaves ks).Keeps E f := by
  refine (settle_go_keeps hf (fun ev h => hd ev h.left) _ c ks).bind fun (c', ls) => ?_
  dsimp only
  split
  case isFalse => exact .pure _
  case isTrue  =>
    split
    case isTrue  => exact (Keeps.report (hd _ rfl)).bind fun _ => .pure _
    case isFalse => exact .pure _

theorem reduce_keeps (options : Options) (leaves : List Handle) (fuel : Nat) (c : Components)
    (ks : List Candidate) : (c.reduce options leaves fuel ks).Keeps E f := by
  induction fuel generalizing c ks
  case zero         => exact .fail _
  case succ fuel hi =>
    refine (agenda_keeps hf hd leaves c ks).bind fun (c', ls) => ?_
    match ls with
    | []            => exact finish_keeps leaves c'
    | first :: rest =>
      exact (cheapest_keeps hd options c' first rest).bind fun (best, plan) =>
        (materialise_keeps hf hd c' best plan).bind fun _ => hi _ _

end Search
end Components

open Components

section Debug

variable (hd : ∀ ev : Event, ev.severity = .debug → E ev)
include hd

theorem joinOrder_tells (options : Options) (root : Operator) (leaves : List (Plan Relation)) :
    (joinOrder options root leaves).Tells E := by
  unfold joinOrder
  split
  case isTrue  => exact (Keeps.report (hd _ rfl)).bind fun _ => .pure _
  case isFalse =>
    have selfJoin := selfJoin_tells (fun ev h => hd ev h.left) (List.range leaves.length)
    refine (Keeps.demand.bind fun d => .foldlM selfJoin _ _).bind fun c => ?_
    refine Keeps.demand.bind fun d => (c.joinCandidates_tells _ _).bind fun js => ?_
    dsimp only
    split
    case h_1 => exact .pure _
    case h_2 => exact c.plan_keeps _
    case h_3 => exact reduce_keeps (f := fun _ => ()) (fun _ _ => rfl) hd options _ _ c _

theorem ofPlan_tells {ν : Type} (options : Options) (plan : Plan ν) :
    (Reshaping.ofPlan options plan).plan.Tells E ∧ (Reshaping.ofPlan options plan).leaves.Tells E := by
  have plain (ev : Event) (h : ev.Plain) : E ev := hd ev h.left
  have leaf {x : Run (Plan Relation)} (h : x.Tells E) :
      (Reshaping.leaf x).plan.Tells E ∧ (Reshaping.leaf x).leaves.Tells E :=
    ⟨h, h.bind (keepLeaf_tells plain)⟩
  have chain {x y : Reshaping} (hx : x.leaves.Tells E) (hy : y.leaves.Tells E) :
      (Reshaping.chain x y).Tells E := hx.bind fun _ => hy.bind fun _ => .pure _
  have modify (m : Demand → Demand) : (Run.modify m).Tells E := .modify fun _ => rfl
  induction plan
  case scan r        => exact leaf (placeScan_tells plain r)
  case select hi     => exact leaf ((modify _).bind fun _ => hi.left)
  case project hi    =>
    refine leaf (Keeps.demand.bind fun d => ?_)
    exact (modify _).bind fun _ => hi.left.bind fun q => (narrow_keeps plain q).bind fun _ =>
      (modify _).bind fun _ => .pure _
  case product hl hr =>
    have h := chain hl.right hr.right
    exact ⟨h.bind (joinOrder_tells hd options _), h⟩
  case join p _ _ hl hr =>
    exact leaf ((modify _).bind fun _ => (chain hl.right hr.right).bind (joinOrder_tells hd options _))

end Debug

theorem reshape_quiet {ν : Type} (options : Options) (plan : Plan ν) :
    (reshape options plan).Tells (·.severity = .debug) :=
  (ofPlan_tells (fun _ h => h) options plan).left

end QueryPlanner
