import QueryPlanner.Optimise.Reshape

namespace QueryPlanner

open Unlimited

variable {α β ν : Type}

def Outcome.ending (o : Outcome α) : α × Demand :=
  (o.value, o.demand)

namespace Run

variable {x y : Run α} {f g : α → Run β}

def EndsLike (x y : Run α) : Prop :=
  ∀ d, (x d).map Outcome.ending = (y d).map Outcome.ending

theorem ending_bind (x : Run α) (f : α → Run β) (d : Demand) :
    ((x >>= f) d).map Outcome.ending =
      ((x d).map Outcome.ending).bind fun e => (f e.1 e.2).map Outcome.ending := by
  simp only [Bind.bind, Run.bind]
  cases x d
  case error => rfl
  case ok o  =>
    simp only [Except.map, Except.bind, Outcome.ending]
    cases f o.value o.demand <;> rfl

namespace EndsLike

theorem refl (x : Run α) : x.EndsLike x :=
  fun _ => rfl

theorem symm (h : x.EndsLike y) : y.EndsLike x :=
  fun d => (h d).symm

theorem trans {z : Run α} (h : x.EndsLike y) (h' : y.EndsLike z) : x.EndsLike z :=
  fun d => (h d).trans (h' d)

theorem bind (h : x.EndsLike y) (hf : ∀ a, (f a).EndsLike (g a)) :
    (x >>= f).EndsLike (y >>= g) := by
  intro d
  rw [ending_bind, ending_bind, h d]
  congr 1
  exact funext fun e => hf e.1 e.2

theorem report (v w : Event) : (report v).EndsLike (report w) := by
  intro d
  simp only [report_apply]
  rfl

end EndsLike
end Run

open Run (EndsLike)

theorem joinOrder_endsLike (options : Options) (root root' : Operator) (leaves : List (Plan Relation)) :
    (joinOrder options root leaves).EndsLike (joinOrder options root' leaves) := by
  unfold joinOrder
  split
  case isTrue  => exact EndsLike.bind (.report _ _) fun _ => .refl _
  case isFalse => exact .refl _

namespace Reshaping

variable {l l' r r' x y : Reshaping}

structure EndsLike (x y : Reshaping) : Prop where
  plan   : x.plan.EndsLike y.plan
  leaves : x.leaves.EndsLike y.leaves

theorem EndsLike.refl (x : Reshaping) : x.EndsLike x :=
  ⟨.refl _, .refl _⟩

theorem leaf_endsLike {p q : Run (Plan Relation)} (h : p.EndsLike q) : (leaf p).EndsLike (leaf q) where
  plan   := h
  leaves := h.bind fun _ => .refl _

theorem chain_endsLike (hl : l.EndsLike l') (hr : r.EndsLike r') :
    (chain l r).EndsLike (chain l' r') :=
  hl.leaves.bind fun _ => hr.leaves.bind fun _ => .refl _

theorem chain_assoc (x y z : Reshaping) (p q : Run (Plan Relation)) :
    chain { plan := p, leaves := chain x y } z = chain x { plan := q, leaves := chain y z } := by
  simp only [chain, bind_assoc, pure_bind, List.append_assoc]

end Reshaping

namespace Plan

-- Plans that are the same once every join is taken for a selection over a product, and once nothing
-- but the order of its parts is seen of a chain of products.
inductive Regrouped : Plan ν → Plan ν → Prop
  | split (n m k : ν) (p : JoinPredicate) (l r : Plan ν) :
    Regrouped (.join n p l r) (.select m (.join p) (.product k l r))
  | assoc (n m n' m' : ν) (a b c : Plan ν) :
    Regrouped (.product n (.product m a b) c) (.product n' a (.product m' b c))
  | scan (n m : ν) (r : NamedRelation) : Regrouped (.scan n r) (.scan m r)
  | select (n m : ν) (p : Predicate) {i i' : Plan ν} :
    Regrouped i i' → Regrouped (.select n p i) (.select m p i')
  | project (n m : ν) (names : List String) {i i' : Plan ν} :
    Regrouped i i' → Regrouped (.project n names i) (.project m names i')
  | product (n m : ν) {l l' r r' : Plan ν} :
    Regrouped l l' → Regrouped r r' → Regrouped (.product n l r) (.product m l' r')
  | join (n m : ν) (p : JoinPredicate) {l l' r r' : Plan ν} :
    Regrouped l l' → Regrouped r r' → Regrouped (.join n p l r) (.join m p l' r')
  | symm {a b : Plan ν} : Regrouped a b → Regrouped b a
  | trans {a b c : Plan ν} : Regrouped a b → Regrouped b c → Regrouped a c

theorem Regrouped.refl (plan : Plan ν) : plan.Regrouped plan := by
  induction plan
  case scan          => exact .scan ..
  case select hi     => exact .select _ _ _ hi
  case project hi    => exact .project _ _ _ hi
  case product hl hr => exact .product _ _ hl hr
  case join hl hr    => exact .join _ _ _ hl hr

end Plan

open Reshaping (ofPlan leaf_endsLike chain_endsLike chain_assoc)

theorem Plan.Regrouped.endsLike {plan plan' : Plan ν} (h : plan.Regrouped plan') (options : Options) :
    (ofPlan options plan).EndsLike (ofPlan options plan') := by
  have joined {x y : Run (List (Plan Relation))} (root root' : Operator) (h : x.EndsLike y) :
      (x >>= joinOrder options root).EndsLike (y >>= joinOrder options root') :=
    h.bind fun qs => joinOrder_endsLike options root root' qs
  induction h
  case split n m k p l r =>
    exact leaf_endsLike <| (EndsLike.refl _).bind fun _ => joined (.join p) .product (.refl _)
  case assoc n m n' m' a b c =>
    have hl : (ofPlan options (.product n (.product m a b) c)).leaves.EndsLike
        (ofPlan options (.product n' a (.product m' b c))).leaves := by
      simp only [ofPlan]
      rw [chain_assoc]
      exact .refl _
    exact ⟨joined .product .product hl, hl⟩
  case scan             => exact .refl _
  case select hi        => exact leaf_endsLike <| (EndsLike.refl _).bind fun _ => hi.plan
  case project hi       =>
    exact leaf_endsLike <| (EndsLike.refl _).bind fun _ => (EndsLike.refl _).bind fun _ =>
      hi.plan.bind fun _ => .refl _
  case product hl hr    =>
    have h := chain_endsLike hl hr
    exact ⟨joined .product .product h, h⟩
  case join hl hr       =>
    exact leaf_endsLike <| (EndsLike.refl _).bind fun _ => joined _ _ (chain_endsLike hl hr)
  case symm hi          => exact ⟨hi.plan.symm, hi.leaves.symm⟩
  case trans hi hi'     => exact ⟨hi.plan.trans hi'.plan, hi.leaves.trans hi'.leaves⟩

-- Whatever is demanded of a plan, it is only its flattened form that counts: for the plan it is
-- reshaped to, for the demand that is left after that, and for what it is optimised to.
theorem reshape_regrouped {plan plan' : Plan ν} (h : plan.Regrouped plan') (options : Options) :
    (∀ d, (reshape options plan d).map Outcome.ending = (reshape options plan' d).map Outcome.ending) ∧
      (optimise options plan).map Outcome.ending = (optimise options plan').map Outcome.ending :=
  have hp : (reshape options plan).EndsLike (reshape options plan') := (h.endsLike options).plan
  ⟨hp, hp.bind (fun _ => .refl _) {}⟩

def nestedJoins : Plan Unit :=
  .join () { occurrence := 0, left := "a", right := "b" }
    (.scan () { name := "r", statistics := .of 4 [⟨"a", 2⟩] }) <|
  .product () (.scan () { name := "s", statistics := .of 3 [⟨"b", 3⟩] }) <|
  .join () { occurrence := 1, left := "c", right := "d" }
    (.scan () { name := "t", statistics := .of 5 [⟨"c", 5⟩] })
    (.scan () { name := "u", statistics := .of 2 [⟨"d", 1⟩] })

def splitJoins : Plan Unit :=
  .select () (.join { occurrence := 0, left := "a", right := "b" }) <|
  .product ()
    (.product () (.scan () { name := "r", statistics := .of 4 [⟨"a", 2⟩] })
      (.scan () { name := "s", statistics := .of 3 [⟨"b", 3⟩] })) <|
  .select () (.join { occurrence := 1, left := "c", right := "d" }) <|
  .product () (.scan () { name := "t", statistics := .of 5 [⟨"c", 5⟩] })
    (.scan () { name := "u", statistics := .of 2 [⟨"d", 1⟩] })

theorem reshape_regrouped_nestedJoins : nestedJoins.Regrouped splitJoins ∧
    (∀ d, (reshape {} nestedJoins d).map Outcome.ending =
      (reshape {} splitJoins d).map Outcome.ending) ∧
    (optimise {} nestedJoins).map Outcome.ending = (optimise {} splitJoins).map Outcome.ending := by
  have h : nestedJoins.Regrouped splitJoins :=
    (Plan.Regrouped.split () () () _ _ _).trans <| .select () () _ <|
      (Plan.Regrouped.assoc () () () () _ _ _).symm.trans <|
        .product () () (.refl _) (.split () () () _ _ _)
  exact ⟨h, reshape_regrouped h {}⟩

end QueryPlanner
