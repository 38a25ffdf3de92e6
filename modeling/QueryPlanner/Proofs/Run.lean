import Mathlib.Data.List.Forall2
import QueryPlanner.Optimise.Run

namespace QueryPlanner.Run

open Unlimited

variable {α β γ δ : Type} {F : Failure → Prop} {d e : Demand}

-- A run from `d` ends with a result and a demand that `Q` holds of. If it fails then only in a way
-- that `F` allows. With nothing allowed this says that the run succeeds.
def Meets (F : Failure → Prop) (x : Run α) (d : Demand) (Q : α → Demand → Prop) : Prop :=
  match x d with
  | .ok o    => Q o.value o.demand
  | .error e => F e

namespace Meets

variable {x : Run α} {f : α → Run β} {P Q : α → Demand → Prop} {R : β → Demand → Prop}

theorem mono (h : Meets F x d P) (hi : ∀ a d', P a d' → Q a d') : Meets F x d Q := by
  unfold Meets at *
  cases hx : x d <;> simp only [hx] at h ⊢
  case error => exact h
  case ok    => exact hi _ _ h

theorem weaken {F' : Failure → Prop} (h : Meets F x d P) (hf : ∀ e, F e → F' e) :
    Meets F' x d P := by
  unfold Meets at *
  cases hx : x d <;> simp only [hx] at h ⊢
  case error => exact hf _ h
  case ok    => exact h

theorem traced (h : Meets F x d P) : Meets (fun e => F e ∧ x d = .error e) x d fun a d' =>
    P a d' ∧ ∃ events, x d = .ok { value := a, demand := d', events := events } := by
  unfold Meets at *
  cases hx : x d <;> simp only [hx] at h ⊢
  case error => exact ⟨h, trivial⟩
  case ok o  => exact ⟨h, o.events, rfl⟩

theorem and (h : Meets F x d P) (h' : Meets F x d Q) :
    Meets F x d fun a d' => P a d' ∧ Q a d' := by
  unfold Meets at *
  cases hx : x d <;> simp only [hx] at h h' ⊢
  case error => exact h
  case ok    => exact ⟨h, h'⟩

theorem and_of_any (h : Meets F x d P) (h' : Meets (fun _ => True) x d Q) :
    Meets F x d fun a d' => P a d' ∧ Q a d' := by
  unfold Meets at *
  cases hx : x d <;> simp only [hx] at h h' ⊢
  case error => exact h
  case ok    => exact ⟨h, h'⟩

theorem bind (h : Meets F x d P) (hf : ∀ a d', P a d' → Meets F (f a) d' R) :
    Meets F (x >>= f) d R := by
  unfold Meets at *
  simp only [Bind.bind, Run.bind]
  cases hx : x d <;> simp only [hx] at h ⊢
  case error => exact h
  case ok o =>
    have := hf _ _ h
    cases hy : f o.value o.demand <;> simpa only [hy] using this

theorem elim {o : Outcome α} (h : Meets F x d Q) (ho : x d = .ok o) : Q o.value o.demand := by
  simpa [Meets, ho] using h

theorem returns (h : Meets (fun _ => False) x d Q) : ∃ o, x d = .ok o ∧ Q o.value o.demand := by
  unfold Meets at h
  cases hx : x d <;> simp only [hx] at h
  case ok o => exact ⟨o, rfl, h⟩

theorem failure {e : Failure} (h : Meets F x d Q) (he : x d = .error e) : F e := by
  simpa [Meets, he] using h

end Meets

theorem meets_any (x : Run α) (d : Demand) : Meets (fun _ => True) x d fun _ _ => True := by
  unfold Meets
  split <;> trivial

section Steps

variable {Q : α → Demand → Prop}

theorem meets_pure {a : α} (h : Q a d) : Meets F (pure a) d Q :=
  h

theorem meets_demand_bind {f : Demand → Run β} {R : β → Demand → Prop} (h : Meets F (f d) d R) :
    Meets F (demand >>= f) d R :=
  Meets.bind (P := fun a d' => a = d ∧ d' = d) (x := demand) ⟨rfl, rfl⟩ fun _ _ ⟨ha, hd⟩ =>
    ha ▸ hd ▸ h

theorem meets_modify_bind {g : Demand → Demand} {f : Unit → Run β} {R : β → Demand → Prop}
    (h : Meets F (f ()) (g d) R) : Meets F (modify g >>= f) d R :=
  Meets.bind (P := fun _ d' => d' = g d) (x := modify g) rfl fun _ _ hd => hd ▸ h

theorem demand_bind_apply (f : Demand → Run β) (d : Demand) : (demand >>= f) d = f d d := by
  simp only [Bind.bind, Run.bind, demand, List.nil_append]
  cases f d d <;> rfl

theorem modify_bind_apply (g : Demand → Demand) (f : Unit → Run β) (d : Demand) :
    (modify g >>= f) d = f () (g d) := by
  simp only [Bind.bind, Run.bind, modify, List.nil_append]
  cases f () (g d) <;> rfl

theorem meets_report_bind {ev : Event} {f : Unit → Run β} {R : β → Demand → Prop}
    (h : Meets F (f ()) d R) : Meets F (report ev >>= f) d R :=
  Meets.bind (P := fun _ d' => d' = d) (x := report ev) (by simp [Meets]) fun _ _ hd => hd ▸ h

theorem meets_place {f : Demand → Except NotPending Demand} {Q : Unit → Demand → Prop}
    (hok : ∀ d', f d = .ok d' → Q () d') (herror : ∀ e, f d = .error e → F .notPending) :
    Meets F (place f) d Q := by
  cases hf : f d <;> simp only [Meets, place, hf]
  case ok    => exact hok _ hf
  case error => exact herror _ hf

theorem meets_place_bind {f : Demand → Except NotPending Demand} {g : Unit → Run β} {d' : Demand}
    {R : β → Demand → Prop} (hf : f d = .ok d') (h : Meets F (g ()) d' R) :
    Meets F (place f >>= g) d R :=
  have hp : Meets F (place f) d fun _ e => e = d' := by simp [Meets, place, hf]
  hp.bind fun _ _ he => he ▸ h

theorem meets_ofEstimate {x : Except NegativeTupleCount α} (hok : ∀ a, x = .ok a → Q a d)
    (herror : ∀ e, x = .error e → F (.negativeTupleCount e.count)) :
    Meets F (ofEstimate x) d Q := by
  cases hx : x <;> simp only [Meets, ofEstimate]
  case ok    => exact hok _ hx
  case error => exact herror _ hx

-- What holds before each round, with the elements that are left, holds at the end with none.
theorem meets_foldlM {f : β → γ → Run β} {I : List γ → β → Demand → Prop}
    (step : ∀ c cs b d, I (c :: cs) b d → Meets F (f b c) d (I cs)) :
    ∀ (cs : List γ) (b : β) (d : Demand), I cs b d → Meets F (cs.foldlM f b) d (I [])
  | [], _, _, h      => meets_pure h
  | c :: cs, b, d, h => by
    rw [List.foldlM_cons]
    exact (step c cs b d h).bind fun b' d' h' => meets_foldlM step cs b' d' h'

end Steps

-- Two runs from `d` and `e` that both succeed end with results and demands that `R` relates.
def Match (x : Run α) (y : Run β) (d e : Demand) (R : α → Demand → β → Demand → Prop) : Prop :=
  ∀ o p, x d = .ok o → y e = .ok p → R o.value o.demand p.value p.demand

namespace Match

variable {x : Run α} {y : Run β} {f : α → Run γ} {g : β → Run δ}
variable {P R : α → Demand → β → Demand → Prop} {S : γ → Demand → δ → Demand → Prop}

theorem mono (h : Match x y d e P) (hi : ∀ a d' b e', P a d' b e' → R a d' b e') :
    Match x y d e R :=
  fun o p ho hp => hi _ _ _ _ (h o p ho hp)

theorem bind (h : Match x y d e P)
    (hf : ∀ a d' b e', P a d' b e' → Match (f a) (g b) d' e' S) :
    Match (x >>= f) (y >>= g) d e S := by
  intro o p ho hp
  obtain ⟨o₁, o₂, ho₁, ho₂, rfl⟩ := bind_eq_ok_iff.mp ho
  obtain ⟨p₁, p₂, hp₁, hp₂, rfl⟩ := bind_eq_ok_iff.mp hp
  exact hf _ _ _ _ (h o₁ p₁ ho₁ hp₁) o₂ p₂ ho₂ hp₂

theorem of_meets {F' : Failure → Prop} {P : α → Demand → Prop} {Q : β → Demand → Prop}
    (hx : Meets F x d P) (hy : Meets F' y e Q) (h : ∀ a d' b e', P a d' → Q b e' → R a d' b e') :
    Match x y d e R :=
  fun _ _ ho hp => h _ _ _ _ (hx.elim ho) (hy.elim hp)

theorem and_meets {Q : α → Demand → Prop} (h : Match x y d e R) (hx : Meets F x d Q) :
    Match x y d e fun a d' b e' => R a d' b e' ∧ Q a d' :=
  fun o p ho hp => ⟨h o p ho hp, hx.elim ho⟩

theorem meets {Q : α → Demand → Prop} (h : Match x y d e R) (hx : Meets (fun _ => False) x d Q) :
    Meets (fun _ => True) y e fun b e' => ∃ a d', Q a d' ∧ R a d' b e' := by
  have ⟨o, ho, hq⟩ := hx.returns
  unfold Meets
  cases hy : y e
  case error => exact trivial
  case ok p  => exact ⟨_, _, hq, h o p ho hy⟩

end Match

section Steps

theorem match_pure {R : α → Demand → β → Demand → Prop} {a : α} {b : β} (h : R a d b e) :
    Match (pure a) (pure b) d e R := by
  rintro o p ⟨⟩ ⟨⟩
  exact h

theorem match_demand_bind {f : Demand → Run α} {g : Demand → Run β}
    {R : α → Demand → β → Demand → Prop} (h : Match (f d) (g e) d e R) :
    Match (demand >>= f) (demand >>= g) d e R :=
  Match.bind (P := fun a d' b e' => a = d ∧ d' = d ∧ b = e ∧ e' = e) (x := demand) (y := demand)
    (by rintro o p ⟨⟩ ⟨⟩; exact ⟨rfl, rfl, rfl, rfl⟩) (by rintro _ _ _ _ ⟨rfl, rfl, rfl, rfl⟩; exact h)

theorem match_modify_bind {m n : Demand → Demand} {f : Unit → Run α} {g : Unit → Run β}
    {R : α → Demand → β → Demand → Prop} (h : Match (f ()) (g ()) (m d) (n e) R) :
    Match (modify m >>= f) (modify n >>= g) d e R :=
  Match.bind (P := fun _ d' _ e' => d' = m d ∧ e' = n e) (x := modify m) (y := modify n)
    (by rintro o p ⟨⟩ ⟨⟩; exact ⟨rfl, rfl⟩) (by rintro _ _ _ _ ⟨rfl, rfl⟩; exact h)

theorem match_report_bind {v w : Event} {f : Unit → Run α} {g : Unit → Run β}
    {R : α → Demand → β → Demand → Prop} (h : Match (f ()) (g ()) d e R) :
    Match (report v >>= f) (report w >>= g) d e R :=
  Match.bind (P := fun _ d' _ e' => d' = d ∧ e' = e) (x := report v) (y := report w)
    (by simp [Match]) (by rintro _ _ _ _ ⟨rfl, rfl⟩; exact h)

theorem match_place {f g : Demand → Except NotPending Demand}
    {R : Unit → Demand → Unit → Demand → Prop}
    (h : ∀ d' e', f d = .ok d' → g e = .ok e' → R () d' () e') :
    Match (place f) (place g) d e R := by
  intro o p ho hp
  unfold place at ho hp
  cases hf : f d <;> simp only [hf, reduceCtorEq] at ho
  cases hg : g e <;> simp only [hg, reduceCtorEq] at hp
  cases ho; cases hp
  exact h _ _ hf hg

theorem match_ofEstimate {x : Except NegativeTupleCount α} {y : Except NegativeTupleCount β}
    {R : α → Demand → β → Demand → Prop} (h : ∀ a b, x = .ok a → y = .ok b → R a d b e) :
    Match (ofEstimate x) (ofEstimate y) d e R := by
  intro o p ho hp
  unfold ofEstimate at ho hp
  cases hx : x <;> simp only [hx, reduceCtorEq] at ho
  cases hy : y <;> simp only [hy, reduceCtorEq] at hp
  cases ho; cases hp
  exact h _ _ hx hy

theorem match_foldlM {κ : Type} {r : γ → κ → Prop} {f : β → γ → Run β} {g : δ → κ → Run δ}
    {I : List γ → β → Demand → δ → Demand → Prop} {cs : List γ} {ks : List κ} {b : β} {b' : δ}
    (h : List.Forall₂ r cs ks) (hI : I cs b d b' e)
    (step : ∀ c k cs b d b' e, r c k → I (c :: cs) b d b' e → Match (f b c) (g b' k) d e (I cs)) :
    Match (cs.foldlM f b) (ks.foldlM g b') d e (I []) := by
  induction h generalizing b d b' e
  case nil => exact match_pure hI
  case cons c k cs _ hk _ hi =>
    rw [List.foldlM_cons, List.foldlM_cons]
    exact (step c k cs b d b' e hk hI).bind fun _ _ _ _ => hi

end Steps
end QueryPlanner.Run
