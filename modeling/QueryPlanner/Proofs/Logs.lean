import QueryPlanner.Proofs.Run

namespace QueryPlanner

open Unlimited

def Event.joined? : Event → Option Nat
  | materialised (.join p) _ => some p.occurrence
  | _                        => none

def Outcome.joined {α : Type} (o : Outcome α) : List Nat :=
  o.events.filterMap Event.joined?

namespace Run

variable {α β γ : Type} {d : Demand} {x : Run α} {f : α → Run β}
variable {P Q : α → Demand → List Nat → Prop} {R : β → Demand → List Nat → Prop}

-- If a run from `d` has a result then `Q` holds of it, of the demand that is left, and of the joins
-- that were materialised on the way, one after the other.
def Logs (x : Run α) (d : Demand) (Q : α → Demand → List Nat → Prop) : Prop :=
  ∀ o, x d = .ok o → Q o.value o.demand o.joined

namespace Logs

theorem mono (h : Logs x d P) (hi : ∀ a d' js, P a d' js → Q a d' js) : Logs x d Q :=
  fun o ho => hi _ _ _ (h o ho)

theorem bind (h : Logs x d P)
    (hf : ∀ a d' js, P a d' js → Logs (f a) d' fun b d'' ks => R b d'' (js ++ ks)) :
    Logs (x >>= f) d R := by
  intro o ho
  obtain ⟨o₁, o₂, ho₁, ho₂, rfl⟩ := bind_eq_ok_iff.mp ho
  have hr := hf _ _ _ (h o₁ ho₁) o₂ ho₂
  rwa [Outcome.joined, Outcome.joined, ← List.filterMap_append] at hr

theorem bind_nil {Q : α → Demand → Prop} (h : Logs x d fun a d' js => js = [] ∧ Q a d')
    (hf : ∀ a d', Q a d' → Logs (f a) d' R) : Logs (x >>= f) d R :=
  h.bind fun a d' _ ⟨hj, hq⟩ => hj ▸ hf a d' hq

end Logs

theorem logs_pure {a : α} (h : Q a d []) : Logs (pure a) d Q := by
  rintro o ⟨⟩
  exact h

theorem logs_demand_bind {f : Demand → Run β} (h : Logs (f d) d R) : Logs (demand >>= f) d R :=
  Logs.bind_nil (Q := fun a d' => a = d ∧ d' = d) (by rintro o ⟨⟩; exact ⟨rfl, rfl, rfl⟩)
    fun _ _ ⟨ha, hd⟩ => ha ▸ hd ▸ h

theorem logs_modify_bind {m : Demand → Demand} {f : Unit → Run β} (h : Logs (f ()) (m d) R) :
    Logs (modify m >>= f) d R :=
  Logs.bind_nil (Q := fun _ d' => d' = m d) (by rintro o ⟨⟩; exact ⟨rfl, rfl⟩) fun _ _ hd => hd ▸ h

theorem logs_report_bind {ev : Event} {f : Unit → Run β}
    (h : Logs (f ()) d fun b d' js => R b d' (ev.joined?.toList ++ js)) :
    Logs (report ev >>= f) d R := by
  refine Logs.bind (P := fun _ d' js => d' = d ∧ js = ev.joined?.toList) ?_ ?_
  · intro o ho
    cases (report_apply ev d).symm.trans ho
    refine ⟨rfl, ?_⟩
    cases hj : ev.joined? <;> simp [Outcome.joined, hj]
  · rintro _ _ _ ⟨rfl, rfl⟩
    exact h

theorem logs_fail {e : Failure} : Logs (fail e : Run α) d Q :=
  nofun

theorem logs_place_bind {m : Demand → Except NotPending Demand} {f : Unit → Run β}
    (h : ∀ d', m d = .ok d' → Logs (f ()) d' R) : Logs (place m >>= f) d R := by
  refine Logs.bind_nil (Q := fun _ d' => m d = .ok d') (fun o ho => ?_) fun _ d' hd => h d' hd
  unfold place at ho
  split at ho
  case h_1 hd => cases ho; exact ⟨rfl, hd⟩
  case h_2    => cases ho

theorem logs_ofEstimate_bind {e : Except NegativeTupleCount α}
    (h : ∀ a, e = .ok a → Logs (f a) d R) : Logs (ofEstimate e >>= f) d R := by
  refine Logs.bind_nil (Q := fun a d' => d' = d ∧ e = .ok a) (fun o ho => ?_)
    fun a _ ⟨hd, he⟩ => hd ▸ h a he
  unfold ofEstimate at ho
  split at ho
  case h_1 => cases ho; exact ⟨rfl, rfl, rfl⟩
  case h_2 => cases ho

theorem logs_foldlM {f : β → γ → Run β} {I : β → Demand → Prop}
    (step : ∀ b c d, I b d → Logs (f b c) d fun b' d' js => js = [] ∧ I b' d') (cs : List γ) (b : β)
    (d : Demand) (h : I b d) : Logs (cs.foldlM f b) d fun b' d' js => js = [] ∧ I b' d' := by
  induction cs generalizing b d
  case nil          => exact logs_pure ⟨rfl, h⟩
  case cons c cs hi =>
    rw [List.foldlM_cons]
    exact (step b c d h).bind_nil fun b' d' h' => hi b' d' h'

end Run

end QueryPlanner
