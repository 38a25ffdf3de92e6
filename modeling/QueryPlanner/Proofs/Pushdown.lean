import QueryPlanner.Proofs.Lookup
import QueryPlanner.Proofs.ParallelReshape

namespace QueryPlanner

open Run (Match)
open Unlimited

namespace Plan

variable {ν μ : Type}

def flat : Plan ν → Plan ν
  | scan n r      => scan n r
  | select n p i  => select n p i.flat
  | project _ _ i => i.flat
  | product n l r => product n l.flat r.flat
  | join n p l r  => join n p l.flat r.flat

def flatBelow : Plan ν → Plan ν
  | project n as i => project n as i.flat
  | plan           => plan.flat

def IsProducts : Plan ν → Prop
  | scan _ _      => True
  | product _ l r => l.IsProducts ∧ r.IsProducts
  | _             => False

theorem flat_withoutProjection (plan : Plan ν) : plan.withoutProjection.flat = plan.flat := by
  cases plan <;> rfl

theorem flat_ne_project (plan : Plan ν) (f : ν → μ) (n : μ) (as : List String) (i : Plan μ) :
    plan.flat.map f ≠ project n as i := by
  induction plan
  case project hi => exact hi
  all_goals exact nofun

-- A projection at the root lists the output below it.
def WellCut : Plan Relation → Prop
  | project n as i => n = i.output.project as
  | _              => True

variable {plan : Plan Relation} {names : List String}

theorem WellCut.tupleCount_withoutProjection (h : plan.WellCut) :
    plan.withoutProjection.tupleCount = plan.tupleCount := by
  cases plan
  case project => exact (congrArg Relation.tupleCount h).symm
  all_goals rfl

theorem WellCut.project_output (h : plan.WellCut) (hn : ∀ n ∈ names, plan.output.has n) :
    plan.withoutProjection.output.project names = plan.output.project names := by
  cases plan
  case project n as i =>
    have h : n = i.output.project as := h
    subst h
    refine (Relation.project_project fun m hm => ?_).symm
    have := Relation.has_iff.mp (hn m hm)
    rwa [Plan.output, Plan.note, Relation.names_project] at this
  all_goals rfl

theorem WellCut.ensureProjection (h : plan.WellCut) (names : List String) :
    (ensureProjection names plan).flatBelow.map Relation.tupleCount =
      .project plan.tupleCount names (plan.flat.map Relation.tupleCount) := by
  have projecting (hc : plan.withoutProjection.tupleCount = plan.tupleCount) :
      (projecting names plan.withoutProjection).flatBelow.map Relation.tupleCount =
        .project plan.tupleCount names (plan.flat.map Relation.tupleCount) := by
    rw [← hc, ← flat_withoutProjection]
    rfl
  have hp := projecting h.tupleCount_withoutProjection
  cases plan
  case project n as i =>
    simp only [QueryPlanner.ensureProjection]
    split
    case isTrue he => rw [he]; rfl
    case isFalse   => exact hp
  all_goals exact hp

end Plan

variable {attrs : List String} {kept : Multiset String} {N : String → Bool} {d e : Demand}
variable {p q : Plan Relation}

-- Apart from its projections one plan is the other one. Of the outputs everything in `N` is left,
-- and at least one of the attributes.
structure Trimmed (attrs : List String) (N : String → Bool) (p q : Plan Relation) : Prop where
  skeleton  : q.map Relation.tupleCount = p.flat.map Relation.tupleCount
  outputs   : p.output.Likewise N q.output
  useful    : ∃ n ∈ attrs, p.output.has n
  unemptied : p.isPlaceholder = false ∧ q.isPlaceholder = false
  wellCut   : p.WellCut

def Narrows (mode mode' : Bool) : Prop :=
  mode = true ∧ mode' = false

namespace Trimmed

theorem narrow (h : Trimmed attrs d.required.isRequired p q) (hd : d.narrowing = true)
    (ha : ∀ n ∈ attrs, d.required.isRequired n) :
    Trimmed attrs d.required.isRequired (d.narrowed p) q := by
  have ⟨n, hn, hp⟩ := h.useful
  have hm := Requirements.mem_names_presentIn.mpr ⟨ha n hn, hp⟩
  rw [Demand.narrowed, if_neg (by simp [hd]), if_neg fun he => by simp [List.isEmpty_iff.mp he] at hm]
  split
  case isTrue => exact h
  case isFalse =>
    have hout := h.wellCut.project_output
      fun m (hm : m ∈ (d.required.presentIn p.output).map Attribute.name) =>
        (Requirements.mem_names_presentIn.mp hm).right
    exact {
      skeleton  := h.skeleton.trans (by rw [← Plan.flat_withoutProjection]; rfl)
      outputs   := by
        rw [Plan.projecting, Plan.output, Plan.note, hout]
        exact h.outputs.project fun m hN =>
          Requirements.mem_names_presentIn.trans ⟨And.right, fun hm => ⟨hN, hm⟩⟩
      useful    := ⟨n, hn, Relation.has_iff.mpr ((Relation.names_project ..).symm ▸ hm)⟩
      unemptied := ⟨rfl, h.unemptied.right⟩
      wellCut   := rfl
    }

theorem simulation (hk : ∀ n ∈ attrs, n ∈ kept) :
    Simulation True Narrows kept (Trimmed attrs) where
  mono hn h     := { h with outputs := h.outputs.mono hn }
  has h         := h.outputs.has
  placeholder h := h.unemptied.right.trans h.unemptied.left.symm
  empty h       := by rw [Plan.tupleCount, h.outputs.tuples, Plan.tupleCount]
  product hl hr := {
    skeleton  := by
      have := congrArg₂ (· * ·) hl.outputs.tuples hr.outputs.tuples
      simp only [Plan.multiplying, Plan.flat, Plan.map, hl.skeleton, hr.skeleton]
      exact congrArg (Plan.product · _ _) this
    outputs   := hl.outputs.product hr.outputs
    useful    := by
      have ⟨n, hn, hp⟩ := hl.useful
      refine ⟨n, hn, ?_⟩
      rw [Plan.multiplying, Plan.output, Plan.note, Relation.has_append (Relation.names_product ..), hp]
      rfl
    unemptied := ⟨rfl, rfl⟩
    wellCut   := trivial
  }
  select h hs hn hp hq := by
    obtain rfl := hs.right trivial
    obtain ⟨o, ho, rfl⟩ := Plan.selecting_eq_ok_iff.mp hp
    obtain ⟨o', ho', rfl⟩ := Plan.selecting_eq_ok_iff.mp hq
    have hout := h.outputs.select hn ho ho'
    exact {
      skeleton  := by rw [Plan.map, Plan.flat, Plan.map, h.skeleton, hout.tuples]
      outputs   := hout
      useful    := h.useful.imp fun n ⟨hn, hp⟩ =>
        ⟨hn, (Relation.has_eq_of_names (Relation.names_select ho) n).trans hp⟩
      unemptied := ⟨rfl, rfl⟩
      wellCut   := trivial
    }
  join hl hr hs hn hp hq := by
    obtain rfl := hs.right trivial
    obtain ⟨o, ho, rfl⟩ := Plan.joining_eq_ok_iff.mp hp
    obtain ⟨o', ho', rfl⟩ := Plan.joining_eq_ok_iff.mp hq
    have hout := hl.outputs.join hr.outputs hn ho ho'
    exact {
      skeleton  := by rw [Plan.map, Plan.flat, Plan.map, hl.skeleton, hr.skeleton, hout.tuples]
      outputs   := hout
      useful    := hl.useful.imp fun n ⟨hn, hp⟩ => ⟨hn, by
        rw [Plan.output, Plan.note, Relation.has_append (Relation.names_join ho), hp]
        rfl⟩
      unemptied := ⟨rfl, rfl⟩
      wellCut   := trivial
    }
  -- Only the first run narrows, and all names in `attrs` are still required.
  narrow {d e p q} ha hc h := by
    have he : e.narrowed q = q := if_pos ha.narrowing.right
    rw [he]
    exact h.narrow ha.narrowing.left fun n hn => hc.isRequired (Multiset.mem_add.mpr (.inl (hk n hn)))

theorem guided (options : Options) : Guided True options (Trimmed attrs) where
  queued   := .inl trivial
  priced _ := fun h => h.outputs.tuples

theorem scanning {r : NamedRelation} (hr : r.isPlaceholder = false) (ha : ∃ n ∈ attrs, r.has n) :
    Trimmed attrs N (.scanning r) (.scanning r) where
  skeleton  := rfl
  outputs   := .refl _
  useful    := ha
  unemptied := ⟨hr, hr⟩
  wellCut   := trivial

theorem ensureProjection (h : Trimmed attrs N p q) (names : List String) :
    (ensureProjection names p).flatBelow.map Relation.tupleCount =
      (ensureProjection names q).map Relation.tupleCount := by
  rw [h.wellCut.ensureProjection, ← h.skeleton, Plan.tupleCount, ← h.outputs.tuples]
  cases q
  case project => exact (Plan.flat_ne_project _ _ _ _ _ h.skeleton.symm).elim
  all_goals rfl

end Trimmed

open Reshaping (leaf_parallel chain_match joined_match selects_match any_takes)

theorem products_parallel {ν : Type} (options : Options) {tree : Plan ν} (ht : tree.IsProducts)
    (hs : ∀ r ∈ tree.scans, r.isPlaceholder = false ∧ ∃ n ∈ attrs, r.has n)
    (hk : ∀ n ∈ attrs, n ∈ kept) (hc : d.Covers kept) (ha : d.Alike True Narrows e) :
    (Reshaping.ofPlan { options with pushProjections := true } tree).Parallel True Narrows
      (Trimmed attrs) (Reshaping.ofPlan { options with pushProjections := false } tree) d e := by
  have S := Trimmed.simulation hk
  induction tree generalizing d e
  case scan _ r =>
    have ⟨hr, hn⟩ := hs r (List.mem_singleton_self r)
    exact leaf_parallel S <| (placeScan_match S rfl (.inl trivial) hc ha (.scanning hr hn)).mono
      fun _ _ _ _ ⟨ha, hd, hs⟩ => ⟨⟨ha, .inl hs⟩, S.mono hd⟩
  case product _ l r hl hr =>
    have ⟨hsl, hsr⟩ := List.forall_mem_append.mp hs
    have hch := chain_match hc (hl ht.left hsl hc ha).leaves fun d₁ e₁ ha₁ hc₁ _ =>
      (hr ht.right hsr hc₁ ha₁).leaves
    exact {
      plan   := joined_match S (Trimmed.guided _) rfl hc (.inl trivial) hch
      leaves := hch
    }
  all_goals exact ht.elim

theorem canonical_match {ν : Type} (options : Options) (n : ν) (attrs : List String)
    (ps : List (ν × Predicate)) {tree : Plan ν} (ht : tree.IsProducts)
    (hs : ∀ r ∈ tree.scans, r.isPlaceholder = false ∧ ∃ n ∈ attrs, r.has n) :
    Match (reshape { options with pushProjections := true } (.project n attrs (tree.selects ps)))
      (reshape { options with pushProjections := false } (.project n attrs (tree.selects ps))) {} {}
      fun q d q' e =>
        d.Alike True Eq e ∧ q.flatBelow.map Relation.tupleCount = q'.map Relation.tupleCount := by
  let below (mode : Bool) : Demand := { Demand.requireAll {} attrs with narrowing := mode }
  have start : Demand.Alike True Eq {} {} := .refl rfl
  have ha : (below true).Alike True Narrows (below false) :=
    { start.requireAll attrs with narrowing := ⟨rfl, rfl⟩ }
  have hc : (below true).Covers (attrs + 0) := Demand.covers_empty.requireAll attrs
  have hk : ∀ n ∈ attrs, n ∈ (attrs + 0 : Multiset String) := by simp
  have hp := products_parallel options ht hs hk (hc.deferAll (ps.map (·.2))) (ha.deferAll (.refl _))
  have hi := (selects_match hp.plan).and_meets (any_takes _ _ hc).plan
  refine (underProjection_match Eq (Trimmed.simulation hk) rfl <|
    hi.mono fun _ _ _ _ ⟨h, y⟩ => ⟨h, y.covers⟩).mono ?_
  rintro _ _ _ _ ⟨ha, d₂, e₂, q, q', rfl, rfl, _, h⟩
  refine ⟨ha, ?_⟩
  cases h.plans
  case inl hs => exact hs.ensureProjection attrs
  case inr hn => rw [hn.left, hn.right]; rfl

-- Pushing projections down changes nothing but the projections below the root: neither the order of
-- joins nor the place of any predicate, nor any estimate.
theorem optimise_pushdown {ν : Type} (options : Options) (n : ν) (attrs : List String)
    (ps : List (ν × Predicate)) {tree : Plan ν} (ht : tree.IsProducts)
    (hs : ∀ r ∈ tree.scans,
      r.statistics.Counts 0 ∧ r.isPlaceholder = false ∧ ∃ a ∈ attrs, r.has a) :
    ∃ o o',
      optimise { options with pushProjections := true } (.project n attrs (tree.selects ps)) = .ok o ∧
      optimise { options with pushProjections := false } (.project n attrs (tree.selects ps)) = .ok o' ∧
      o.value.flatBelow.map Relation.tupleCount = o'.value.map Relation.tupleCount := by
  have hcount : ∀ r ∈ (Plan.project n attrs (tree.selects ps)).scans, r.statistics.Counts 0 :=
    fun r hr => (hs r (Plan.scans_selects ps tree ▸ hr)).left
  have ⟨r, hr⟩ : ∃ r, reshape { options with pushProjections := true } _ {} = .ok r :=
    reshape_returns hcount
  have ⟨r', hr'⟩ : ∃ r, reshape { options with pushProjections := false } _ {} = .ok r :=
    reshape_returns hcount
  have ⟨ha, heq⟩ := canonical_match options n attrs ps ht (fun r hr => (hs r hr).right) r r' hr hr'
  have ⟨o, o', hok, hok', hv⟩ := optimise_match hr hr' ha
  refine ⟨o, o', hok, hok', ?_⟩
  cases hv
  case inl hv => rwa [hv.left, hv.right]
  case inr hv => rw [hv.left, hv.right]; rfl

def narrowedPair : Plan Unit :=
  let a : Attribute := { name := "a", valueCount := 2 }
  let b : Attribute := { name := "b", valueCount := 2 }
  let c : Attribute := { name := "c", valueCount := 1 }
  let d : Attribute := { name := "d", valueCount := 3 }
  .product () (.scan () { name := "r", statistics := .of 4 [a] })
    (.scan () { name := "s", statistics := .of 3 [b, c, d] })

theorem optimise_pushdown_narrowedPair :
    let ps := [((), .join { occurrence := 0, left := "a", right := "b" })]
    (narrowedPair.IsProducts ∧ ∀ r ∈ narrowedPair.scans,
      r.statistics.Counts 0 ∧ r.isPlaceholder = false ∧ ∃ a ∈ ["a", "d"], r.has a) ∧
    ∃ o o',
      optimise { pushProjections := true } (.project () ["a", "d"] (narrowedPair.selects ps)) = .ok o ∧
      optimise { pushProjections := false } (.project () ["a", "d"] (narrowedPair.selects ps)) = .ok o' ∧
      o.value.flatBelow.map Relation.tupleCount = o'.value.map Relation.tupleCount := by
  have ht : narrowedPair.IsProducts := ⟨trivial, trivial⟩
  have hs : ∀ r ∈ narrowedPair.scans,
      r.statistics.Counts 0 ∧ r.isPlaceholder = false ∧ ∃ a ∈ ["a", "d"], r.has a := by decide
  exact ⟨⟨ht, hs⟩, optimise_pushdown {} () ["a", "d"] _ ht hs⟩

end QueryPlanner
