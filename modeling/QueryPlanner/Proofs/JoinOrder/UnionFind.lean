import QueryPlanner.Proofs.JoinOrder.Opening

namespace QueryPlanner

open Run (Meets)

namespace Redirects

inductive Call
  | redirect (h t : Handle)
  | resolve (h : Handle)
  deriving DecidableEq, Repr

namespace Call

def perform (r : Redirects) : Call → Redirects
  | redirect h t => r.redirect h t
  | resolve h    => (r.resolve h).2

def Admissible (r : Redirects) : Call → Prop
  | redirect _ t => r.target? t = none
  | resolve _    => True

instance (r : Redirects) : (call : Call) → Decidable (call.Admissible r)
  | redirect _ t => inferInstanceAs (Decidable (r.target? t = none))
  | resolve _    => inferInstanceAs (Decidable True)

end Call

def after (r : Redirects) (calls : List Call) : Redirects :=
  calls.foldl Call.perform r

def Admits (r : Redirects) : List Call → Prop
  | []            => True
  | call :: calls => call.Admissible r ∧ (call.perform r).Admits calls

instance (r : Redirects) (calls : List Call) : Decidable (r.Admits calls) :=
  decidable r calls
where
  decidable (r : Redirects) : (calls : List Call) → Decidable (r.Admits calls)
    | []            => inferInstanceAs (Decidable True)
    | call :: calls =>
      have := decidable (call.perform r) calls
      inferInstanceAs (Decidable (call.Admissible r ∧ (call.perform r).Admits calls))

-- The second loop of a look-up. It makes one handle after the other point at the root, and leaves it for
-- the next one on the way. What it reads it may have changed before.
inductive Shortens (root : Handle) : Redirects → Handle → Redirects → Prop
  | done {r} : Shortens root r root r
  | step {r s h t} (ahead : h ≠ root) (target : r.target? h = some t)
    (rest : Shortens root (r.point h root) t s) : Shortens root r h s

structure Resolves (r : Redirects) (h root : Handle) (s : Redirects) : Prop where
  walks    : r.Leads h root
  stops    : r.target? root = none
  shortens : Shortens root r h s

-- Redirects that partition the handles:
-- (1) No handle leads back to itself.
-- (2) Both loops of a look-up come to their end, with the owner and the redirects that are to be had.
-- (3) The owner is the one handle on the way that is not redirected.
-- (4) A look-up makes all handles on its way point at the owner, and changes no other redirect. All
--     handles keep their owners.
-- (5) A handle that is not redirected takes over all that has the same owner, and nothing else.
structure UnionFind (r : Redirects) : Prop where
  acyclic  : ∀ h, ¬Relation.TransGen (fun x y => r.target? x = some y) h h
  resolves : ∀ h root s, r.Resolves h root s ↔ r.resolve h = (root, s)
  owner    : ∀ h t, (r.resolve h).1 = t ↔ r.Leads h t ∧ r.target? t = none
  short    : ∀ h k, r.Leads h k →
    (r.resolve h).2.target? k = if k = (r.resolve h).1 then none else some (r.resolve h).1
  frame    : ∀ h k, ¬r.Leads h k → (r.resolve h).2.target? k = r.target? k
  kept     : ∀ h x, ((r.resolve h).2.resolve x).1 = (r.resolve x).1
  merged   : ∀ h t, r.target? t = none → ∀ x, ((r.redirect h t).resolve x).1 =
    if (r.resolve x).1 = (r.resolve h).1 then t else (r.resolve x).1

variable {r s s' : Redirects} {h k t root : Handle} {call : Call} {calls calls' : List Call}

theorem leads_iff (ht : r.target? h = some t) : r.Leads h k ↔ h = k ∨ r.Leads t k := by
  rw [Leads, Relation.ReflTransGen.cases_head_iff]
  simp [ht]

theorem leads_iff_eq (hn : r.target? h = none) : r.Leads h k ↔ h = k := by
  rw [Leads, Relation.ReflTransGen.cases_head_iff]
  simp [hn]

theorem target?_foldl_point (ks : List Handle) (r : Redirects) (root x : Handle) :
    (ks.foldl (fun s k => s.point k root) r).target? x =
      if x ∈ ks then some root else r.target? x := by
  induction ks generalizing r
  case nil          => simp
  case cons k ks hi =>
    rw [List.foldl_cons, hi, target?_point]
    by_cases hx : x ∈ ks
    case pos => simp [hx]
    case neg => simp [hx, eq_comm]

theorem target?_compress (r : Redirects) (h k : Handle) :
    (r.compress h).target? k = if k ∈ r.path h then some (r.owner h) else r.target? k :=
  target?_foldl_point ..

theorem mem_pathWithin {fuel : Nat} (hn : r.target? (r.ownerWithin fuel h) = none) :
    k ∈ r.pathWithin fuel h ↔ r.Leads h k ∧ (r.target? k).isSome := by
  induction fuel generalizing h
  case zero =>
    rw [ownerWithin] at hn
    rw [pathWithin, leads_iff_eq hn]
    refine iff_of_false List.not_mem_nil ?_
    rintro ⟨rfl, hk⟩
    simp [hn] at hk
  case succ fuel hi =>
    rw [ownerWithin] at hn
    rw [pathWithin]
    cases ht : r.target? h
    case none =>
      rw [leads_iff_eq ht]
      refine iff_of_false List.not_mem_nil ?_
      rintro ⟨rfl, hk⟩
      simp [ht] at hk
    case some t =>
      rw [ht] at hn
      rw [List.mem_cons, hi hn, leads_iff ht, or_and_right, eq_comm]
      refine or_congr_left (iff_self_and.mpr ?_)
      rintro rfl
      simp [ht]

namespace Shortens

theorem unique (hs : Shortens root r h s) (hs' : Shortens root r h s') : s = s' := by
  induction hs
  case done =>
    cases hs'
    case done         => rfl
    case step hne _ _ => exact absurd rfl hne
  case step hne ht _ hi =>
    cases hs'
    case done           => exact absurd rfl hne
    case step _ ht' hs' =>
      cases ht.symm.trans ht'
      exact hi hs'

end Shortens

namespace Acyclic

theorem not_transGen (ha : r.Acyclic) (h : Handle) :
    ¬Relation.TransGen (fun x y => r.target? x = some y) h h := by
  obtain ⟨rank, hr⟩ := ha
  have climbs {x y} (hl : Relation.TransGen (fun x y => r.target? x = some y) x y) :
      rank x < rank y := by
    induction hl
    case single hs    => exact hr _ _ hs
    case tail _ hs hi => exact hi.trans (hr _ _ hs)
  exact fun hl => (climbs hl).false

-- The way back from a target would close a cycle.
theorem not_leads_back (ha : r.Acyclic) (ht : r.target? h = some t) : ¬r.Leads t h :=
  fun hl => ha.not_transGen h (.head' ht hl)

theorem mem_path (ha : r.Acyclic) : k ∈ r.path h ↔ r.Leads h k ∧ k ≠ r.owner h := by
  rw [path, mem_pathWithin (ha.target?_owner h)]
  refine and_congr_right fun hl => ?_
  rw [Option.isSome_iff_ne_none, not_iff_not, eq_comm (a := k), ha.owner_eq_iff, and_iff_right hl]

-- What the loop changes lies behind it.
theorem shortens_foldl (ha : r.Acyclic) (fuel : Nat) (hn : r.target? (r.ownerWithin fuel h) = none)
    (hs : ∀ k, r.Leads h k → s.target? k = r.target? k) :
    Shortens (r.ownerWithin fuel h) s h
      ((r.pathWithin fuel h).foldl (fun s k => s.point k (r.ownerWithin fuel h)) s) := by
  induction fuel generalizing h s
  case zero => exact .done
  case succ fuel hi =>
    cases ht : r.target? h
    case none   =>
      simp only [ownerWithin, pathWithin, ht]
      exact .done
    case some t =>
      simp only [ownerWithin, pathWithin, ht, List.foldl_cons] at hn ⊢
      have hne : h ≠ r.ownerWithin fuel t := by
        intro he
        simp [← he, ht] at hn
      refine .step hne ((hs h .refl).trans ht) (hi hn fun k hk => ?_)
      rw [target?_point, if_neg, hs k (.head ht hk)]
      rintro rfl
      exact ha.not_leads_back ht hk

theorem resolves_iff (ha : r.Acyclic) : r.Resolves h root s ↔ r.resolve h = (root, s) := by
  have hs : Shortens (r.owner h) r h (r.compress h) :=
    ha.shortens_foldl _ (ha.target?_owner h) fun _ _ => rfl
  constructor
  case mp  =>
    intro hr
    obtain rfl : r.owner h = root := ha.owner_eq_iff.mpr ⟨hr.walks, hr.stops⟩
    rw [hr.shortens.unique hs]
    rfl
  case mpr =>
    intro he
    cases he
    exact ⟨r.leads_owner h, ha.target?_owner h, hs⟩

theorem target?_compress_of_leads (ha : r.Acyclic) (hl : r.Leads h k) :
    (r.compress h).target? k = if k = r.owner h then none else some (r.owner h) := by
  rw [target?_compress]
  by_cases hk : k = r.owner h
  case pos => rw [if_pos hk, if_neg fun hm => (ha.mem_path.mp hm).right hk, hk, ha.target?_owner]
  case neg => rw [if_neg hk, if_pos (ha.mem_path.mpr ⟨hl, hk⟩)]

theorem target?_compress_of_not_leads (ha : r.Acyclic) (hl : ¬r.Leads h k) :
    (r.compress h).target? k = r.target? k := by
  rw [target?_compress, if_neg fun hm => hl (ha.mem_path.mp hm).left]

theorem unionFind (ha : r.Acyclic) : r.UnionFind where
  acyclic         := ha.not_transGen
  resolves _ _ _  := ha.resolves_iff
  owner _ _       := ha.owner_eq_iff
  short _ _       := ha.target?_compress_of_leads
  frame _ _       := ha.target?_compress_of_not_leads
  kept h          := (ha.compress h).right
  merged h _ ht   := (ha.redirect ht h).right

theorem perform (ha : r.Acyclic) (hc : call.Admissible r) : (call.perform r).Acyclic := by
  cases call
  case redirect h t => exact (ha.redirect hc h).left
  case resolve h    => exact (ha.compress h).left

theorem after (ha : r.Acyclic) (hc : r.Admits calls) : (r.after calls).Acyclic := by
  induction calls generalizing r
  case nil             => exact ha
  case cons call _ hi  => exact hi (ha.perform hc.left) hc.right

end Acyclic

theorem admits_append :
    r.Admits (calls ++ calls') ↔ r.Admits calls ∧ (r.after calls).Admits calls' := by
  induction calls generalizing r
  case nil        => exact ⟨fun h => ⟨trivial, h⟩, And.right⟩
  case cons _ _ hi => exact (and_congr_right fun _ => hi).trans and_assoc.symm

theorem after_append (r : Redirects) (calls calls' : List Call) :
    r.after (calls ++ calls') = (r.after calls).after calls' :=
  List.foldl_append

theorem Acyclic.admits_redirects (ha : r.Acyclic) (ht : r.target? t = none) (hs : List Handle) :
    r.Admits (hs.map (.redirect · t)) := by
  induction hs generalizing r
  case nil          => trivial
  case cons h hs hi =>
    have ⟨ha', ho⟩ := ha.redirect ht h
    refine ⟨ht, hi ha' (ha'.target?_eq_none_iff.mpr ?_)⟩
    rw [ho, ha.owner_eq_self ht, ite_self]

end Redirects

open Redirects (Call Admits after)

namespace Components

variable {c : Components}

def takingOver (c : Components) (hs : List Handle) : List Call :=
  hs.map (.redirect · c.plans.size)

theorem redirects_takeOver (c : Components) (hs : List Handle) (plan : Plan Relation) :
    (c.takeOver hs plan).redirects = c.redirects.after (c.takingOver hs) := by
  have calls (hs : List Handle) (t : Handle) (c : Components) :
      (hs.foldl (·.redirect · t) c).redirects = c.redirects.after (hs.map (.redirect · t)) := by
    induction hs generalizing c
    case nil         => rfl
    case cons _ _ hi => exact hi _
  exact calls hs c.plans.size _

theorem WellFormed.admits_takingOver (hc : c.WellFormed) (hs : List Handle) :
    c.redirects.Admits (c.takingOver hs) :=
  hc.acyclic.admits_redirects (hc.acyclic.target?_eq_none_iff.mpr (hc.outside _ le_rfl)) hs

end Components

namespace Moment

variable {options : Options} {leaves : List Handle} {m m' : Moment} {d : Demand}
variable {qs : List (Plan Relation)}

theorem Step.calls (h : m.Step options leaves m') :
    ∃ hs, m'.components.redirects = m.components.redirects.after (m.components.takingOver hs) := by
  cases h
  case select  => exact ⟨_, Components.redirects_takeOver ..⟩
  case settle  => exact ⟨[], rfl⟩
  case connect => exact ⟨[], rfl⟩
  case combine => exact ⟨_, Components.redirects_takeOver ..⟩

theorem opening_redirects (qs : List (Plan Relation)) (d : Demand) :
    Meets Failure.IsNegative (opening qs) d fun r _ => r.2.1.redirects = {} := by
  refine (Components.Fresh.selfJoins qs d).bind fun c d' f => Run.meets_demand_bind ?_
  exact (Components.joinCandidates_result d'.joins [] rfl (by simp)).bind fun _ _ _ =>
    Run.meets_pure f.redirects

theorem Reached.calls (h : Reached options qs d leaves m) :
    ∃ calls, Admits {} calls ∧ m.components.redirects = after {} calls := by
  obtain ⟨o, ho, rfl, hr⟩ := h
  have s := (opening_sound qs d).elim ho
  induction hr
  case refl => exact ⟨[], trivial, (opening_redirects qs d).elim ho⟩
  case tail m _ hr hn hi =>
    obtain ⟨calls, hc, he⟩ := hi
    obtain ⟨hs, hs'⟩ := (next_step hn).calls
    have ha := (s.reaches hr).orderly.formed.admits_takingOver hs
    rw [he] at ha hs'
    exact ⟨_, Redirects.admits_append.mpr ⟨hc, ha⟩, hs'.trans (Redirects.after_append ..).symm⟩

end Moment

theorem calls_unionFind :
    (∀ calls, Admits {} calls → (after {} calls).UnionFind) ∧
    ∀ options qs d leaves m, Moment.Reached options qs d leaves m →
      ∃ calls, Admits {} calls ∧ m.components.redirects = after {} calls :=
  ⟨fun _ hc => (Redirects.acyclic_empty.after hc).unionFind, fun _ _ _ _ _ hm => hm.calls⟩

theorem calls_unionFind_chain :
    let calls : List Call := [.redirect 0 1, .redirect 1 2, .redirect 2 3]
    let r := after {} calls
    let scan (n : String) (k : Nat) : Plan Relation :=
      .scanning { name := n, statistics := .of k [⟨n, k⟩] }
    Admits {} calls ∧
    (r.target? 0 = some 1 ∧ (r.resolve 0).1 = 3 ∧ (r.resolve 0).2.target? 0 = some 3 ∧
      ((r.redirect 0 4).resolve 2).1 = 4 ∧ ((r.redirect 0 4).resolve 5).1 = 5) ∧
    ∃ m, Moment.Reached {} [scan "R" 4, scan "S" 5] {} [0, 1] m ∧
      m.components.redirects.target? 0 = some 2 ∧
      ∃ calls, Admits {} calls ∧ m.components.redirects = after {} calls := by
  intro calls r scan
  have hc : Admits {} calls := by decide
  have hr : r.UnionFind := calls_unionFind.left calls hc
  have ho : (r.resolve 0).1 = 3 := by decide
  refine ⟨hc, ⟨by decide, ho, ?_, ?_, ?_⟩, ?_⟩
  · have hl : r.Leads 0 0 := .refl
    rw [hr.short 0 0 hl, ho]
    decide
  · rw [hr.merged 0 4 (by decide)]
    decide
  · rw [hr.merged 0 4 (by decide)]
    decide
  let ks : List Candidate := [⟨0, 1, none⟩]
  let m := Moment.start (.ofLeaves [scan "R" 4, scan "S" 5]) ks {}
  have hm : Moment.Reached {} [scan "R" 4, scan "S" 5] {} [0, 1] m :=
    ⟨⟨([0, 1], .ofLeaves [scan "R" 4, scan "S" 5], ks), {}, []⟩, by with_unfolding_all rfl, rfl,
      .refl⟩
  have hnext : (m.next {} [0, 1]).toOption.join.map (·.components.redirects.target? 0) =
      some (some 2) := by
    decide +kernel
  obtain ⟨m', hm', ht⟩ := Option.map_eq_some_iff.mp hnext
  have hn : m.next {} [0, 1] = .ok (some m') := by
    cases hn : m.next {} [0, 1] <;> simp_all [Except.toOption]
  obtain ⟨o, ho, hl, hs⟩ := hm
  have hr : Moment.Reached {} [scan "R" 4, scan "S" 5] {} [0, 1] m' := ⟨o, ho, hl, hs.tail hn⟩
  exact ⟨m', hr, ht, calls_unionFind.right _ _ _ _ _ hr⟩

end QueryPlanner
