import QueryPlanner.Proofs.Plan
import QueryPlanner.Proofs.Postorder

namespace QueryPlanner.Store

variable {s t u : Store} {done is : List Nat} {i j x : Nat} {r : Relation} {e : Failure}

def Paired (s : Store) : Prop :=
  s.outputs.length = s.nodes.length

theorem output_setOutput (hi : i < s.outputs.length) (r : Relation) (x : Nat) :
    (s.setOutput i r).output x = if x = i then some r else s.output x := by
  rw [output, setOutput, output, List.getElem?_set]
  by_cases hx : x = i
  case pos => simp [hx, hi]
  case neg => simp [hx, Ne.symm hx]

def bottomUp (s : Store) (i : Nat) : Except Failure Relation :=
  match h : s.nodes[i]? with
  | none                 => .error (.unknownNode i)
  | some (.scan r)       => return (s.relation r).statistics
  | some (.select p j)   => do
    have := s.ordered i _ h j (by simp [Node.inputs])
    ((← s.bottomUp j).select p).mapError .ofNegative
  | some (.project as j) => do
    have := s.ordered i _ h j (by simp [Node.inputs])
    return (← s.bottomUp j).project as
  | some (.product j k)  => do
    have := s.ordered i _ h j (by simp [Node.inputs])
    have := s.ordered i _ h k (by simp [Node.inputs])
    return (← s.bottomUp j).product (← s.bottomUp k)
  | some (.join p j k)   => do
    have := s.ordered i _ h j (by simp [Node.inputs])
    have := s.ordered i _ h k (by simp [Node.inputs])
    let l ← s.bottomUp j
    let r ← s.bottomUp k
    (l.join r p).mapError .ofNegative
termination_by i

theorem bottomUp_eq (s : Store) (i : Nat) : s.bottomUp i =
    (match s.nodes[i]? with
    | none                 => .error (.unknownNode i)
    | some (.scan r)       => return (s.relation r).statistics
    | some (.select p j)   => do ((← s.bottomUp j).select p).mapError .ofNegative
    | some (.project as j) => return (← s.bottomUp j).project as
    | some (.product j k)  => return (← s.bottomUp j).product (← s.bottomUp k)
    | some (.join p j k)   => do
      let l ← s.bottomUp j
      let r ← s.bottomUp k
      (l.join r p).mapError .ofNegative) := by
  rw [bottomUp]
  split
  all_goals
    rename_i hn
    simp only [hn]

structure Alike (s t : Store) : Prop where
  nodes     : t.nodes = s.nodes
  relations : t.relations = s.relations
  size      : t.outputs.length = s.outputs.length

namespace Alike

theorem refl (s : Store) : s.Alike s :=
  ⟨rfl, rfl, rfl⟩

theorem setOutput (h : s.Alike t) (i : Nat) (r : Relation) : s.Alike (t.setOutput i r) :=
  ⟨h.nodes, h.relations, (List.length_set ..).trans h.size⟩

theorem paired (h : s.Alike t) (hs : s.Paired) : t.Paired := by
  rw [Paired, h.size, h.nodes, hs]

theorem relation (h : s.Alike t) (k : Nat) : t.relation k = s.relation k := by
  rw [Store.relation, Store.relation, h.relations]

theorem nodeOutput (h : s.Alike t) (hi : ∀ j ∈ s.inputs i, t.inputOutput i j = s.bottomUp j) :
    t.nodeOutput i = s.bottomUp i := by
  rw [bottomUp_eq, Store.nodeOutput, h.nodes]
  cases hn : s.nodes[i]?
  case none   => rfl
  case some n =>
    rw [inputs_eq hn] at hi
    cases n
    all_goals simp only [Node.inputs, List.forall_mem_cons, List.not_mem_nil] at hi
    all_goals simp only [h.relation, hi]

theorem bottomUp (h : s.Alike t) (i : Nat) : t.bottomUp i = s.bottomUp i := by
  induction i using Nat.strongRecOn
  case ind i hi =>
    rw [bottomUp_eq, bottomUp_eq, h.nodes]
    cases hn : s.nodes[i]?
    case none   => rfl
    case some n =>
      have hi (j) (hj : j ∈ n.inputs) := hi j (s.ordered i n hn j hj)
      cases n
      all_goals simp only [Node.inputs, List.forall_mem_cons, List.not_mem_nil] at hi
      all_goals simp only [h.relation, hi]

theorem eq_of_output (h : s.Alike t) (ho : ∀ x, t.output x = s.output x) : t = s := by
  have hs : t.outputs = s.outputs := by
    refine List.ext_getElem h.size fun x hx hx' => ?_
    simpa [output, hx, hx'] using ho x
  cases s
  cases t
  obtain ⟨rfl, rfl, _⟩ := h
  obtain rfl := hs
  rfl

end Alike

theorem lt_of_reaches (h : s.Reaches i x) (hi : i < s.nodes.length) : x < s.nodes.length := by
  induction h
  case refl       => exact hi
  case tail hj ih => exact Nat.lt_trans (lt_of_mem_inputs hj) ih

theorem lt_of_bottomUp (h : s.bottomUp i = .ok r) : i < s.nodes.length := by
  by_contra hi
  rw [bottomUp_eq, List.getElem?_eq_none (Nat.le_of_not_lt hi)] at h
  cases h

def StopsNegative (x : Except Failure Relation) : Prop :=
  ∀ e, x = .error e → ∃ n, e = .negativeTupleCount n

namespace StopsNegative

theorem pure (r : Relation) : StopsNegative (pure r) :=
  nofun

theorem bind {x : Except Failure Relation} {f : Relation → Except Failure Relation}
    (hx : StopsNegative x) (hf : ∀ r, StopsNegative (f r)) : StopsNegative (x >>= f) := by
  cases x
  case error => exact hx
  case ok r  => exact hf r

theorem mapError (x : Except NegativeTupleCount Relation) : StopsNegative (x.mapError .ofNegative) := by
  cases x
  case error => rintro _ ⟨⟩; exact ⟨_, rfl⟩
  case ok    => exact nofun

end StopsNegative

theorem stopsNegative_bottomUp (hi : i < s.nodes.length) : StopsNegative (s.bottomUp i) := by
  induction i using Nat.strongRecOn
  case ind i ih =>
    have hn := List.getElem?_eq_getElem hi
    have ih (j) (hj : j ∈ s.nodes[i].inputs) : StopsNegative (s.bottomUp j) :=
      have hj := s.ordered i _ hn j hj
      ih j hj (Nat.lt_trans hj hi)
    rw [bottomUp_eq, hn]
    cases hk : s.nodes[i]
    all_goals simp only [hk, Node.inputs, List.forall_mem_cons] at ih
    case scan    => exact .pure _
    case select  => exact ih.left.bind fun _ => .mapError _
    case project => exact ih.left.bind fun _ => .pure _
    case product => exact ih.left.bind fun _ => ih.right.left.bind fun _ => .pure _
    case join    => exact ih.left.bind fun _ => ih.right.left.bind fun _ => .mapError _

theorem negative_of_bottomUp (hi : i < s.nodes.length) (h : s.bottomUp i = .error e) :
    ∃ n, e = .negativeTupleCount n :=
  stopsNegative_bottomUp hi e h

-- The nodes of a list have their estimates, and all other nodes the outputs that they had.
structure Filled (s : Store) (is : List Nat) (t : Store) : Prop where
  alike     : s.Alike t
  estimated : ∀ x ∈ is, ∃ r, s.bottomUp x = .ok r ∧ t.output x = some r
  kept      : ∀ x ∉ is, t.output x = s.output x

theorem filled_nil (s : Store) : s.Filled [] s where
  alike     := .refl s
  estimated := by simp
  kept      := fun _ _ => rfl

namespace Filled

theorem nodeOutput (f : s.Filled is t) (hi : ∀ j ∈ s.inputs i, j ∈ is) :
    t.nodeOutput i = s.bottomUp i := by
  refine f.alike.nodeOutput fun j hj => ?_
  obtain ⟨r, hr, ho⟩ := f.estimated j (hi j hj)
  rw [inputOutput, ho, hr]

theorem estimate_ok (f : s.Filled is t) (hs : s.Paired) (hi : ∀ j ∈ s.inputs i, j ∈ is)
    (hr : s.bottomUp i = .ok r) :
    t.estimate i = (t.setOutput i r, .ok r) ∧ s.Filled (is ++ [i]) (t.setOutput i r) := by
  have hlt : i < t.outputs.length := by
    rw [f.alike.size, hs]
    exact lt_of_bottomUp hr
  have ho := output_setOutput hlt r
  refine ⟨by rw [estimate, f.nodeOutput hi, hr], f.alike.setOutput i r, fun x hx => ?_, ?_⟩
  · rw [ho]
    split
    case isTrue he  => exact ⟨r, he ▸ hr, rfl⟩
    case isFalse he => exact f.estimated x (by simpa [he] using hx)
  · intro x hx
    obtain ⟨hx, he⟩ : x ∉ is ∧ x ≠ i := by simpa using hx
    rw [ho, if_neg he, f.kept x hx]

theorem estimate_error (f : s.Filled is t) (hi : ∀ j ∈ s.inputs i, j ∈ is)
    (he : s.bottomUp i = .error e) : t.estimate i = (t, .error e) := by
  rw [estimate, f.nodeOutput hi, he]

theorem estimateAll (f : s.Filled done t) (hs : s.Paired) (g : s.Grounded done is) :
    (∃ u, t.estimateAll is = (u, .ok ()) ∧ s.Filled (done ++ is) u) ∨
      ∃ before i after e u, is = before ++ i :: after ∧ s.bottomUp i = .error e ∧
        t.estimateAll is = (u, .error e) ∧ s.Filled (done ++ before) u := by
  induction is generalizing done t
  case nil => exact .inl ⟨t, rfl, by simpa using f⟩
  case cons i is hi =>
    rw [Store.estimateAll]
    cases hb : s.bottomUp i
    case error e =>
      rw [f.estimate_error g.left hb]
      exact .inr ⟨[], i, is, e, t, rfl, hb, rfl, by simpa using f⟩
    case ok r    =>
      obtain ⟨he, f⟩ := f.estimate_ok hs g.left hb
      rw [he]
      obtain ⟨u, hu, f⟩ | ⟨before, x, after, e, u, rfl, hx, hu, f⟩ := hi f g.right
      · exact .inl ⟨u, hu, by simpa using f⟩
      · exact .inr ⟨i :: before, x, after, e, u, rfl, hx, hu, by simpa using f⟩

end Filled

theorem bottomUp_input (h : s.bottomUp i = .ok r) (hj : j ∈ s.inputs i) :
    ∃ r, s.bottomUp j = .ok r := by
  obtain ⟨n, hn⟩ : ∃ n, s.nodes[i]? = some n := ⟨_, List.getElem?_eq_getElem (lt_of_bottomUp h)⟩
  rw [bottomUp_eq, hn] at h
  rw [inputs_eq hn] at hj
  cases n
  all_goals simp only [Node.inputs, List.mem_cons, List.not_mem_nil, or_false] at h hj
  case select | project =>
    obtain ⟨a, ha, _⟩ := bind_eq_ok h
    exact ⟨a, hj ▸ ha⟩
  case product | join =>
    obtain ⟨a, ha, h⟩ := bind_eq_ok h
    obtain ⟨b, hb, _⟩ := bind_eq_ok h
    exact hj.elim (fun hj => ⟨a, hj ▸ ha⟩) fun hj => ⟨b, hj ▸ hb⟩

theorem bottomUp_reached (h : s.bottomUp i = .ok r) (hx : s.Reaches i x) :
    ∃ r, s.bottomUp x = .ok r := by
  induction hx
  case refl          => exact ⟨r, h⟩
  case tail hj hi    =>
    obtain ⟨r, hr⟩ := hi
    exact bottomUp_input hr hj

theorem estimatePlan_ok (hs : s.Paired) (h : s.bottomUp i = .ok r) :
    ∃ t, s.estimatePlan i = (t, .ok r) ∧ s.Filled (s.postorder i) t := by
  rw [estimatePlan, estimatePlan_postorder]
  obtain ⟨t, ht, f⟩ | ⟨before, y, after, e, t, hp, he, ht, f⟩ :=
    (filled_nil s).estimateAll hs (grounded_postorder s [] i)
  · obtain ⟨r', hr, ho⟩ := f.estimated i (s.mem_postorder_self i)
    obtain rfl : r = r' := Except.ok.inj (h.symm.trans hr)
    exact ⟨t, by simp only [ht, ho], f⟩
  · have hy : y ∈ s.postorder i := hp ▸ List.mem_append_right _ (List.mem_cons_self ..)
    obtain ⟨r', hr⟩ := bottomUp_reached h (mem_postorder_iff.mp hy)
    cases he.symm.trans hr

theorem estimatePlan_error (hs : s.Paired) (hx : s.Reaches i x) (h : s.bottomUp x = .error e) :
    ∃ before y after e t, s.postorder i = before ++ y :: after ∧ s.bottomUp y = .error e ∧
      s.estimatePlan i = (t, .error e) ∧ s.Filled before t := by
  rw [estimatePlan, estimatePlan_postorder]
  obtain ⟨t, ht, f⟩ | ⟨before, y, after, e', t, hp, he, ht, f⟩ :=
    (filled_nil s).estimateAll hs (grounded_postorder s [] i)
  · obtain ⟨r, hr, _⟩ := f.estimated x (mem_postorder_iff.mpr hx)
    cases h.symm.trans hr
  · exact ⟨before, y, after, e', t, hp, he, by simp only [ht], f⟩

-- Where no estimate fails, each node below has its own afterwards, no other node is touched, and
-- doing it again changes nothing. Otherwise the first node that fails in post-order ends it, with
-- its failure, and what comes before it in that order has been estimated, and nothing else.
theorem estimatePlan_bottomUp (hs : s.Paired) (hi : i < s.nodes.length) :
    (∀ r, s.bottomUp i = .ok r → ∃ t, s.estimatePlan i = (t, .ok r) ∧ s.Alike t ∧
      (∀ x, s.Reaches i x → ∃ r, s.bottomUp x = .ok r ∧ t.output x = some r) ∧
      (∀ x, ¬s.Reaches i x → t.output x = s.output x) ∧ t.estimatePlan i = (t, .ok r)) ∧
    ∀ x e, s.Reaches i x → s.bottomUp x = .error e → ∃ before y after n t,
      s.postorder i = before ++ y :: after ∧ s.bottomUp y = .error (.negativeTupleCount n) ∧
      s.estimatePlan i = (t, .error (.negativeTupleCount n)) ∧ s.Alike t ∧
      (∀ z ∈ before, ∃ r, s.bottomUp z = .ok r ∧ t.output z = some r) ∧
      ∀ z ∉ before, t.output z = s.output z := by
  refine ⟨fun r hr => ?_, fun x e hx he => ?_⟩
  · obtain ⟨t, ht, f⟩ := estimatePlan_ok hs hr
    refine ⟨t, ht, f.alike, fun x hx => f.estimated x (mem_postorder_iff.mpr hx),
      fun x hx => f.kept x (mem_postorder_iff.not.mpr hx), ?_⟩
    obtain ⟨u, hu, f'⟩ := estimatePlan_ok (f.alike.paired hs) ((f.alike.bottomUp i).trans hr)
    suffices hut : u = t by rw [hu, hut]
    refine f'.alike.eq_of_output fun x => ?_
    rw [postorder_congr f.alike.nodes] at f'
    by_cases hx : x ∈ s.postorder i
    case neg => exact f'.kept x hx
    case pos =>
      obtain ⟨r, hr, ho⟩ := f.estimated x hx
      obtain ⟨r', hr', ho'⟩ := f'.estimated x hx
      rw [f.alike.bottomUp, hr] at hr'
      rw [ho, ho', Except.ok.inj hr']
  · obtain ⟨before, y, after, e, t, hp, hy, ht, f⟩ := estimatePlan_error hs hx he
    have hy' : s.Reaches i y :=
      mem_postorder_iff.mp (hp ▸ List.mem_append_right _ (List.mem_cons_self ..))
    obtain ⟨n, rfl⟩ := negative_of_bottomUp (lt_of_reaches hy' hi) hy
    exact ⟨before, y, after, n, t, hp, hy, ht, f.alike, f.estimated, f.kept⟩

-- A product of a selection with itself, selected by an attribute with less than no values in one place
-- and joined in another. The outputs of two nodes are out of date.
def wornStore : Store where
  relations := [
    { name := "r", statistics := .of 10 [⟨"a", -3⟩, ⟨"b", 2⟩] },
    { name := "s", statistics := .of 4 [⟨"c", 4⟩] }]
  nodes     := [
    .scan 0,
    .select (.value { occurrence := 0, name := "b", value := "x" }) 0,
    .product 1 1,
    .scan 1,
    .join { occurrence := 1, left := "b", right := "c" } 2 3,
    .select (.value { occurrence := 2, name := "a", value := "y" }) 2,
    .product 4 5]
  outputs   := [some (.of 1 []), none, some (.of 7 [⟨"z", 7⟩]), none, none, none, some (.of 0 [])]
  ordered   := by
    rintro (_ | _ | _ | _ | _ | _ | _ | i) n hn
    all_goals cases hn
    all_goals decide

theorem estimatePlan_bottomUp_wornStore :
    let joined : Relation := .of 25 [⟨"a", -3⟩, ⟨"b", 1⟩, ⟨"a", -3⟩, ⟨"b", 1⟩, ⟨"c", 1⟩]
    (wornStore.Paired ∧ 4 < wornStore.nodes.length ∧ wornStore.bottomUp 4 = .ok joined ∧
      ∃ t, wornStore.estimatePlan 4 = (t, .ok joined) ∧ wornStore.Alike t ∧
        (∀ x, wornStore.Reaches 4 x → ∃ r, wornStore.bottomUp x = .ok r ∧ t.output x = some r) ∧
        (∀ x, ¬wornStore.Reaches 4 x → t.output x = wornStore.output x) ∧
        t.estimatePlan 4 = (t, .ok joined)) ∧
    6 < wornStore.nodes.length ∧ wornStore.Reaches 6 5 ∧
      wornStore.bottomUp 5 = .error (.negativeTupleCount (-9)) ∧ ∃ before y after n t,
        wornStore.postorder 6 = before ++ y :: after ∧
        wornStore.bottomUp y = .error (.negativeTupleCount n) ∧
        wornStore.estimatePlan 6 = (t, .error (.negativeTupleCount n)) ∧ wornStore.Alike t ∧
        (∀ z ∈ before, ∃ r, wornStore.bottomUp z = .ok r ∧ t.output z = some r) ∧
        ∀ z ∉ before, t.output z = wornStore.output z := by
  intro joined
  have hj : wornStore.bottomUp 4 = .ok joined := by decide +kernel
  have hx : wornStore.Reaches 6 5 := .single (by decide)
  have he : wornStore.bottomUp 5 = .error (.negativeTupleCount (-9)) := by decide +kernel
  have hs : wornStore.Paired := rfl
  exact ⟨⟨hs, by decide, hj, (estimatePlan_bottomUp hs (by decide)).left joined hj⟩,
    by decide, hx, he, (estimatePlan_bottomUp hs (by decide)).right 5 _ hx he⟩

end QueryPlanner.Store
