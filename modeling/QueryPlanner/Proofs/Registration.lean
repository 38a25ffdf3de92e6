import QueryPlanner.Proofs.CatalogueGrammar

namespace QueryPlanner

inductive CallError
  | negativeCount (error : NegativeTupleCount)
  | catalogue (error : CatalogueError)
  deriving DecidableEq, Repr

structure Ledger where
  catalogue  : Catalogue := {}
  registered : List Attribute := []

-- A procedure changes a catalogue write by write. What was written before a failure stays written.
abbrev Procedure := ExceptT CallError (StateM Ledger)

namespace Procedure

def putRelation (name : String) (r : Relation) : Procedure Unit :=
  modify fun l => { l with
    catalogue := { l.catalogue with relations := l.catalogue.relations.put name r } }

def putAttribute (a : Attribute) : Procedure Unit :=
  modify fun l => { l with
    catalogue := { l.catalogue with attributes := l.catalogue.attributes.put a.name a.valueCount } }

def record (a : Attribute) : Procedure Unit :=
  modify fun l => { l with registered := a :: l.registered }

def relation (name : String) : Procedure NamedRelation := do
  match (← get).catalogue.relation name with
  | .ok r    => return r
  | .error e => throw (.catalogue e)

def createRelation (name : String) (tupleCount : Int) : Procedure Unit := do
  match Relation.of? tupleCount [] with
  | .ok r    => putRelation name r
  | .error e => throw (.negativeCount e)

def createAttribute (name : String) (a : Attribute) : Procedure Unit := do
  let r ← relation name
  putAttribute a
  putRelation name (r.statistics.add a)
  record a

def orFault {α : Type} (number : Nat) : Except CatalogueFault α → Procedure α
  | .ok a    => return a
  | .error f => throw (.catalogue (.malformedLine number f))

def readAttributes (number : Nat) (name : String) : List (List Char) → Procedure Unit
  | []      => return
  | p :: ps => do
    createAttribute name (← orFault number (CatalogueLine.readAttribute p))
    readAttributes number name ps

def readParts (number : Nat) : List (List Char) → Procedure Unit
  | name :: count :: parts => do
    let name := String.ofList (Text.trim name)
    createRelation name (← orFault number (CatalogueLine.readCount count))
    readAttributes number name parts
  | _ => orFault number (.error .missingCount)

def readLine (number : Nat) (line : List Char) : Procedure Unit :=
  match Text.trim line with
  | []       => return
  | '#' :: _ => return
  | cs       => readParts number (Text.fields ':' cs)

def readLines (number : Nat) : List (List Char) → Procedure Unit
  | []      => return
  | l :: ls => do
    readLine number l
    readLines (number + 1) ls

end Procedure

namespace Catalogue

inductive Call
  | createRelation (name : String) (tupleCount : Int)
  | createAttribute (relation : String) (a : Attribute)
  | read (text : String)
  deriving DecidableEq, Repr

namespace Call

def perform (c : Catalogue) : Call → Except CallError Unit × Catalogue
  | createRelation n k  =>
    match c.createRelation n k with
    | .ok d    => (.ok (), d)
    | .error e => (.error (.negativeCount e), c)
  | createAttribute r a =>
    match c.createAttribute r a with
    | .ok d    => (.ok (), d)
    | .error e => (.error (.catalogue e), c)
  | read t              => ((c.read t).2.mapError .catalogue, (c.read t).1)

def procedure : Call → Procedure Unit
  | createRelation n k  => Procedure.createRelation n k
  | createAttribute r a => Procedure.createAttribute r a
  | read t              => Procedure.readLines 1 (Text.lines t.toList)

def isCreation : Call → Bool
  | read _ => false
  | _      => true

end Call
end Catalogue

namespace Procedure

variable {α β : Type} {p : Procedure α} {l : Ledger}

def perform (p : Procedure α) (l : Ledger) : Except CallError α × Ledger :=
  p.run.run l

theorem perform_bind (p : Procedure α) (f : α → Procedure β) (l : Ledger) :
    (p >>= f).perform l = match p.perform l with
      | (.ok a, k)    => (f a).perform k
      | (.error e, k) => (.error e, k) := by
  simp only [perform, ExceptT.run_bind, StateT.run_bind]
  rcases p.run.run l with ⟨_ | a, k⟩ <;> rfl

theorem perform_createRelation (name : String) (k : Int) (l : Ledger) :
    (createRelation name k).perform l = match l.catalogue.createRelation name k with
      | .ok d    => (.ok (), { l with catalogue := d })
      | .error e => (.error (.negativeCount e), l) := by
  by_cases h : k < 0
  all_goals
    simp only [createRelation, Relation.of?, Catalogue.createRelation, h, if_true, if_false]
    rfl

theorem perform_relation (name : String) (l : Ledger) :
    (relation name).perform l = match l.catalogue.relation name with
      | .ok r    => (.ok r, l)
      | .error e => (.error (.catalogue e), l) := by
  have h : (get : Procedure Ledger).perform l = (.ok l, l) := rfl
  rw [relation, perform_bind, h]
  dsimp only
  cases l.catalogue.relation name <;> rfl

theorem perform_createAttribute (name : String) (a : Attribute) (l : Ledger) :
    (createAttribute name a).perform l = match l.catalogue.createAttribute name a with
      | .ok d    => (.ok (), { catalogue := d, registered := a :: l.registered })
      | .error e => (.error (.catalogue e), l) := by
  rw [createAttribute, perform_bind, perform_relation, Catalogue.relation,
    Catalogue.createAttribute]
  cases l.catalogue.relations.get? name <;> rfl

theorem perform_orFault (n : Nat) (r : Except CatalogueFault α) (l : Ledger) :
    (orFault n r).perform l = match r with
      | .ok a    => (.ok a, l)
      | .error f => (.error (.catalogue (.malformedLine n f)), l) := by
  cases r <;> rfl

-- Reading a line registers its relation and its attributes one after the other.

def outcome (number : Nat) : Option CatalogueFault → Except CallError Unit
  | none   => .ok ()
  | some f => .error (.catalogue (.malformedLine number f))

variable {name : String} {k n : Nat} {as : List Attribute}

theorem perform_readAttributes {c : Catalogue} (ps : List (List Char))
    (h : l.catalogue = c.register { relation := some (name, k), attributes := as }) :
    (readAttributes n name ps).perform l = (outcome n (CatalogueLine.readAttributes ps).2, {
      catalogue  := c.register {
        relation   := some (name, k)
        attributes := as ++ (CatalogueLine.readAttributes ps).1 }
      registered := (CatalogueLine.readAttributes ps).1.reverse ++ l.registered }) := by
  induction ps generalizing l as
  case nil =>
    obtain ⟨d, bs⟩ := l
    obtain rfl : d = _ := h
    rw [readAttributes, CatalogueLine.readAttributes, List.append_nil]
    rfl
  case cons p ps hi =>
    rw [readAttributes, perform_bind, perform_orFault, CatalogueLine.readAttributes]
    cases CatalogueLine.readAttribute p
    case error f =>
      obtain ⟨d, bs⟩ := l
      obtain rfl : d = _ := h
      simp [outcome]
    case ok a =>
      dsimp only
      rw [perform_bind, perform_createAttribute, h, Catalogue.createAttribute_register]
      dsimp only
      rw [hi rfl]
      simp

end Procedure

def Ledger.enter (l : Ledger) (line : CatalogueLine) : Ledger where
  catalogue  := l.catalogue.register line
  registered := line.attributes.reverse ++ l.registered

namespace Procedure

variable {l : Ledger} {n : Nat}

theorem perform_readParts (n : Nat) (ps : List (List Char)) (l : Ledger) :
    (readParts n ps).perform l =
      (outcome n (CatalogueLine.ofParts ps).fault, l.enter (CatalogueLine.ofParts ps)) := by
  fun_cases CatalogueLine.ofParts ps
  case case1 name count parts f h =>
    rw [readParts, perform_bind, perform_orFault, h]
    rfl
  case case2 name count parts k h =>
    have hk : l.catalogue.createRelation (String.ofList (Text.trim name)) k =
        .ok (l.catalogue.addRelation (String.ofList (Text.trim name)) k) := by
      simp [Catalogue.createRelation]
    rw [readParts, perform_bind, perform_orFault, h]
    dsimp only
    rw [perform_bind, perform_createRelation, hk]
    dsimp only
    rw [perform_readAttributes parts rfl]
    rfl
  case case3 hs =>
    rw [readParts, perform_orFault]
    · rfl
    · exact hs

theorem perform_readLine (n : Nat) (line : List Char) (l : Ledger) :
    (readLine n line).perform l = match CatalogueLine.read? line with
      | none   => (.ok (), l)
      | some r => (outcome n r.fault, l.enter r) := by
  unfold readLine
  split
  case h_1 ht    =>
    simp only [CatalogueLine.read?, ht]
    rfl
  case h_2 ht    =>
    simp only [CatalogueLine.read?, ht]
    rfl
  case h_3 hn hh =>
    have hr : CatalogueLine.read? line = some (.ofParts (Text.fields ':' (Text.trim line))) := by
      unfold CatalogueLine.read?
      split <;> simp_all
    rw [hr]
    exact perform_readParts n _ l

theorem perform_readLines (n : Nat) (ls : List (List Char)) (l : Ledger) :
    ((readLines n ls).perform l).map id Ledger.catalogue =
      ((l.catalogue.readLines n ls).2.mapError .catalogue, (l.catalogue.readLines n ls).1) := by
  induction ls generalizing n l
  case nil => rfl
  case cons line ls hi =>
    rw [readLines, perform_bind, perform_readLine, Catalogue.readLines]
    cases CatalogueLine.read? line
    case none => exact hi (n + 1) l
    case some r =>
      dsimp only
      cases r.fault
      case none   => exact hi (n + 1) (l.enter r)
      case some f => rfl

end Procedure

theorem Catalogue.Call.perform_procedure (call : Call) (l : Ledger) :
    (call.procedure.perform l).map id Ledger.catalogue = call.perform l.catalogue := by
  cases call
  case createRelation n k =>
    rw [procedure, Procedure.perform_createRelation, perform]
    cases l.catalogue.createRelation n k <;> rfl
  case createAttribute n a =>
    rw [procedure, Procedure.perform_createAttribute, perform]
    cases l.catalogue.createAttribute n a <;> rfl
  case read t => exact Procedure.perform_readLines 1 _ l

theorem Catalogue.Call.creation_atomic {call : Call} {l : Ledger} {e : CallError}
    (hc : call.isCreation) (h : (call.procedure.perform l).1 = .error e) :
    (call.procedure.perform l).2 = l := by
  cases call
  case createRelation n k =>
    rw [procedure, Procedure.perform_createRelation] at h ⊢
    cases hr : l.catalogue.createRelation n k <;> simp_all
  case createAttribute n a =>
    rw [procedure, Procedure.perform_createAttribute] at h ⊢
    cases hr : l.catalogue.createAttribute n a <;> simp_all
  case read => contradiction

namespace Ledger

structure Kept (R : Ledger → Ledger → Prop) : Prop where
  refl            : ∀ l, R l l
  trans           : ∀ {l m n}, R l m → R m n → R l n
  createRelation  : ∀ {l c n k}, l.catalogue.createRelation n k = .ok c → R l { l with catalogue := c }
  createAttribute : ∀ {l c n a}, l.catalogue.createAttribute n a = .ok c →
    R l { catalogue := c, registered := a :: l.registered }

namespace Kept

open Procedure

variable {α β : Type} {R : Ledger → Ledger → Prop} (h : Kept R)

include h

theorem bind {p : Procedure α} {f : α → Procedure β} (hp : ∀ l, R l (p.perform l).2)
    (hf : ∀ a l, R l ((f a).perform l).2) (l : Ledger) : R l ((p >>= f).perform l).2 := by
  have hl := hp l
  rw [perform_bind]
  generalize p.perform l = r at hl ⊢
  match r with
  | (.error _, _) => exact hl
  | (.ok a, m)    => exact h.trans hl (hf a m)

theorem newRelation (n : String) (k : Int) (l : Ledger) :
    R l ((Procedure.createRelation n k).perform l).2 := by
  rw [perform_createRelation]
  split
  case h_1 hc => exact h.createRelation hc
  case h_2    => exact h.refl l

theorem newAttribute (n : String) (a : Attribute) (l : Ledger) :
    R l ((Procedure.createAttribute n a).perform l).2 := by
  rw [perform_createAttribute]
  split
  case h_1 hc => exact h.createAttribute hc
  case h_2    => exact h.refl l

theorem orFault (n : Nat) (r : Except CatalogueFault α) (l : Ledger) :
    R l ((Procedure.orFault n r).perform l).2 := by
  rw [perform_orFault]
  split <;> exact h.refl l

theorem readAttributes (n : Nat) (name : String) (ps : List (List Char)) :
    ∀ l, R l ((Procedure.readAttributes n name ps).perform l).2 := by
  induction ps
  case nil          => exact h.refl
  case cons p ps hi => exact h.bind (h.orFault n _) fun a => h.bind (h.newAttribute name a) fun _ => hi

theorem readLine (n : Nat) (line : List Char) : ∀ l, R l ((Procedure.readLine n line).perform l).2 := by
  unfold Procedure.readLine
  split
  case h_1 => exact h.refl
  case h_2 => exact h.refl
  case h_3 =>
    unfold Procedure.readParts
    split
    case h_1 => exact h.bind (h.orFault n _) fun k => h.bind (h.newRelation _ k) fun _ =>
      h.readAttributes n _ _
    case h_2 => exact h.orFault n _

theorem readLines (n : Nat) (ls : List (List Char)) :
    ∀ l, R l ((Procedure.readLines n ls).perform l).2 := by
  induction ls generalizing n
  case nil             => exact h.refl
  case cons line ls hi => exact h.bind (h.readLine n line) fun _ => hi (n + 1)

theorem call (k : Catalogue.Call) (l : Ledger) : R l (k.procedure.perform l).2 := by
  cases k
  case createRelation n k  => exact h.newRelation n k l
  case createAttribute n a => exact h.newAttribute n a l
  case read t              => exact h.readLines 1 _ l

theorem calls (ks : List Catalogue.Call) (l : Ledger) :
    R l (ks.foldl (fun l k => (k.procedure.perform l).2) l) := by
  induction ks generalizing l
  case nil          => exact h.refl l
  case cons k ks hi => exact h.trans (h.call k l) (hi _)

end Kept

-- The list of attributes holds the last value count that was registered under each name, and it
-- holds a value count for each attribute of a relation.
structure Sound (l : Ledger) : Prop where
  lookup : ∀ name, l.catalogue.attributes.get? name =
    (l.registered.find? (·.name = name)).map Attribute.valueCount
  listed : ∀ e ∈ l.catalogue.relations.entries, ∀ a ∈ e.2.attributes,
    (l.catalogue.attributes.get? a.name).isSome

theorem sound_empty : Sound {} where
  lookup _ := rfl
  listed   := nofun

theorem Sound.createRelation {l : Ledger} {c : Catalogue} {n : String} {k : Int} (h : l.Sound)
    (hc : l.catalogue.createRelation n k = .ok c) : Sound { l with catalogue := c } := by
  unfold Catalogue.createRelation at hc
  split at hc
  case isTrue  => contradiction
  case isFalse =>
    obtain rfl := Except.ok.inj hc
    refine ⟨h.lookup, fun e he a ha => ?_⟩
    obtain rfl | he := Registry.mem_entries_put he
    · simp at ha
    · exact h.listed e he a ha

theorem Sound.createAttribute {l : Ledger} {c : Catalogue} {n : String} {a : Attribute}
    (h : l.Sound) (hc : l.catalogue.createAttribute n a = .ok c) :
    Sound { catalogue := c, registered := a :: l.registered } := by
  unfold Catalogue.createAttribute at hc
  split at hc
  case h_1      => contradiction
  case h_2 r hr =>
    obtain rfl := Except.ok.inj hc
    refine ⟨fun name => ?_, fun e he b hb => ?_⟩
    · rw [Registry.get?_put, h.lookup name]
      by_cases hn : name = a.name
      case pos => simp [hn]
      case neg => simp [hn, Ne.symm hn]
    · rw [Registry.get?_put]
      split
      case isTrue    => rfl
      case isFalse hn =>
        obtain rfl | he := Registry.mem_entries_put he
        · rw [Relation.add_attributes, List.mem_append, List.mem_singleton] at hb
          obtain hb | rfl := hb
          · exact h.listed _ (Registry.mem_entries_of_get? hr) b hb
          · simp at hn
        · exact h.listed e he b hb

theorem kept_sound : Kept fun l m => l.Sound → m.Sound where
  refl _              := id
  trans hl hm h       := hm (hl h)
  createRelation hc h := h.createRelation hc
  createAttribute hc h := h.createAttribute hc

end Ledger

-- Nothing is taken out of a catalogue, and what is registered again keeps its position.
structure Catalogue.Extends (c d : Catalogue) : Prop where
  relations  : c.relations.keys <+: d.relations.keys
  attributes : c.attributes.keys <+: d.attributes.keys

namespace Ledger

theorem kept_extends : Kept fun l m => l.catalogue.Extends m.catalogue where
  refl l      := ⟨List.prefix_refl _, List.prefix_refl _⟩
  trans hl hm := ⟨hl.relations.trans hm.relations, hl.attributes.trans hm.attributes⟩
  createRelation {l c n k} hc := by
    unfold Catalogue.createRelation at hc
    split at hc
    case isTrue  => contradiction
    case isFalse =>
      obtain rfl := Except.ok.inj hc
      exact ⟨Registry.keys_prefix_put .., List.prefix_refl _⟩
  createAttribute {l c n a} hc := by
    unfold Catalogue.createAttribute at hc
    split at hc
    case h_1      => contradiction
    case h_2 r hr =>
      obtain rfl := Except.ok.inj hc
      exact ⟨Registry.keys_prefix_put .., Registry.keys_prefix_put ..⟩

end Ledger

namespace Catalogue

def history (calls : List Call) : Ledger :=
  calls.foldl (fun l k => (k.procedure.perform l).2) {}

theorem catalogue_history (calls : List Call) :
    (history calls).catalogue = calls.foldl (fun c k => (k.perform c).2) {} := by
  have h (l : Ledger) (ks : List Call) :
      (ks.foldl (fun l k => (k.procedure.perform l).2) l).catalogue =
        ks.foldl (fun c k => (k.perform c).2) l.catalogue := by
    induction ks generalizing l
    case nil          => rfl
    case cons k ks hi => rw [List.foldl_cons, List.foldl_cons, hi, ← k.perform_procedure, Prod.map_snd]
  exact h {} calls

theorem sound_history (calls : List Call) : (history calls).Sound :=
  Ledger.kept_sound.calls calls {} Ledger.sound_empty

theorem relation_eq_ok {c : Catalogue} {name : String} {r : NamedRelation} :
    c.relation name = .ok r ↔ r.name = name ∧ c.relations.get? name = some r.statistics := by
  obtain ⟨n, s⟩ := r
  unfold relation
  cases c.relations.get? name
  case none => simp
  case some => simp [eq_comm]

theorem attribute?_eq_ok {c : Catalogue} {name : String} {a : Attribute} :
    c.attribute? name = .ok a ↔ a.name = name ∧ c.attributes.get? name = some a.valueCount := by
  obtain ⟨n, v⟩ := a
  unfold attribute?
  cases c.attributes.get? name
  case none => simp
  case some => simp [eq_comm]

theorem calls_sound (calls : List Call) :
    (history calls).catalogue = calls.foldl (fun c k => (k.perform c).2) {} ∧
    (∀ name r, (history calls).catalogue.relation name = .ok r →
      r.name = name ∧ 0 ≤ (r.statistics.tupleCount : Int) ∧
        ∀ a ∈ r.statistics.attributes, a.valueCount ≤ r.statistics.tupleCount ∧
          ∃ b, (history calls).catalogue.attribute? a.name = .ok b) ∧
    (∀ name a, (history calls).catalogue.attribute? name = .ok a ↔
      (history calls).registered.find? (·.name = name) = some a) ∧
    ∀ call : Call,
      (history calls).catalogue.Extends (call.perform (history calls).catalogue).2 ∧
      (call.isCreation → ∀ e, (call.procedure.perform (history calls)).1 = .error e →
        (call.procedure.perform (history calls)).2 = history calls) := by
  have hs := sound_history calls
  refine ⟨catalogue_history calls, fun name r hr => ?_, fun name a => ?_, fun call => ⟨?_, ?_⟩⟩
  · obtain ⟨hn, hr⟩ := relation_eq_ok.mp hr
    refine ⟨hn, Int.natCast_nonneg _, fun a ha => ⟨r.statistics.capped a ha, ?_⟩⟩
    have hl := hs.listed _ (Registry.mem_entries_of_get? hr) a ha
    obtain ⟨v, hv⟩ := Option.isSome_iff_exists.mp hl
    exact ⟨⟨a.name, v⟩, attribute?_eq_ok.mpr ⟨rfl, hv⟩⟩
  · -- The entry that is found is the whole attribute, as its name is the one that was looked up.
    rw [attribute?_eq_ok, hs.lookup]
    constructor
    case mp =>
      rintro ⟨rfl, h⟩
      obtain ⟨b, hb, hv⟩ := Option.map_eq_some_iff.mp h
      have hn : b.name = a.name := by simpa using List.find?_some hb
      have hab : b = a := by cases a; cases b; simp_all
      rw [hb, hab]
    case mpr =>
      intro h
      exact ⟨by simpa using List.find?_some h, by rw [h]; rfl⟩
  · rw [← call.perform_procedure, Prod.map_snd]
    exact Ledger.kept_extends.call call _
  · exact fun hc e he => Call.creation_atomic hc he

-- A line that fails halfway, a relation that replaces another one, and calls that fail.
def strayCalls : List Call :=
  [.read "A:10:x,50:y,3\nB:5:x,7:z", .createRelation "C" (-1), .createRelation "A" 4,
    .createAttribute "D" ⟨"w", 1⟩, .createAttribute "A" ⟨"z", 9⟩]

theorem calls_sound_strayCalls :
    (history strayCalls).catalogue.render = "A:4:z,4\nB:5:x,5" ∧
    (history strayCalls).catalogue.attribute? "x" = .ok ⟨"x", 7⟩ ∧
    (history strayCalls).catalogue.attribute? "z" = .ok ⟨"z", 9⟩ ∧
    ((Call.createRelation "A" (-1)).procedure.perform (history strayCalls)).2 =
      history strayCalls := by
  obtain ⟨-, -, ha, hc⟩ := calls_sound strayCalls
  refine ⟨by decide +kernel, (ha _ _).mpr (by decide +kernel), (ha _ _).mpr (by decide +kernel), ?_⟩
  exact (hc (.createRelation "A" (-1))).2 rfl (.negativeCount ⟨-1⟩) rfl

end Catalogue
end QueryPlanner
