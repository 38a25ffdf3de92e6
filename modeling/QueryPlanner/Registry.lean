namespace QueryPlanner

-- A finite map that remembers the order in which its keys first came in.
structure Registry (κ ν : Type) where
  entries : List (κ × ν) := []
  nodup   : (entries.map Prod.fst).Nodup := by simp

namespace Registry

variable {κ ν : Type}

@[ext]
theorem ext {r s : Registry κ ν} (h : r.entries = s.entries) : r = s := by
  cases r; cases s; simp_all

def empty : Registry κ ν := {}

instance : EmptyCollection (Registry κ ν) := ⟨empty⟩

instance : Inhabited (Registry κ ν) := ⟨empty⟩

def size (r : Registry κ ν) : Nat := r.entries.length

def keys (r : Registry κ ν) : List κ := r.entries.map Prod.fst

def values (r : Registry κ ν) : List ν := r.entries.map Prod.snd

variable [DecidableEq κ]

def get? (r : Registry κ ν) (k : κ) : Option ν :=
  (r.entries.find? (·.1 = k)).map Prod.snd

def putEntry (k : κ) (v : ν) : List (κ × ν) → List (κ × ν)
  | []      => [(k, v)]
  | e :: es => if e.1 = k then (k, v) :: es else e :: putEntry k v es

theorem keys_putEntry (k : κ) (v : ν) (es : List (κ × ν)) :
    (putEntry k v es).map Prod.fst =
      if k ∈ es.map Prod.fst then es.map Prod.fst else es.map Prod.fst ++ [k] := by
  induction es with
  | nil => rfl
  | cons e es ih =>
    by_cases h : e.1 = k
    · simp [putEntry, h]
    · have h' : ¬ k = e.1 := fun e => h e.symm
      simp only [putEntry, h, if_false, List.map_cons, ih, List.mem_cons, h', false_or]
      split <;> rfl

theorem nodup_putEntry (k : κ) (v : ν) (es : List (κ × ν)) (h : (es.map Prod.fst).Nodup) :
    ((putEntry k v es).map Prod.fst).Nodup := by
  rw [keys_putEntry]
  split
  · exact h
  · next hk =>
    simpa [List.nodup_append, h] using fun a b hab hak => hk (by simpa using ⟨b, hak ▸ hab⟩)

def put (r : Registry κ ν) (k : κ) (v : ν) : Registry κ ν where
  entries := putEntry k v r.entries
  nodup   := nodup_putEntry k v r.entries r.nodup

theorem keys_put (r : Registry κ ν) (k : κ) (v : ν) :
    (r.put k v).keys = if k ∈ r.keys then r.keys else r.keys ++ [k] :=
  keys_putEntry k v r.entries

theorem keys_prefix_put (r : Registry κ ν) (k : κ) (v : ν) : r.keys <+: (r.put k v).keys := by
  rw [keys_put]
  split
  · exact List.prefix_refl r.keys
  · exact List.prefix_append r.keys [k]

theorem mem_entries_of_get? {r : Registry κ ν} {k : κ} {v : ν} (h : r.get? k = some v) :
    (k, v) ∈ r.entries := by
  obtain ⟨e, he, rfl⟩ := Option.map_eq_some_iff.mp h
  have hk : e.1 = k := by simpa using List.find?_some he
  exact hk ▸ List.mem_of_find?_eq_some he

theorem get?_put_self (r : Registry κ ν) (k : κ) (v : ν) : (r.put k v).get? k = some v := by
  obtain ⟨es, h⟩ := r
  simp only [put, get?]
  clear h
  induction es with
  | nil => simp [putEntry]
  | cons e es ih => by_cases h : e.1 = k <;> simp_all [putEntry]

theorem get?_put_of_ne (r : Registry κ ν) {k l : κ} (v : ν) (h : l ≠ k) :
    (r.put k v).get? l = r.get? l := by
  obtain ⟨es, hn⟩ := r
  simp only [put, get?]
  clear hn
  have h' : ¬ k = l := fun e => h e.symm
  induction es with
  | nil => simp [putEntry, h']
  | cons e es ih =>
    by_cases hk : e.1 = k
    · simp [putEntry, hk, h']
    · by_cases hl : e.1 = l <;> simp_all [putEntry]

theorem get?_put (r : Registry κ ν) (k l : κ) (v : ν) :
    (r.put k v).get? l = if l = k then some v else r.get? l := by
  split
  · next h => rw [h, get?_put_self]
  · next h => exact r.get?_put_of_ne v h

theorem put_put (r : Registry κ ν) (k : κ) (v w : ν) : (r.put k v).put k w = r.put k w := by
  obtain ⟨es, h⟩ := r
  ext1
  simp only [put]
  clear h
  induction es with
  | nil => simp [putEntry]
  | cons e es ih => by_cases h : e.1 = k <;> simp_all [putEntry]

theorem mem_entries_put {r : Registry κ ν} {k : κ} {v : ν} {e : κ × ν}
    (h : e ∈ (r.put k v).entries) : e = (k, v) ∨ e ∈ r.entries := by
  obtain ⟨es, hn⟩ := r
  simp only [put] at h ⊢
  clear hn
  induction es with
  | nil => simpa [putEntry] using h
  | cons d es ih => by_cases hk : d.1 = k <;> grind [putEntry]

theorem entries_put_of_not_mem {r : Registry κ ν} {k : κ} (v : ν) (h : k ∉ r.keys) :
    (r.put k v).entries = r.entries ++ [(k, v)] := by
  obtain ⟨es, hn⟩ := r
  simp only [put, keys] at h ⊢
  clear hn
  induction es with
  | nil => rfl
  | cons e es ih => grind [putEntry]

theorem entries_foldl_put (r : Registry κ ν) (es : List (κ × ν))
    (h : (r.keys ++ es.map Prod.fst).Nodup) :
    (es.foldl (fun r e => r.put e.1 e.2) r).entries = r.entries ++ es := by
  induction es generalizing r with
  | nil => simp
  | cons e es ih =>
    have he : e.1 ∉ r.keys := fun m => (List.nodup_append.mp h).2.2 e.1 m e.1 (by simp) rfl
    rw [List.foldl_cons, ih, entries_put_of_not_mem e.2 he, List.append_assoc,
      List.singleton_append]
    rw [keys, entries_put_of_not_mem e.2 he]
    simpa [keys] using h

theorem foldl_put_entries (r : Registry κ ν) :
    r.entries.foldl (fun r e => r.put e.1 e.2) ∅ = r := by
  ext1
  exact entries_foldl_put ∅ r.entries r.nodup

end Registry
end QueryPlanner
