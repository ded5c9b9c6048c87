import Mathlib.Data.List.AList

/-! A cache of bounded size with an open replacement policy: which entries an insertion drops
is read from a list that stands for the policy and for the accesses it has seen. -/

structure BoundedCache (κ ν : Type*) where
  entries : AList fun _ : κ => ν
  /-- The keys that each of the coming insertions drops before it stores its own. -/
  evictions : List (List κ)

namespace BoundedCache
variable {κ ν : Type*} [DecidableEq κ] {c : BoundedCache κ ν} {k k' : κ} {v v' : ν}

def empty (evictions : List (List κ)) : BoundedCache κ ν := ⟨∅, evictions⟩

def get (c : BoundedCache κ ν) (k : κ) : Option ν := c.entries.lookup k

def dropAll (ks : List κ) (m : AList fun _ : κ => ν) : AList fun _ : κ => ν :=
  ks.foldl (fun m k => m.erase k) m

def add (c : BoundedCache κ ν) (k : κ) (v : ν) : BoundedCache κ ν where
  entries := (dropAll (c.evictions.headD []) c.entries).insert k v
  evictions := c.evictions.tail

def remove (c : BoundedCache κ ν) (k : κ) : BoundedCache κ ν :=
  { c with entries := c.entries.erase k }

def clear (c : BoundedCache κ ν) : BoundedCache κ ν := { c with entries := ∅ }

lemma lookup_of_lookup_dropAll {ks : List κ} {m : AList fun _ : κ => ν}
    (h : (dropAll ks m).lookup k = some v) : m.lookup k = some v := by
  induction ks generalizing m with
  | nil => exact h
  | cons x ks ih =>
    have herase : (m.erase x).lookup k = some v := ih h
    by_cases hx : k = x
    · rw [hx, AList.lookup_erase] at herase
      cases herase
    · rwa [AList.lookup_erase_ne hx] at herase

@[simp] lemma get_empty (evictions : List (List κ)) (k : κ) :
    (empty evictions : BoundedCache κ ν).get k = none :=
  AList.lookup_empty k

section
variable (c : BoundedCache κ ν)

@[simp] lemma get_clear (k : κ) : c.clear.get k = none :=
  AList.lookup_empty k

@[simp] lemma get_add_self (k : κ) (v : ν) : (c.add k v).get k = some v :=
  AList.lookup_insert _

@[simp] lemma get_remove_self (k : κ) : (c.remove k).get k = none :=
  AList.lookup_erase _ _

end

lemma get_remove_of_ne (hk : k' ≠ k) : (c.remove k).get k' = c.get k' :=
  AList.lookup_erase_ne hk

lemma get_of_get_remove (h : (c.remove k).get k' = some v) : c.get k' = some v := by
  by_cases hk : k' = k
  · rw [hk, get_remove_self] at h
    cases h
  · rwa [get_remove_of_ne hk] at h

lemma get_of_get_add (hk : k' ≠ k) (h : (c.add k v).get k' = some v') : c.get k' = some v' := by
  have hlookup := h
  rw [get, add, AList.lookup_insert_ne hk] at hlookup
  exact lookup_of_lookup_dropAll hlookup

/-- Without evictions an insertion touches no other key. -/
lemma get_add_of_ne (hc : c.evictions = []) (hk : k' ≠ k) : (c.add k v).get k' = c.get k' := by
  rw [get, add, hc, AList.lookup_insert_ne hk]
  rfl

def ofKeys (f : κ → ν) (ks : List κ) : BoundedCache κ ν :=
  ks.foldr (fun k c => c.add k (f k)) (empty [])

lemma evictions_ofKeys (f : κ → ν) (ks : List κ) : (ofKeys f ks).evictions = [] := by
  induction ks with
  | nil => rfl
  | cons k ks ih =>
    change (ofKeys f ks).evictions.tail = []
    rw [ih]
    rfl

lemma get_ofKeys (f : κ → ν) (ks : List κ) (k : κ) :
    (ofKeys f ks).get k = if k ∈ ks then some (f k) else none := by
  induction ks with
  | nil => exact get_empty _ _
  | cons k₀ ks ih =>
    change ((ofKeys f ks).add k₀ (f k₀)).get k = _
    by_cases hk : k = k₀
    · rw [hk, get_add_self, if_pos List.mem_cons_self]
    rw [get_add_of_ne (evictions_ofKeys f ks) hk, ih]
    simp [hk]

def All (P : κ → ν → Prop) (c : BoundedCache κ ν) : Prop := ∀ k v, c.get k = some v → P k v

section All
variable {P : κ → ν → Prop}

lemma All.empty (evictions : List (List κ)) : All P (empty evictions) := by
  intro k v h
  cases h

lemma All.clear (c : BoundedCache κ ν) : All P c.clear := by
  intro k v h
  cases h

lemma All.add (h : All P c) (hv : P k v) : All P (c.add k v) := by
  intro k' v' hget
  by_cases hk : k' = k
  · subst hk
    rw [get_add_self] at hget
    exact Option.some.inj hget ▸ hv
  · exact h k' v' (get_of_get_add hk hget)

end All

end BoundedCache
