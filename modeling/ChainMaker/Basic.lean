import Mathlib.Data.List.AList
import Mathlib.Data.UInt

/-! Data shared by the models of the modules. -/

namespace ChainMaker
open List AList

abbrev Bytes := List UInt8

abbrev GoMap (κ ν : Type) := AList (fun _ : κ => ν)

namespace GoMap
variable {κ ν : Type} {v' : ν}

def values (m : GoMap κ ν) : List ν := m.entries.map (·.2)

variable {m : GoMap κ ν} {v : ν}

lemma mem_values [DecidableEq κ] : v ∈ m.values ↔ ∃ k, m.lookup k = some v := by
  simp only [values, mem_map, ← Option.mem_def, mem_lookup_iff]
  constructor
  · rintro ⟨⟨k, v⟩, hmem, rfl⟩
    exact ⟨k, hmem⟩
  · rintro ⟨k, hmem⟩
    exact ⟨⟨k, v⟩, hmem, rfl⟩

def restrict [DecidableEq κ] (m : GoMap κ ν) : List κ → GoMap κ ν
  | [] => ∅
  | k :: ks =>
    match m.lookup k with
    | none => m.restrict ks
    | some v => (m.restrict ks).insert k v

lemma lookup_insert_ite [DecidableEq κ] (m : GoMap κ ν) (k k' : κ) (v : ν) :
    (m.insert k v).lookup k' = if k' = k then some v else m.lookup k' := by
  split_ifs with hk
  · rw [hk, lookup_insert]
  · exact lookup_insert_ne hk

lemma lookup_insert_cases [DecidableEq κ] {k k' : κ}
    (h : (m.insert k v).lookup k' = some v') : k' = k ∧ v' = v ∨ m.lookup k' = some v' := by
  rw [lookup_insert_ite] at h
  split_ifs at h with hk
  · exact .inl ⟨hk, (Option.some.inj h).symm⟩
  · exact .inr h

lemma lookup_restrict [DecidableEq κ] (m : GoMap κ ν) (ks : List κ) (k : κ) :
    (m.restrict ks).lookup k = if k ∈ ks then m.lookup k else none := by
  induction ks with
  | nil => rfl
  | cons k₀ ks ih =>
    unfold restrict
    by_cases hk : k = k₀
    · subst hk
      rw [if_pos mem_cons_self]
      cases hlookup : m.lookup k with
      | none =>
        rw [ih, hlookup, ite_self]
      | some v => exact lookup_insert _
    · have hmem : k ∈ k₀ :: ks ↔ k ∈ ks := by simp [hk]
      simp only [hmem]
      rw [← ih]
      cases m.lookup k₀ with
      | none => rfl
      | some v => exact lookup_insert_ne hk

lemma lookup_foldl_insert [DecidableEq κ] (es : List (Sigma fun _ : κ => ν)) (m : GoMap κ ν)
    (hes : ∀ e ∈ es, m.lookup e.1 = some e.2) (k : κ) :
    (es.foldl (fun m e => m.insert e.1 e.2) m).lookup k = m.lookup k := by
  induction es generalizing m with
  | nil => rfl
  | cons e es ih =>
    have hsame : ∀ k, (m.insert e.1 e.2).lookup k = m.lookup k := by
      intro k
      rw [lookup_insert_ite]
      split_ifs with hk
      · rw [hk, hes e mem_cons_self]
      · rfl
    rw [foldl_cons, ih _ fun e' he' => ?_, hsame]
    rw [hsame, hes e' (mem_cons_of_mem _ he')]

variable {k : κ}

lemma lookup_foldl_insert_iff {α : Type} [DecidableEq κ] (key : α → κ) (value : α → ν) {l : List α}
    (hl : (l.map key).Nodup) :
    (l.foldl (fun m a => m.insert (key a) (value a)) (∅ : GoMap κ ν)).lookup k = some v ↔
      ∃ a ∈ l, key a = k ∧ value a = v := by
  induction l using reverseRecOn with
  | nil => simp
  | append_singleton l a ih =>
    rw [map_append, nodup_append] at hl
    rw [foldl_append, foldl_cons, foldl_nil]
    by_cases hk : k = key a
    · subst hk
      rw [lookup_insert]
      constructor
      · intro hv
        exact ⟨a, by simp, rfl, Option.some.inj hv⟩
      · rintro ⟨b, hb, hkey, rfl⟩
        rcases mem_append.mp hb with hb | hb
        · exact absurd hkey (hl.2.2 _ (mem_map_of_mem hb) _ (by simp))
        · rw [mem_singleton.mp hb]
    · rw [lookup_insert_ne hk, ih hl.1]
      refine exists_congr fun b => and_congr_left fun hb => ?_
      have hne : b ≠ a := fun hba => hk (hba ▸ hb.1.symm)
      simp [hne]

lemma lookup_singleton [DecidableEq κ] {k' : κ}
    (h : (singleton k v : GoMap κ ν).lookup k' = some v') : k' = k ∧ v' = v := by
  have hmem := mem_lookup_iff.mp h
  obtain ⟨rfl, hv⟩ := Sigma.mk.inj (mem_singleton.mp hmem)
  exact ⟨rfl, eq_of_heq hv⟩

lemma lookup_singleton_self [DecidableEq κ] (k : κ) (v : ν) :
    (singleton k v : GoMap κ ν).lookup k = some v :=
  mem_lookup_iff.mpr (mem_singleton_self _)

lemma lookup_foldl_erase [DecidableEq κ] (ks : List κ) (m : GoMap κ ν) :
    (ks.foldl (fun m k => m.erase k) m).lookup k = if k ∈ ks then none else m.lookup k := by
  induction ks generalizing m with
  | nil => rfl
  | cons x ks ih => grind [lookup_erase, lookup_erase_ne]

lemma lookup_foldl_insert_const [DecidableEq κ] (ks : List κ) (v : ν) (m : GoMap κ ν) :
    (ks.foldl (fun m k => m.insert k v) m).lookup k = if k ∈ ks then some v else m.lookup k := by
  induction ks generalizing m with
  | nil => rfl
  | cons x ks ih => grind [lookup_insert_ite]

lemma mem_entries [DecidableEq κ] {e : Sigma fun _ : κ => ν} :
    e ∈ m.entries ↔ m.lookup e.1 = some e.2 := by
  rw [← Option.mem_def, mem_lookup_iff]

lemma length_keys_insert [DecidableEq κ] (hk : m.lookup k = none) : (m.insert k v).keys.length =
    m.keys.length + 1 := by
  have hmem : k ∉ m.keys := fun h => lookup_eq_none.mp hk h
  rw [keys_insert, erase_of_not_mem hmem, length_cons]

end GoMap

variable {ε α β : Type} {batches : List (List α)} {x : Except ε α} {σ : Type} {s s' : σ}
variable {f : α → Except ε β}

lemma bind_ok {b : β} : (x >>= f) = .ok b ↔ ∃ a, x = .ok a ∧ f a = .ok b := by
  cases x with
  | error | ok => simp [bind, Except.bind]

lemma map_ok {g : α → β} {b : β} : x.map g = .ok b ↔ ∃ a, x = .ok a ∧ g a = b := by
  cases x <;> simp [Except.map]

variable {l : List α} {bs : List β}

lemma mapM_ok_mono {g : α → Except ε β} (hfg : ∀ a b, f a = .ok b → g a = .ok b)
    (h : l.mapM f = .ok bs) : l.mapM g = .ok bs := by
  induction l generalizing bs with
  | nil => exact h
  | cons a l ih =>
    rw [mapM_cons] at h ⊢
    obtain ⟨b, hb, h⟩ := bind_ok.mp h
    obtain ⟨bs', hbs, h⟩ := bind_ok.mp h
    exact bind_ok.mpr ⟨b, hfg a b hb, bind_ok.mpr ⟨bs', ih hbs, h⟩⟩

lemma length_of_mapM (h : l.mapM f = .ok bs) : bs.length = l.length := by
  induction l generalizing bs with
  | nil => exact Except.ok.inj h ▸ rfl
  | cons a l ih =>
    rw [mapM_cons] at h
    obtain ⟨b, -, h⟩ := bind_ok.mp h
    obtain ⟨bs', hbs, h⟩ := bind_ok.mp h
    rw [← Except.ok.inj h, length_cons, ih hbs, length_cons]

lemma getElem?_of_mapM (h : l.mapM f = .ok bs) {i : ℕ} {a : α} (ha : l[i]? = some a) :
    ∃ b, bs[i]? = some b ∧ f a = .ok b := by
  induction l generalizing bs i with
  | nil => simp at ha
  | cons a' l ih =>
    rw [mapM_cons] at h
    obtain ⟨b, hb, h⟩ := bind_ok.mp h
    obtain ⟨bs', hbs, h⟩ := bind_ok.mp h
    cases h
    cases i with
    | zero => exact ⟨b, rfl, Option.some.inj ha ▸ hb⟩
    | succ i => exact ih hbs ha

lemma mapM_of_forall (h : ∀ a ∈ l, ∃ b, f a = .ok b) : ∃ bs, l.mapM f = .ok bs := by
  induction l with
  | nil => exact ⟨[], rfl⟩
  | cons a l ih =>
    obtain ⟨b, hb⟩ := h a (mem_cons_self ..)
    obtain ⟨bs, hbs⟩ := ih fun a ha => h a (mem_cons_of_mem _ ha)
    exact ⟨b :: bs, by rw [mapM_cons]; exact bind_ok.mpr ⟨b, hb, bind_ok.mpr ⟨bs, hbs, rfl⟩⟩⟩

lemma mapM_flatten {bss : List (List β)}
    (h : batches.mapM (List.mapM f) = .ok bss) : batches.flatten.mapM f = .ok bss.flatten := by
  induction batches generalizing bss with
  | nil => exact Except.ok.inj h ▸ rfl
  | cons l ls ih =>
    rw [mapM_cons] at h
    obtain ⟨bs, hbs, h⟩ := bind_ok.mp h
    obtain ⟨bss', hbss, h⟩ := bind_ok.mp h
    cases h
    rw [flatten_cons, mapM_append, flatten_cons]
    exact bind_ok.mpr ⟨bs, hbs, bind_ok.mpr ⟨_, ih hbss, rfl⟩⟩

lemma mapM_of_flatten (h : batches.flatten.mapM f = .ok bs) :
    ∃ bss, batches.mapM (List.mapM f) = .ok bss := by
  refine mapM_of_forall fun l hl => mapM_of_forall fun a ha => ?_
  obtain ⟨i, hi⟩ := mem_iff_getElem?.mp (mem_flatten.mpr ⟨l, hl, ha⟩)
  obtain ⟨b, -, hb⟩ := getElem?_of_mapM h hi
  exact ⟨b, hb⟩

lemma mapM_eq_none_iff {f : α → Option β} : l.mapM f = none ↔ ∃ a ∈ l, f a = none := by
  induction l with
  | nil => simp
  | cons a l ih =>
    simp only [mapM_cons, mem_cons, exists_eq_or_imp]
    cases hfa : f a with
    | none => simp
    | some b =>
      rw [← ih]
      cases l.mapM f with
      | none | some => simp

lemma mapM_eq_some_iff {f : α → Option β} : l.mapM f = some bs ↔ l.map f = bs.map some := by
  induction l generalizing bs with
  | nil => cases bs <;> simp
  | cons a l ih =>
    simp only [mapM_cons, Option.bind_eq_bind, Option.bind_eq_some_iff, ih, Option.pure_def,
      Option.some.injEq, map_cons]
    constructor
    · rintro ⟨b, hb, bs, hbs, rfl⟩
      rw [hb, hbs, map_cons]
    · intro h
      obtain ⟨b, bs, rfl, hb, hbs⟩ := map_eq_cons_iff.mp h.symm
      exact ⟨b, hb.symm, bs, hbs.symm, rfl⟩

lemma flatMap_filterMap_elim {γ : Type} (f : α → Option β) (g : β → List γ) (l : List α) :
    (l.filterMap f).flatMap g = l.flatMap fun a => (f a).elim [] g := by
  induction l with
  | nil => rfl
  | cons a l ih =>
    rw [flatMap_cons, ← ih, filterMap_cons]
    cases f a with
    | none | some => rfl

section
variable {P : α → Prop} {a : α} {n : ℕ}

lemma forall_mem_concat (h : ∀ x ∈ l, P x) (ha : P a) : ∀ x ∈ l ++ [a], P x :=
  forall_mem_append.mpr ⟨h, forall_mem_singleton.mpr ha⟩

lemma forall_mem_set (h : ∀ x ∈ l, P x) (ha : P a) : ∀ x ∈ l.set n a, P x :=
  fun x hx => (mem_or_eq_of_mem_set hx).elim (h x) fun hx => hx ▸ ha

lemma cons_eraseIdx_perm (h : l[n]? = some a) : (a :: l.eraseIdx n).Perm l := by
  obtain ⟨hn, rfl⟩ := List.getElem?_eq_some_iff.mp h
  exact getElem_cons_eraseIdx_perm hn

end

lemma isOk_iff : x.isOk = true ↔ ∃ a, x = .ok a := by
  cases x <;> simp [Except.isOk, Except.toBool]

lemma isOk_unit_iff {x : Except ε Unit} : x.isOk = true ↔ x = .ok () := by
  rw [isOk_iff]
  exact ⟨fun ⟨_, h⟩ => h, fun h => ⟨(), h⟩⟩

lemma foldlM_ok_read {f : σ → α → Except ε σ} {P : List α → σ → Prop}
    (hstep : ∀ read s a s', P read s → f s a = .ok s' → P (read ++ [a]) s')
    (hs : P [] s) (h : l.foldlM f s = .ok s') : P l s' := by
  have hloop : ∀ (rest read : List α) (s : σ), P read s → rest.foldlM f s = .ok s' →
      P (read ++ rest) s' := by
    intro rest
    induction rest with
    | nil =>
      intro read s hs h
      cases h
      rwa [append_nil]
    | cons a rest ih =>
      intro read s hs h
      obtain ⟨t, ht, hrest⟩ := bind_ok.mp h
      have hnext := ih (read ++ [a]) t (hstep read s a t hs ht) hrest
      rwa [append_assoc] at hnext
  exact hloop l [] s hs h

lemma foldlM_ok {f : σ → α → Except ε σ} {P : σ → Prop}
    (hstep : ∀ s a s', P s → f s a = .ok s' → P s') (hs : P s) (h : l.foldlM f s = .ok s') : P s' :=
  foldlM_ok_read (P := fun _ => P) (fun _ => hstep) hs h

end ChainMaker
