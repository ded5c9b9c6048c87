import Mathlib.Data.List.Nodup
import Mathlib.Data.List.Perm.Subperm

/-! The first entry of each key in a list, and which entries these are when the list may be
put into any order. -/

namespace FirstBy
open List
variable {α β : Type*} [DecidableEq β] (key : α → β)

def firsts : List α → List α
  | [] => []
  | a :: l => a :: (firsts l).filter fun b => key b ≠ key a

variable {key} {l C : List α}

lemma firsts_sublist (l : List α) : (firsts key l).Sublist l := by
  induction l with
  | nil => exact .slnil
  | cons a l ih => exact (filter_sublist.trans ih).cons_cons a

lemma nodup_map_firsts (l : List α) : ((firsts key l).map key).Nodup := by
  induction l with
  | nil => exact nodup_nil
  | cons a l ih =>
    refine nodup_cons.mpr ⟨fun ha => ?_, ih.sublist (filter_sublist.map key)⟩
    obtain ⟨b, hb, heq⟩ := mem_map.mp ha
    simp [heq] at hb

lemma mem_map_firsts {k : β} : k ∈ (firsts key l).map key ↔ k ∈ l.map key := by
  refine ⟨fun hk => ((firsts_sublist l).map key).subset hk, fun hk => ?_⟩
  induction l with
  | nil => exact hk
  | cons a l ih =>
    by_cases ha : k = key a
    · exact ha ▸ mem_cons_self
    obtain ⟨b, hb, rfl⟩ := mem_map.mp (ih ((mem_cons.mp hk).resolve_left ha))
    have hkept : b ∈ (firsts key l).filter fun b => key b ≠ key a :=
      mem_filter.mpr ⟨hb, decide_eq_true ha⟩
    exact mem_cons_of_mem _ (mem_map_of_mem hkept)

lemma firsts_append (hC : (C.map key).Nodup) (l : List α) :
    firsts key (C ++ l) = C ++ (firsts key l).filter fun b => key b ∉ C.map key := by
  induction C with
  | nil => simp
  | cons a C ih =>
    obtain ⟨ha, hC⟩ := nodup_cons.mp hC
    have hkept : C.filter (fun b => key b ≠ key a) = C := by
      refine filter_eq_self.mpr fun b hb => decide_eq_true fun heq => ha ?_
      exact heq ▸ mem_map_of_mem hb
    rw [cons_append, firsts, ih hC, filter_append, hkept, filter_filter]
    simp

lemma firsts_concat (l : List α) (a : α) : firsts key (l ++ [a]) =
      if key a ∈ l.map key then firsts key l else firsts key l ++ [a] := by
  induction l with
  | nil => rfl
  | cons b l ih =>
    rw [cons_append, firsts, ih, firsts]
    by_cases hb : key a = key b
    · have hhead : key a ∈ (b :: l).map key := hb ▸ mem_cons_self
      split
      · rfl
      · simp [filter_append, hb]
    · have hmem : key a ∈ (b :: l).map key ↔ key a ∈ l.map key := by simp [hb]
      simp only [hmem]
      split
      · rfl
      · simp [filter_append, hb]

omit [DecidableEq β] in
lemma exists_perm_append (hC : (C.map key).Nodup) (hsub : C ⊆ l) : ∃ rest, (C ++ rest).Perm l := by
  obtain ⟨l', hl', hsublist⟩ := subperm_iff.mp (hC.of_map.subperm hsub)
  obtain ⟨rest, hrest⟩ := hsublist.exists_perm_append
  exact ⟨rest, hrest.symm.trans hl'⟩

omit [DecidableEq β] in
lemma exists_perm_map {f : α → β} {m m' : List β} (h : m.Perm m') (l : List α)
    (hl : l.map f = m) : ∃ l' : List α, l'.Perm l ∧ l'.map f = m' := by
  induction h generalizing l with
  | nil => exact ⟨l, .refl l, hl⟩
  | cons b _ ih =>
    obtain ⟨a, l, rfl, rfl, htail⟩ := map_eq_cons_iff.mp hl
    obtain ⟨l', hl', rfl⟩ := ih l htail
    exact ⟨a :: l', hl'.cons a, rfl⟩
  | swap b c _ =>
    obtain ⟨a, l, rfl, rfl, htail⟩ := map_eq_cons_iff.mp hl
    obtain ⟨a', l, rfl, rfl, rfl⟩ := map_eq_cons_iff.mp htail
    exact ⟨a' :: a :: l, .swap a a' l, rfl⟩
  | trans _ _ ih₁ ih₂ =>
    obtain ⟨l₁, hl₁, heq⟩ := ih₁ l hl
    obtain ⟨l₂, hl₂, rfl⟩ := ih₂ l₁ heq
    exact ⟨l₂, hl₂.trans hl₁, rfl⟩

end FirstBy
