import Mathlib.Data.Finset.Card
import Mathlib.Tactic.Linarith

/-! Intersections of quorums inside one finite set of parties `V`, of which the
parties in `F` may be faulty. -/

namespace Quorum
open Finset
variable {α : Type*} [DecidableEq α] {V A B F : Finset α}

lemma card_add_card_le (hA : A ⊆ V) (hB : B ⊆ V) : #A + #B ≤ #V + #(A ∩ B) := by
  rw [← card_union_add_card_inter]
  exact Nat.add_le_add_right (card_le_card (union_subset hA hB)) _

/-- Two quorums that overlap in more parties than can be faulty share an honest one. -/
lemma exists_honest_mem_inter (hA : A ⊆ V) (hB : B ⊆ V)
    (h : #V + #(F ∩ V) < #A + #B) : ∃ x ∈ A, x ∈ B ∧ x ∉ F := by
  by_contra! hall
  have hsub : A ∩ B ⊆ F ∩ V := by
    intro x hx
    obtain ⟨hxA, hxB⟩ := mem_inter.mp hx
    exact mem_inter.mpr ⟨hall x hxA hxB, hA hxA⟩
  have hcard := card_le_card hsub
  have hle := card_add_card_le hA hB
  omega

/-- The overlap of two quorums of `q` parties can be as small as `2 * q - #V`. -/
lemma exists_card_inter_eq {q : ℕ} (hq : q ≤ #V) (hV : #V ≤ 2 * q) :
    ∃ A B, A ⊆ V ∧ B ⊆ V ∧ #A = q ∧ #B = q ∧ #(A ∩ B) = 2 * q - #V := by
  obtain ⟨A, hA, hAq⟩ := exists_subset_card_eq hq
  have hcompl : #(V \ A) = #V - q := by rw [card_sdiff_of_subset hA, hAq]
  obtain ⟨B, hAB, hB, hBq⟩ :=
    exists_subsuperset_card_eq (sdiff_subset : V \ A ⊆ V) (by omega) hq
  have hunion : A ∪ B = V := by
    refine (union_subset hA hB).antisymm fun x hx => ?_
    by_cases hxA : x ∈ A
    · exact mem_union_left _ hxA
    · exact mem_union_right _ (hAB (mem_sdiff.mpr ⟨hx, hxA⟩))
  refine ⟨A, B, hA, hB, hAq, hBq, ?_⟩
  have hsum := card_union_add_card_inter A B
  rw [hunion] at hsum
  omega

/-- A quorum of `q` parties of which every honest one, that is every one in `H`, did `P`. -/
def Certified (V H : Finset α) (q : ℕ) (P : α → Prop) : Prop :=
  ∃ A ⊆ V, q ≤ #A ∧ ∀ i ∈ A, i ∈ H → P i

namespace Certified
variable {H : Finset α} {q : ℕ} {P Q : α → Prop}

omit [DecidableEq α] in
lemma mono (hPQ : ∀ i ∈ H, P i → Q i) (h : Certified V H q P) : Certified V H q Q := by
  obtain ⟨A, hA, hq, hP⟩ := h
  exact ⟨A, hA, hq, fun i hi hH => hPQ i hH (hP i hi hH)⟩

lemma exists_common (hq : #V + #(V \ H) < 2 * q) (hP : Certified V H q P)
    (hQ : Certified V H q Q) : ∃ i ∈ H, P i ∧ Q i := by
  obtain ⟨A, hA, hAq, hP⟩ := hP
  obtain ⟨B, hB, hBq, hQ⟩ := hQ
  have hoverlap : #V + #((V \ H) ∩ V) < #A + #B := by
    rw [inter_eq_left.mpr sdiff_subset]
    omega
  obtain ⟨i, hiA, hiB, hiF⟩ := exists_honest_mem_inter hA hB hoverlap
  have hiH : i ∈ H := by
    by_contra hne
    exact hiF (mem_sdiff.mpr ⟨hA hiA, hne⟩)
  exact ⟨i, hiH, hP i hiA hiH, hQ i hiB hiH⟩

lemma exists_honest (hq : #V + #(V \ H) < 2 * q) (hP : Certified V H q P) : ∃ i ∈ H, P i := by
  obtain ⟨i, hi, h, -⟩ := hP.exists_common hq hP
  exact ⟨i, hi, h⟩

end Certified

/-! ### Counting with outsiders

Names are counted against a number `n`, although some of them, those in `O`, are not of the
group `C` that the number stands for. -/

section Outsiders
variable {C O W : Finset α} {n : ℕ}

lemma card_sdiff_le (hW : W ⊆ C ∪ O) : #(W \ C) ≤ #O := by
  refine card_le_card fun y hy => ?_
  obtain ⟨hyW, hyC⟩ := mem_sdiff.mp hy
  exact (mem_union.mp (hW hyW)).resolve_left hyC

/-- A count of `n` names means the whole group exactly when the outsiders fit into the
surplus. -/
lemma forall_subset_of_card_iff (hdis : Disjoint C O) (hn : #C ≤ n) :
    (∀ W ⊆ C ∪ O, #W = n → C ⊆ W) ↔ C = ∅ ∨ #C + #O ≤ n := by
  constructor
  · intro hall
    by_contra! hcon
    obtain ⟨⟨x, hx⟩, hlt⟩ := hcon
    -- Leave one member of the group out and fill up with outsiders.
    have hsize : n - (#C - 1) ≤ #O := by omega
    obtain ⟨O', hO', hcard⟩ := exists_subset_card_eq hsize
    have hdis' : Disjoint (C.erase x) O' := hdis.mono (erase_subset x C) hO'
    have hW : #(C.erase x ∪ O') = n := by
      rw [card_union_of_disjoint hdis', card_erase_of_mem hx, hcard]
      omega
    have hx' := hall _ (union_subset_union (erase_subset x C) hO') hW hx
    rcases mem_union.mp hx' with hmem | hmem
    · exact (mem_erase.mp hmem).1 rfl
    · exact disjoint_left.mp hdis hx (hO' hmem)
  · rintro (rfl | hle) W hW hcard
    · exact empty_subset W
    have hout : #(W \ C) ≤ #O := card_sdiff_le hW
    have hsplit : #(W ∩ C) + #(W \ C) = #W := card_inter_add_card_sdiff W C
    have hinter : W ∩ C = C := eq_of_subset_of_card_le inter_subset_right (by omega)
    exact inter_eq_right.mp hinter

/-- More than half of `n` names means more than half of the group exactly when the outsiders,
added to half of the group, stay within half of `n`. -/
lemma forall_majority_iff (hdis : Disjoint C O) :
    (∀ W ⊆ C ∪ O, n < 2 * #W → #C < 2 * #(W ∩ C)) ↔ #C / 2 + #O ≤ n / 2 := by
  constructor
  · intro hall
    by_contra! hlt
    obtain ⟨I, hI, hcard⟩ := exists_subset_card_eq (Nat.div_le_self #C 2)
    have hdis' : Disjoint I O := hdis.mono_left hI
    have hW : n < 2 * #(I ∪ O) := by
      rw [card_union_of_disjoint hdis', hcard]
      omega
    have hmaj := hall _ (union_subset_union_left hI) hW
    have hinter : (I ∪ O) ∩ C ⊆ I := by
      intro y hy
      obtain ⟨hyUnion, hyC⟩ := mem_inter.mp hy
      exact (mem_union.mp hyUnion).resolve_right (disjoint_left.mp hdis hyC)
    have hle := card_le_card hinter
    omega
  · intro hle W hW hn
    have hout : #(W \ C) ≤ #O := card_sdiff_le hW
    have hsplit : #(W ∩ C) + #(W \ C) = #W := card_inter_add_card_sdiff W C
    omega

end Outsiders

end Quorum
