import ChainMaker.Lib.Quorum
import Mathlib.Order.Interval.Finset.Basic

/-! Agreement of two-phase voting in rounds. A party precommits a value after a quorum has
prevoted it, and once it has precommitted a value it prevotes another one only after a quorum has
prevoted that other value in a round in between. -/

namespace LockedVotes
open Finset Quorum
variable {ι ρ β : Type*} [DecidableEq ι] [LinearOrder ρ] [LocallyFiniteOrder ρ] {r r' : ρ} {x y : β}

/-- The votes of the honest parties `H` among `V`, with quorums of `q` parties. -/
structure Rules (V H : Finset ι) (q : ℕ) (prevoted precommitted : ι → ρ → β → Prop) : Prop where
  overlap : #V + #(V \ H) < 2 * q
  precommit_unique : ∀ i ∈ H, ∀ r x y, precommitted i r x → precommitted i r y → x = y
  justified : ∀ i ∈ H, ∀ r x, precommitted i r x → Certified V H q (prevoted · r x)
  locked : ∀ i ∈ H, ∀ r r' x y, precommitted i r x → prevoted i r' y → r < r' → x ≠ y →
    ∃ r'', r < r'' ∧ r'' < r' ∧ Certified V H q (prevoted · r'' y)

variable {V H : Finset ι} {q : ℕ} {prevoted precommitted : ι → ρ → β → Prop}

namespace Rules

variable (h : Rules V H q prevoted precommitted)
include h

/-- After a quorum has precommitted a value, no other value gets a quorum of prevotes. -/
lemma prevotes_agree (hr : r < r') (hx : Certified V H q (precommitted · r x))
    (hy : Certified V H q (prevoted · r' y)) : x = y := by
  -- On the rounds between the two: a party in both quorums was unlocked in one of them.
  induction hn : #(Ioo r r') using Nat.strong_induction_on generalizing r' with
  | _ n ih =>
    by_contra hne
    obtain ⟨i, hi, hpre, hpro⟩ := hx.exists_common h.overlap hy
    obtain ⟨r'', hlo, hhi, hy''⟩ := h.locked i hi r r' x y hpre hpro hr hne
    have hsub : Ioo r r'' ⊂ Ioo r r' := by
      refine (ssubset_iff_of_subset (Ioo_subset_Ioo_right hhi.le)).mpr ⟨r'', ?_, ?_⟩
      · exact mem_Ioo.mpr ⟨hlo, hhi⟩
      · exact fun hmem => lt_irrefl _ (mem_Ioo.mp hmem).2
    exact hne (ih _ (hn ▸ card_lt_card hsub) hlo hy'' rfl)

lemma agree_of_le (hr : r ≤ r') (hx : Certified V H q (precommitted · r x))
    (hy : Certified V H q (precommitted · r' y)) : x = y := by
  rcases hr.lt_or_eq with hlt | rfl
  · obtain ⟨i, hi, hpre⟩ := hy.exists_honest h.overlap
    exact h.prevotes_agree hlt hx (h.justified i hi r' y hpre)
  · obtain ⟨i, hi, hpx, hpy⟩ := hx.exists_common h.overlap hy
    exact h.precommit_unique i hi r x y hpx hpy

/-- Two values that a quorum has precommitted, in whatever rounds, are one. -/
lemma agree {r r' : ρ} {x y : β} (hx : Certified V H q (precommitted · r x))
    (hy : Certified V H q (precommitted · r' y)) : x = y := by
  rcases le_total r r' with hr | hr
  · exact h.agree_of_le hr hx hy
  · exact (h.agree_of_le hr hy hx).symm

end Rules
end LockedVotes
