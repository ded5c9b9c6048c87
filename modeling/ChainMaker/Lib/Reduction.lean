import Mathlib.Order.WellFounded

/-! Transitive reductions. `E` keeps of a well-founded relation `R` the pairs that no other
pair of `E` accounts for. -/

namespace Reduction
open Relation
variable {α : Type*} {R E : α → α → Prop} {a b : α}

def without (E : α → α → Prop) (a b : α) (x y : α) : Prop := E x y ∧ ¬ (x = a ∧ y = b)

structure IsReduction (R E : α → α → Prop) : Prop where
  sub : ∀ a b, E a b → R a b
  cover : ∀ a b, R a b → E a b ∨ ∃ c, E a c ∧ TransGen R c b
  min : ∀ a b c, E a b → E a c → ¬ TransGen R c b

variable (h : IsReduction R E)
include h

lemma IsReduction.transGen_le (hab : TransGen E a b) : TransGen R a b := TransGen.mono h.sub _ _ hab

lemma IsReduction.le_transGen (hwf : WellFounded (Function.swap R))
    (hab : TransGen R a b) : TransGen E a b := by
  induction a using hwf.induction with
  | h a ih =>
    obtain ⟨c, hac, hcb⟩ := TransGen.head'_iff.mp hab
    rcases h.cover a c hac with hE | ⟨d, hE, hdc⟩
    · rcases reflTransGen_iff_eq_or_transGen.mp hcb with rfl | hcb
      · exact .single hE
      · exact .head hE (ih c hac hcb)
    · exact .head hE (ih d (h.sub a d hE) (hdc.trans_left hcb))

lemma IsReduction.transGen_iff (hwf : WellFounded (Function.swap R)) :
    TransGen E a b ↔ TransGen R a b :=
  ⟨h.transGen_le, h.le_transGen hwf⟩

lemma IsReduction.not_transGen_without (hab : E a b) : ¬ TransGen (without E a b) a b := by
  intro hpath
  obtain ⟨c, hac, hcb⟩ := TransGen.head'_iff.mp hpath
  have hcb' : ReflTransGen R c b := ReflTransGen.mono (fun x y hxy => h.sub x y hxy.1) _ _ hcb
  rcases reflTransGen_iff_eq_or_transGen.mp hcb' with rfl | hcb'
  · exact hac.2 ⟨rfl, rfl⟩
  · exact h.min a b c hab hac.1 hcb'

end Reduction
