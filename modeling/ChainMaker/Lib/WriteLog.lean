import Mathlib.Data.List.Induction

/-! A state under a log of writes: every key has the value that was written last. -/

namespace WriteLog
open List
variable {κ ν : Type*} [DecidableEq κ] {base : κ → ν} {k : κ}

def overlay (base : κ → ν) (ws : List (κ × ν)) : κ → ν :=
  ws.foldl (fun σ w => Function.update σ w.1 w.2) base

@[simp] lemma overlay_nil (base : κ → ν) : overlay base [] = base := rfl

lemma overlay_append (base : κ → ν) (ws ws' : List (κ × ν)) :
    overlay base (ws ++ ws') = overlay (overlay base ws) ws' := foldl_append

lemma overlay_filter (base : κ → ν) (ws : List (κ × ν)) (k : κ) :
    overlay base ws k = overlay base (ws.filter (·.1 = k)) k := by
  induction ws using reverseRecOn with
  | nil => rfl
  | append_singleton ws w ih =>
    rw [overlay_append, filter_append, overlay_append]
    by_cases hw : w.1 = k
    · simp [overlay, hw]
    simp only [overlay, foldl_cons, foldl_nil, filter_cons, hw, decide_false, filter_nil]
    rw [Function.update_of_ne (Ne.symm hw)]
    exact ih

lemma overlay_congr {ws ws' : List (κ × ν)} (h : ws.filter (·.1 = k) = ws'.filter (·.1 = k)) :
    overlay base ws k = overlay base ws' k := by
  rw [overlay_filter base ws, overlay_filter base ws', h]

lemma overlay_of_forall_ne {ws : List (κ × ν)}
    (h : ∀ w ∈ ws, w.1 ≠ k) : overlay base ws k = base k := by
  have hfilter : ws.filter (·.1 = k) = [] := by simpa using h
  rw [overlay_filter, hfilter, overlay_nil]

lemma overlay_flatMap_congr {ι : Type*} (writes : ι → List (κ × ν)) {is js : List ι}
    (h : is.filter (fun i => ∃ w ∈ writes i, w.1 = k) =
      js.filter (fun i => ∃ w ∈ writes i, w.1 = k)) :
    overlay base (is.flatMap writes) k = overlay base (js.flatMap writes) k := by
  have hfilter : ∀ is : List ι, (is.flatMap writes).filter (·.1 = k) =
      (is.filter (fun i => ∃ w ∈ writes i, w.1 = k)).flatMap
        fun i => (writes i).filter (·.1 = k) := by
    intro is
    induction is with
    | nil => rfl
    | cons i is ih =>
      rw [flatMap_cons, filter_append, ih, filter_cons]
      split
      · rw [flatMap_cons]
      next hi =>
      have hnone : (writes i).filter (·.1 = k) = [] := by
        refine filter_eq_nil_iff.mpr fun w hw hk => hi ?_
        exact decide_eq_true ⟨w, hw, of_decide_eq_true hk⟩
      rw [hnone, nil_append]
  refine overlay_congr ?_
  rw [hfilter, hfilter, h]

end WriteLog
