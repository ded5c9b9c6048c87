import Mathlib.Data.Option.Basic

/-! Runs of a machine whose step function refuses the events that cannot happen, and the
induction that carries an invariant along them. -/

namespace Runs
variable {σ ε : Type*} {step : σ → ε → Option σ} {P : σ → ε → Prop} {s' : σ} {Q : ε → Prop}

/-- The state after the events, if each of them can happen in its turn. -/
def run (step : σ → ε → Option σ) : σ → List ε → Option σ
  | s, [] => some s
  | s, e :: es => (step s e).bind fun s' => run step s' es

/-- Every event meets `P` in the state in which it happens. -/
def Meets (step : σ → ε → Option σ) (P : σ → ε → Prop) : σ → List ε → Prop
  | _, [] => True
  | s, e :: es => P s e ∧ ((step s e).elim True fun s' => Meets step P s' es)

instance Meets.decidable [∀ s e, Decidable (P s e)] :
    ∀ s es, Decidable (Meets step P s es)
  | _, [] => .isTrue trivial
  | s, e :: es =>
    have : Decidable ((step s e).elim True fun s' => Meets step P s' es) :=
      match step s e with
      | none => .isTrue trivial
      | some s' => Meets.decidable s' es
    inferInstanceAs (Decidable (P s e ∧ _))

variable {s : σ} {es : List ε}

lemma run_cons {e : ε} :
    run step s (e :: es) = some s' ↔ ∃ t, step s e = some t ∧ run step t es = some s' :=
  Option.bind_eq_some_iff

lemma Meets.mono {Q : σ → ε → Prop} (hPQ : ∀ s e, P s e → Q s e) (h : Meets step P s es) :
    Meets step Q s es := by
  induction es generalizing s with
  | nil => trivial
  | cons e es ih =>
    obtain ⟨hP, h⟩ := h
    refine ⟨hPQ s e hP, ?_⟩
    cases hs : step s e with
    | none => trivial
    | some t =>
      rw [hs] at h
      exact ih h

lemma Meets.and_mem (h : Meets step P s es) (hQ : ∀ e ∈ es, Q e) :
    Meets step (fun s e => P s e ∧ Q e) s es := by
  induction es generalizing s with
  | nil => trivial
  | cons e es ih =>
    obtain ⟨hP, h⟩ := h
    obtain ⟨hQe, hQ⟩ := List.forall_mem_cons.mp hQ
    refine ⟨⟨hP, hQe⟩, ?_⟩
    cases hs : step s e with
    | none => trivial
    | some t =>
      rw [hs] at h
      exact ih h hQ

lemma Meets.append {t : σ} {fs : List ε} (h : Meets step P s (es ++ fs))
    (ht : run step s es = some t) : Meets step P s es ∧ Meets step P t fs := by
  induction es generalizing s with
  | nil => exact ⟨trivial, Option.some.inj ht ▸ h⟩
  | cons e es ih =>
    obtain ⟨u, hu, ht⟩ := run_cons.mp ht
    obtain ⟨hP, h⟩ := h
    rw [hu] at h
    obtain ⟨h1, h2⟩ := ih h ht
    refine ⟨⟨hP, ?_⟩, h2⟩
    rw [hu]
    exact h1

lemma Meets.of_forall (h : ∀ s e, P s e) (s : σ) (es : List ε) : Meets step P s es := by
  induction es generalizing s with
  | nil => trivial
  | cons e es ih =>
    refine ⟨h s e, ?_⟩
    cases step s e with
    | none => trivial
    | some s' => exact ih s'

variable {I : σ → Prop}

lemma Meets.of_invariant (hstep : ∀ s e s', I s → step s e = some s' → I s')
    (h : ∀ s e, I s → P s e) (hs : I s) (es : List ε) : Meets step P s es := by
  induction es generalizing s with
  | nil => trivial
  | cons e es ih =>
    refine ⟨h s e hs, ?_⟩
    cases ht : step s e with
    | none => trivial
    | some t => exact ih (hstep s e t hs ht)

/-- What holds at the start, and is kept by every step that meets `P`, holds after every run
whose events meet `P`. -/
lemma run_induction (hstep : ∀ s e s', I s → P s e → step s e = some s' → I s')
    (hs : I s) (hP : Meets step P s es) (hrun : run step s es = some s') : I s' := by
  induction es generalizing s with
  | nil => exact Option.some.inj hrun ▸ hs
  | cons e es ih =>
    obtain ⟨t, ht, hrun⟩ := run_cons.mp hrun
    obtain ⟨hPe, hP⟩ := hP
    rw [ht] at hP
    exact ih (hstep s e t hs hPe ht) hP hrun

lemma run_induction_all (hstep : ∀ s e s', I s → step s e = some s' → I s') (hs : I s)
    (hrun : run step s es = some s') : I s' :=
  run_induction (P := fun _ _ => True) (fun s e s' h _ => hstep s e s' h) hs
    (Meets.of_forall (fun _ _ => trivial) s es) hrun

lemma run_induction_mem (hstep : ∀ s e s', I s → Q e → step s e = some s' → I s')
    (hs : I s) (hQ : ∀ e ∈ es, Q e) (hrun : run step s es = some s') : I s' :=
  run_induction (P := fun _ e => True ∧ Q e) (fun s e s' h hP => hstep s e s' h hP.2) hs
    ((Meets.of_forall (fun _ _ => trivial) s es).and_mem hQ) hrun

end Runs
