import ChainMaker.Lib.Quorum

/-! Agreement of chained voting. Parties vote for the blocks of a tree, each at its level; a
certified block is one that a quorum voted for. A party votes at growing levels, only for children
of certified blocks, and after it has voted for a block it is locked: it votes for a block that
does not extend its lock only if the parent of that block is certified at a higher level. A block
that is certified three levels in a row is on the branch of every later certified block. -/

namespace ChainedVotes
open List Finset Quorum
variable {ι β : Type*} {a b c : β}

structure Tree (β : Type*) where
  genesis : β
  parent : β → β
  level : β → ℕ
  level_genesis : level genesis = 0

/-- `T.Anc a b`: going from `b` to its parent, and not below the genesis block, one meets `a`. -/
inductive Tree.Anc (T : Tree β) (a : β) : β → Prop
  | refl : T.Anc a a
  | child {b : β} (hb : b ≠ T.genesis) (h : T.Anc a (T.parent b)) : T.Anc a b

variable {T : Tree β}

lemma Tree.ne_genesis {b : β} (hpos : 0 < T.level b) : b ≠ T.genesis := by
  rintro rfl
  exact absurd T.level_genesis hpos.ne'

lemma Tree.Anc.trans (hab : T.Anc a b) (hbc : T.Anc b c) : T.Anc a c := by
  induction hbc with
  | refl => exact hab
  | child hne _ ih => exact .child hne ih

/-- The ancestors of one block are on one branch. -/
lemma Tree.Anc.comparable (ha : T.Anc a c) (hb : T.Anc b c) : T.Anc a b ∨ T.Anc b a := by
  induction ha with
  | refl => exact .inr hb
  | @child d hne hd ih =>
    cases hb with
    | refl => exact .inl (.child hne hd)
    | child _ hb => exact ih hb

variable (T) (V H : Finset ι) (q : ℕ)

abbrev Log (ι β : Type*) := List (ι × β)

def Cert (log : Log ι β) (b : β) : Prop :=
  b = T.genesis ∨ Certified V H q fun i => (i, b) ∈ log

/-- What a party that votes for `b` has to keep to, with the votes in `log` before it. -/
structure Rule (log : Log ι β) (i : ι) (b : β) : Prop where
  increasing : ∀ b', (i, b') ∈ log → T.level b' < T.level b
  justified : Cert T V H q log (T.parent b)
  level_parent : T.level (T.parent b) < T.level b
  locked : ∃ lock, Cert T V H q log lock ∧
    (∀ b', (i, b') ∈ log → T.parent b' ≠ T.genesis →
      T.level (T.parent (T.parent b')) ≤ T.level lock) ∧
    (T.level lock < T.level (T.parent b) ∨ T.Anc lock b)

def Lawful : Log ι β → Prop
  | [] => True
  | e :: log => Lawful log ∧ Rule T V H q log e.1 e.2

def Final (log : Log ι β) (b : β) : Prop :=
  ∃ b₁ b₂, T.parent b₁ = b ∧ T.parent b₂ = b₁ ∧ T.level b₁ = T.level b + 1 ∧
    T.level b₂ = T.level b + 2 ∧ Cert T V H q log b₂

variable {T V H q} {log log' : Log ι β} {i : ι} {a b b' : β}

lemma Cert.mono (hsub : log ⊆ log') (h : Cert T V H q log b) : Cert T V H q log' b :=
  h.imp_right fun h => h.mono fun _ _ hmem => hsub hmem

lemma Final.mono (hsub : log ⊆ log') (h : Final T V H q log b) : Final T V H q log' b := by
  obtain ⟨b₁, b₂, hp, hp', hl, hl', hcert⟩ := h
  exact ⟨b₁, b₂, hp, hp', hl, hl', hcert.mono hsub⟩

namespace Lawful

lemma of_append {l : Log ι β} (h : Lawful T V H q (l ++ log)) : Lawful T V H q log := by
  induction l with
  | nil => exact h
  | cons e l ih => exact ih h.1

/-- Every vote kept to the rule when it was cast. -/
lemma exists_rule (h : Lawful T V H q log) (hmem : (i, b) ∈ log) :
    ∃ l r, log = l ++ (i, b) :: r ∧ Rule T V H q r i b := by
  obtain ⟨l, r, rfl⟩ := append_of_mem hmem
  exact ⟨l, r, rfl, h.of_append.2⟩

lemma older {l r : Log ι β} (h : Lawful T V H q (l ++ (i, b) :: r))
    (hmem : (i, b') ∈ l ++ (i, b) :: r) (hlt : T.level b' < T.level b) : (i, b') ∈ r := by
  rcases mem_append.mp hmem with hl | hr
  · obtain ⟨x, y, rfl⟩ := append_of_mem hl
    rw [append_assoc] at h
    have hrule := h.of_append.2
    have hinc := hrule.increasing b (mem_append_right _ mem_cons_self)
    exact absurd hinc (Nat.lt_asymm hlt)
  · rcases mem_cons.mp hr with heq | hr
    · rw [(Prod.mk.inj heq).2] at hlt
      exact absurd hlt (lt_irrefl _)
    · exact hr

lemma entry_unique (h : Lawful T V H q log) (hb : (i, b) ∈ log) (hb' : (i, b') ∈ log)
    (hlevel : T.level b = T.level b') : b = b' := by
  induction log with
  | nil => cases hb
  | cons e log ih =>
    rcases mem_cons.mp hb with rfl | hold
    · rcases mem_cons.mp hb' with heq | hold'
      · exact (Prod.mk.inj heq).2.symm
      · exact absurd (h.2.increasing b' hold') (by rw [hlevel]; exact lt_irrefl _)
    · rcases mem_cons.mp hb' with rfl | hold'
      · exact absurd (h.2.increasing b hold) (by rw [hlevel]; exact lt_irrefl _)
      · exact ih h.1 hold hold'

/-- A party that has voted for `b'` is locked on the parent of its parent, so a later block that
it votes for extends that one, if the blocks certified in between do. -/
lemma anc_of_vote {l r : Log ι β} (h : Lawful T V H q (l ++ (i, b) :: r))
    (hmem : (i, b') ∈ l ++ (i, b) :: r) (hlt : T.level b' < T.level b)
    (hne' : T.parent b' ≠ T.genesis) (hne : b ≠ T.genesis)
    (hbefore : ∀ c, Cert T V H q r c → T.level (T.parent (T.parent b')) ≤ T.level c →
      T.Anc (T.parent (T.parent b')) c) : T.Anc (T.parent (T.parent b')) b := by
  have hrule := h.of_append.2
  obtain ⟨lock, hlock, hlevel, hsafe⟩ := hrule.locked
  have hle := hlevel b' (h.older hmem hlt) hne'
  rcases hsafe with hhigher | hanc
  · exact .child hne (hbefore _ hrule.justified (hle.trans hhigher.le))
  · exact (hbefore lock hlock hle).trans hanc

variable [DecidableEq ι] (hq : #V + #(V \ H) < 2 * q)
include hq

section
variable (h : Lawful T V H q log)
include h

lemma cert_parent (hb : Cert T V H q log b) (hne : b ≠ T.genesis) :
    Cert T V H q log (T.parent b) ∧ T.level (T.parent b) < T.level b := by
  obtain ⟨i, -, hmem⟩ := (hb.resolve_left hne).exists_honest hq
  obtain ⟨l, r, rfl, hrule⟩ := h.exists_rule hmem
  have hsub : r ⊆ l ++ (i, b) :: r := fun e he =>
    mem_append_right _ (mem_cons_of_mem _ he)
  exact ⟨hrule.justified.mono hsub, hrule.level_parent⟩

lemma cert_of_anc (hab : T.Anc a b) (hb : Cert T V H q log b) :
    Cert T V H q log a ∧ T.level a ≤ T.level b := by
  induction hab with
  | refl => exact ⟨hb, le_rfl⟩
  | child hne _ ih =>
    obtain ⟨hparent, hlt⟩ := h.cert_parent hq hb hne
    exact ⟨(ih hparent).1, (ih hparent).2.trans hlt.le⟩

lemma cert_unique (hb : Cert T V H q log b) (hb' : Cert T V H q log b')
    (hlevel : T.level b = T.level b') : b = b' := by
  have hpos : ∀ {c}, Cert T V H q log c → T.level c = 0 → c = T.genesis := by
    intro c hc hzero
    by_contra hne
    exact absurd (h.cert_parent hq hc hne).2 (by omega)
  rcases hb with rfl | hcert
  · exact (hpos hb' (hlevel.symm.trans T.level_genesis)).symm
  rcases hb' with rfl | hcert'
  · exact hpos (.inr hcert) (hlevel.trans T.level_genesis)
  obtain ⟨i, -, hmem, hmem'⟩ := hcert.exists_common hq hcert'
  exact h.entry_unique hmem hmem' hlevel

lemma cert_final (hb : Final T V H q log b) : Cert T V H q log b := by
  obtain ⟨b₁, b₂, rfl, rfl, hl, hl', hcert⟩ := hb
  have hcert₁ := (h.cert_parent hq hcert (T.ne_genesis (by omega))).1
  exact (h.cert_parent hq hcert₁ (T.ne_genesis (by omega))).1

end

/-- Every block that is certified at the level of a final block, or above, extends it. The
induction is on the votes: what a vote rests on was certified before it. -/
lemma final_anc (h : Lawful T V H q log) (hb : Final T V H q log b) (hsuf : log' <:+ log)
    (hb' : Cert T V H q log' b') (hle : T.level b ≤ T.level b') : T.Anc b b' := by
  have hcert := h.cert_final hq hb
  obtain ⟨b₁, b₂, rfl, rfl, hl, hl', hcert₂⟩ := hb
  have hne₂ : b₂ ≠ T.genesis := T.ne_genesis (by omega)
  have hne₁ : T.parent b₂ ≠ T.genesis := T.ne_genesis (by omega)
  have hcert₁ := (h.cert_parent hq hcert₂ hne₂).1
  -- Up to the level of the third block, the three are the only certified ones.
  have hlow : ∀ {c}, Cert T V H q log c → T.level (T.parent (T.parent b₂)) ≤ T.level c →
      T.level c ≤ T.level b₂ → T.Anc (T.parent (T.parent b₂)) c := by
    intro c hc hlo hhi
    obtain heq | heq | heq : T.level (T.parent (T.parent b₂)) = T.level c ∨
        T.level (T.parent b₂) = T.level c ∨ T.level b₂ = T.level c := by omega
    · rw [h.cert_unique hq hcert hc heq]
      exact .refl
    · rw [← h.cert_unique hq hcert₁ hc heq]
      exact .child hne₁ .refl
    · rw [← h.cert_unique hq hcert₂ hc heq]
      exact .child hne₂ (.child hne₁ .refl)
  induction log' generalizing b' with
  | nil =>
    have hgen : b' = T.genesis := by
      refine hb'.resolve_right fun hnone => ?_
      obtain ⟨i, -, hmem⟩ := hnone.exists_honest hq
      cases hmem
    refine hlow (.inl hgen) hle ?_
    rw [hgen, T.level_genesis]
    exact Nat.zero_le _
  | cons e rest ih =>
    rcases Nat.lt_or_ge (T.level b₂) (T.level b') with hlt | hge
    · -- A party of both quorums was locked when it voted for the later block.
      have hb'ne : b' ≠ T.genesis := T.ne_genesis (by omega)
      obtain ⟨i, -, hvote, hvote₂⟩ :=
        (hb'.resolve_left hb'ne).exists_common hq (hcert₂.resolve_left hne₂)
      obtain ⟨pre, rfl⟩ := hsuf
      obtain ⟨l, r, hlr⟩ := append_of_mem hvote
      have hrest : r ⊆ rest := by
        cases l with
        | nil => exact (cons.inj hlr).2 ▸ Subset.refl _
        | cons d l =>
          rw [(cons.inj hlr).2]
          exact fun x hx => mem_append_right _ (mem_cons_of_mem _ hx)
      rw [hlr, ← append_assoc] at h hvote₂
      refine h.anc_of_vote hvote₂ hlt hne₁ hb'ne fun c hc hlevel => ?_
      exact ih (suffix_append_of_suffix (suffix_cons e rest)) (hc.mono hrest) hlevel
    · exact hlow (hb'.mono hsuf.subset) hle hge

lemma final_comparable (h : Lawful T V H q log) (hb : Final T V H q log b)
    (hb' : Final T V H q log b') : T.Anc b b' ∨ T.Anc b' b := by
  rcases Nat.le_total (T.level b) (T.level b') with hle | hle
  · exact .inl (h.final_anc hq hb (suffix_refl _) (h.cert_final hq hb') hle)
  · exact .inr (h.final_anc hq hb' (suffix_refl _) (h.cert_final hq hb) hle)

end Lawful
end ChainedVotes
