import ChainMaker.Snapshot.Impl

/-! How `Schedule` learns that its batch is complete: from the size that a call of
`ApplyTxSimContext` returns, and for the special transactions from those of `simulateSpecialTxs`. -/

namespace ChainMaker.Snapshot
open SnapshotImpl List

inductive SnapshotKind where
  | impl
  | evidence
deriving DecidableEq

/-- `ApplyTxSimContext` of `SnapshotEvidence`, on its delegate. Nothing conflicts, and a sealed
snapshot takes no transaction at all. -/
def SnapshotImpl.applyEvidence (s : SnapshotImpl) (tx : Transaction) (txRWSet : TxRWSet)
    (txResult : Result) (specialTxType : ExecOrderTxType) (withSpecialTx : Bool) :
    Bool × ℕ × SnapshotImpl :=
  if s.isSealed then (false, s.getSnapshotSize, s)
  else if !withSpecialTx && specialTxType = .iterator then
    let s' := { s with specialTxTable := s.specialTxTable ++ [tx] }
    (true, s'.txTable.length + s'.specialTxTable.length, s')
  else (true, s.txTable.length + 1, s.apply tx txRWSet txResult)

/-- What `executeTx` returns for a transaction. -/
structure TxOutcome where
  txRWSet : TxRWSet
  txResult : Result
  specialTxType : ExecOrderTxType

def SnapshotKind.apply (kind : SnapshotKind) (s : SnapshotImpl) (tx : Transaction) (txExecSeq : ℕ)
    (x : TxOutcome) (applySpecialTx : Bool) : Bool × ℕ × SnapshotImpl :=
  match kind with
  | .impl => s.applyTxSimContext tx txExecSeq x.txRWSet x.txResult x.specialTxType applySpecialTx
  | .evidence => s.applyEvidence tx x.txRWSet x.txResult x.specialTxType applySpecialTx

section
variable (kind : SnapshotKind) (execute : SnapshotImpl → Transaction → TxOutcome) (txBatchSize : ℕ)

/-- The loop of `simulateSpecialTxs`; without a transaction to take it waits for its timer. -/
def simulateSpecialTxs : ℕ → List Transaction → SnapshotImpl → Option SnapshotImpl
  | _, [], _ => none
  | 0, _ :: _, _ => none
  | fuel + 1, tx :: runningTxC, s =>
    match kind.apply s tx s.getSnapshotSize (execute s tx) true with
    | (true, applySize, s') =>
      if txBatchSize ≤ applySize then some s' else simulateSpecialTxs fuel runningTxC s'
    | (false, _, s') => simulateSpecialTxs fuel (runningTxC ++ [tx]) s'

/-- A call that returned `applySize` and left `s` sends the signal, and the special transactions are
then all applied. -/
def EndsInTime (applySize : ℕ) (s : SnapshotImpl) : Prop :=
  txBatchSize ≤ applySize ∧ (s.specialTxTable = [] ∨ ∃ fuel s',
    simulateSpecialTxs kind execute txBatchSize fuel s.specialTxTable s.doSeal = some s' ∧
      s'.txTable = s.txTable ++ s.specialTxTable)

end

variable {kind : SnapshotKind} {execute : SnapshotImpl → Transaction → TxOutcome} {txBatchSize : ℕ}
variable {s s' : SnapshotImpl} {tx : Transaction} {txExecSeq : ℕ} {x : TxOutcome} {applySize : ℕ}

lemma simulateSpecialTxs_impl (execute : SnapshotImpl → Transaction → TxOutcome)
    (queue : List Transaction) (hqueue : queue ≠ [])
    (hsize : s.txTable.length + queue.length = txBatchSize) :
    ∃ s', simulateSpecialTxs .impl execute txBatchSize queue.length queue s = some s' ∧
      s'.txTable = s.txTable ++ queue := by
  induction queue generalizing s with
  | nil => exact absurd rfl hqueue
  | cons tx queue ih =>
    have happly : SnapshotKind.apply .impl s tx s.getSnapshotSize (execute s tx) true =
        (true, s.txTable.length + 1,
          s.apply tx (execute s tx).txRWSet (execute s tx).txResult) := by
      unfold SnapshotKind.apply applyTxSimContext
      rw [Bool.not_true, Bool.false_and, if_neg Bool.false_ne_true, if_pos (.inr le_rfl)]
    rw [length_cons] at hsize ⊢
    rw [simulateSpecialTxs, happly]
    dsimp only
    by_cases hnil : queue = []
    · subst hnil
      exact ⟨_, if_pos hsize.ge, rfl⟩
    have hpos := length_pos_of_ne_nil hnil
    rw [if_neg (by omega)]
    obtain ⟨s', hs', htable⟩ := ih (s := s.apply tx (execute s tx).txRWSet (execute s tx).txResult)
      hnil (by rw [apply, length_append, length_singleton]; omega)
    exact ⟨s', hs', htable.trans (append_assoc _ _ _)⟩

lemma simulateSpecialTxs_evidence (hsealed : s.isSealed = true) (fuel : ℕ)
    (queue : List Transaction) :
    simulateSpecialTxs .evidence execute txBatchSize fuel queue s = none := by
  induction fuel generalizing queue with
  | zero => cases queue <;> rfl
  | succ fuel ih =>
    cases queue with
    | nil => rfl
    | cons tx queue =>
      rw [simulateSpecialTxs, SnapshotKind.apply, applyEvidence, if_pos hsealed]
      exact ih _

lemma SnapshotKind.apply_cases (hs : s.isSealed = false)
    (h : kind.apply s tx txExecSeq x false = (true, applySize, s')) :
    x.specialTxType = .iterator ∧ s'.specialTxTable = s.specialTxTable ++ [tx] ∧
        applySize = s'.txTable.length + s'.specialTxTable.length ∨
      x.specialTxType ≠ .iterator ∧ s'.specialTxTable = s.specialTxTable ∧
        applySize = s'.txTable.length := by
  by_cases hit : x.specialTxType = .iterator
  · left
    cases kind <;> simp [apply, applyTxSimContext, applyEvidence, hit, hs] at h <;>
      obtain ⟨rfl, rfl⟩ := h <;> simp [hit]
  right
  refine ⟨hit, ?_⟩
  have happly : applySize = s.txTable.length + 1 ∧ s' = s.apply tx x.txRWSet x.txResult := by
    cases kind with
    | impl =>
      simp only [apply, applyTxSimContext, hit, decide_false, Bool.and_false,
        Bool.false_eq_true, if_false, false_or] at h
      split_ifs at h <;> simp_all
    | evidence =>
      simp only [apply, applyEvidence, hit, hs, decide_false, Bool.and_false,
        Bool.false_eq_true, if_false] at h
      simp_all
  obtain ⟨rfl, rfl⟩ := happly
  simp [SnapshotImpl.apply]

/-- The last call is for a special transaction, or there is none; in an evidence snapshot there is
none. -/
def LastFits : SnapshotKind → SnapshotImpl → TxOutcome → Prop
  | .impl, s, x => x.specialTxType = .iterator ∨ s.specialTxTable = []
  | .evidence, s, x => x.specialTxType ≠ .iterator ∧ s.specialTxTable = []

theorem endsInTime_iff (hs : s.isSealed = false)
    (h : kind.apply s tx txExecSeq x false = (true, applySize, s'))
    (hall : s'.txTable.length + s'.specialTxTable.length = txBatchSize) :
    EndsInTime kind execute txBatchSize applySize s' ↔ LastFits kind s x := by
  rcases SnapshotKind.apply_cases hs h with ⟨hit, hspecial, hsize⟩ | ⟨hit, hspecial, hsize⟩
  · have hne : s'.specialTxTable ≠ [] := by simp [hspecial]
    cases kind with
    | impl =>
      obtain ⟨t, ht, htable⟩ := simulateSpecialTxs_impl (s := s'.doSeal) execute _ hne hall
      exact iff_of_true ⟨(hsize.trans hall).ge, .inr ⟨_, t, ht, htable⟩⟩ (.inl hit)
    | evidence =>
      refine iff_of_false ?_ fun hnot => hnot.1 hit
      rintro ⟨-, hnil | ⟨fuel, t, ht, -⟩⟩
      · exact hne hnil
      · exact nomatch (simulateSpecialTxs_evidence rfl fuel _).symm.trans ht
  · have hnil : EndsInTime kind execute txBatchSize applySize s' ↔ s.specialTxTable = [] := by
      rw [← hspecial]
      refine ⟨fun hends => length_eq_zero_iff.mp ?_, fun hnil => ⟨?_, .inl hnil⟩⟩
      · have hle := hends.1
        omega
      · rw [hnil, length_nil] at hall
        omega
    cases kind with
    | impl => exact hnil.trans (or_iff_right hit).symm
    | evidence => exact hnil.trans (and_iff_right hit).symm

def plainTx (n : UInt8) : Transaction := ⟨[n], []⟩

def outcomeOf (specialTxType : ExecOrderTxType) : TxOutcome :=
  ⟨⟨[], [], []⟩, ⟨0, []⟩, specialTxType⟩

def halfDone (txTable specialTxTable : List Transaction) : SnapshotImpl :=
  { parent := ⟨[], fun _ _ => none⟩, txTable := txTable, specialTxTable := specialTxTable }

theorem endsInTime_special_last :
    SnapshotKind.apply .impl (halfDone [plainTx 1] []) (plainTx 2) 0 (outcomeOf .iterator) false =
      (true, 2, halfDone [plainTx 1] [plainTx 2]) ∧
    EndsInTime .impl (fun _ _ => outcomeOf .iterator) 2 2 (halfDone [plainTx 1] [plainTx 2]) := by
  have happly : SnapshotKind.apply .impl (halfDone [plainTx 1] []) (plainTx 2) 0
    (outcomeOf .iterator) false =
      (true, 2, halfDone [plainTx 1] [plainTx 2]) := rfl
  exact ⟨happly, (endsInTime_iff rfl happly rfl).mpr (Or.inl rfl)⟩

/-- An ordinary transaction that comes after a special one is answered with the size 1 of 2; and a
sealed evidence snapshot never takes the special transaction. -/
theorem not_endsInTime :
    (∃ s', SnapshotKind.apply .impl (halfDone [] [plainTx 1]) (plainTx 2) 0
      (outcomeOf .normal) false = (true, 1, s') ∧
        s'.txTable ++ s'.specialTxTable = [plainTx 2, plainTx 1]) ∧
    ∃ s', SnapshotKind.apply .evidence (halfDone [] []) (plainTx 1) 0 (outcomeOf .iterator) false =
      (true, 1, s') ∧ ∀ execute fuel,
        simulateSpecialTxs .evidence execute 1 fuel s'.specialTxTable s'.doSeal = none :=
  ⟨⟨_, rfl, rfl⟩, _, rfl, fun _ fuel => simulateSpecialTxs_evidence rfl fuel _⟩

end ChainMaker.Snapshot
