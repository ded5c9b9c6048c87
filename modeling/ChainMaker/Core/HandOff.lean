import ChainMaker.Basic
import ChainMaker.Lib.Runs

/-! The hand-off between the calls that start a proposal and the goroutines that may end it
(`block_proposer_impl.go`): the flag `idle` under its mutex, and the unbuffered channel
`finishProposeC`. What a proposal does in between is left out. -/

namespace ChainMaker.Core
open Option Function

/-- A call of `proposeBlock` or of `OnReceiveChainedBFTProposal`: before its checks, before
`setNotIdle`, at the channel, before the deferred `setIdle`, and at its end. -/
inductive ProposeCall
  | absent
  | checked
  | waiting
  | received
  | returned
deriving DecidableEq

/-- The goroutines that call `yieldProposing`: the proposing call of a caller, a yield signal and
a change of the status. -/
inductive Goroutine
  | proposing (caller : ℕ)
  | signal (id : ℕ)
  | statusChange (id : ℕ)
deriving DecidableEq

inductive Yielding
  | absent
  | running
  | sending
  | returned
deriving DecidableEq

structure BlockProposer where
  idle : Bool
  isProposer : Bool
  sender : Option Goroutine
  statusMu : Option ℕ
  callers : ℕ → ProposeCall
  goroutines : Goroutine → Yielding

def newBlockProposer : BlockProposer where
  idle := true
  isProposer := false
  sender := none
  statusMu := none
  callers := fun _ => .absent
  goroutines := fun _ => .absent

/-- The steps of all goroutines. The checks of a caller read the ledger and the proposal cache
besides `idle`; their answer is part of the event. -/
inductive ProposerEvent
  | shouldProposeByBFT (caller : ℕ) (follows : Bool)
  | shouldProposeByChainedBFT (caller : ℕ) (legal : Bool)
  | setNotIdle (caller : ℕ)
  | receive (caller : ℕ)
  | setIdle (caller : ℕ)
  | onReceiveYieldProposeSignal (id : ℕ)
  | onReceiveProposeStatusChange (id : ℕ) (proposeStatus : Bool)
  | yieldProposing (goroutine : Goroutine)
deriving DecidableEq

namespace BlockProposer
variable (bp : BlockProposer) {g : Goroutine}

def setCaller (i : ℕ) (phase : ProposeCall) : BlockProposer :=
  { bp with callers := update bp.callers i phase }

def setGoroutine (g : Goroutine) (phase : Yielding) : BlockProposer :=
  { bp with goroutines := update bp.goroutines g phase }

def yielded (g : Goroutine) : BlockProposer :=
  { bp.setGoroutine g .returned with
    statusMu := match g with
      | .statusChange _ => none
      | _ => bp.statusMu }

-- While a sender has `idleMu`, no other goroutine gets to read or write `idle`.
def step (bp : BlockProposer) : ProposerEvent → Option BlockProposer
  | .shouldProposeByBFT i follows =>
    if bp.callers i = .absent ∧ bp.sender = none then
      some (bp.setCaller i (if bp.idle && follows then .checked else .returned))
    else none
  | .shouldProposeByChainedBFT i legal =>
    if bp.callers i = .absent then
      some (bp.setCaller i (if legal then .checked else .returned))
    else none
  | .setNotIdle i =>
    if bp.callers i = .checked ∧ bp.sender = none then
      if bp.idle then
        some { (bp.setCaller i .waiting).setGoroutine (.proposing i) .running with idle := false }
      else some (bp.setCaller i .returned)
    else none
  | .receive i =>
    match bp.sender with
    | some g =>
      if bp.callers i = .waiting then
        some { (bp.yielded g).setCaller i .received with sender := none, idle := true }
      else none
    | none => none
  | .setIdle i =>
    if bp.callers i = .received ∧ bp.sender = none then
      some { bp.setCaller i .returned with idle := true }
    else none
  | .onReceiveYieldProposeSignal j =>
    if bp.goroutines (.signal j) = .absent then some (bp.setGoroutine (.signal j) .running)
    else none
  | .onReceiveProposeStatusChange j proposeStatus =>
    if bp.goroutines (.statusChange j) = .absent ∧ bp.statusMu = none then
      if proposeStatus = bp.isProposer then some (bp.setGoroutine (.statusChange j) .returned)
      else if proposeStatus then
        some { bp.setGoroutine (.statusChange j) .returned with isProposer := true }
      else
        some { bp.setGoroutine (.statusChange j) .running with
          isProposer := false, statusMu := some j }
    else none
  | .yieldProposing g =>
    if bp.goroutines g = .running ∧ bp.sender = none then
      if bp.idle then some (bp.yielded g)
      else some { bp.setGoroutine g .sending with sender := some g }
    else none

def Proposing (i : ℕ) : Prop :=
  bp.goroutines (.proposing i) = .running ∨ bp.goroutines (.proposing i) = .sending

/-- At most one proposal runs; `idle` is false exactly while a caller is at the channel, which is
one at most; and the signal for it is being sent, or will be at the end of its proposal. A
goroutine that sends has a receiver. -/
structure HandsOff (bp : BlockProposer) : Prop where
  proposing : ∀ i j, bp.Proposing i → bp.Proposing j → i = j
  idle : bp.idle = false ↔ ∃ i, bp.callers i = .waiting
  waiting : ∀ i j, bp.callers i = .waiting → bp.callers j = .waiting → i = j
  signalled : ∀ i, bp.callers i = .waiting →
    bp.sender.isSome ∨ bp.goroutines (.proposing i) = .running
  sender : bp.sender.isSome → ∃ i, bp.callers i = .waiting

/-- A caller does not pass `setNotIdle` while an earlier proposal still runs, or before an earlier
caller has done its deferred `setIdle`. -/
def Settled (bp : BlockProposer) : ProposerEvent → Prop
  | .setNotIdle _ => bp.idle = true → (∀ j, ¬bp.Proposing j) ∧ ∀ j, bp.callers j ≠ .received
  | _ => True

/-- What holds in every state of a settled run. -/
structure Inv (bp : BlockProposer) : Prop where
  waiting_idle : ∀ i, bp.callers i = .waiting → bp.idle = false
  idle_waiting : bp.idle = false → ∃ i, bp.callers i = .waiting
  waiting_unique : ∀ i j, bp.callers i = .waiting → bp.callers j = .waiting → i = j
  waiting_proposing : ∀ i, bp.callers i = .waiting → bp.Proposing i
  proposing_unique : ∀ i j, bp.Proposing i → bp.Proposing j → i = j
  received_idle : ∀ i, bp.callers i = .received → bp.idle = true
  sender_iff : ∀ g, bp.sender = some g ↔ bp.goroutines g = .sending
  sender_idle : bp.sender.isSome → bp.idle = false
  not_started : ∀ i, bp.callers i = .absent ∨ bp.callers i = .checked →
    bp.goroutines (.proposing i) = .absent

attribute [simp] setCaller setGoroutine yielded

variable {bp}

lemma Inv.new : newBlockProposer.Inv := by
  constructor <;> simp [newBlockProposer, Proposing]

section
variable (h : bp.Inv)
include h

lemma Inv.handsOff : bp.HandsOff where
  proposing := h.proposing_unique
  idle := ⟨h.idle_waiting, fun ⟨i, hi⟩ => h.waiting_idle i hi⟩
  waiting := h.waiting_unique
  signalled := by
    intro i hi
    rcases h.waiting_proposing i hi with hrunning | hsending
    · exact .inr hrunning
    · exact .inl (isSome_of_eq_some ((h.sender_iff _).mpr hsending))
  sender := fun hsome => h.idle_waiting (h.sender_idle hsome)

lemma Inv.withStatus (isProposer : Bool) (statusMu : Option ℕ) :
    { bp with isProposer := isProposer, statusMu := statusMu }.Inv where
  waiting_idle := h.waiting_idle
  idle_waiting := h.idle_waiting
  waiting_unique := h.waiting_unique
  waiting_proposing := h.waiting_proposing
  proposing_unique := h.proposing_unique
  received_idle := h.received_idle
  sender_iff := h.sender_iff
  sender_idle := h.sender_idle
  not_started := h.not_started

lemma Inv.setCaller {i : ℕ} {phase : ProposeCall} (hold : bp.callers i ≠ .waiting)
    (hnew : phase ≠ .waiting) (hreceived : phase ≠ .received)
    (hstarted : phase = .returned ∨ bp.callers i = .absent) : (bp.setCaller i phase).Inv := by
  have hcallers : ∀ j, (bp.setCaller i phase).callers j =
      if j = i then phase else bp.callers j := fun j => by
    simp [update_apply]
  have hwaiting : ∀ j, (bp.setCaller i phase).callers j = .waiting ↔ bp.callers j = .waiting := by
    intro j
    rw [hcallers]
    by_cases hj : j = i
    · simp [hj, hnew, hold]
    · simp [hj]
  refine ⟨?_, ?_, ?_, ?_, h.proposing_unique, ?_, h.sender_iff, h.sender_idle, ?_⟩
  · exact fun j hj => h.waiting_idle j ((hwaiting j).mp hj)
  · intro hidle
    obtain ⟨j, hj⟩ := h.idle_waiting hidle
    exact ⟨j, (hwaiting j).mpr hj⟩
  · exact fun j k hj hk => h.waiting_unique j k ((hwaiting j).mp hj) ((hwaiting k).mp hk)
  · exact fun j hj => h.waiting_proposing j ((hwaiting j).mp hj)
  · intro j hj
    rw [hcallers] at hj
    split at hj
    · exact absurd hj hreceived
    · exact h.received_idle j hj
  · intro j hj
    rw [hcallers] at hj
    split at hj
    case isFalse => exact h.not_started j hj
    case isTrue heq =>
    subst heq
    refine h.not_started j (.inl (hstarted.resolve_left ?_))
    rintro rfl
    simp at hj

lemma Inv.setGoroutine {phase : Yielding} (hold : bp.goroutines g ≠ .sending)
    (hnew : phase ≠ .sending) (hproposing : ∀ i, g = .proposing i →
      phase = .returned ∧ bp.callers i ≠ .waiting ∧ bp.goroutines g ≠ .absent) :
    (bp.setGoroutine g phase).Inv := by
  have hgoroutines : ∀ g', (bp.setGoroutine g phase).goroutines g' =
      if g' = g then phase else bp.goroutines g' := fun g' => by
    simp [update_apply]
  have hsub : ∀ i, (bp.setGoroutine g phase).Proposing i → bp.Proposing i := by
    intro i hi
    by_cases hg : Goroutine.proposing i = g
    · rw [Proposing, hgoroutines, if_pos hg, (hproposing i hg.symm).1] at hi
      simp at hi
    · simpa [Proposing, hgoroutines, hg] using hi
  refine ⟨h.waiting_idle, h.idle_waiting, h.waiting_unique, ?_, ?_, h.received_idle, ?_,
    h.sender_idle, ?_⟩
  · intro i hi
    have hg : Goroutine.proposing i ≠ g := fun hg => (hproposing i hg.symm).2.1 hi
    have hwas := h.waiting_proposing i hi
    simpa [Proposing, hgoroutines, hg] using hwas
  · exact fun i j hi hj => h.proposing_unique i j (hsub i hi) (hsub j hj)
  · intro g'
    rw [hgoroutines]
    by_cases hg : g' = g
    · subst hg
      simp only [if_true, hnew, iff_false]
      exact fun hsender => hold ((h.sender_iff g').mp hsender)
    · rw [if_neg hg]
      exact h.sender_iff g'
  · intro i hi
    have habsent := h.not_started i hi
    have hg : Goroutine.proposing i ≠ g := fun hg => (hproposing i hg.symm).2.2 (hg ▸ habsent)
    rw [hgoroutines, if_neg hg]
    exact habsent

lemma Inv.yielded (hrunning : bp.goroutines g = .running) (hidle : bp.idle = true) :
    (bp.yielded g).Inv := by
  refine (h.setGoroutine (by simp [hrunning]) (by simp) fun i hi => ⟨rfl, fun hwaiting => ?_, ?_⟩)
    |>.withStatus bp.isProposer _
  · simp [h.waiting_idle i hwaiting] at hidle
  · simp [hrunning]

lemma Inv.setNotIdle {i : ℕ} (hchecked : bp.callers i = .checked) (hsender : bp.sender = none)
    (hidle : bp.idle = true) (hproposing : ∀ j, ¬bp.Proposing j)
    (hreceived : ∀ j, bp.callers j ≠ .received) :
    { (bp.setCaller i .waiting).setGoroutine (.proposing i) .running with idle := false }.Inv := by
  have hnobody : ∀ j, bp.callers j ≠ .waiting := by
    intro j hj
    simp [h.waiting_idle j hj] at hidle
  have honly : ∀ j, (bp.setCaller i .waiting).callers j = .waiting → j = i := by
    intro j hj
    by_contra hne
    simp only [BlockProposer.setCaller, update_of_ne hne] at hj
    exact hnobody j hj
  have hproposing' : ∀ j,
    ((bp.setCaller i .waiting).setGoroutine (.proposing i) .running).Proposing j →
      j = i := by
    intro j hj
    by_contra hne
    have hg : Goroutine.proposing j ≠ .proposing i := by simp [hne]
    simp only [Proposing, BlockProposer.setGoroutine, update_of_ne hg] at hj
    exact hproposing j hj
  refine ⟨fun _ _ => rfl, fun _ => ⟨i, by simp⟩, ?_, ?_, ?_, ?_, ?_, ?_, ?_⟩
  · exact fun j k hj hk => (honly j hj).trans (honly k hk).symm
  · intro j hj
    obtain rfl := honly j hj
    exact .inl (by simp)
  · exact fun j k hj hk => (hproposing' j hj).trans (hproposing' k hk).symm
  · intro j hj
    by_cases hne : j = i
    · subst hne
      simp at hj
    · simp only [BlockProposer.setGoroutine, BlockProposer.setCaller, update_of_ne hne]
        at hj
      exact absurd hj (hreceived j)
  · intro g
    have hnone : bp.sender ≠ some g := by simp [hsender]
    by_cases hg : g = .proposing i
    · subst hg
      simpa using hnone
    · simp only [BlockProposer.setGoroutine, BlockProposer.setCaller, update_of_ne hg]
      exact h.sender_iff g
  · intro hsome
    simp [hsender] at hsome
  · intro j hj
    by_cases hne : j = i
    · subst hne
      simp at hj
    have hg : Goroutine.proposing j ≠ .proposing i := by simp [hne]
    simp only [BlockProposer.setGoroutine, BlockProposer.setCaller, update_of_ne hne,
      update_of_ne hg] at hj ⊢
    exact h.not_started j hj

lemma Inv.send {g : Goroutine} (hrunning : bp.goroutines g = .running)
    (hsender : bp.sender = none) (hidle : bp.idle = false) :
    { bp.setGoroutine g .sending with sender := some g }.Inv := by
  have hgoroutines : ∀ g', (bp.setGoroutine g .sending).goroutines g' =
      if g' = g then .sending else bp.goroutines g' := fun g' => by
    simp [update_apply]
  have hproposing : ∀ i, (bp.setGoroutine g .sending).Proposing i ↔ bp.Proposing i := by
    intro i
    rw [Proposing, Proposing, hgoroutines]
    by_cases hg : Goroutine.proposing i = g
    · simp [hg, hrunning]
    · simp [hg]
  refine ⟨h.waiting_idle, h.idle_waiting, h.waiting_unique, ?_, ?_, h.received_idle, ?_,
    fun _ => hidle, ?_⟩
  · exact fun i hi => (hproposing i).mpr (h.waiting_proposing i hi)
  · exact fun i j hi hj => h.proposing_unique i j ((hproposing i).mp hi) ((hproposing j).mp hj)
  · intro g'
    rw [hgoroutines]
    by_cases hg : g' = g
    · simp [hg]
    have hnone : bp.goroutines g' ≠ .sending := by
      rw [ne_eq, ← h.sender_iff g', hsender]
      simp
    simp [hg, hnone, Ne.symm hg]
  · intro i hi
    have habsent := h.not_started i hi
    have hg : Goroutine.proposing i ≠ g := by
      rintro rfl
      simp [hrunning] at habsent
    rw [hgoroutines, if_neg hg]
    exact habsent

lemma Inv.receive {i : ℕ} {g : Goroutine} (hsender : bp.sender = some g)
    (hwaiting : bp.callers i = .waiting) :
    { (bp.yielded g).setCaller i .received with sender := none, idle := true }.Inv := by
  have hsending := (h.sender_iff g).mp hsender
  have hgoroutines : ∀ g', (bp.yielded g).goroutines g' =
      if g' = g then .returned else bp.goroutines g' := fun g' => by
    simp [update_apply]
  have hcallers : ∀ j, ((bp.yielded g).setCaller i .received).callers j =
      if j = i then .received else bp.callers j := fun j => by
    simp [update_apply]
  have hnobody : ∀ j, ((bp.yielded g).setCaller i .received).callers j ≠ .waiting := by
    intro j hj
    rw [hcallers] at hj
    split at hj
    · cases hj
    case isFalse hne => exact hne (h.waiting_unique j i hj hwaiting)
  have hsub : ∀ j, (bp.yielded g).Proposing j → bp.Proposing j := by
    intro j hj
    rw [Proposing, hgoroutines] at hj
    split at hj
    · simp at hj
    · exact hj
  refine ⟨fun j hj => absurd hj (hnobody j), by simp, ?_, ?_, ?_, fun _ _ => rfl, ?_, by simp, ?_⟩
  · exact fun j _ hj => absurd hj (hnobody j)
  · exact fun j hj => absurd hj (hnobody j)
  · exact fun j k hj hk => h.proposing_unique j k (hsub j hj) (hsub k hk)
  · intro g'
    show none = some g' ↔ (bp.yielded g).goroutines g' = .sending
    rw [hgoroutines]
    by_cases hg : g' = g
    · simp [hg]
    have hne : bp.goroutines g' ≠ .sending := by
      rw [ne_eq, ← h.sender_iff g', hsender]
      simpa using Ne.symm hg
    simp [hg, hne]
  · intro j hj
    have hj' : bp.callers j = .absent ∨ bp.callers j = .checked := by
      simp only [hcallers] at hj
      split at hj
      · simp at hj
      · exact hj
    have habsent := h.not_started j hj'
    have hg : Goroutine.proposing j ≠ g := by
      rintro rfl
      simp [hsending] at habsent
    show (bp.yielded g).goroutines (.proposing j) = .absent
    rw [hgoroutines, if_neg hg]
    exact habsent

lemma Inv.step {e : ProposerEvent} {bp' : BlockProposer} (hsettled : bp.Settled e)
    (hstep : bp.step e = some bp') : bp'.Inv := by
  cases e
  all_goals simp only [BlockProposer.step, ite_none_right_eq_some] at hstep
  case shouldProposeByBFT i follows =>
    obtain ⟨⟨habsent, -⟩, hstep⟩ := hstep
    cases hstep
    exact h.setCaller (by simp [habsent]) (by split <;> simp) (by split <;> simp) (.inr habsent)
  case shouldProposeByChainedBFT i legal =>
    obtain ⟨habsent, hstep⟩ := hstep
    cases hstep
    exact h.setCaller (by simp [habsent]) (by split <;> simp) (by split <;> simp) (.inr habsent)
  case setNotIdle i =>
    obtain ⟨⟨hchecked, hsender⟩, hstep⟩ := hstep
    split at hstep
    case isTrue hidle =>
      cases hstep
      exact h.setNotIdle hchecked hsender hidle (hsettled hidle).1 (hsettled hidle).2
    case isFalse =>
      cases hstep
      exact h.setCaller (by simp [hchecked]) (by simp) (by simp) (.inl rfl)
  case receive i =>
    split at hstep
    case h_2 => cases hstep
    case h_1 g hsender =>
    rw [ite_none_right_eq_some] at hstep
    obtain ⟨hwaiting, hstep⟩ := hstep
    cases hstep
    exact h.receive hsender hwaiting
  case setIdle i =>
    obtain ⟨⟨hreceived, -⟩, hstep⟩ := hstep
    cases hstep
    have hidle : (bp.setCaller i .returned).idle = true := h.received_idle i hreceived
    rw [← hidle]
    exact h.setCaller (by simp [hreceived]) (by simp) (by simp) (.inl rfl)
  case onReceiveYieldProposeSignal j =>
    obtain ⟨habsent, hstep⟩ := hstep
    cases hstep
    exact h.setGoroutine (by simp [habsent]) (by simp) (by simp)
  case onReceiveProposeStatusChange j proposeStatus =>
    obtain ⟨⟨habsent, -⟩, hstep⟩ := hstep
    have hset : ∀ {phase}, phase ≠ Yielding.sending →
        (bp.setGoroutine (.statusChange j) phase).Inv :=
      fun hphase => h.setGoroutine (by simp [habsent]) hphase (by simp)
    split at hstep
    · exact some.inj hstep ▸ hset (by simp)
    split at hstep
    · exact some.inj hstep ▸ (hset (by simp)).withStatus true bp.statusMu
    · exact some.inj hstep ▸ (hset (by simp)).withStatus false (some j)
  case yieldProposing g =>
  obtain ⟨⟨hrunning, hsender⟩, hstep⟩ := hstep
  split at hstep
  case isTrue hidle => exact some.inj hstep ▸ h.yielded hrunning hidle
  case isFalse hidle =>
    exact some.inj hstep ▸ h.send hrunning hsender (Bool.not_eq_true _ ▸ hidle)

end

theorem handsOff_of_settled (events : List ProposerEvent) (bp : BlockProposer)
    (hrun : Runs.run BlockProposer.step newBlockProposer events = some bp)
    (hsettled : Runs.Meets BlockProposer.step Settled newBlockProposer events) : bp.HandsOff :=
  (Runs.run_induction (fun _ _ _ h hP hstep => h.step hP hstep) Inv.new hsettled hrun).handsOff

def rounds : List ProposerEvent :=
  [.shouldProposeByBFT 0 true, .setNotIdle 0, .yieldProposing (.proposing 0), .receive 0,
    .setIdle 0, .shouldProposeByBFT 1 true, .setNotIdle 1]

theorem handsOff_of_settled_rounds :
    ∃ bp, Runs.run BlockProposer.step newBlockProposer rounds = some bp ∧
      bp.callers 1 = .waiting ∧ bp.HandsOff := by
  refine ⟨_, rfl, rfl, handsOff_of_settled rounds _ rfl ?_⟩
  refine .intro trivial (.intro ?first (.intro trivial (.intro trivial (.intro trivial
    (.intro trivial (.intro ?second trivial))))))
  case first =>
    exact fun _ => ⟨by simp [Proposing, newBlockProposer],
      fun j => by by_cases hj : j = 0 <;> simp [newBlockProposer, hj]⟩
  case second =>
  refine fun _ => ⟨fun j => ?_, fun j => ?_⟩
  · by_cases hj : j = 0 <;>
      simp [Proposing, newBlockProposer, hj]
  · rcases j with _ | _ | j <;>
      simp [newBlockProposer]

/-- A yield signal hands off the first proposal while it still runs; and the deferred `setIdle` of
a caller takes the place of the next one, whose proposal then ends without a signal. -/
theorem hands_off_fails :
    (∃ bp, Runs.run BlockProposer.step newBlockProposer
        [.shouldProposeByBFT 0 true, .setNotIdle 0, .onReceiveYieldProposeSignal 0,
          .yieldProposing (.signal 0), .receive 0, .setIdle 0, .shouldProposeByBFT 1 true,
          .setNotIdle 1] = some bp ∧
      bp.Proposing 0 ∧ bp.Proposing 1) ∧
    ∃ bp, Runs.run BlockProposer.step newBlockProposer
        [.shouldProposeByBFT 0 true, .setNotIdle 0, .yieldProposing (.proposing 0), .receive 0,
          .shouldProposeByBFT 1 true, .setNotIdle 1, .setIdle 0,
          .yieldProposing (.proposing 1)] = some bp ∧
      bp.callers 1 = .waiting ∧ bp.idle = true ∧ bp.sender = none ∧
      bp.goroutines (.proposing 1) = .returned :=
  ⟨⟨_, rfl, .inl rfl, .inl rfl⟩, _, rfl, rfl, rfl, rfl, rfl⟩

end BlockProposer
end ChainMaker.Core
