import ChainMaker.Sync.Delivery

/-! Sync commits in order: a block gets to `AddBlock` only once it is verified and at the height
after the one that was read for the task, and the calls that succeed do so for growing heights. -/

namespace ChainMaker.Core.Committer
variable {φ : Type}

def succeededBy (s : Committer φ) (caller : Caller) : List UInt64 :=
  ((s.returned.filter (·.1 = caller)).filter (·.2.2.isOk)).map (·.2.1)

lemma succeededBy_sublist (s : Committer φ) (caller : Caller) :
    (s.succeededBy caller).Sublist s.succeeded := by
  apply List.Sublist.map
  apply List.Sublist.filter
  exact List.filter_sublist

end ChainMaker.Core.Committer

namespace ChainMaker.Sync.Server
open ChainMaker.Core (Block Committer CoreError Env)
variable {φ : Type} {env : Env φ} {s s' : Server φ} {e : Event φ}

/-- Every block that was handed to `AddBlock` had just been verified, and stands one above the
height that was read for its task. -/
def InOrder (acts : List Act) : Prop :=
  ∀ r height older, (.addBlock r height :: older) <:+ acts →
    ∃ last rest, older = .verified r (.ok ()) :: .read last :: rest ∧ height.toNat = last.toNat + 1

def Prepared (acts : List Act) (t : Processing) : Prop :=
  match t.stage with
  | .check | .verify => ∃ last rest, acts = .read last :: rest ∧ t.pendingBlockHeight = last + 1
  | .add => ∃ last rest, acts = .verified t.block (.ok ()) :: .read last :: rest ∧
      t.pendingBlockHeight = last + 1
  | .adding => True

structure Ordered (s : Server φ) : Prop where
  inOrder : InOrder s.acts
  prepared : ∀ t, s.processing = some t → Prepared s.acts t

lemma InOrder.cons {acts : List Act} {act : Act} (h : InOrder acts)
    (hact : ∀ r height, act = .addBlock r height →
      ∃ last rest, acts = .verified r (.ok ()) :: .read last :: rest ∧
        height.toNat = last.toNat + 1) :
    InOrder (act :: acts) := by
  intro r height older hsuffix
  obtain heq | hsuffix := List.suffix_cons_iff.mp hsuffix
  · obtain ⟨hhead, rfl⟩ := List.cons.inj heq
    exact hact r height hhead.symm
  · exact h r height older hsuffix

lemma toNat_of_eq_add_one {height last : UInt64} (h : height = last + 1) (hne : height ≠ 0) :
    height.toNat = last.toNat + 1 := by
  have hpos : height.toNat ≠ 0 := fun hzero => hne (UInt64.toNat_inj.mp hzero)
  have hadd := congrArg UInt64.toNat h
  rw [UInt64.toNat_add, UInt64.toNat_one] at hadd
  have hlt := last.toNat_lt
  omega

namespace Ordered

lemma process {height : UInt64} {task : ProcessorTask} {rest : List ProcessorTask} (h : Ordered s)
    (hidle : s.processing = none) : Ordered (s.process height task rest) := by
  have hno : ∀ t, ¬ s.processing = some t := fun t ht => absurd (hidle.symm.trans ht) nofun
  cases task with
  | receivedBlocks | dataDetection => exact ⟨h.inOrder, h.prepared⟩
  | processBlock =>
    unfold Server.process handleProcessBlockMsg
    dsimp only
    split
    · exact ⟨h.inOrder.cons nofun, fun t ht => absurd ht (hno t)⟩
    · refine ⟨h.inOrder.cons nofun, fun t ht => ?_⟩
      cases ht
      exact ⟨height, s.acts, rfl, rfl⟩

lemma works [DecidableEq φ] {strict : Prop} {verified : Except CoreError Unit} {t : Processing}
    (htidy : Tidy strict s) (h : Ordered s) (ht : s.processing = some t)
    (hworks : Works env s verified t s') : Ordered s' := by
  have hprepared := h.prepared t ht
  unfold Prepared at hprepared
  cases hworks with
  | checked hstage =>
    rw [hstage] at hprepared
    refine ⟨h.inOrder, fun t' ht' => ?_⟩
    cases ht'
    exact hprepared
  | verified hstage hok =>
    rw [hstage] at hprepared
    obtain ⟨last, rest, hacts, hpending⟩ := hprepared
    refine ⟨h.inOrder.cons nofun, fun t' ht' => ?_⟩
    cases ht'
    subst hok
    exact ⟨last, rest, congrArg (_ :: ·) hacts, hpending⟩
  | @called height committer hstage hheight hcall =>
    rw [hstage] at hprepared
    obtain ⟨last, rest, hacts, hpending⟩ := hprepared
    obtain ⟨hinfo, hown⟩ := htidy.task t ht
    cases hown.symm.trans hheight
    refine ⟨h.inOrder.cons fun r height heq => ?_, fun t' ht' => ?_⟩
    · cases heq
      exact ⟨last, rest, hacts, toNat_of_eq_add_one hpending (htidy.keyed _ _ hinfo).2⟩
    · cases ht'
      trivial
  | finished hacts hstatus hfinish =>
    obtain ⟨height, -, rfl⟩ := Option.map_eq_some_iff.mp hfinish
    refine ⟨?_, fun t' ht' => absurd ht'.symm (Option.some_ne_none t')⟩
    obtain rfl | rfl := hacts
    · exact h.inOrder
    · exact h.inOrder.cons nofun

lemma step [DecidableEq φ] {strict : Prop} (htidy : Tidy strict s) (h : Ordered s)
    (hstep : s.step env e = some s') : Ordered s' := by
  cases moves_of_step hstep with
  | core | nodeStatusResp | blockSyncResp | schedule | carryBlocks | carryResp =>
    exact ⟨h.inOrder, h.prepared⟩
  | tick ticker =>
    cases ticker with
    | processBlock | schedule | liveness | dataDetect => exact ⟨h.inOrder, h.prepared⟩
  | process hout hidle hheight htask => exact h.process hidle
  | work ht hworks => exact h.works htidy ht hworks

end Ordered

lemma ordered_start (lastBlock : Block) (maxNum batchesize : UInt64)
    (timeOut reqTimeThreshold : ℕ) :
    Ordered (start lastBlock maxNum batchesize timeOut reqTimeThreshold : Server φ) where
  inOrder := fun _ _ _ hsuffix => by cases List.suffix_nil.mp hsuffix
  prepared := fun _ ht => by cases ht

theorem commits_in_order [DecidableEq φ] (env : Env φ) (lastBlock : Block)
    (maxNum batchesize : UInt64) (timeOut reqTimeThreshold : ℕ) (es : List (Event φ))
    (hes : ∀ e ∈ es, e.Completes) (s : Server φ)
    (hrun : Runs.run (step env)
      (start lastBlock maxNum batchesize timeOut reqTimeThreshold) es = some s) :
    InOrder s.acts ∧ (s.committer.succeededBy .sync).Pairwise (· > ·) := by
  have hinv : Tidy True s ∧ Ordered s := by
    refine Runs.run_induction_mem (I := fun s => Tidy True s ∧ Ordered s)
      (fun s e s' h he hstep => ?_)
      ⟨tidy_start True lastBlock _ _ _ _, ordered_start lastBlock _ _ _ _⟩ hes hrun
    exact ⟨h.1.step (fun _ => he) hstep, h.2.step h.1 hstep⟩
  refine ⟨hinv.2.inOrder, ?_⟩
  have hincreasing : s.committer.succeeded.Pairwise (· > ·) := hinv.1.level.increasing trivial
  exact hincreasing.sublist (s.committer.succeededBy_sublist .sync)

open ChainMaker.Core.CoreEngine (agreeable genesis smallEnv)

def twoTasks : List (Event Snapshot.BlockHeader) :=
  batchArrives ++ blockOneAdded ++ [.carryResp, .tick .processBlock, .process 0, .work (.ok ()),
    .work (.ok ()), .work (.ok ()), .core (.next agreeable {}), .work (.ok ())]

theorem commits_in_order_twoTasks :
    ∃ s, Runs.run (step (smallEnv .tbft)) startSmall twoTasks = some s ∧
      s.acts = [.addBlock 2 2, .verified 2 (.ok ()), .read 1, .addBlock 1 1, .verified 1 (.ok ()),
        .read 0] ∧ s.committer.succeededBy .sync = [1] ∧ InOrder s.acts := by
  refine ⟨_, Option.eq_some_of_isSome (by decide +kernel), by decide +kernel, by decide +kernel,
    (commits_in_order (smallEnv .tbft) genesis 10 5 3 3 twoTasks ?_ _
      (Option.eq_some_of_isSome _)).1⟩
  simp [twoTasks, batchArrives, blockOneAdded, Event.Completes, Core.Turn.Completes,
    Core.CommitServices.completes]
end ChainMaker.Sync.Server
