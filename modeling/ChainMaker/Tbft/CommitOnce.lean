import ChainMaker.Tbft.Network

/-! In one life a node publishes at most one block of each height: once it has committed, the
majority behind the block keeps it in its round until the next height. -/

namespace ChainMaker.Tbft
open Option List

namespace Wal
variable {w : Wal} {e x : WalEntry} {i index : ℕ}

lemma le_lastIndex_of_read (h : w.read i = some x) : i ≤ w.lastIndex := by
  unfold read at h
  split at h
  · cases h
  obtain ⟨hlt, -⟩ := List.getElem?_eq_some_iff.mp h
  unfold lastIndex
  omega

lemma read_write (h : (w.write e).read i = some x) :
    i = w.lastIndex + 1 ∧ x = e ∨ w.read i = some x := by
  unfold read write at h
  dsimp only at h
  split at h
  · cases h
  case isFalse hi =>
  rw [getElem?_append] at h
  split at h
  · refine .inr ?_
    rwa [read, if_neg hi]
  case isFalse hlen =>
  obtain ⟨hlt, hx⟩ := List.getElem?_eq_some_iff.mp h
  have hone : i - w.dropped - 1 - w.entries.length < 1 := hlt
  refine .inl ⟨?_, ?_⟩
  · unfold lastIndex
    omega
  · rw [← hx]
    simp

lemma read_truncateFront (h : (w.truncateFront index).read i = some x) : w.read i = some x := by
  unfold read truncateFront at h
  dsimp only at h
  split at h
  · cases h
  rw [getElem?_drop] at h
  rw [read, if_neg (by omega)]
  convert h using 2
  omega

end Wal

def Block.Hashed (b : Block) : Prop := isNilHash b.header.blockHash = false

lemma Block.Hashed.of_bytes {b b' : Block} (h : b'.Hashed)
    (hbytes : b.header.blockHash.bytes = b'.header.blockHash.bytes) : b.Hashed := by
  unfold Block.Hashed isNilHash at h ⊢
  rwa [hbytes]

lemma Block.Hashed.of_header {b b' : Block} (h : b'.Hashed) (hheader : b.header = b'.header) :
    b.Hashed := by
  unfold Block.Hashed at h ⊢
  rwa [hheader]

def Env.Hashed (env : Env) : Prop :=
  ∀ b hash sig, env.signBlock b = some (hash, sig) → isNilHash (some hash) = false

namespace ConsensusTBFTImpl
variable {env : Env} {n n' : ConsensusTBFTImpl}

def hashedInputs (heights : Prop) : Inputs where
  enters := fun replayMode => heights ∧ replayMode = false
  received := fun height b => b.header.blockHeight = height
  adopted := Block.Hashed
  counted := fun _ _ => True
  queued := fun _ _ => True

/-- The log of a node is cut by heights: an entry stands among the entries of its own height from
the first index of that height on, and a proposal is logged at the height of its block. -/
structure Logged (n : ConsensusTBFTImpl) : Prop where
  proposal : ∀ p, n.proposal = some p → p.block.header.blockHeight = n.height ∧ p.block.Hashed
  verifing : ∀ p, n.verifingProposal = some p → p.block.header.blockHeight = n.height
  entry : ∀ i e p, n.wal.read i = some e → e.data = .proposal p →
    p.block.header.blockHeight = e.height ∧ p.block.Hashed
  segment : ∀ i e, n.wal.read i = some e → 0 < e.height → ∀ j e', e.heightFirstIndex ≤ j → j ≤ i →
    n.wal.read j = some e' → e'.height = e.height
  current : 0 < n.height → ∀ j e', n.heightFirstIndex ≤ j → n.wal.read j = some e' →
    e'.height = n.height

variable {heights : Prop}

lemma Logged.log (hl : n.Logged) {data : WalData}
    (hdata : ∀ p, data = .proposal p → n.proposal = some p) : (n.saveWalEntry data).Logged where
  proposal := hl.proposal
  verifing := hl.verifing
  entry := by
    intro i e p hread hp
    rcases Wal.read_write hread with ⟨-, rfl⟩ | hread
    · exact hl.proposal p (hdata p hp)
    · exact hl.entry i e p hread hp
  segment := by
    intro i e hread hpos j e' hfirst hji hread'
    rcases Wal.read_write hread with ⟨-, rfl⟩ | hread
    · rcases Wal.read_write hread' with ⟨-, rfl⟩ | hread'
      · rfl
      · exact hl.current hpos j e' hfirst hread'
    rcases Wal.read_write hread' with ⟨rfl, -⟩ | hread'
    · have hle := Wal.le_lastIndex_of_read hread
      omega
    · exact hl.segment i e hread hpos j e' hfirst hji hread'
  current := by
    intro hpos j e' hfirst hread
    rcases Wal.read_write hread with ⟨-, rfl⟩ | hread
    · rfl
    · exact hl.current hpos j e' hfirst hread

lemma Logged.renew (hl : n.Logged) (hproposal : n'.proposal = none)
    (hverifing : n'.verifingProposal = none)
    (hread : ∀ i e, n'.wal.read i = some e → n.wal.read i = some e)
    (hcurrent : 0 < n'.height → ∀ j e', n'.heightFirstIndex ≤ j → n'.wal.read j = some e' →
      e'.height = n'.height) : n'.Logged where
  proposal := by
    intro p hp
    rw [hproposal] at hp
    cases hp
  verifing := by
    intro p hp
    rw [hverifing] at hp
    cases hp
  entry := fun i e p he => hl.entry i e p (hread i e he)
  segment := fun i e he hpos j e' hfirst hji he' =>
    hl.segment i e (hread i e he) hpos j e' hfirst hji (hread j e' he')
  current := hcurrent

lemma Logged.change (hl : n.Logged) (hc : Change env (hashedInputs heights) n n') : n'.Logged := by
  cases hc with
  | log data hdata _ => exact hl.log hdata
  | verify o ho =>
    refine { hl with verifing := fun p hp => ?_ }
    rcases ho p hp with hp | hheight
    · exact (hl.proposal p hp).1
    · exact hheight
  | adopt p hp hadopt =>
    refine { hl with proposal := fun q hq => ?_ }
    cases hq
    exact ⟨hp.elim (hl.verifing p) fun h => h, hadopt⟩
  | commit hp hmaj hblock =>
    refine { hl with proposal := fun q hq => ?_ }
    cases hq
    obtain ⟨hheight, hhashed⟩ := hl.proposal _ hp
    have hheader := attach_header hblock
    exact ⟨(congrArg (·.blockHeight) hheader).trans hheight, hhashed.of_header hheader⟩
  | newRound r hr hnil =>
    exact hl.renew rfl rfl (fun _ _ he => he) hl.current
  | newHeight h replayMode wal hI hh hwal =>
    obtain ⟨-, rfl⟩ := hI
    have hread : ∀ i e, wal.read i = some e → n.wal.read i = some e := by
      rcases hwal with rfl | rfl
      · exact fun _ _ he => he
      · exact fun _ _ => Wal.read_truncateFront
    refine hl.renew rfl rfl hread fun _ j e' hfirst he' => ?_
    have hle := Wal.le_lastIndex_of_read (hread j e' he')
    have hfirst : n.wal.lastIndex + 1 ≤ j := hfirst
    omega
  | schedule | timers | flags | step | prevote | precommit | queue | vote =>
    exact { hl with }

lemma Logged.changes (hl : n.Logged) (hc : Changes env (hashedInputs heights) n n') :
    n'.Logged := by
  induction hc with
  | refl => exact hl
  | tail _ hc ih => exact ih.change hc

/-- The blocks of one height that a node has published have one hash; at the node's own height
this is the hash of the majority of its round. -/
structure CommitsOnce (n : ConsensusTBFTImpl) : Prop where
  le : ∀ b ∈ n.committed, b.header.blockHeight ≤ n.height
  current : ∀ b ∈ n.committed, b.header.blockHeight = n.height →
    b.Hashed ∧ n.precommitMajority = some b.header.blockHash.bytes
  unique : ∀ b ∈ n.committed, ∀ b' ∈ n.committed,
    b.header.blockHeight = b'.header.blockHeight →
      b.header.blockHash.bytes = b'.header.blockHash.bytes

lemma CommitsOnce.of_majority (hc : n.CommitsOnce) (hcommitted : n'.committed = n.committed)
    (hheight : n'.height = n.height)
    (hmaj : ∀ x, n.precommitMajority = some x → n'.precommitMajority = some x) :
    n'.CommitsOnce := by
  obtain ⟨hle, hcurrent, hunique⟩ := hc
  rw [← hcommitted, ← hheight] at hle hcurrent
  rw [← hcommitted] at hunique
  exact ⟨hle, fun b hb heq => (hcurrent b hb heq).imp_right (hmaj _), hunique⟩

lemma CommitsOnce.commit (hc : n.CommitsOnce) {block : Block}
    (hheight : block.header.blockHeight = n.height) (hhashed : block.Hashed)
    (hmaj : n.precommitMajority = some block.header.blockHash.bytes) {o : Option Proposal} :
    ({ n with proposal := o }.commitBlock block).CommitsOnce := by
  -- An earlier block of this height has the majority's hash too.
  have hsame : ∀ b ∈ n.committed, b.header.blockHeight = n.height →
      b.header.blockHash.bytes = block.header.blockHash.bytes := by
    intro b hb heq
    exact some.inj ((hc.current b hb heq).2.symm.trans hmaj)
  refine ⟨?_, ?_, ?_⟩
  · exact forall_mem_cons.mpr ⟨hheight.le, hc.le⟩
  · exact forall_mem_cons.mpr ⟨fun _ => ⟨hhashed, hmaj⟩, hc.current⟩
  refine forall_mem_cons.mpr ⟨?_, fun b hb => forall_mem_cons.mpr ⟨?_, ?_⟩⟩
  · refine forall_mem_cons.mpr ⟨fun _ => rfl, fun b' hb' heq => ?_⟩
    exact (hsame b' hb' (heq.symm.trans hheight)).symm
  · exact fun heq => hsame b hb (heq.trans hheight)
  · exact hc.unique b hb

lemma CommitsOnce.change (hc : n.CommitsOnce) (hl : n.Logged)
    (hchange : Change env (hashedInputs heights) n n') : n'.CommitsOnce := by
  cases hchange with
  | vote _ hvote =>
    refine hc.of_majority rfl rfl fun x hx => ?_
    exact HeightRoundVoteSet.maj23_addVote_of_some hvote hx
  | commit hp hmaj hblock =>
    obtain ⟨hheight, hhashed⟩ := hl.proposal _ hp
    have hheader := attach_header hblock
    rw [← hheader] at hheight hmaj
    exact hc.commit hheight (hhashed.of_header hheader) hmaj
  | newRound r hr hnil =>
    -- Nothing was committed at this height, for the majority would not be nil.
    refine ⟨hc.le, fun b hb heq => ?_, hc.unique⟩
    obtain ⟨hhashed, hmaj⟩ := hc.current b hb heq
    rw [hmaj] at hnil
    exact absurd hnil (Bool.eq_false_iff.mp hhashed)
  | newHeight h replayMode wal hI hh hwal =>
    have hlt : ∀ b ∈ n.committed, b.header.blockHeight < h := fun b hb => (hc.le b hb).trans_lt hh
    exact ⟨fun b hb => (hlt b hb).le, fun b hb heq => absurd heq (hlt b hb).ne, hc.unique⟩
  | log | schedule | timers | flags | step | prevote | precommit | queue | verify | adopt =>
    exact hc.of_majority rfl rfl fun _ hx => hx

lemma CommitsOnce.changes (hc : n.CommitsOnce) (hl : n.Logged)
    (hchanges : Changes env (hashedInputs heights) n n') : n'.CommitsOnce := by
  induction hchanges with
  | refl => exact hc
  | tail hchanges hchange ih => exact ih.change (hl.changes hchanges) hchange

lemma CommitsOnce.of_nil (h : n.committed = []) : n.CommitsOnce := by
  constructor <;> simp [h]

lemma createProposal_hashed (henv : env.Hashed) {block : Block} {p : Proposal}
    (h : n.createProposal env block = some p) : p.block.Hashed := by
  obtain ⟨body, -, h⟩ := bind_eq_some_iff.mp h
  obtain ⟨⟨hash, sig⟩, hsign, h⟩ := bind_eq_some_iff.mp h
  obtain ⟨endorsement, -, rfl⟩ := map_eq_some_iff.mp h
  exact henv _ hash sig hsign

def LifeEvent.Hashed : LifeEvent → Prop
  | .event (.verifyResult r) => r.verifiedBlock.Hashed
  | _ => True

lemma handle_hashed (henv : env.Hashed) {e : Event} (he : (LifeEvent.event e).Hashed)
    (hn' : n.handle env e = some n') : Changes env (hashedInputs True) n n' := by
  refine handle_changes ?_ hn'
  have hmsg : ∀ (m : ConsensusTBFTImpl) msg, m.Allows env (hashedInputs True) msg := by
    intro m msg
    cases msg with
    | propose body => exact fun _ _ _ _ hheight => hheight
    | prevote | precommit => exact fun _ _ _ => trivial
    | state body => exact fun _ _ _ _ => trivial
    | other => trivial
  cases e with
  | proposedBlock block => exact fun p hp => createProposal_hashed henv hp
  | verifyResult r => exact fun p _ hbytes => Block.Hashed.of_bytes he hbytes
  | externalMsg msg => exact hmsg n msg
  | internalMsg => exact fun msg _ rest => hmsg _ msg
  | blockHeight height => exact ⟨trivial, rfl⟩
  | timerFires | timeout => trivial

lemma Change.height_eq {I : Inputs} (hI : ∀ replayMode, ¬I.enters replayMode)
    (hc : Change env I n n') : n'.height = n.height ∧ n'.heightFirstIndex = n.heightFirstIndex := by
  cases hc with
  | newHeight h replayMode wal henters => exact absurd henters (hI replayMode)
  | _ => exact ⟨rfl, rfl⟩

lemma Changes.height_eq {I : Inputs} (hI : ∀ replayMode, ¬I.enters replayMode)
    (hc : Changes env I n n') :
    n'.height = n.height ∧ n'.heightFirstIndex = n.heightFirstIndex := by
  induction hc with
  | refl => exact ⟨rfl, rfl⟩
  | tail _ hc ih =>
    obtain ⟨h1, h2⟩ := hc.height_eq hI
    exact ⟨h1.trans ih.1, h2.trans ih.2⟩

lemma replayFrom_changes (henv : env.Hashed) {first count : ℕ} (hl : n.Logged)
    (hpos : 0 < n.height) (hfirst : n.heightFirstIndex ≤ first)
    (hn' : n.replayFrom env first count = some n') : Changes env (hashedInputs False) n n' := by
  unfold replayFrom at hn'
  have hindices : ∀ i ∈ range' first count, n.heightFirstIndex ≤ i := by
    intro i hi
    exact hfirst.trans (left_le_of_mem_range' hi)
  generalize range' first count = indices at hn' hindices
  induction indices generalizing n with
  | nil => exact .stay hn'
  | cons i is ih =>
    obtain ⟨m, hm, hn'⟩ := bind_eq_some_iff.mp hn'
    obtain ⟨e, hread, hm⟩ := bind_eq_some_iff.mp hm
    obtain ⟨hi, his⟩ := forall_mem_cons.mp hindices
    have hchanges : Changes env (hashedInputs False) n m := by
      refine replayEntry_changes (fun p hp => ?_) (fun _ _ => createProposal_hashed henv)
        (fun _ _ => trivial) hm
      obtain ⟨hheight, hhashed⟩ := hl.entry i e p hread hp
      exact ⟨hheight.trans (hl.current hpos i e hi hread), hhashed⟩
    have hstay : ∀ replayMode, ¬(hashedInputs False).enters replayMode := fun _ h => h.1
    obtain ⟨hheight, hindex⟩ := hchanges.height_eq hstay
    rw [← hheight] at hpos
    rw [← hindex] at his hfirst
    exact hchanges.trans (ih (hl.changes hchanges) hpos hfirst hn' his)

lemma enterNewHeight_replay (env : Env) {height : ℕ} (hlt : n.height < height) :
    (n.enterNewHeight env height true).height = height ∧
      (n.enterNewHeight env height true).proposal = none ∧
      (n.enterNewHeight env height true).verifingProposal = none ∧
      (n.enterNewHeight env height true).wal = n.wal ∧
      (n.enterNewHeight env height true).heightFirstIndex = n.heightFirstIndex := by
  unfold enterNewHeight
  rw [if_neg (not_le.mpr hlt)]
  unfold enterNewRound
  rw [if_neg (by simp)]
  unfold enterPropose
  rw [if_neg (by simp)]
  exact ⟨rfl, rfl, rfl, rfl, rfl⟩

lemma replayWal_changes (henv : env.Hashed) (hl : n.Logged) (hzero : n.height = 0)
    {currentHeight : ℕ} (hn' : n.replayWal env currentHeight = some n') :
    ∃ m heights, m.Logged ∧ m.committed = n.committed ∧
      Changes env (hashedInputs heights) m n' := by
  have henters : (hashedInputs True).enters false := ⟨trivial, rfl⟩
  unfold replayWal at hn'
  split at hn'
  case h_1 =>
    cases hn'
    exact ⟨n, True, hl, rfl, enterNewHeight_changes _ henters⟩
  case h_2 last hlast =>
  have hm : ({ n with heightFirstIndex := last.heightFirstIndex } :
      ConsensusTBFTImpl).Logged := by
    refine { hl with current := fun hpos => ?_ }
    exact absurd hzero (Nat.pos_iff_ne_zero.mp hpos)
  dsimp only at hn'
  split at hn'
  · cases hn'
  split at hn'
  · cases hn'
    exact ⟨_, True, hm, rfl, enterNewHeight_changes _ henters⟩
  case isFalse hbehind =>
  have hpos : 0 < last.height := by omega
  have hlt : n.height < last.height := hzero ▸ hpos
  obtain ⟨hheight, hproposal, hverifing, hwal, hindex⟩ := enterNewHeight_replay env
    (n := { n with heightFirstIndex := last.heightFirstIndex }) hlt
  have hrecord := record_enterNewHeight env
    { n with heightFirstIndex := last.heightFirstIndex } last.height true
  generalize ({ n with heightFirstIndex := last.heightFirstIndex } :
    ConsensusTBFTImpl).enterNewHeight env last.height true = m at *
  have hcommitted : m.committed = n.committed := congrArg (·.2.2.1) hrecord
  have hlogged : m.Logged := by
    refine hm.renew hproposal hverifing (fun i e he => hwal ▸ he) fun _ j e' hfirst he' => ?_
    rw [hwal] at he'
    rw [hindex] at hfirst
    rw [hheight]
    exact hl.segment _ last hlast hpos j e' hfirst (Wal.le_lastIndex_of_read he') he'
  refine ⟨m, False, hlogged, hcommitted,
    replayFrom_changes henv hlogged (hheight ▸ hpos) hindex.le hn'⟩

lemma Logged.restart (hl : n.Logged) (id : NodeId) (created : List Vote)
    (committed : List Block) : ({ newConsensus env id n.wal with
      created := created, committed := committed } : ConsensusTBFTImpl).Logged :=
  hl.renew rfl rfl (fun _ _ he => he) fun hpos => absurd hpos (lt_irrefl 0)

lemma Logged.live (henv : env.Hashed) (hl : n.Logged) {e : LifeEvent} (he : e.Hashed)
    (hn' : n.live env e = some n') : n'.Logged := by
  cases e with
  | event e => exact hl.changes (handle_hashed henv he hn')
  | deleteInternalMsg =>
    cases hn'
    exact { hl with }
  | restart currentHeight =>
    obtain ⟨m, heights, hm, -, hchanges⟩ :=
      replayWal_changes henv (hl.restart n.id n.created n.committed) rfl hn'
    exact hm.changes hchanges

lemma Logged.start (env : Env) (id : NodeId) (currentHeight : ℕ) :
    (start env id currentHeight).Logged := by
  have hread : ∀ i, (⟨0, []⟩ : Wal).read i = none := by
    intro i
    unfold Wal.read
    split <;> simp
  have hnew : (newConsensus env id ⟨0, []⟩).Logged := by
    refine ⟨fun p hp => absurd hp.symm (some_ne_none p),
      fun p hp => absurd hp.symm (some_ne_none p), ?_, ?_, ?_⟩ <;> simp [newConsensus, hread]
  exact hnew.changes (enterNewHeight_changes (I := hashedInputs True) _ ⟨trivial, rfl⟩)

theorem committed_unique (env : Env) (henv : env.Hashed) (id : NodeId) (ledger : ℕ)
    (before : List LifeEvent) (n₀ : ConsensusTBFTImpl) (hbefore : ∀ e ∈ before, e.Hashed)
    (hrun₀ : Runs.run (live env) (start env id ledger) before = some n₀)
    (currentHeight : ℕ) (n₁ : ConsensusTBFTImpl)
    (hstart : (newConsensus env id n₀.wal).replayWal env currentHeight = some n₁)
    (es : List LifeEvent) (n : ConsensusTBFTImpl) (hes : ∀ e ∈ es, e.Hashed)
    (hlife : ∀ e ∈ es, ∀ h, e ≠ .restart h) (hrun : Runs.run (live env) n₁ es = some n) :
    ∀ b ∈ n.committed, ∀ b' ∈ n.committed, b.header.blockHeight = b'.header.blockHeight →
      b.header.blockHash.bytes = b'.header.blockHash.bytes := by
  have hl₀ : n₀.Logged := Runs.run_induction_mem (fun _ _ _ hl he hn' => hl.live henv he hn')
    (Logged.start env id ledger) hbefore hrun₀
  obtain ⟨m, heights, hm, hcommitted, hchanges⟩ :=
    replayWal_changes henv (hl₀.restart id [] []) rfl hstart
  have hl₁ : n₁.Logged := hm.changes hchanges
  have hc₁ : n₁.CommitsOnce := (CommitsOnce.of_nil hcommitted).changes hm hchanges
  have hall : n.Logged ∧ n.CommitsOnce := by
    refine Runs.run_induction_mem (I := fun n => n.Logged ∧ n.CommitsOnce) ?_ ⟨hl₁, hc₁⟩
      (fun e he => And.intro (hes e he) (hlife e he)) hrun
    rintro n e n' ⟨hl, hc⟩ ⟨he, hnot⟩ hn'
    refine ⟨hl.live henv he hn', ?_⟩
    cases e with
    | event e => exact hc.changes hl (handle_hashed henv he hn')
    | deleteInternalMsg =>
      cases hn'
      exact hc.of_majority rfl rfl fun _ hx => hx
    | restart h => exact absurd rfl (hnot h)
  exact hall.2.unique

open Cluster (blockOf receive prevoteOf precommitOf)

def hashedEnv : Env := { fourEnv with signBlock := fun b => some (1 :: b.body, []) }

def firstLife : List LifeEvent := (receive [0] 2 0 [7]).map fun e => .event e.2

def secondLife : List LifeEvent :=
  [prevoteOf 1 0 (some [7]), prevoteOf 2 0 (some [7]), .internalMsg, .internalMsg,
    precommitOf 1 0 (some [7]), precommitOf 2 0 (some [7]),
    .verifyResult ⟨blockOf [7], true, none⟩].map .event

theorem committed_unique_twice :
    ∃ n₀ n₁ n, Runs.run (live hashedEnv) (start hashedEnv [0] 0) firstLife = some n₀ ∧
      (newConsensus hashedEnv [0] n₀.wal).replayWal hashedEnv 0 = some n₁ ∧
      Runs.run (live hashedEnv) n₁ secondLife = some n ∧
      n.committed.map (fun b => (b.header.blockHeight, b.header.blockHash)) =
        [(1, some [7]), (1, some [7])] ∧
      ∀ b ∈ n.committed, ∀ b' ∈ n.committed, b.header.blockHeight = b'.header.blockHeight →
        b.header.blockHash.bytes = b'.header.blockHash.bytes := by
  have henv : hashedEnv.Hashed := by
    intro b hash sig h
    cases h
    simp [isNilHash, nilHash, Hash.bytes]
  have hfirst : ∀ e ∈ firstLife, e.Hashed := by
    simp [firstLife, receive, LifeEvent.Hashed, Block.Hashed, blockOf, isNilHash, nilHash,
      Hash.bytes]
  have hsecond : ∀ e ∈ secondLife, e.Hashed := by
    simp [secondLife, LifeEvent.Hashed, Block.Hashed, blockOf, prevoteOf, precommitOf, isNilHash,
      nilHash, Hash.bytes]
  have hlife : ∀ e ∈ secondLife, ∀ h, e ≠ .restart h := by simp [secondLife]
  exact ⟨_, _, _, eq_some_of_isSome (by decide +kernel), eq_some_of_isSome (by decide +kernel),
    eq_some_of_isSome (by decide +kernel), by decide +kernel,
      committed_unique hashedEnv henv [0] 0 firstLife
      _ hfirst (eq_some_of_isSome _) 0 _ (eq_some_of_isSome _) secondLife _ hsecond hlife
      (eq_some_of_isSome _)⟩

end ConsensusTBFTImpl
end ChainMaker.Tbft
