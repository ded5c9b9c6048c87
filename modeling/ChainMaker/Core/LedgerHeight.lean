import ChainMaker.Core.LedgerChain

/-! The height of the ledger never falls, whatever happens between the steps of `AddBlock`; and
where the steps of `CommitBlock` do not fail, the calls that return nil do so for growing heights.
Nothing is asked of the fingerprints here: the proposal cache is searched by height first. -/

namespace ChainMaker.Core
open Option CoreEngine

def Heap.heightOf (heap : Heap) (r : ℕ) : Option UInt64 := (heap.get r).map (·.header.blockHeight)

def Heap.SameBlocks (heap heap' : Heap) : Prop :=
  ∀ r block, heap.get r = some block → ∃ block', heap'.get r = some block' ∧
    block'.header.blockHeight = block.header.blockHeight ∧ block'.txs = block.txs

namespace Heap
variable {heap heap' : Heap} {r : ℕ} {height : UInt64} {block : Block}

lemma heightOf_eq (h : heap.get r = some block) :
    heap.heightOf r = some block.header.blockHeight := by
  rw [heightOf, h, map_some]

lemma heightOf_eq_some_iff :
    heap.heightOf r = some height ↔
      ∃ block, heap.get r = some block ∧ block.header.blockHeight = height :=
  map_eq_some_iff

lemma SameBlocks.refl : heap.SameBlocks heap := fun _ block h => ⟨block, h, rfl, rfl⟩

lemma SameBlocks.of_get (h : ∀ r block, heap.get r = some block → heap'.get r = some block) :
    heap.SameBlocks heap' :=
  fun r block hr => ⟨block, h r block hr, rfl, rfl⟩

lemma SameBlocks.heightOf (h : heap.SameBlocks heap') (hr : heap.heightOf r = some height) :
    heap'.heightOf r = some height := by
  obtain ⟨block, hblock, rfl⟩ := heightOf_eq_some_iff.mp hr
  obtain ⟨block', hblock', hheight, -⟩ := h r block hblock
  exact heightOf_eq_some_iff.mpr ⟨block', hblock', hheight⟩

lemma SameBlocks.assign {source : ℕ} (hr : heap.heightOf r = some height)
    (hsource : heap.heightOf source = some height) : heap.SameBlocks (heap.assign r source) := by
  intro r' block hblock
  obtain ⟨old, hold, hheight⟩ := heightOf_eq_some_iff.mp hr
  obtain ⟨new, hnew, hheight'⟩ := heightOf_eq_some_iff.mp hsource
  by_cases hne : r' = r
  · subst hne
    cases hold.symm.trans hblock
    exact ⟨_, get_assign hold hnew, hheight'.trans hheight.symm, rfl⟩
  · exact ⟨block, (get_assign_ne hne).trans hblock, rfl, rfl⟩

end Heap

namespace CoreEngine
variable {φ : Type} [DecidableEq φ] {env : Env φ} {sv : Services φ} {cs : CommitServices}
variable {c c' : CoreEngine φ} {r : ℕ} {height : UInt64} {block : Block}

omit [DecidableEq φ] in
lemma currentHeight_eq : c.currentHeight = c.lastCommittedBlock.bind c.heap.heightOf := by
  unfold currentHeight getLastCommittedBlock
  cases c.lastCommittedBlock with
  | none | some => rfl

def Placed (c : CoreEngine φ) : Prop :=
  c.proposalCache.Each fun height _ r _ => c.heap.heightOf r = some height

lemma Placed.getProposedBlock {p : BlockProposal} {header : BlockHeader} (h : c.Placed)
    (hp : c.getProposedBlock env header = some p) :
    c.heap.heightOf p.block = some header.blockHeight :=
  h _ _ p hp

structure Stays (c c' : CoreEngine φ) : Prop where
  blocks : c.heap.SameBlocks c'.heap
  lastCommittedBlock : c'.lastCommittedBlock = c.lastCommittedBlock

structure Climbs (c c' : CoreEngine φ) : Prop where
  blocks : c.heap.SameBlocks c'.heap
  currentHeight : ∀ l, c.currentHeight = some l → ∃ l', c'.currentHeight = some l' ∧ l ≤ l'

section
omit [DecidableEq φ]

lemma Stays.refl : Stays c c := ⟨.refl, rfl⟩

lemma Stays.currentHeight {l : UInt64} (h : Stays c c') (hl : c.currentHeight = some l) :
    c'.currentHeight = some l := by
  rw [currentHeight_eq] at hl ⊢
  obtain ⟨r, hr, hheight⟩ := bind_eq_some_iff.mp hl
  exact bind_eq_some_iff.mpr ⟨r, h.lastCommittedBlock.trans hr, h.blocks.heightOf hheight⟩

lemma Stays.climbs (h : Stays c c') : Climbs c c' :=
  ⟨h.blocks, fun l hl => ⟨l, h.currentHeight hl, UInt64.le_refl l⟩⟩

lemma Grows.stays (h : Grows c c') : Stays c c' :=
  ⟨.of_get h.get, h.lastCommittedBlock⟩

def IsNext (c : CoreEngine φ) (height : UInt64) : Prop :=
  ∃ l, c.currentHeight = some l ∧ height.toNat = l.toNat + 1

lemma IsNext.stays (hstays : Stays c c') (h : c.IsNext height) : c'.IsNext height := by
  obtain ⟨l, hl, hnext⟩ := h
  exact ⟨l, hstays.currentHeight hl, hnext⟩

lemma isNext_of_isBlockLegal (h : c.isBlockLegal env block = .ok ()) :
    c.IsNext block.header.blockHeight := by
  obtain ⟨last, hlast, hfollows⟩ := follows_of_isBlockLegal h
  refine ⟨last.header.blockHeight, ?_, hfollows.height⟩
  rw [currentHeight, hlast, map_some]

lemma lastCommittedBlock_notifyCommitted {rwSet : List Snapshot.TxRWSet}
    {events : List ContractEvent} :
    (c.notifyCommitted cs r block rwSet events).2.lastCommittedBlock = c.lastCommittedBlock ∨
      (c.notifyCommitted cs r block rwSet events).2.lastCommittedBlock = some r := by
  unfold notifyCommitted
  split
  · exact .inl rfl
  split
  · exact .inl rfl
  right
  split
  · rfl
  · rfl

end

end CoreEngine

namespace Committer
variable {φ : Type} [DecidableEq φ] {env : Env φ} {sv : Services φ} {cs : CommitServices}
variable {s s' : Committer φ} {c c' : CoreEngine φ} {call : Call} {strict : Prop}

def Stands (strict : Prop) (c : CoreEngine φ) (succeeded : List UInt64) (call : Call) : Prop :=
  match call.stage with
  | .check => c.heap.heightOf call.block = some call.height
  | .look | .verify | .lookAgain =>
    c.heap.heightOf call.block = some call.height ∧ c.IsNext call.height
  | .put p | .notify p _ _ _ => c.heap.heightOf p.block = some call.height ∧ c.IsNext call.height
  | .retry _ _ | .clear _ | .publish _ =>
    strict → c.currentHeight = some call.height ∧ ∀ h ∈ succeeded, h < call.height

/-- The blocks of the cache and of the calls have the heights that are known of them. With `strict`,
for runs in which no step of `CommitBlock` fails, the ledger also reaches every height for which a
call returned nil. -/
structure Level (strict : Prop) (s : Committer φ) : Prop where
  placed : s.engine.Placed
  reached : ∃ l, s.engine.currentHeight = some l ∧ (strict → ∀ h ∈ s.succeeded, h ≤ l)
  increasing : strict → s.succeeded.Pairwise (· > ·)
  stands : ∀ call, s.holder = some call → Stands strict s.engine s.succeeded call

omit [DecidableEq φ] in
lemma Stands.stays {succeeded : List UInt64} (hstays : Stays c c')
    (h : Stands strict c succeeded call) : Stands strict c' succeeded call := by
  unfold Stands at h ⊢
  cases hstage : call.stage with
  | check =>
    rw [hstage] at h
    exact hstays.blocks.heightOf h
  | look | verify | lookAgain | put | notify =>
    rw [hstage] at h
    exact ⟨hstays.blocks.heightOf h.1, h.2.stays hstays⟩
  | retry | clear | publish =>
    rw [hstage] at h
    exact fun hstrict => ⟨hstays.currentHeight (h hstrict).1, (h hstrict).2⟩

namespace Level

section
variable (h : Level strict s)
include h

lemma stays (hstays : Stays s.engine c) (hplaced : c.Placed) :
    Level strict { s with engine := c } := by
  obtain ⟨l, hl, hreached⟩ := h.reached
  exact ⟨hplaced, ⟨l, hstays.currentHeight hl, hreached⟩, h.increasing,
    fun call hcall => (h.stands call hcall).stays hstays⟩

lemma receive (block : Block) :
    Level strict { s with engine := { s.engine with heap := s.engine.heap.alloc block } } ∧
      s.engine.Climbs { s.engine with heap := s.engine.heap.alloc block } := by
  have hstays : s.engine.Stays { s.engine with heap := s.engine.heap.alloc block } :=
    ⟨.of_get fun _ _ hget => Heap.get_alloc block hget, rfl⟩
  exact ⟨h.stays hstays fun height k p hp => hstays.blocks.heightOf (h.placed height k p hp),
    hstays.climbs⟩

variable (env) in
lemma change (hchange : s.change c = some s') (hheap : s.engine.heap.Keeps env c.heap)
    (hlast : c.lastCommittedBlock = s.engine.lastCommittedBlock)
    (hcache : c.proposalCache = s.engine.proposalCache) :
    Level strict s' ∧ s.engine.Climbs s'.engine := by
  obtain ⟨-, hs'⟩ := ite_none_right_eq_some.mp hchange
  cases hs'
  have hblocks : s.engine.heap.SameBlocks c.heap := by
    intro r block hblock
    obtain ⟨block', hblock', hsame⟩ := hheap r block hblock
    exact ⟨block', hblock', hsame.blockHeight, hsame.txs⟩
  have hstays : s.engine.Stays c := ⟨hblocks, hlast⟩
  refine ⟨h.stays hstays fun height k p hp => hblocks.heightOf ?_, hstays.climbs⟩
  exact h.placed height k p (hcache ▸ hp)

variable (hstays : Stays s.engine c)
include hstays

lemma goTo {stage : Stage} (hplaced : c.Placed)
    (hstands : Stands strict c s.succeeded { call with stage }) :
    Level strict (s.goTo call c stage) := by
  obtain ⟨l, hl, hreached⟩ := h.reached
  exact ⟨hplaced, ⟨l, hstays.currentHeight hl, hreached⟩, h.increasing,
    fun _ hcall => some.inj hcall ▸ hstands⟩

lemma fail (hplaced : c.Placed) (e : CoreError) : Level strict (s.finish call c (.error e)) := by
  obtain ⟨l, hl, hreached⟩ := h.reached
  refine ⟨hplaced, ⟨l, hstays.currentHeight hl, ?_⟩, ?_,
    fun _ hcall' => absurd hcall' holder_finish⟩
  · rwa [succeeded_error]
  · rw [succeeded_error]
    exact h.increasing

lemma succeed (hplaced : c.Placed)
    (hdone : strict → c.currentHeight = some call.height ∧ ∀ h ∈ s.succeeded, h < call.height) :
    Level strict (s.finish call c (.ok ())) := by
  obtain ⟨l, hl, -⟩ := h.reached
  refine ⟨hplaced, ⟨l, hstays.currentHeight hl, fun hstrict height hmem => ?_⟩, fun hstrict => ?_,
    fun _ hcall' => absurd hcall' holder_finish⟩
  · obtain ⟨hcurrent, hlower⟩ := hdone hstrict
    have hcall : l = call.height := mem_unique (hstays.currentHeight hl) hcurrent
    obtain rfl | hmem := List.mem_cons.mp hmem
    · exact hcall ▸ UInt64.le_refl _
    · exact hcall ▸ UInt64.le_of_lt (hlower height hmem)
  · rw [succeeded_ok]
    exact List.pairwise_cons.mpr ⟨(hdone hstrict).2, h.increasing hstrict⟩

end

lemma notify {p : BlockProposal} {block : Block} {rwSet : List Snapshot.TxRWSet}
    {events : List ContractEvent} (hcs : strict → cs.completes = true) (h : Level strict s)
    (hp : s.engine.heap.heightOf p.block = some call.height) (hnext : s.engine.IsNext call.height) :
    Level strict (s.goTo call (s.engine.notifyCommitted cs p.block block rwSet events).2
        (.retry block (s.engine.notifyCommitted cs p.block block rwSet events).1)) ∧
      s.engine.Climbs (s.engine.notifyCommitted cs p.block block rwSet events).2 := by
  have hnotified : Notified cs s.engine p.block
      (s.engine.notifyCommitted cs p.block block rwSet events).2 := notified_notifyCommitted
  have hlast : (s.engine.notifyCommitted cs p.block block rwSet events).2.lastCommittedBlock =
      s.engine.lastCommittedBlock ∨ _ := lastCommittedBlock_notifyCommitted
  generalize s.engine.notifyCommitted cs p.block block rwSet events = notified at hnotified hlast ⊢
  have hblocks : s.engine.heap.SameBlocks notified.2.heap := by
    rw [hnotified.heap]
    exact .refl
  have hset : notified.2.lastCommittedBlock = some p.block →
      notified.2.currentHeight = some call.height := by
    intro hset
    rw [currentHeight_eq, hset, bind_some]
    exact hblocks.heightOf hp
  obtain ⟨l, hl, hnext⟩ := hnext
  have hle : l ≤ call.height := UInt64.le_iff_toNat_le.mpr (by omega)
  have hcurrent : ∃ l', notified.2.currentHeight = some l' ∧ l ≤ l' := by
    obtain hsame | hnew := hlast
    · exact ⟨l, Stays.currentHeight ⟨hblocks, hsame⟩ hl, UInt64.le_refl l⟩
    · exact ⟨call.height, hset hnew, hle⟩
  have hreached : strict → ∀ height ∈ s.succeeded, height ≤ l := by
    obtain ⟨l₁, hl₁, hreached⟩ := h.reached
    cases hl.symm.trans hl₁
    exact hreached
  refine ⟨⟨?_, ?_, h.increasing, fun _ hcall => ?_⟩, hblocks, fun l₁ hl₁ => ?_⟩
  · change notified.2.proposalCache.Each fun height _ r _ =>
      notified.2.heap.heightOf r = some height
    rw [hnotified.heap, hnotified.proposalCache]
    exact h.placed
  · obtain ⟨l', hl', hll'⟩ := hcurrent
    exact ⟨l', hl', fun hstrict height hmem => UInt64.le_trans (hreached hstrict height hmem) hll'⟩
  · cases hcall
    refine fun hstrict => ⟨hset (hnotified.lastCommittedBlock (hcs hstrict)), fun height hmem => ?_⟩
    have hheight := UInt64.le_iff_toNat_le.mp (hreached hstrict height hmem)
    exact UInt64.lt_iff_toNat_lt.mpr (by dsimp only; omega)
  · cases hl.symm.trans hl₁
    exact hcurrent

lemma advance (hcs : strict → cs.completes = true) (h : Level strict s)
    (hcall : s.holder = some call) :
    Level strict (s.advance env sv cs call) ∧
      s.engine.Climbs (s.advance env sv cs call).engine := by
  have hstands : ∀ {stage}, call.stage = stage →
      Stands strict s.engine s.succeeded { call with stage } := by
    rintro _ rfl
    exact h.stands call hcall
  have hgoTo : ∀ {c : CoreEngine φ} {stage : Stage}, s.engine.Stays c → c.Placed →
      Stands strict c s.succeeded { call with stage } →
      Level strict (s.goTo call c stage) ∧ s.engine.Climbs (s.goTo call c stage).engine :=
    fun hstays hplaced hstands => ⟨h.goTo hstays hplaced hstands, hstays.climbs⟩
  have hfound : ∀ {block : Block} {p : BlockProposal}, s.engine.heap.get call.block = some block →
      s.engine.getProposedBlock env block.header = some p →
      s.engine.heap.heightOf call.block = some call.height →
      s.engine.heap.heightOf p.block = some call.height := by
    intro block p hblock hp hown
    obtain hheight : block.header.blockHeight = call.height :=
      mem_unique (Heap.heightOf_eq hblock) hown
    exact hheight ▸ h.placed.getProposedBlock hp
  have hverified : s.engine.heap.heightOf call.block = some call.height →
      s.engine.Stays (s.engine.verifyBlock env sv call.block .syncVerify).2 ∧
        (s.engine.verifyBlock env sv call.block .syncVerify).2.Placed := by
    intro hown
    obtain ⟨block, hblock, -⟩ := Heap.heightOf_eq_some_iff.mp hown
    have hstays : s.engine.Stays (s.engine.verifyBlock env sv call.block .syncVerify).2 :=
      (grows_verifyBlock hblock).stays
    refine ⟨hstays, fun height k p hp => hstays.blocks.heightOf ?_⟩
    exact each_verifyBlock hblock (fun _ => Heap.heightOf_eq hblock) h.placed height k p hp
  have hadvances := advances_advance env sv cs s call
  generalize s.advance env sv cs call = s' at hadvances ⊢
  cases hadvances with
  | failed e => exact ⟨h.fail .refl h.placed e, Stays.refl.climbs⟩
  | @legal block hstage hblock hlegal =>
    have hown := hstands hstage
    have hheight : block.header.blockHeight = call.height :=
      mem_unique (Heap.heightOf_eq hblock) hown
    exact hgoTo .refl h.placed ⟨hown, hheight ▸ isNext_of_isBlockLegal hlegal⟩
  | missing hstage =>
    have hstands := hstands hstage
    exact hgoTo .refl h.placed hstands
  | @found block cached p c hstage hblock hp hcached hc =>
    obtain ⟨hown, hnext⟩ := hstands hstage
    have hplaced := hfound hblock hp hown
    obtain rfl | rfl := hc
    · exact hgoTo .refl h.placed ⟨hplaced, hnext⟩
    have hassign : s.engine.heap.SameBlocks (s.engine.heap.assign p.block call.block) :=
      .assign hplaced hown
    have hstays : s.engine.Stays { s.engine with
        heap := s.engine.heap.assign p.block call.block } :=
      ⟨hassign, rfl⟩
    refine hgoTo hstays (fun height k q hq => ?_) ⟨hassign.heightOf hplaced, hnext.stays hstays⟩
    exact hassign.heightOf (h.placed height k q hq)
  | @refused e c hstage hverify =>
    obtain ⟨hstays, hplaced⟩ := hverified (hstands hstage).1
    rw [hverify] at hstays hplaced
    exact ⟨h.fail hstays hplaced e, hstays.climbs⟩
  | @verified c hstage hverify =>
    obtain ⟨hown, hnext⟩ := hstands hstage
    obtain ⟨hstays, hplaced⟩ := hverified hown
    rw [hverify] at hstays hplaced
    exact hgoTo hstays hplaced ⟨hstays.blocks.heightOf hown, hnext.stays hstays⟩
  | @foundAgain block p hstage hblock hp =>
    obtain ⟨hown, hnext⟩ := hstands hstage
    exact hgoTo .refl h.placed ⟨hfound hblock hp hown, hnext⟩
  | put hstage hblock | retried hstage =>
    have hstands := hstands hstage
    exact hgoTo ⟨.refl, rfl⟩ h.placed hstands
  | notified hstage => exact h.notify hcs (hstands hstage).1 (hstands hstage).2
  | cleared hstage =>
    have hstands := hstands hstage
    exact hgoTo ⟨.refl, rfl⟩ (h.placed.within ProposalCache.Part.erase.within) hstands
  | @published info hstage =>
    have hstands := hstands hstage
    have hstays : s.engine.Stays (s.engine.output (.blockInfo info)) := ⟨.refl, rfl⟩
    exact ⟨h.succeed hstays h.placed hstands, hstays.climbs⟩

end Level

lemma Level.step {t : Turn φ} (ht : strict → t.Completes) (h : Level strict s)
    (hstep : s.step env t = some s') : Level strict s' ∧ s.engine.Climbs s'.engine := by
  cases t with
  | receive block =>
    cases hstep
    exact h.receive block
  | sign r consensusArgs hash signature =>
    exact h.change env hstep (Heap.keeps_sign consensusArgs hash signature) rfl rfl
  | attach r additionalData =>
    exact h.change env hstep (Heap.keeps_setAdditionalData r additionalData) rfl rfl
  | changeCache op =>
    cases hstep
    have hstays : s.engine.Stays
        { s.engine with proposalCache := s.engine.changeCache env op } := ⟨.refl, rfl⟩
    refine ⟨h.stays hstays ?_, hstays.climbs⟩
    exact each_changeCache op (fun _ _ _ hblock => Heap.heightOf_eq hblock) h.placed
  | call caller r =>
    unfold Committer.step at hstep
    dsimp only at hstep
    split at hstep
    · next block hidle hblock =>
      cases hstep
      refine ⟨{ h with stands := fun _ hcall => ?_ }, Stays.refl.climbs⟩
      cases hcall
      exact Heap.heightOf_eq hblock
    · cases hstep
  | next sv cs =>
    obtain ⟨call, hcall, rfl⟩ := map_eq_some_iff.mp hstep
    exact h.advance ht hcall

lemma level_start (strict : Prop) (lastBlock : Block) :
    Level strict (start (CoreEngine.start lastBlock : CoreEngine φ)) where
  placed := fun _ _ _ hp => by cases hp
  reached := ⟨lastBlock.header.blockHeight, rfl, by simp [succeeded, start]⟩
  increasing := fun _ => List.Pairwise.nil
  stands := fun _ hcall => by cases hcall

/-- No turn lowers the ledger, also when steps of `CommitBlock` fail. -/
theorem ledger_climbs (env : Env φ) (lastBlock : Block) (ts : List (Turn φ)) (s : Committer φ)
    (hrun : Runs.run (step env) (start (CoreEngine.start lastBlock)) ts = some s) (t : Turn φ)
    (s' : Committer φ) (hstep : s.step env t = some s') : s.engine.Climbs s'.engine := by
  have hlevel : Level False s :=
    Runs.run_induction_all (fun _ _ _ h hstep => (h.step False.elim hstep).1) (level_start _ _) hrun
  exact (hlevel.step False.elim hstep).2

theorem ledger_climbs_twoCallers :
    ∃ s s', Runs.run (step (smallEnv .tbft)) (start (CoreEngine.start genesis))
        (twoCallers.take 8) = some s ∧ s.engine.currentHeight = some 0 ∧
      s.step (smallEnv .tbft) (.next agreeable {}) = some s' ∧ s'.engine.currentHeight = some 1 ∧
      s.engine.Climbs s'.engine :=
  ⟨_, _, eq_some_of_isSome (by decide +kernel), by decide +kernel,
    eq_some_of_isSome (by decide +kernel), by decide +kernel,
    ledger_climbs (smallEnv .tbft) genesis (twoCallers.take 8) _ (eq_some_of_isSome _)
      (.next agreeable {}) _ (eq_some_of_isSome _)⟩

end Committer
end ChainMaker.Core
