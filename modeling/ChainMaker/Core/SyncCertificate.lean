import ChainMaker.Core.CommitFidelity

/-! The certificates of synchronised blocks. A cache hit skips the check of the certificate, also
for a block that is cached only because it was proposed. -/

namespace ChainMaker.Core
open Option CoreEngine

def Log.Certified (log : Log) (block : Block) : Prop :=
  ∃ a ∈ log.accepted, a.header.blockHash = block.header.blockHash ∧
    a.additionalData = block.additionalData

lemma Log.Certified.mono {log log' : Log} {block : Block} (h : log.Certified block)
    (hsub : log.accepted ⊆ log'.accepted) : log'.Certified block := by
  obtain ⟨a, ha, hsame⟩ := h
  exact ⟨a, hsub ha, hsame⟩

lemma Log.certified_of_mem {log : Log} {block : Block} (h : block ∈ log.accepted) :
    log.Certified block := ⟨block, h, rfl, rfl⟩

namespace CoreEngine
variable {φ : Type} [DecidableEq φ] {env : Env φ} {sv : Services φ} {cs : CommitServices}
variable {c c' : CoreEngine φ} {r : ℕ} {block : Block} {mode : VerifyMode}

/-- The blocks that passed in sync mode, and those that the sync service has stored, are certified.
-/
structure SyncCertified (c : CoreEngine φ) : Prop where
  passed : ∀ block, (.syncVerify, block) ∈ c.log.passed → c.log.Certified block
  synced : ∀ block ∈ c.log.synced, c.log.Certified block

omit [DecidableEq φ] in
lemma SyncCertified.extend (h : SyncCertified c) (haccepted : c.log.accepted ⊆ c'.log.accepted)
    (hpassed : c'.log.passed = c.log.passed) (hsynced : c'.log.synced = c.log.synced) :
    SyncCertified c' where
  passed block hblock := (h.passed block (hpassed ▸ hblock)).mono haccepted
  synced block hblock := (h.synced block (hsynced ▸ hblock)).mono haccepted

omit [DecidableEq φ] in
lemma SyncCertified.of_log (h : SyncCertified c) (hlog : c'.log = c.log) : SyncCertified c' :=
  h.extend (hlog ▸ List.Subset.refl _) (congrArg Log.passed hlog) (congrArg Log.synced hlog)

/-- What the cache has under the fingerprint of the block, if anything, was put there by a
verification in sync mode, and has the block's hash and certificate. -/
def hitsSynced (env : Env φ) (c : CoreEngine φ) (r : ℕ) : Bool :=
  (c.heap.get r).all fun block => (c.getProposedBlock env block.header).all fun p =>
    (c.heap.get p.block).any fun cached => (.syncVerify, cached) ∈ c.log.passed ∧
      block.header.blockHash = cached.header.blockHash ∧
        block.additionalData = cached.additionalData

lemma SyncCertified.hit {p : BlockProposal} (h : SyncCertified c)
    (hblock : c.heap.get r = some block) (hhits : hitsSynced env c r)
    (hp : c.getProposedBlock env block.header = some p) :
    ∃ cached, c.heap.get p.block = some cached ∧ c.log.Certified cached ∧
      block.header.blockHash = cached.header.blockHash ∧
      block.additionalData = cached.additionalData := by
  simp only [hitsSynced, hblock, hp, all_some, any_eq_true, decide_eq_true_eq] at hhits
  obtain ⟨cached, hcached, hpassed, hsame⟩ := hhits
  exact ⟨cached, hcached, h.passed cached hpassed, hsame⟩

/-- The condition: whenever a block is verified in sync mode, the cache entry that it hits is of
such a verification. -/
def SyncsCertified (env : Env φ) (c : CoreEngine φ) (e : Event φ) : Prop :=
  match e with
  | .verifyBlock _ r .syncVerify => hitsSynced env c r
  | .validateAndCommitBlock _ _ r => hitsSynced env c r
  | _ => True

instance (c : CoreEngine φ) (e : Event φ) : Decidable (SyncsCertified env c e) :=
  match e with
  | .verifyBlock _ r .syncVerify => inferInstanceAs (Decidable (hitsSynced env c r = true))
  | .validateAndCommitBlock _ _ r => inferInstanceAs (Decidable (hitsSynced env c r = true))
  | .verifyBlock _ _ .consensusVerify | .receive _ | .proposing .. | .sign .. | .attach ..
  | .addBlock .. | .resetProposedAt .. | .discardAboveHeight .. => .isTrue trivial

lemma verifyBlock_certified (h : SyncCertified c) (hblock : c.heap.get r = some block)
    (hhits : hitsSynced env c r) (hok : (c.verifyBlock env sv r .syncVerify).1 = .ok ()) :
    (c.verifyBlock env sv r .syncVerify).2.log.Certified block := by
  obtain ⟨-, -, hpassed⟩ := verifyBlock_sync hblock hok
  cases hpassed with
  | again p hp haccepted hq =>
    obtain ⟨cached, -, ⟨a, ha, hhash, hdata⟩, hsame, hsame'⟩ := h.hit hblock hhits hp
    exact ⟨a, haccepted ▸ ha, hhash.trans hsame.symm, hdata.trans hsame'.symm⟩
  | new hp haccepted hq => exact Log.certified_of_mem (haccepted ▸ List.mem_cons_self)

lemma SyncCertified.verifyBlock (h : SyncCertified c) (hblock : c.heap.get r = some block)
    (hhits : mode = .syncVerify → hitsSynced env c r) :
    SyncCertified (c.verifyBlock env sv r mode).2 := by
  have hcertified : mode = .syncVerify → (c.verifyBlock env sv r mode).1 = .ok () →
      (c.verifyBlock env sv r mode).2.log.Certified block := by
    rintro rfl hok
    exact verifyBlock_certified h hblock (hhits rfl) hok
  obtain ⟨c1, hverifies, hnote⟩ := verifyBlock_spec env sv mode hblock
  have hext := hverifies.extends
  have h1 : SyncCertified c1 := h.extend hext.accepted (hext.log ▸ rfl) (hext.log ▸ rfl)
  generalize (c.verifyBlock env sv r mode).1 = res at hnote hcertified
  rw [hnote] at hcertified ⊢
  cases res with
  | error e => exact h1
  | ok u =>
    refine ⟨fun b hb => ?_, h1.synced⟩
    obtain heq | hb := List.mem_cons.mp hb
    · obtain ⟨hmode, rfl⟩ := Prod.mk.inj heq
      exact hcertified hmode.symm rfl
    · exact h1.passed b hb

lemma hitsSynced_of_miss (hblock : c.heap.get r = some block)
    (hp : c.getProposedBlock env block.header = none) : hitsSynced env c r := by
  simp [hitsSynced, hblock, hp]

lemma SyncCertified.adds (h : SyncCertified c) (hblock : c.heap.get r = some block)
    (hadds : Adds env sv c r block c') : SyncCertified c' := by
  have hverify : c.getProposedBlock env block.header = none →
      SyncCertified (c.verifyBlock env sv r .syncVerify).2 := fun hp =>
    h.verifyBlock hblock fun _ => hitsSynced_of_miss hblock hp
  cases hadds with
  | refused => exact h
  | unverified hp => exact hverify hp
  | verified hp hok hq hcommits => exact (hverify hp).of_log hcommits.log
  | cached hp hcached hcommits =>
    refine h.of_log (hcommits.log.trans ?_)
    split <;> rfl

lemma SyncCertified.stores {c₁ : CoreEngine φ} {stored : Block} (h : SyncCertified c)
    (hsolo : env.notSolo = true)
    (hblock : c.heap.get r = some block) (hhits : hitsSynced env c r) (hheap : c₁.heap = c.heap)
    (hcertified : c₁.log.Certified block) (hpassed : SyncPassed env c r block c₁)
    (hstores : Stores env c₁ block stored) : c₁.log.Certified stored := by
  cases hstores with
  | turbo | own => exact hcertified
  | @cached q _ hq hcached _ =>
    rw [hheap] at hcached
    have hown : q.block = r → c₁.log.Certified stored := fun hr => by
      rw [hr, hblock] at hcached
      exact some.inj hcached ▸ hcertified
    cases hpassed with
    | again p hp haccepted hpq =>
      obtain hr | hsame := hpq q hq
      · exact hown hr
      obtain ⟨cached, hget, hcert, -⟩ := h.hit hblock hhits hp
      rw [hsame, hget] at hcached
      exact some.inj hcached ▸ hcert.mono (haccepted ▸ List.Subset.refl _)
    | new hp _ hpq => exact hown (hpq (hp hsolo) q hq)

omit [DecidableEq φ] in
lemma SyncCertified.noteSynced {before : CoreEngine φ} (h : SyncCertified c)
    (hstore : c.store = before.store ∨ ∃ stored rwSet, c.store = (stored, rwSet) :: before.store)
    (hcert : ∀ stored rwSet, c.store = (stored, rwSet) :: before.store → c.log.Certified stored) :
    SyncCertified (c.noteSynced before) := by
  refine ⟨h.passed, fun block hblock => ?_⟩
  obtain hnew | hold := List.mem_append.mp hblock
  · obtain hsame | ⟨stored, rwSet, hcons⟩ := hstore
    · rw [hsame, Nat.sub_self] at hnew
      cases hnew
    · rw [hcons, List.length_cons, Nat.add_sub_cancel_left] at hnew
      obtain rfl := List.mem_singleton.mp hnew
      exact hcert _ rwSet hcons
  · exact h.synced block hold

lemma SyncCertified.syncs (h : SyncCertified c) (hsolo : env.notSolo = true)
    (hblock : c.heap.get r = some block) (hhits : hitsSynced env c r)
    (hsyncs : Syncs env sv cs c r c') : SyncCertified c' := by
  have hverify : SyncCertified (c.verifyBlock env sv r .syncVerify).2 :=
    h.verifyBlock hblock fun _ => hhits
  cases hsyncs with
  | processed => exact h
  | refused => exact hverify
  | added hok =>
    obtain ⟨hheap, -, hpassed⟩ := verifyBlock_sync hblock hok
    have hcert := verifyBlock_certified h hblock hhits hok
    generalize (c.verifyBlock env sv r .syncVerify).2 = c₁ at hverify hheap hpassed hcert ⊢
    have hblock₁ : c₁.heap.get r = some block := hheap ▸ hblock
    have hadds : Adds env sv c₁ r block (c₁.addBlock env sv cs r).2 := addBlock_adds hblock₁
    refine (hverify.adds hblock₁ hadds).noteSynced
      (hadds.store hblock₁) fun stored rwSet hstore => ?_
    have hstores := hadds.stores hblock₁ hstore
    exact (h.stores hsolo hblock hhits hheap hcert hpassed hstores).mono
      (hadds.accepted hblock₁)

lemma SyncCertified.proposes (h : SyncCertified c) (hproposes : Proposes env c c') :
    SyncCertified c' := by
  cases hproposes with
  | nothing hcuts | dropped block hcuts => exact h.of_log hcuts.log
  | again r rwSetMap hcuts =>
    have hc := h.of_log hcuts.log
    exact ⟨hc.passed, hc.synced⟩
  | generated block rwSetMap r hhash hheap hlast hstore hlog heach =>
    exact h.extend (hlog ▸ List.Subset.refl _) (hlog ▸ rfl) (hlog ▸ rfl)

lemma SyncCertified.step {e : Event φ} (h : SyncCertified c) (hsolo : env.notSolo = true)
    (hP : SyncsCertified env c e) (hs : c.step env e = some c') : SyncCertified c' := by
  cases e with
  | receive | resetProposedAt => exact some.inj hs ▸ h.of_log rfl
  | verifyBlock sv r mode =>
    obtain ⟨block, hblock, rfl⟩ := map_eq_some_iff.mp hs
    exact h.verifyBlock hblock fun hmode => by
      subst hmode
      exact hP
  | proposing ps height preHash => exact some.inj hs ▸ h.proposes proposing_spec
  | sign r consensusArgs hash signature =>
    obtain ⟨-, hs⟩ := ite_none_right_eq_some.mp hs
    exact some.inj hs ▸ ⟨h.passed, h.synced⟩
  | attach r additionalData =>
    obtain ⟨block, hblock, rfl⟩ := map_eq_some_iff.mp hs
    exact h.of_log rfl
  | addBlock sv cs r =>
    obtain ⟨block, hblock, rfl⟩ := map_eq_some_iff.mp hs
    exact h.adds hblock (addBlock_adds hblock)
  | validateAndCommitBlock sv cs r =>
    obtain ⟨block, hblock, rfl⟩ := map_eq_some_iff.mp hs
    exact h.syncs hsolo hblock hP validateAndCommitBlock_syncs
  | discardAboveHeight visit baseHeight =>
    refine some.inj hs ▸ h.of_log ?_
    split <;> rfl

theorem syncCertified_runs (env : Env φ) (hsolo : env.notSolo = true) (lastBlock : Block)
    (es : List (Event φ)) (c : CoreEngine φ)
    (hP : Runs.Meets (step env) (SyncsCertified env) (start lastBlock) es)
    (hrun : Runs.run (step env) (start lastBlock) es = some c) : SyncCertified c := by
  have hstart : SyncCertified (start lastBlock : CoreEngine φ) :=
    ⟨fun _ h => (List.not_mem_nil h).elim, fun _ h => (List.not_mem_nil h).elim⟩
  exact Runs.run_induction (fun _ _ _ h hP hs => h.step hsolo hP hs) hstart hP hrun

def synchronised : List (Event Snapshot.BlockHeader) :=
  [.receive (blockOne [] certificate), .verifyBlock agreeable 1 .syncVerify,
    .validateAndCommitBlock agreeable {} 1]

theorem syncCertified_synchronised :
    ∃ c, Runs.run (step (smallEnv .tbft)) (start genesis) synchronised = some c ∧
      c.log.synced = [blockOne [] certificate] ∧ SyncCertified c :=
  ⟨_, eq_some_of_isSome (by decide +kernel), by decide +kernel,
    syncCertified_runs (smallEnv .tbft) rfl genesis synchronised _ (by decide +kernel)
      (eq_some_of_isSome _)⟩

def uncertified : List (Event Snapshot.BlockHeader) :=
  [.receive (blockOne [] none), .verifyBlock agreeable 1 .consensusVerify,
    .receive (blockOne [] none), .validateAndCommitBlock agreeable {} 2]

theorem not_syncCertified :
    ∃ c, Runs.run (step (smallEnv .tbft)) (start genesis) uncertified = some c ∧
      c.log.accepted = [] ∧ (.syncVerify, blockOne [] none) ∈ c.log.passed ∧
      c.log.synced = [blockOne [] none] ∧ ¬SyncCertified c := by
  refine ⟨_, eq_some_of_isSome (by decide +kernel), by decide +kernel, by decide +kernel,
    by decide +kernel, fun h => ?_⟩
  obtain ⟨a, ha, -⟩ := h.passed (blockOne [] none) (by decide +kernel)
  exact List.ne_nil_of_mem ha (by decide +kernel)
end CoreEngine
end ChainMaker.Core
