import ChainMaker.Scheduler.WriteOrder

/-! What `GetKey` answers along a chain of linked snapshots. A snapshot gets a successor when its
block is executed; from then on only the successor takes transactions. -/

namespace ChainMaker.Scheduler
open Option List ChainMaker.Snapshot

/-- The last write to the pair in the nearest snapshot that has one, or the value of the ledger. -/
def chainValue (readObject : Bytes → Bytes → Value) : List (List TxRWSet) → Bytes × Bytes → Value
  | [], p => readObject p.1 p.2
  | applied :: below, p =>
    WriteLog.overlay (chainValue readObject below) (applied.flatMap writesOf) p

/-- The newest snapshot, what was applied to those below it, and what `GetKey` gave for its block.
-/
structure SnapshotChain where
  snapshot : SnapshotImpl
  below : List (List TxRWSet)
  given : List TxRead

inductive ChainStep where
  | link
  | getKey (contractName key : Bytes)
  | apply (tx : Transaction) (txRWSet : TxRWSet) (txResult : Result)

def ChainStep.UsesOnly (U : Set (Bytes × Bytes)) : ChainStep → Prop
  | .link => True
  | .getKey contractName key => (contractName, key) ∈ U
  | .apply _ txRWSet _ => (∀ r ∈ txRWSet.txReads, (r.contractName, r.key) ∈ U) ∧
      ∀ w ∈ txRWSet.txWrites, (w.contractName, w.key) ∈ U

namespace SnapshotChain
variable {U : Set (Bytes × Bytes)} {readObject : Bytes → Bytes → Value} {c c' : SnapshotChain}
  {s : SnapshotImpl} {p : Bytes × Bytes} {v : Value}

def start (readObject : Bytes → Bytes → Value) : SnapshotChain :=
  ⟨{ parent := ⟨[], readObject⟩ }, [], []⟩

def applied (c : SnapshotChain) : List (List TxRWSet) := c.snapshot.txRWSetTable :: c.below

def step (c : SnapshotChain) : ChainStep → Option SnapshotChain
  | .link =>
    let parent := c.snapshot.parent
    some ⟨{ parent := ⟨c.snapshot.tables :: parent.preSnapshots, parent.readObject⟩ },
      c.applied, []⟩
  | .getKey contractName key =>
    some { c with given := ⟨contractName, key, c.snapshot.getKey contractName key⟩ :: c.given }
  | .apply tx txRWSet txResult =>
    -- a recorded read holds what the transaction got from `GetKey` or from its own writes
    if ∀ r ∈ txRWSet.txReads, r ∈ c.given ∨ ∃ w ∈ txRWSet.txWrites,
        constructKey w.contractName w.key = constructKey r.contractName r.key then
      some { c with snapshot := c.snapshot.apply tx txRWSet txResult }
    else none

/-- The reads of the pairs are exact, and a transaction changes only what the contracts read that it
writes to. -/
structure Exact (U : Set (Bytes × Bytes)) (readObject : Bytes → Bytes → Value) (c : SnapshotChain) :
    Prop where
  value : ∀ p ∈ U, c.snapshot.getKey p.1 p.2 = chainValue readObject c.applied p
  isolated : ∀ tx rw res c', c.step (.apply tx rw res) = some c' →
    (ChainStep.apply tx rw res).UsesOnly U → ∀ p ∈ U, (∀ w ∈ rw.txWrites, w.contractName ≠ p.1) →
    c'.snapshot.getKey p.1 p.2 = c.snapshot.getKey p.1 p.2

/-- Unless the snapshot has a write to the pair, the value is that of the snapshots below. -/
def Fresh (s : SnapshotImpl) (p : Bytes × Bytes) (v : Value) : Prop :=
  s.tables.writeTable.lookup (constructKey p.1 p.2) = none → v = s.parent.getKey p.1 p.2

structure Inv (U : Set (Bytes × Bytes)) (readObject : Bytes → Bytes → Value) (c : SnapshotChain) :
    Prop where
  last : LastWrites U c.snapshot
  parent : ∀ p ∈ U, c.snapshot.parent.getKey p.1 p.2 = chainValue readObject c.below p
  given : ∀ r ∈ c.given, Fresh c.snapshot (r.contractName, r.key) r.value
  read : ∀ p ∈ U, ∀ sv, c.snapshot.tables.readTable.lookup (constructKey p.1 p.2) = some sv →
    Fresh c.snapshot p sv.value

lemma Fresh.apply (h : Fresh s p v) (tx : Transaction) (rw : TxRWSet) (res : Result) :
    Fresh (s.apply tx rw res) p v := by
  intro hnone
  rw [apply_writeTable, lookup_append, or_eq_none_iff] at hnone
  exact h hnone.2

lemma Inv.fresh (h : Inv U readObject c) (hp : p ∈ U) :
    Fresh c.snapshot p (c.snapshot.getKey p.1 p.2) := by
  intro hnone
  rw [SnapshotImpl.getKey, Tables.get, hnone]
  cases hread : c.snapshot.tables.readTable.lookup (constructKey p.1 p.2) with
  | none => rfl
  | some sv => exact h.read p hp sv hread hnone

lemma Inv.value (h : Inv U readObject c) (hp : p ∈ U) :
    c.snapshot.getKey p.1 p.2 = chainValue readObject c.applied p := by
  cases hwrite : c.snapshot.tables.writeTable.lookup (constructKey p.1 p.2) with
  | some sv =>
    rw [SnapshotImpl.getKey, Tables.get, hwrite]
    exact (h.last.written p hp sv hwrite _).symm
  | none =>
    rw [h.fresh hp hwrite, h.parent p hp]
    refine (WriteLog.overlay_of_forall_ne fun w hw hwp => ?_).symm
    obtain ⟨rw, hrw, hw⟩ := mem_flatMap.mp hw
    obtain ⟨w', hw', rfl⟩ := mem_map.mp hw
    exact h.last.unwritten p hp hwrite rw hrw (hwp ▸ mem_map_of_mem hw')

lemma Inv.apply (hcol : NoCollision U) (h : Inv U readObject c) {tx : Transaction} {rw : TxRWSet}
    {res : Result} (huses : (ChainStep.apply tx rw res).UsesOnly U)
    (hs : c.step (.apply tx rw res) = some c') : Inv U readObject c' := by
  obtain ⟨hreads, hs⟩ := ite_none_right_eq_some.mp hs
  cases hs
  refine ⟨h.last.apply hcol huses.2 tx res, h.parent, fun r hr => (h.given r hr).apply tx rw res,
    fun p hp sv hsv => ?_⟩
  rw [apply_readTable, lookup_append] at hsv
  obtain hnew | ⟨-, hold⟩ := or_eq_some_iff.mp hsv
  · obtain ⟨r, hr, heq⟩ := mem_map.mp (mem_reverse.mp (mem_of_lookup_eq_some hnew))
    obtain ⟨hkey, rfl⟩ := Prod.mk.inj heq
    obtain rfl : (r.contractName, r.key) = p := hcol _ (huses.1 r hr) p hp hkey
    obtain hgiven | ⟨w, hw, hown⟩ := hreads r hr
    · exact (h.given r hgiven).apply tx rw res
    -- an own write is in the write table, which is asked first
    intro hnone
    rw [apply_writeTable, lookup_append, or_eq_none_iff] at hnone
    have hne := (lookup_writeEntries hcol (fun _ => none) _ huses.2 hp).2 hnone.1 w hw
    exact absurd (hcol _ (huses.2 w hw) _ hp hown) hne
  · exact (h.read p hp sv hold).apply tx rw res

lemma getKey_link (s : SnapshotImpl) (contractName key : Bytes) :
    Parent.getKey ⟨s.tables :: s.parent.preSnapshots, s.parent.readObject⟩ contractName key =
      s.getKey contractName key := by
  have hgo : ∀ ts ts', Parent.getKey.go ⟨ts', s.parent.readObject⟩ contractName key ts =
      Parent.getKey.go s.parent contractName key ts := by
    intro ts ts'
    induction ts with
    | nil => rfl
    | cons t ts ih => rw [Parent.getKey.go, Parent.getKey.go, ih]
  rw [Parent.getKey, Parent.getKey.go, hgo]
  rfl

lemma Inv.step (hcol : NoCollision U) {e : ChainStep} (h : Inv U readObject c)
    (huses : e.UsesOnly U) (hs : c.step e = some c') : Inv U readObject c' := by
  cases e with
  | link =>
    cases hs
    exact ⟨⟨by simp, by simp⟩, fun p hp => (getKey_link _ _ _).trans (h.value hp), by simp, by simp⟩
  | getKey contractName key =>
    cases hs
    exact { h with given := forall_mem_cons.mpr ⟨h.fresh huses, h.given⟩ }
  | apply tx rw res => exact h.apply hcol huses hs

lemma Inv.exact (hcol : NoCollision U) (h : Inv U readObject c) : Exact U readObject c where
  value _ hp := h.value hp
  isolated tx rw res c' hs huses p hp hother := by
    have hvalue := (h.apply hcol huses hs).value hp
    obtain ⟨-, hs⟩ := ite_none_right_eq_some.mp hs
    cases hs
    have hwrites : ∀ w ∈ writesOf rw, w.1 ≠ p := by
      intro w hw hwp
      obtain ⟨w', hw', rfl⟩ := mem_map.mp hw
      exact hother w' hw' (congrArg Prod.fst hwp)
    rw [hvalue, h.value hp, applied, applied, chainValue, chainValue, SnapshotImpl.apply,
      flatMap_append, WriteLog.overlay_append, flatMap_singleton]
    exact WriteLog.overlay_of_forall_ne hwrites

theorem exact_runs (U : Set (Bytes × Bytes)) (hcol : NoCollision U)
    (readObject : Bytes → Bytes → Value) (es : List ChainStep) (c : SnapshotChain)
    (huses : ∀ e ∈ es, e.UsesOnly U) (hrun : Runs.run step (start readObject) es = some c) :
    Exact U readObject c := by
  have hstart : Inv U readObject (start readObject) :=
    ⟨⟨by simp [start], by simp [start]⟩, fun _ _ => rfl, by simp [start], by simp [start]⟩
  exact (Runs.run_induction_mem (fun _ _ _ h => h.step hcol) hstart huses hrun).exact hcol

/-- A first block writes a key of contract `a`; a transaction of the next block reads it. -/
def twoBlocks : List ChainStep :=
  [.apply ⟨[1], []⟩ ⟨[1], [], [⟨[97], [98, 99], some [1]⟩]⟩ ⟨0, []⟩, .link, .getKey [97] [98, 99],
    .apply ⟨[2], []⟩ ⟨[2], [⟨[97], [98, 99], some [1]⟩], []⟩ ⟨0, []⟩]

theorem exact_runs_twoBlocks :
    ∃ c, Runs.run step (start fun _ _ => none) twoBlocks = some c ∧
      c.snapshot.getKey [97] [98, 99] = some [1] ∧
      Exact {([97], [98, 99]), ([100], [98])} (fun _ _ => none) c := by
  refine ⟨_, eq_some_of_isSome (by decide), by decide,
    exact_runs _ ?_ _ _ _ ?_ (eq_some_of_isSome _)⟩
  · simp [NoCollision, constructKey]
  · simp [twoBlocks, ChainStep.UsesOnly]

/-- Contract `ab`, which has written nothing, reads under `c` what contract `a` wrote under `bc`. -/
theorem not_exact :
    ∃ c, Runs.run step (start fun _ _ => none) twoBlocks = some c ∧
      c.snapshot.getKey [97, 98] [99] = some [1] ∧
      chainValue (fun _ _ => none) c.applied ([97, 98], [99]) = none :=
  ⟨_, eq_some_of_isSome (by decide), by decide, by decide⟩

end SnapshotChain
end ChainMaker.Scheduler
