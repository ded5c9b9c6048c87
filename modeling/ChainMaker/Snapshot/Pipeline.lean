import ChainMaker.Lib.Runs
import ChainMaker.Snapshot.Impl
import ChainMaker.Snapshot.Manager

/-! The snapshots of a pipeline of blocks, each of which the node generates (`GenerateNewBlock`) or
verifies (`ValidateBlock`). Both paths ask for the snapshot with the header that the block has then:
the generated block gets its roots only after it was executed. -/

namespace ChainMaker.Snapshot
open Option List

inductive Path where
  | generate
  | validate
deriving DecidableEq, Repr

def Path.Finishes : Path → BlockHeader → BlockHeader → Prop
  | .generate, header, block => block.notConsensus = header
  | .validate, header, block => block = header

instance (path : Path) (header block : BlockHeader) : Decidable (path.Finishes header block) := by
  cases path <;> exact inferInstanceAs (Decidable (_ = _))

/-- A block that was generated or verified, the snapshot that it was executed on, and what the
execution has left in it. -/
structure Executed where
  header : BlockHeader
  snapshot : ℕ
  path : Path
  tables : Tables
deriving DecidableEq

structure Pipeline (φ : Type) where
  manager : Manager φ
  tables : List Tables
  running : List (ℕ × Path)
  executed : List Executed
  committed : List BlockHeader

inductive PipelineEvent (φ : Type) where
  | newSnapshot (path : Path) (prevBlock block : BlockHeader)
  | finish (n : ℕ) (tables : Tables) (block : Option BlockHeader)
  | notifyBlockCommitted (block : BlockHeader) (unlinking collecting : Visit φ)

namespace Pipeline
variable {φ : Type} [DecidableEq φ] (fp : FingerPrints φ) (kind : ManagerKind) {m : Manager φ}

def start : Pipeline φ := ⟨.empty, [], [], [], []⟩

def newSnapshot (s : Pipeline φ) (path : Path) (prevBlock block : BlockHeader) :
    Option (Pipeline φ) :=
  if prevBlock.height + 1 = block.height ∧ (path = .generate → block.notConsensus = block) then
    some { s with
      manager := s.manager.newSnapshot fp prevBlock block
      tables := s.tables ++ [{}]
      running := s.running ++ [(s.manager.objects.length, path)] }
  else none

def finish (s : Pipeline φ) (n : ℕ) (tables : Tables) (block : Option BlockHeader) :
    Option (Pipeline φ) := do
  let (o, path) ← s.running[n]?
  let header ← s.manager.header o
  let s := { s with running := s.running.eraseIdx n, tables := s.tables.set o tables }
  match block with
  | none => return s
  | some block =>
    if path.Finishes header block then
      return { s with executed := ⟨block, o, path, tables⟩ :: s.executed }
    else none

def step (s : Pipeline φ) : PipelineEvent φ → Option (Pipeline φ)
  | .newSnapshot path prevBlock block => s.newSnapshot fp path prevBlock block
  | .finish n tables block => s.finish n tables block
  | .notifyBlockCommitted block unlinking collecting => some { s with
      manager := s.manager.notifyBlockCommitted fp kind block unlinking collecting
      committed := block :: s.committed }

def preTables (s : Pipeline φ) : ℕ → ℕ → List Tables
  | 0, _ => []
  | fuel + 1, o =>
    match s.manager.getPreSnapshot o with
    | none => []
    | some p => s.tables.getD p {} :: preTables s fuel p

def snapshotAt (s : Pipeline φ) (readObject : Bytes → Bytes → Value) (o : ℕ) : SnapshotImpl :=
  { parent := ⟨s.preTables s.manager.objects.length o, readObject⟩, tables := s.tables.getD o {} }

def VerifiedOn (s : Pipeline φ) (block : BlockHeader) (o : ℕ) : Prop :=
  (∃ e ∈ s.executed, e.path = .validate ∧ e.header = block ∧ e.snapshot = o) ∨
    (o, .validate) ∈ s.running ∧ s.manager.header o = some block

/-- A block is built on an uncommitted one of this node only if that one was verified here and is
above the ledger; a block is not executed again while its verified snapshot may be needed; and a
commit finds no snapshot that is linked to one above the committed block. -/
def BuildsOnVerified (s : Pipeline φ) : PipelineEvent φ → Prop
  | .newSnapshot _ prevBlock block =>
    ((∃ e ∈ s.executed, e.header = prevBlock) → ¬ prevBlock ∈ s.committed →
      (∃ e ∈ s.executed, e.path = .validate ∧ e.header = prevBlock) ∧
        ∀ b ∈ s.committed, b.height < prevBlock.height) ∧
    (¬ block ∈ s.committed → ∀ o, ¬ s.VerifiedOn block o)
  | .finish _ _ _ => True
  | .notifyBlockCommitted block _ _ => s.manager.NoneAbove block

variable {fp kind} {s s' : Pipeline φ} {prevBlock block : BlockHeader}

/-- The map leads to the snapshot of every block that was verified here and is above the ledger. -/
structure Kept (fp : FingerPrints φ) (s : Pipeline φ) : Prop where
  wellFormed : Manager.WellFormed fp s.manager
  length : s.tables.length = s.manager.objects.length
  lt : ∀ o ∈ s.running.map (·.1) ++ s.executed.map (·.snapshot), o < s.manager.objects.length
  nodup : (s.running.map (·.1) ++ s.executed.map (·.snapshot)).Nodup
  entry : ∀ block o, s.VerifiedOn block o → ¬ block ∈ s.committed →
    (∀ b ∈ s.committed, b.height < block.height) →
      s.manager.header o = some block ∧
        s.manager.snapshots.lookup (fp.calcFingerPrint block) = some o
  tables : ∀ e ∈ s.executed, s.tables[e.snapshot]? = some e.tables

lemma kept_start (fp : FingerPrints φ) : Kept fp (start : Pipeline φ) := by
  refine ⟨⟨?_, ?_⟩, rfl, ?_, ?_, ?_, ?_⟩ <;>
    simp [start, Manager.empty, Manager.header, VerifiedOn]

lemma header_newSnapshot {o : ℕ}
    (ho : o < m.objects.length) : (m.newSnapshot fp prevBlock block).header o = m.header o := by
  rw [Manager.header, Manager.newSnapshot, getElem?_append_left ho]
  rfl

lemma header_newSnapshot_self :
    (m.newSnapshot fp prevBlock block).header m.objects.length = some block := by
  simp [Manager.header, Manager.newSnapshot]

lemma Kept.newSnapshot (h : Kept fp s) {path : Path}
    (hok : s.BuildsOnVerified (.newSnapshot path prevBlock block))
    (hs : s.newSnapshot fp path prevBlock block = some s') : Kept fp s' := by
  unfold Pipeline.newSnapshot at hs
  split at hs
  case isFalse => cases hs
  case isTrue hblock =>
  cases hs
  have hlength : (s.manager.newSnapshot fp prevBlock block).objects.length =
      s.manager.objects.length + 1 := by
    simp [Manager.newSnapshot]
  have hperm : ((s.running ++ [(s.manager.objects.length, path)]).map (·.1) ++
      s.executed.map (·.snapshot)).Perm
      (s.manager.objects.length :: (s.running.map (·.1) ++ s.executed.map (·.snapshot))) := by
    rw [map_append, append_assoc]
    exact perm_middle
  refine ⟨h.wellFormed.newSnapshot hblock.1, ?_, fun o ho => ?_, ?_,
    fun b o hb hcommitted habove => ?_, fun e he => ?_⟩
  · rw [length_append, length_singleton, hlength, h.length]
  · rw [hlength]
    rcases mem_cons.mp (hperm.mem_iff.mp ho) with rfl | ho
    · exact Nat.lt_succ_self _
    · exact Nat.lt_succ_of_lt (h.lt o ho)
  · exact hperm.nodup_iff.mpr (nodup_cons.mpr ⟨fun hmem => lt_irrefl _ (h.lt _ hmem), h.nodup⟩)
  · -- Either the block is the new one, or it has its snapshot from before under another key.
    have hcases : s.VerifiedOn b o ∨ b = block ∧ o = s.manager.objects.length := by
      rcases hb with hb | ⟨hrunning, hheader⟩
      · exact .inl (.inl hb)
      rcases mem_append.mp hrunning with hrunning | hnewest
      · have ho := h.lt o (mem_append_left _ (mem_map_of_mem hrunning))
        exact .inl (.inr ⟨hrunning, (header_newSnapshot ho).symm.trans hheader⟩)
      · cases mem_singleton.mp hnewest
        exact .inr ⟨mem_unique hheader header_newSnapshot_self, rfl⟩
    rcases hcases with hold | ⟨rfl, rfl⟩
    · obtain ⟨hheader, hlookup⟩ := h.entry b o hold hcommitted habove
      have hne : b ≠ block := by
        rintro rfl
        exact hok.2 hcommitted o hold
      have ho : o < s.manager.objects.length := by
        obtain ⟨l, hl, -⟩ := map_eq_some_iff.mp hheader
        exact (List.getElem?_eq_some_iff.mp hl).1
      refine ⟨(header_newSnapshot ho).trans hheader, ?_⟩
      rw [Manager.newSnapshot, AList.lookup_insert_ne (fun heq => hne (fp.injective heq))]
      exact hlookup
    · exact ⟨header_newSnapshot_self, AList.lookup_insert _⟩
  · have ho := h.lt e.snapshot (mem_append_right _ (mem_map_of_mem he))
    rw [getElem?_append_left (h.length ▸ ho)]
    exact h.tables e he

lemma Kept.finish (h : Kept fp s) {n : ℕ} {tables : Tables} {block : Option BlockHeader}
    (hs : s.finish n tables block = some s') : Kept fp s' := by
  simp only [Pipeline.finish, bind_eq_bind, bind_eq_some_iff] at hs
  obtain ⟨⟨o, path⟩, ho, header, hheader, hs⟩ := hs
  have hperm : (o :: (s.running.eraseIdx n).map (·.1)).Perm (s.running.map (·.1)) :=
    (cons_eraseIdx_perm ho).map Prod.fst
  have hall := hperm.append_right (s.executed.map (·.snapshot))
  obtain ⟨hfresh, hnodup⟩ := nodup_cons.mp (hall.nodup_iff.mpr h.nodup)
  have htables : ∀ e ∈ s.executed, (s.tables.set o tables)[e.snapshot]? = some e.tables := by
    intro e he
    have hne : o ≠ e.snapshot := by
      rintro rfl
      exact hfresh (mem_append_right _ (mem_map_of_mem he))
    rw [getElem?_set_ne hne]
    exact h.tables e he
  have hverified : ∀ b p, VerifiedOn { s with
      running := s.running.eraseIdx n, tables := s.tables.set o tables } b p →
        s.VerifiedOn b p := by
    rintro b p (hb | ⟨hrunning, hb⟩)
    · exact .inl hb
    · exact .inr ⟨mem_of_mem_eraseIdx hrunning, hb⟩
  have hdone : Kept fp { s with
      running := s.running.eraseIdx n, tables := s.tables.set o tables } :=
    ⟨h.wellFormed, (length_set).trans h.length,
      fun p hp => h.lt p (hall.mem_iff.mp (mem_cons_of_mem _ hp)), hnodup,
      fun b p hb => h.entry b p (hverified b p hb), htables⟩
  cases block with
  | none => exact some.inj hs ▸ hdone
  | some block =>
    dsimp only at hs
    split at hs
    case isFalse => cases hs
    case isTrue hfinishes =>
    cases hs
    have hmiddle := perm_middle.trans hall
    refine ⟨hdone.wellFormed, hdone.length, fun p hp => h.lt p (hmiddle.mem_iff.mp hp),
      hmiddle.nodup_iff.mpr h.nodup, fun b p hb hcommitted habove => ?_, fun e he => ?_⟩
    · refine h.entry b p ?_ hcommitted habove
      rcases hb with ⟨e, he, hpath, hb, hp⟩ | hb
      · rcases mem_cons.mp he with rfl | he
        · -- The verification ends on the object that it ran on.
          obtain rfl : path = .validate := hpath
          obtain rfl : block = header := hfinishes
          obtain rfl : block = b := hb
          obtain rfl : o = p := hp
          exact .inr ⟨mem_of_getElem? ho, hheader⟩
        · exact .inl ⟨e, he, hpath, hb, hp⟩
      · exact hverified b p (.inr hb)
    · rcases mem_cons.mp he with rfl | he
      · refine getElem?_set_self ?_
        rw [h.length]
        exact h.lt o (hall.mem_iff.mp mem_cons_self)
      · exact htables e he

lemma length_of_onlyLoses {L D : BlockHeader → Prop} {m m' : Manager φ}
    (h : Manager.OnlyLoses L D m m') : m'.objects.length = m.objects.length := by
  have hnone : ∀ (m : Manager φ) (o : ℕ), m.header o = none ↔ m.objects.length ≤ o := by
    intro m o
    rw [Manager.header, map_eq_none_iff, getElem?_eq_none_iff]
  refine le_antisymm ?_ ?_
  · rw [← hnone, h.header, hnone]
  · rw [← hnone, ← h.header, hnone]

lemma Kept.notifyBlockCommitted (h : Kept fp s) {block : BlockHeader}
    (unlinking collecting : Visit φ) (hok : s.manager.NoneAbove block) : Kept fp { s with
      manager := s.manager.notifyBlockCommitted fp kind block unlinking collecting
      committed := block :: s.committed } := by
  have hframe : Manager.Frame kind block s.committed s.manager
      (s.manager.notifyBlockCommitted fp kind block unlinking collecting) :=
    h.wellFormed.frame_of_noneAbove hok unlinking collecting
  have honly := hframe.only
  have hlength := length_of_onlyLoses honly
  refine ⟨honly.wellFormed h.wellFormed, h.length.trans hlength.symm,
    fun o ho => hlength ▸ h.lt o ho, h.nodup, fun b o hb hcommitted habove => ?_, h.tables⟩
  have hverified : s.VerifiedOn b o :=
    hb.imp_right fun hb => ⟨hb.1, (honly.header o).symm.trans hb.2⟩
  obtain ⟨hheader, hlookup⟩ :=
    h.entry b o hverified (fun hmem => hcommitted (mem_cons_of_mem _ hmem))
    fun b' hb' => habove b' (mem_cons_of_mem _ hb')
  have hblock : block.height < b.height := habove block mem_cons_self
  refine ⟨(honly.header o).trans hheader, ?_⟩
  rcases honly.entry (fp.calcFingerPrint b) with hsame | ⟨-, o', header, ho', hheader', hlost⟩
  · exact hsame.trans hlookup
  cases hlookup.symm.trans ho'
  cases hheader.symm.trans hheader'
  rcases hlost with hown | hold
  · exact absurd (Manager.ManagerKind.height_of_mem_own hown) hblock.ne'
  · rw [Manager.Old] at hold
    omega

lemma Kept.step (h : Kept fp s) {e : PipelineEvent φ} (hok : s.BuildsOnVerified e)
    (hs : s.step fp kind e = some s') : Kept fp s' := by
  cases e with
  | newSnapshot path prevBlock block => exact h.newSnapshot hok hs
  | finish n tables block => exact h.finish hs
  | notifyBlockCommitted block unlinking collecting =>
    exact some.inj hs ▸ h.notifyBlockCommitted unlinking collecting hok

theorem linked_to_predecessor (fp : FingerPrints φ) (kind : ManagerKind)
    (es : List (PipelineEvent φ)) (s s' : Pipeline φ)
    (hmeets : Runs.Meets (step fp kind) BuildsOnVerified start es)
    (hrun : Runs.run (step fp kind) start es = some s) (path : Path) (prevBlock block : BlockHeader)
    (hok : s.BuildsOnVerified (.newSnapshot path prevBlock block))
    (hs : s.step fp kind (.newSnapshot path prevBlock block) = some s')
    (hexecuted : ∃ e ∈ s.executed, e.header = prevBlock) (huncommitted : prevBlock ∉ s.committed) :
    ∃ e ∈ s.executed, e.header = prevBlock ∧
      s'.manager.getPreSnapshot s.manager.objects.length = some e.snapshot ∧
      ∀ readObject contractName key sv,
        e.tables.writeTable.lookup (constructKey contractName key) = some sv →
        (s'.snapshotAt readObject s.manager.objects.length).getKey contractName key = sv.value := by
  have hkept : Kept fp s :=
    Runs.run_induction (I := Kept fp) (fun _ _ _ h hok hs => h.step hok hs)
      (kept_start fp) hmeets hrun
  obtain ⟨⟨e, he, hpath, heq⟩, habove⟩ := hok.1 hexecuted huncommitted
  obtain ⟨-, hlookup⟩ :=
    hkept.entry prevBlock e.snapshot (.inl ⟨e, he, hpath, heq, rfl⟩) huncommitted habove
  have htables := hkept.tables e he
  change s.newSnapshot fp path prevBlock block = some s' at hs
  unfold newSnapshot at hs
  split at hs
  case isFalse => cases hs
  case isTrue hblock =>
  cases hs
  have hne : prevBlock ≠ block := by
    rintro rfl
    omega
  have hlink : (s.manager.newSnapshot fp prevBlock block).getPreSnapshot s.manager.objects.length =
      some e.snapshot := by
    simp only [Manager.getPreSnapshot, Manager.newSnapshot, getElem?_concat_length, bind_some]
    rw [AList.lookup_insert_ne fun hfp => hne (fp.injective hfp)]
    exact hlookup
  refine ⟨e, he, heq, hlink, fun readObject contractName key sv hsv => ?_⟩
  have hlength : (s.manager.newSnapshot fp prevBlock block).objects.length =
      s.manager.objects.length + 1 := by
    simp [Manager.newSnapshot]
  have hown : (s.tables ++ [({} : Tables)]).getD s.manager.objects.length {} = {} := by
    rw [← hkept.length]
    simp
  have hpre : (s.tables ++ [({} : Tables)]).getD e.snapshot {} = e.tables := by
    have hlt := (List.getElem?_eq_some_iff.mp htables).1
    rw [getD_eq_getElem?_getD, getElem?_append_left hlt, htables]
    rfl
  simp only [snapshotAt, SnapshotImpl.getKey, hlength, preTables, hlink, hown, hpre]
  simp [Tables.get, Parent.getKey, Parent.getKey.go, hsv]

open Manager (headerPrints blockAt)

def finished : BlockHeader := { blockAt 5 with txRoot := [1], dagHash := [2], rwSetRoot := [3] }

def written : Tables := { writeTable := [([1], ⟨0, some [7]⟩)] }

theorem linked_to_predecessor_verified :
    ∃ s s', Runs.run (step headerPrints .impl) start [.newSnapshot .validate (blockAt 4) finished,
        .finish 0 written (some finished)] = some s ∧
      s.step headerPrints .impl (.newSnapshot .validate finished (blockAt 6)) = some s' ∧
      s'.manager.getPreSnapshot 1 = some 0 ∧
      (s'.snapshotAt (fun _ _ => some [0]) 1).getKey [] [1] = some [7] := by
  obtain ⟨s, s', hrun, hs, hrunning, hexecuted, hcommitted, hlength⟩ : ∃ s s',
      Runs.run (step headerPrints .impl) start
        [.newSnapshot .validate (blockAt 4) finished, .finish 0 written (some finished)] = some s ∧
      s.step headerPrints .impl (.newSnapshot .validate finished (blockAt 6)) = some s' ∧
      s.running = [] ∧ s.executed = [⟨finished, 0, .validate, written⟩] ∧ s.committed = [] ∧
      s.manager.objects.length = 1 :=
    ⟨_, _, eq_some_of_isSome (by decide +kernel),
      eq_some_of_isSome (by decide +kernel), by decide +kernel⟩
  have hmeets : Runs.Meets (step headerPrints .impl) BuildsOnVerified start
      [.newSnapshot .validate (blockAt 4) finished, .finish 0 written (some finished)] := by
    refine ⟨⟨fun ⟨_, he, _⟩ => absurd he not_mem_nil, fun _ o hverified => ?_⟩, ?_⟩
    · rcases hverified with ⟨e, he, -⟩ | ⟨hmem, -⟩
      · exact absurd he not_mem_nil
      · exact absurd hmem not_mem_nil
    cases step headerPrints .impl start (.newSnapshot .validate (blockAt 4) finished) with
    | none => trivial
    | some t =>
      refine ⟨trivial, ?_⟩
      cases step headerPrints .impl t (.finish 0 written (some finished)) <;> trivial
  have hmem : (⟨finished, 0, .validate, written⟩ : Executed) ∈ s.executed :=
    hexecuted ▸ mem_singleton_self _
  have hok : s.BuildsOnVerified (.newSnapshot .validate finished (blockAt 6)) := by
    refine ⟨fun _ _ => ⟨⟨_, hmem, rfl, rfl⟩, fun b hb => ?_⟩, fun _ o hverified => ?_⟩
    · rw [hcommitted] at hb
      exact absurd hb not_mem_nil
    rcases hverified with ⟨e, he, -, hheader, -⟩ | ⟨hmem, -⟩
    · rw [hexecuted] at he
      obtain rfl := mem_singleton.mp he
      exact absurd hheader (by decide)
    · rw [hrunning] at hmem
      exact absurd hmem not_mem_nil
  obtain ⟨e, he, -, hlink, hkey⟩ :=
    linked_to_predecessor headerPrints .impl _ s s' hmeets hrun .validate
    finished (blockAt 6) hok hs ⟨_, hmem, rfl⟩ (hcommitted ▸ not_mem_nil)
  rw [hexecuted] at he
  obtain rfl := mem_singleton.mp he
  rw [hlength] at hlink hkey
  exact ⟨s, s', hrun, hs, hlink, hkey _ [] [1] ⟨0, some [7]⟩ rfl⟩

/-- The node generates the block of height 5 itself: the snapshot is stored under the header without
roots, and the next block reads the ledger. -/
theorem not_linked_to_generated :
    ∃ s s', Runs.run (step headerPrints .impl) start
      [.newSnapshot .generate (blockAt 4) (blockAt 5),
        .finish 0 written (some finished)] = some s ∧
      s.step headerPrints .impl (.newSnapshot .validate finished (blockAt 6)) = some s' ∧
      s.executed = [⟨finished, 0, .generate, written⟩] ∧ s.committed = [] ∧
        s.manager.objects.length = 1 ∧
      s'.manager.getPreSnapshot 1 = none ∧
      (s'.snapshotAt (fun _ _ => some [0]) 1).getKey [] [1] = some [0] :=
  ⟨_, _, eq_some_of_isSome (by decide +kernel),
    eq_some_of_isSome (by decide +kernel), by decide +kernel⟩

end Pipeline

end ChainMaker.Snapshot
