import ChainMaker.Basic

/-! The two snapshot managers (`snapshot_manager.go`, `snapshot_manager_evidence.go`): the map
from fingerprints to snapshots, the links from a snapshot to the one of the block before, and
what is left of both after a commit. -/

namespace ChainMaker.Snapshot
open Option List

structure BlockHeader where
  chainId : String
  blockHeight : UInt64
  blockTimestamp : ℤ
  proposer : Bytes
  preBlockHash : Bytes
  txRoot : Bytes
  dagHash : Bytes
  rwSetRoot : Bytes
deriving DecidableEq

namespace BlockHeader

def height (block : BlockHeader) : ℕ := block.blockHeight.toNat

def notConsensus (block : BlockHeader) : BlockHeader :=
  { block with txRoot := [], dagHash := [], rwSetRoot := [] }

end BlockHeader

structure FingerPrints (φ : Type) where
  calcFingerPrint : BlockHeader → φ
  injective : calcFingerPrint.Injective

structure Linked where
  header : BlockHeader
  preSnapshot : Option ℕ
deriving DecidableEq

structure Manager (φ : Type) where
  objects : List Linked
  snapshots : GoMap φ ℕ

structure Visit (φ : Type) where
  order : List φ → List φ
  perm : ∀ keys, (order keys).Perm keys

inductive ManagerKind where
  | impl
  | evidence
deriving DecidableEq

def ManagerKind.own (kind : ManagerKind) (block : BlockHeader) : List BlockHeader :=
  match kind with
  | .impl => [block, block.notConsensus]
  | .evidence => [block]

namespace Manager
variable {φ : Type} [DecidableEq φ] (fp : FingerPrints φ) (m : Manager φ) {pre : BlockHeader}
  {s p : ℕ} {k : φ}

def empty : Manager φ := ⟨[], ∅⟩

def newSnapshot (prevBlock block : BlockHeader) : Manager φ :=
  let snapshots := m.snapshots.insert (fp.calcFingerPrint block) m.objects.length
  ⟨m.objects ++ [⟨block, snapshots.lookup (fp.calcFingerPrint prevBlock)⟩], snapshots⟩

def header (s : ℕ) : Option BlockHeader := m.objects[s]?.map Linked.header

def getPreSnapshot (s : ℕ) : Option ℕ := m.objects[s]?.bind Linked.preSnapshot

def preHeader (s : ℕ) : Option BlockHeader := (m.getPreSnapshot s).bind m.header

def unlink (s : ℕ) : Manager φ :=
  { m with objects := m.objects.modify s fun o => { o with preSnapshot := none } }

def delete (k : φ) : Manager φ := { m with snapshots := m.snapshots.erase k }

def unlinkFrom (deleteFp : φ) (k : φ) : Manager φ :=
  match m.snapshots.lookup k with
  | none => m
  | some s =>
    match m.preHeader s with
    | none => m
    | some pre => if deleteFp = fp.calcFingerPrint pre then m.unlink s else m

/-- One turn of the loop over those that are linked to a snapshot that is too old. A key that an
earlier turn has deleted is not visited; the difference of the heights is one of `uint64`. -/
def collect (blockHeight : UInt64) (k : φ) : Manager φ :=
  match m.snapshots.lookup k with
  | none => m
  | some s =>
    match m.preHeader s with
    | none => m
    | some pre =>
      if 8 < blockHeight - pre.blockHeight then
        (m.delete (fp.calcFingerPrint pre)).unlink s
      else m

def notifyBlockCommitted (kind : ManagerKind) (block : BlockHeader)
    (unlinking collecting : Visit φ) : Manager φ :=
  let m := (unlinking.order m.snapshots.keys).foldl
    (fun m k => m.unlinkFrom fp (fp.calcFingerPrint block) k) m
  let m := (kind.own block).foldl (fun m header => m.delete (fp.calcFingerPrint header)) m
  (collecting.order m.snapshots.keys).foldl (fun m k => m.collect fp block.blockHeight k) m

def notifyBlockCommittedImpl (block : BlockHeader) (unlinking collecting : Visit φ) : Manager φ :=
  m.notifyBlockCommitted fp .impl block unlinking collecting

def notifyBlockCommittedEvidence (block : BlockHeader) (unlinking collecting : Visit φ) :
    Manager φ :=
  m.notifyBlockCommitted fp .evidence block unlinking collecting

/-! ### What is lost -/

variable {fp m} {m' m'' : Manager φ} {L D : BlockHeader → Prop} {block : BlockHeader} {s : ℕ}

omit [DecidableEq φ] in
@[simp] lemma header_unlink (s t : ℕ) : (m.unlink s).header t = m.header t := by
  simp only [header, unlink, getElem?_modify]
  split <;> cases m.objects[t]? <;> rfl

omit [DecidableEq φ] in
lemma getPreSnapshot_unlink (s t : ℕ) :
    (m.unlink s).getPreSnapshot t = if s = t then none else m.getPreSnapshot t := by
  simp only [getPreSnapshot, unlink, getElem?_modify]
  split <;> cases m.objects[t]? <;> rfl

/-- Links to snapshots with `L` and entries of snapshots with `D` may be gone; nothing else is
changed. -/
structure OnlyLoses (L D : BlockHeader → Prop) (m m' : Manager φ) : Prop where
  header : ∀ s, m'.header s = m.header s
  link : ∀ s, m'.getPreSnapshot s = m.getPreSnapshot s ∨
    m'.getPreSnapshot s = none ∧ ∃ pre, m.preHeader s = some pre ∧ L pre
  entry : ∀ k, m'.snapshots.lookup k = m.snapshots.lookup k ∨
    m'.snapshots.lookup k = none ∧ ∃ s h, m.snapshots.lookup k = some s ∧ m.header s = some h ∧ D h

namespace OnlyLoses

lemma refl : OnlyLoses L D m m := ⟨fun _ => rfl, fun _ => .inl rfl, fun _ => .inl rfl⟩

section
variable (h : OnlyLoses L D m m')
include h

lemma getPreSnapshot_of_some (hp : m'.getPreSnapshot s = some p) : m.getPreSnapshot s = some p := by
  obtain hsame | ⟨hnone, -⟩ := h.link s
  · rw [← hsame, hp]
  · exact nomatch hnone.symm.trans hp

lemma preHeader_of_some (hpre : m'.preHeader s = some pre) : m.preHeader s = some pre := by
  obtain ⟨p, hp, hheader⟩ := bind_eq_some_iff.mp hpre
  rw [h.header] at hheader
  exact bind_eq_some_iff.mpr ⟨p, h.getPreSnapshot_of_some hp, hheader⟩

lemma lookup_of_some (hs : m'.snapshots.lookup k = some s) : m.snapshots.lookup k = some s := by
  obtain hsame | ⟨hnone, -⟩ := h.entry k
  · rw [← hsame, hs]
  · exact nomatch hnone.symm.trans hs

lemma trans (h' : OnlyLoses L D m' m'') : OnlyLoses L D m m'' := by
  refine ⟨fun s => (h'.header s).trans (h.header s), fun s => ?_, fun k => ?_⟩
  · obtain hsame | ⟨hnone, pre, hpre, hL⟩ := h'.link s
    · rw [hsame]
      exact h.link s
    · exact .inr ⟨hnone, pre, h.preHeader_of_some hpre, hL⟩
  · obtain hsame | ⟨hnone, s, header, hs, hheader, hD⟩ := h'.entry k
    · rw [hsame]
      exact h.entry k
    · exact .inr ⟨hnone, s, header, h.lookup_of_some hs, (h.header s).symm.trans hheader, hD⟩

lemma mono {L' D' : BlockHeader → Prop} (hL : ∀ b, L b → L' b) (hD : ∀ b, D b → D' b) :
    OnlyLoses L' D' m m' := by
  refine ⟨h.header, fun s => (h.link s).imp_right ?_, fun k => (h.entry k).imp_right ?_⟩
  · rintro ⟨hnone, pre, hpre, hpreL⟩
    exact ⟨hnone, pre, hpre, hL pre hpreL⟩
  · rintro ⟨hnone, s, header, hs, hheader, hheaderD⟩
    exact ⟨hnone, s, header, hs, hheader, hD header hheaderD⟩

end

lemma foldl {α : Type} {step : Manager φ → α → Manager φ}
    (hstep : ∀ m' a, OnlyLoses L D m m' → OnlyLoses L D m' (step m' a)) (l : List α)
    (h : OnlyLoses L D m m') : OnlyLoses L D m (l.foldl step m') := by
  induction l generalizing m' with
  | nil => exact h
  | cons a l ih => exact ih (h.trans (hstep m' a h))

lemma unlink (hpre : m.preHeader s = some pre) (hL : L pre) : OnlyLoses L D m (m.unlink s) := by
  refine ⟨fun t => header_unlink s t, fun t => ?_, fun k => .inl rfl⟩
  rw [getPreSnapshot_unlink]
  by_cases ht : s = t
  · subst ht
    exact .inr ⟨if_pos rfl, pre, hpre, hL⟩
  · exact .inl (if_neg ht)

end OnlyLoses

/-! ### Runs -/

structure WellFormed (fp : FingerPrints φ) (m : Manager φ) : Prop where
  keyed : ∀ k s, m.snapshots.lookup k = some s → ∃ h, m.header s = some h ∧ fp.calcFingerPrint h = k
  linked : ∀ s h p, m.header s = some h → m.getPreSnapshot s = some p →
    ∃ pre, m.header p = some pre ∧ pre.height + 1 = h.height

lemma OnlyLoses.wellFormed (h : OnlyLoses L D m m') (hm : WellFormed fp m) : WellFormed fp m' := by
  refine ⟨fun k s hs => ?_, fun s header p hheader hp => ?_⟩
  · obtain ⟨header, hheader, hkey⟩ := hm.keyed k s (h.lookup_of_some hs)
    exact ⟨header, (h.header s).trans hheader, hkey⟩
  · rw [h.header] at hheader
    obtain ⟨pre, hpre, hheight⟩ := hm.linked s header p hheader (h.getPreSnapshot_of_some hp)
    exact ⟨pre, (h.header p).trans hpre, hheight⟩

lemma WellFormed.newSnapshot (hm : WellFormed fp m) {prevBlock block : BlockHeader}
    (hheight : prevBlock.height + 1 = block.height) :
    WellFormed fp (m.newSnapshot fp prevBlock block) := by
  have hheader : ∀ s h, m.header s = some h →
      (m.newSnapshot fp prevBlock block).header s = some h := by
    intro s h hs
    obtain ⟨o, ho, rfl⟩ := map_eq_some_iff.mp hs
    have hlt := (List.getElem?_eq_some_iff.mp ho).1
    simp [header, Manager.newSnapshot, getElem?_append_left hlt, ho]
  have hlast : (m.newSnapshot fp prevBlock block).header m.objects.length = some block := by
    simp [header, Manager.newSnapshot]
  have hkeyed : ∀ k s, (m.newSnapshot fp prevBlock block).snapshots.lookup k = some s →
      ∃ h, (m.newSnapshot fp prevBlock block).header s = some h ∧ fp.calcFingerPrint h = k := by
    intro k s hs
    obtain ⟨rfl, rfl⟩ | hs := GoMap.lookup_insert_cases hs
    · exact ⟨block, hlast, rfl⟩
    · obtain ⟨h, hh, hkey⟩ := hm.keyed k s hs
      exact ⟨h, hheader s h hh, hkey⟩
  refine ⟨hkeyed, fun s h p hh hp => ?_⟩
  by_cases hs : s < m.objects.length
  · have hget : (m.newSnapshot fp prevBlock block).objects[s]? = m.objects[s]? := by
      rw [Manager.newSnapshot, getElem?_append_left hs]
    rw [header, hget] at hh
    rw [getPreSnapshot, hget] at hp
    obtain ⟨pre, hpre, hdown⟩ := hm.linked s h p hh hp
    exact ⟨pre, hheader p pre hpre, hdown⟩
  · have hs : s = m.objects.length := by
      obtain ⟨o, ho, -⟩ := map_eq_some_iff.mp hh
      have hlt := (List.getElem?_eq_some_iff.mp ho).1
      rw [Manager.newSnapshot, length_append, length_singleton] at hlt
      omega
    subst hs
    cases hlast.symm.trans hh
    -- The link of the new object is what the map has for the block before.
    have hp : (m.newSnapshot fp prevBlock block).snapshots.lookup
        (fp.calcFingerPrint prevBlock) = some p := by
      simpa [getPreSnapshot, Manager.newSnapshot] using hp
    obtain ⟨pre, hpre, hkey⟩ := hkeyed _ p hp
    exact ⟨pre, hpre, fp.injective hkey ▸ hheight⟩

def Old (block h : BlockHeader) : Prop := h.height + 8 < block.height

def Above (block h : BlockHeader) : Prop :=
  block.height < h.height ∧ h.height < block.height + (2 ^ 64 - 8)

lemma eight_lt_sub_iff {block h : BlockHeader} :
    8 < block.blockHeight - h.blockHeight ↔ Old block h ∨ Above block h := by
  have hblock := block.blockHeight.toNat_lt
  have hh := h.blockHeight.toNat_lt
  rw [UInt64.lt_iff_toNat_lt, UInt64.toNat_sub, Old, Above, BlockHeader.height, BlockHeader.height]
  change 8 < _ ↔ _
  omega

lemma ManagerKind.height_of_mem_own {kind : ManagerKind} {block h : BlockHeader}
    (hmem : h ∈ kind.own block) : h.height = block.height := by
  cases kind with
  | impl =>
    obtain rfl | rfl : h = block ∨ h = block.notConsensus := by
      simpa [ManagerKind.own] using hmem
    · rfl
    · rfl
  | evidence => rw [mem_singleton.mp hmem]

lemma onlyLoses_unlinkFrom (hblock : L block) (k : φ) :
    OnlyLoses L D m (m.unlinkFrom fp (fp.calcFingerPrint block) k) := by
  unfold unlinkFrom
  split
  case h_1 => exact .refl
  case h_2 s _ =>
  split
  case h_1 => exact .refl
  case h_2 pre hpre =>
    split
    case isTrue hsame => exact .unlink hpre (fp.injective hsame ▸ hblock)
    case isFalse => exact .refl

lemma WellFormed.onlyLoses_delete (hm : WellFormed fp m) {header : BlockHeader}
    (hheader : D header) : OnlyLoses L D m (m.delete (fp.calcFingerPrint header)) := by
  refine ⟨fun _ => rfl, fun _ => .inl rfl, fun k => ?_⟩
  by_cases hk : k = fp.calcFingerPrint header
  · have hgone : (m.delete (fp.calcFingerPrint header)).snapshots.lookup k = none := by
      rw [hk, delete, AList.lookup_erase]
    cases hs : m.snapshots.lookup k with
    | none => exact .inl hgone
    | some s =>
      obtain ⟨h, hh, hkey⟩ := hm.keyed k s hs
      exact .inr ⟨hgone, s, h, rfl, hh, fp.injective (hkey.trans hk) ▸ hheader⟩
  · exact .inl (AList.lookup_erase_ne hk)

lemma WellFormed.onlyLoses_collect (hm : WellFormed fp m) (k : φ)
    (hold : ∀ s pre, m.snapshots.lookup k = some s → m.preHeader s = some pre →
      8 < block.blockHeight - pre.blockHeight → L pre ∧ D pre) :
    OnlyLoses L D m (m.collect fp block.blockHeight k) := by
  unfold collect
  split
  case h_1 => exact .refl
  case h_2 s hs =>
  split
  case h_1 => exact .refl
  case h_2 pre hpre =>
  split
  case isFalse => exact .refl
  case isTrue hlt =>
  obtain ⟨hL, hD⟩ := hold s pre hs hpre hlt
  have hdelete : OnlyLoses L D m (m.delete (fp.calcFingerPrint pre)) := hm.onlyLoses_delete hD
  have hpre' : (m.delete (fp.calcFingerPrint pre)).preHeader s = some pre := hpre
  exact hdelete.trans (.unlink hpre' hL)

def committedDeleted (fp : FingerPrints φ) (m : Manager φ) (kind : ManagerKind)
    (block : BlockHeader) (unlinking : Visit φ) : Manager φ :=
  (kind.own block).foldl (fun m header => m.delete (fp.calcFingerPrint header))
    ((unlinking.order m.snapshots.keys).foldl
      (fun m k => m.unlinkFrom fp (fp.calcFingerPrint block) k) m)

variable {kind : ManagerKind} {block : BlockHeader}

section
variable (hm : WellFormed fp m)
include hm

lemma WellFormed.onlyLoses_committedDeleted (hblock : L block) (hown : ∀ h ∈ kind.own block, D h)
    (unlinking : Visit φ) : OnlyLoses L D m (m.committedDeleted fp kind block unlinking) := by
  have hunlinked : OnlyLoses L D m ((unlinking.order m.snapshots.keys).foldl
      (fun m k => m.unlinkFrom fp (fp.calcFingerPrint block) k) m) :=
    .foldl (fun _ k _ => onlyLoses_unlinkFrom hblock k) _ .refl
  have hdelete : ∀ headers : List BlockHeader, (∀ h ∈ headers, D h) → ∀ m', OnlyLoses L D m m' →
      OnlyLoses L D m
        (headers.foldl (fun m header => m.delete (fp.calcFingerPrint header)) m') := by
    intro headers
    induction headers with
    | nil => exact fun _ _ h => h
    | cons header headers ih =>
      intro hD m' h
      rw [forall_mem_cons] at hD
      exact ih hD.2 _ (h.trans ((h.wellFormed hm).onlyLoses_delete hD.1))
  exact hdelete _ hown _ hunlinked

lemma WellFormed.onlyLoses_notifyBlockCommitted (hblock : L block)
    (hown : ∀ h ∈ kind.own block, D h)
    (hold : ∀ k s pre, m.snapshots.lookup k = some s → m.preHeader s = some pre →
      8 < block.blockHeight - pre.blockHeight → L pre ∧ D pre) (unlinking collecting : Visit φ) :
    OnlyLoses L D m (m.notifyBlockCommitted fp kind block unlinking collecting) := by
  have hdeleted := hm.onlyLoses_committedDeleted hblock hown unlinking
  refine .foldl (fun m' k h => ?_) _ hdeleted
  exact (h.wellFormed hm).onlyLoses_collect k fun s pre hs hpre =>
    hold k s pre (h.lookup_of_some hs) (h.preHeader_of_some hpre)

lemma WellFormed.onlyLoses_any (unlinking collecting : Visit φ) :
    OnlyLoses (fun _ => True) (fun _ => True) m
      (m.notifyBlockCommitted fp kind block unlinking collecting) :=
  hm.onlyLoses_notifyBlockCommitted trivial (fun _ _ => trivial)
    (fun _ _ _ _ _ _ => ⟨trivial, trivial⟩) unlinking collecting

lemma WellFormed.onlyLoses_foldl_collect (block : BlockHeader) (keys : List φ) :
    OnlyLoses (fun _ => True) (fun _ => True) m
      (keys.foldl (fun m k => m.collect fp block.blockHeight k) m) :=
  .foldl (fun _ k h => (h.wellFormed hm).onlyLoses_collect k fun _ _ _ _ _ => ⟨trivial, trivial⟩)
    keys .refl

lemma WellFormed.not_lt_of_visited {keys : List φ} (hk : k ∈ keys)
    (hs : (keys.foldl (fun m k => m.collect fp block.blockHeight k) m).snapshots.lookup k = some s)
    (hp : (keys.foldl (fun m k => m.collect fp block.blockHeight k) m).getPreSnapshot s = some p)
    (hpre : m.header p = some pre) : ¬ 8 < block.blockHeight - pre.blockHeight := by
  induction keys generalizing m with
  | nil => exact nomatch hk
  | cons key keys ih =>
    have hall := hm.onlyLoses_foldl_collect block (key :: keys)
    have hstep : OnlyLoses (fun _ => True) (fun _ => True) m
        (m.collect fp block.blockHeight key) :=
      hm.onlyLoses_collect key fun _ _ _ _ _ => ⟨trivial, trivial⟩
    obtain rfl | hk := mem_cons.mp hk
    · intro hlt
      have hs₀ := hall.lookup_of_some hs
      have hp₀ := hall.getPreSnapshot_of_some hp
      have hpre₀ : m.preHeader s = some pre := bind_eq_some_iff.mpr ⟨p, hp₀, hpre⟩
      have hcut : m.collect fp block.blockHeight k =
          (m.delete (fp.calcFingerPrint pre)).unlink s := by
        simp only [collect, hs₀, hpre₀, if_pos hlt]
      have hp₁ := ((hstep.wellFormed hm).onlyLoses_foldl_collect block
        keys).getPreSnapshot_of_some hp
      rw [hcut, getPreSnapshot_unlink, if_pos rfl] at hp₁
      cases hp₁
    · exact ih (hstep.wellFormed hm) hk hs hp ((hstep.header p).trans hpre)

end

/-- The managers that a run reaches, with the blocks it has committed. A block is built on one
that is a height below it. -/
inductive Reachable (fp : FingerPrints φ) (kind : ManagerKind) :
    List BlockHeader → Manager φ → Prop where
  | empty : Reachable fp kind [] empty
  | newSnapshot {committed : List BlockHeader} {m : Manager φ} (h : Reachable fp kind committed m)
    (prevBlock block : BlockHeader) (hheight : prevBlock.height + 1 = block.height) :
    Reachable fp kind committed (m.newSnapshot fp prevBlock block)
  | committed {committed : List BlockHeader} {m : Manager φ} (h : Reachable fp kind committed m)
    (block : BlockHeader) (unlinking collecting : Visit φ) :
    Reachable fp kind (block :: committed)
      (m.notifyBlockCommitted fp kind block unlinking collecting)

variable {committed : List BlockHeader}

lemma Reachable.wellFormed (h : Reachable fp kind committed m) : WellFormed fp m := by
  induction h with
  | empty => exact ⟨by simp [Manager.empty], by simp [Manager.empty, header]⟩
  | newSnapshot _ _ _ hheight ih => exact ih.newSnapshot hheight
  | committed _ _ unlinking collecting ih =>
    exact (ih.onlyLoses_any unlinking collecting).wellFormed ih

/-- What a commit may do: drop and unlink its own snapshots and old ones, and leave each
uncommitted snapshot above it with its uncommitted predecessor. -/
structure Frame (kind : ManagerKind) (block : BlockHeader) (committed : List BlockHeader)
    (m m' : Manager φ) : Prop where
  only : OnlyLoses (fun h => h ∈ kind.own block ∨ Old block h)
    (fun h => h ∈ kind.own block ∨ Old block h) m m'
  keeps : ∀ s h p pre, m.header s = some h → h ∉ committed → block.height < h.height →
    m.getPreSnapshot s = some p → m.header p = some pre → pre ∉ block :: committed →
    m'.getPreSnapshot s = some p

def NoneAbove (block : BlockHeader) (m : Manager φ) : Prop :=
  ∀ k s pre, m.snapshots.lookup k = some s → m.preHeader s = some pre → ¬ Above block pre

lemma WellFormed.frame_of_noneAbove (hm : WellFormed fp m) (hnone : NoneAbove block m)
    (unlinking collecting : Visit φ) : Frame kind block committed m
      (m.notifyBlockCommitted fp kind block unlinking collecting) := by
  have hold : ∀ k s pre, m.snapshots.lookup k = some s → m.preHeader s = some pre →
      8 < block.blockHeight - pre.blockHeight → Old block pre := fun k s pre hs hpre hlt =>
    (eight_lt_sub_iff.mp hlt).resolve_right (hnone k s pre hs hpre)
  have hloses : OnlyLoses (fun h => h = block ∨ Old block h)
      (fun h => h ∈ kind.own block ∨ Old block h) m
      (m.notifyBlockCommitted fp kind block unlinking collecting) :=
    hm.onlyLoses_notifyBlockCommitted (.inl rfl) (fun _ h => .inl h)
      (fun k s pre hs hpre hlt =>
        ⟨.inr (hold k s pre hs hpre hlt), .inr (hold k s pre hs hpre hlt)⟩)
      unlinking collecting
  have hself : block ∈ kind.own block := by cases kind <;> exact mem_cons_self
  refine ⟨hloses.mono (fun h => Or.imp_left fun heq => heq ▸ hself) fun _ h => h, ?_⟩
  intro s h p pre hs _ habove hp hpre huncommitted
  obtain hsame | ⟨-, lost, hlost, hL⟩ := hloses.link s
  · rw [hsame, hp]
  obtain rfl : lost = pre := by
    have hpreHeader : m.preHeader s = some pre := bind_eq_some_iff.mpr ⟨p, hp, hpre⟩
    exact mem_unique hlost hpreHeader
  obtain ⟨pre', hpre', hheight⟩ := hm.linked s h p hs hp
  cases hpre.symm.trans hpre'
  -- What is linked to an old snapshot is below the block itself.
  obtain rfl | holder := hL
  · exact absurd mem_cons_self huncommitted
  rw [Old] at holder
  omega

lemma WellFormed.noneAbove_of_frame (hm : WellFormed fp m) {unlinking collecting : Visit φ}
    (hframe : Frame kind block committed m
      (m.notifyBlockCommitted fp kind block unlinking collecting)) : NoneAbove block m := by
  intro k s pre hs hpre habove
  obtain ⟨p, hp, hpreHeader⟩ := bind_eq_some_iff.mp hpre
  obtain ⟨h, hh, -⟩ := hm.keyed k s hs
  obtain ⟨pre', hpre', hheight⟩ := hm.linked s h p hh hp
  cases hpreHeader.symm.trans hpre'
  have hspared : ∀ b : BlockHeader, block.height < b.height →
      ¬ (b ∈ kind.own block ∨ Old block b) := by
    rintro b hb (hown | hold)
    · exact absurd (ManagerKind.height_of_mem_own hown) hb.ne'
    · rw [Old] at hold
      omega
  have hentry : (m.notifyBlockCommitted fp kind block unlinking collecting).snapshots.lookup k =
      some s := by
    obtain hsame | ⟨-, s', h', hs', hh', hD⟩ := hframe.only.entry k
    · rw [hsame, hs]
    cases hs.symm.trans hs'
    cases hh.symm.trans hh'
    have habove' : block.height < h.height := habove.1.trans (by omega)
    exact absurd hD (hspared h habove')
  have hlink : (m.notifyBlockCommitted fp kind block unlinking collecting).getPreSnapshot s =
      some p := by
    obtain hsame | ⟨-, lost, hlost, hL⟩ := hframe.only.link s
    · rw [hsame, hp]
    cases hpre.symm.trans hlost
    exact absurd hL (hspared pre habove.1)
  -- So the collection has visited the snapshot, and has cut its link.
  have hdeleted : OnlyLoses (fun _ => True) (fun _ => True) m
      (m.committedDeleted fp kind block unlinking) :=
    hm.onlyLoses_committedDeleted trivial (fun _ _ => trivial) unlinking
  have hm₂ := hdeleted.wellFormed hm
  have hvisited : k ∈
      collecting.order (m.committedDeleted fp kind block unlinking).snapshots.keys := by
    have hsome := (hm₂.onlyLoses_foldl_collect block _).lookup_of_some hentry
    exact (collecting.perm _).mem_iff.mpr (AList.lookup_isSome.mp (isSome_of_eq_some hsome))
  exact hm₂.not_lt_of_visited hvisited hentry hlink ((hdeleted.header p).trans hpreHeader)
    (eight_lt_sub_iff.mpr (.inr habove))

theorem frame_notifyBlockCommitted_iff (h : Reachable fp kind committed m) (block : BlockHeader)
    (unlinking collecting : Visit φ) :
    Frame kind block committed m
      (m.notifyBlockCommitted fp kind block unlinking collecting) ↔ NoneAbove block m :=
  ⟨h.wellFormed.noneAbove_of_frame,
    fun hnone => h.wellFormed.frame_of_noneAbove hnone unlinking collecting⟩

section Pipelined

def headerPrints : FingerPrints BlockHeader := ⟨id, Function.injective_id⟩

def inOrder : Visit BlockHeader := ⟨id, fun _ => .refl _⟩

def blockAt (height : UInt64) : BlockHeader := ⟨"chain1", height, 0, [], [], [], [], []⟩

def pipelined : ℕ → Manager BlockHeader
  | 0 => empty
  | n + 1 => (pipelined n).newSnapshot headerPrints (blockAt (4 + .ofNat n))
    (blockAt (5 + .ofNat n))

lemma reachable_pipelined (kind : ManagerKind) {n : ℕ} (hn : n ≤ 3) :
    Reachable headerPrints kind [] (pipelined n) := by
  induction n with
  | zero => exact .empty
  | succ n ih =>
    refine .newSnapshot (ih (by omega)) _ _ ?_
    have hcases : n = 0 ∨ n = 1 ∨ n = 2 := by omega
    obtain rfl | rfl | rfl := hcases <;> rfl

theorem frame_notifyBlockCommitted_pair :
    Frame .impl (blockAt 5) [] (pipelined 2)
      ((pipelined 2).notifyBlockCommittedImpl headerPrints (blockAt 5) inOrder inOrder) := by
  refine (frame_notifyBlockCommitted_iff (reachable_pipelined .impl (by decide)) (blockAt 5)
    inOrder inOrder).mpr ?_
  intro k s pre _ hpre habove
  -- The one link is to the committed block itself.
  have hlinks : ∀ s < 2, (pipelined 2).preHeader s = none ∨
      (pipelined 2).preHeader s = some (blockAt 5) := by decide
  have hlt : s < 2 := by
    by_contra hge
    have hnone : (pipelined 2).preHeader s = none := by
      have hout : (pipelined 2).objects[s]? = none :=
        getElem?_eq_none_iff.mpr (by exact not_lt.mp hge)
      rw [preHeader, getPreSnapshot, hout]
      rfl
    exact nomatch hnone.symm.trans hpre
  obtain hnone | hfive := hlinks s hlt
  · exact nomatch hnone.symm.trans hpre
  cases hpre.symm.trans hfive
  exact absurd habove.1 (Nat.lt_irrefl _)

/-- With two blocks above, the commit of block 5 drops the snapshot of block 6 and cuts the link
of block 7 to it. -/
theorem notifyBlockCommitted_drops_six :
    Reachable headerPrints .impl [] (pipelined 3) ∧
    Reachable headerPrints .evidence [] (pipelined 3) ∧
    (pipelined 3).snapshots.lookup (blockAt 6) = some 1 ∧
    (pipelined 3).getPreSnapshot 2 = some 1 ∧
    ((pipelined 3).notifyBlockCommittedImpl headerPrints (blockAt 5) inOrder
      inOrder).snapshots.lookup (blockAt 6) = none ∧
    ((pipelined 3).notifyBlockCommittedImpl headerPrints (blockAt 5) inOrder
      inOrder).getPreSnapshot 2 = none ∧
    ((pipelined 3).notifyBlockCommittedEvidence headerPrints (blockAt 5) inOrder
      inOrder).snapshots.lookup (blockAt 6) = none ∧
    ((pipelined 3).notifyBlockCommittedEvidence headerPrints (blockAt 5) inOrder
      inOrder).getPreSnapshot 2 = none := by
  refine ⟨reachable_pipelined .impl (by decide), reachable_pipelined .evidence (by decide), ?_⟩
  decide +kernel

end Pipelined

end Manager

end ChainMaker.Snapshot
