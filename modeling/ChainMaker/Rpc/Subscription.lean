import ChainMaker.Lib.Runs
import ChainMaker.Core.Types

/-! The block subscription of the RPC server: a call first reads the blocks that are in the store,
and then waits for the events of new blocks. -/

namespace ChainMaker.Rpc
open Option List
open ChainMaker.Core (Block BlockHeader)
open ChainMaker.Snapshot (TxRWSet)

structure BlockInfo where
  block : Block
  rwsetList : List TxRWSet
deriving DecidableEq

inductive SubscribeResult where
  | header (header : BlockHeader)
  | blockInfo (info : BlockInfo)
deriving DecidableEq

inductive SubscribeBlockKey where
  | startBlock
  | endBlock
  | withRWSet
  | onlyHeader
  | other
deriving DecidableEq, Repr

structure Request where
  startBlock : ℤ := 0
  endBlock : ℤ := 0
  withRWSet : Bool := false
  onlyHeader : Bool := false
  light : Bool := false
  orgId : String := ""
deriving DecidableEq

inductive SubscribeError where
  | invalidParam
  /-- "invalid start block height or end block height" -/
  | invalidHeight
  /-- "payload start block height:%d > last block height:%d" -/
  | startAboveLast (startBlock lastBlock : ℤ)
deriving DecidableEq

structure Utils where
  filterBlockTxs : String → Block → Block
  bytesToInt64 : Bytes → Option ℤ

variable (utils : Utils) {store : List BlockInfo} {received : List ℕ} {published : ℕ}

/-- One parameter of the payload; `ONLY_HEADER` also takes back `WITH_RWSET`. -/
def Request.setParam (req : Request) (key : SubscribeBlockKey) (value : Bytes) :
    Except SubscribeError Request :=
  let isTrue := value = [116, 114, 117, 101]
  match key with
  | .startBlock => match utils.bytesToInt64 value with
    | none => .error .invalidParam
    | some startBlock => .ok { req with startBlock }
  | .endBlock => match utils.bytesToInt64 value with
    | none => .error .invalidParam
    | some endBlock => .ok { req with endBlock }
  | .withRWSet => .ok (if isTrue then { req with withRWSet := true } else req)
  | .onlyHeader => .ok (if isTrue then { req with onlyHeader := true, withRWSet := false } else req)
  | .other => .ok req

def checkSubscribeBlockHeight (startBlockHeight endBlockHeight : ℤ) : Except SubscribeError Unit :=
  if startBlockHeight < -1 ∨ endBlockHeight < -1 ∨
      (endBlockHeight ≠ -1 ∧ startBlockHeight > endBlockHeight) then .error .invalidHeight
  else .ok ()

def checkAndGetLastBlockHeight (store : List BlockInfo) (payloadStartBlockHeight : ℤ) :
    Except SubscribeError ℤ :=
  let lastBlockHeight : ℤ := store.length - 1
  if lastBlockHeight < payloadStartBlockHeight then
    .error (.startAboveLast payloadStartBlockHeight lastBlockHeight)
  else .ok lastBlockHeight

def filtered (req : Request) (block : Block) : Block :=
  if req.light then utils.filterBlockTxs req.orgId block else block

def storedInfo (req : Request) (info : BlockInfo) : BlockInfo :=
  if req.withRWSet then ⟨filtered utils req info.block, info.rwsetList⟩
  else ⟨filtered utils req info.block, []⟩

def getBlockSubscribeResult (info : BlockInfo) (onlyHeader : Bool) : SubscribeResult :=
  if onlyHeader then .header info.block.header else .blockInfo info

def historyResult (req : Request) (info : BlockInfo) : SubscribeResult :=
  getBlockSubscribeResult (storedInfo utils req info) req.onlyHeader

def eventResult (req : Request) (info : BlockInfo) : SubscribeResult :=
  let info := if req.light then
    ⟨utils.filterBlockTxs req.orgId info.block, info.rwsetList⟩ else info
  let info := if !req.withRWSet then ⟨info.block, []⟩ else info
  getBlockSubscribeResult info req.onlyHeader

lemma eventResult_eq (req : Request) (info : BlockInfo) :
    eventResult utils req info = historyResult utils req info := by
  unfold eventResult historyResult storedInfo filtered
  cases req.light with
  | false | true => cases req.withRWSet <;> rfl

inductive Outcome where
  | ok
  | cancelled
  | error
deriving DecidableEq, Repr

/-- Where the call is: it reads the block of a height, where `only` tells that the request ends
within the history; it has read the history and is about to subscribe, or has subscribed and waits
for events, with the marker `alreadySendHistoryBlockHeight`; it fills the gap up to the block of an
event; or it has returned. -/
inductive Phase where
  | history (i : ℤ) (only : Bool)
  | subscribing (alreadySendHistoryBlockHeight : ℤ)
  | waiting (alreadySendHistoryBlockHeight : ℤ)
  | filling (i last : ℤ)
  | ended (outcome : Outcome)
deriving DecidableEq, Repr

structure Subscriber where
  store : List BlockInfo
  published : ℕ
  sent : List SubscribeResult
  received : List ℕ
  phase : Phase
deriving DecidableEq

inductive Event where
  | commit (info : BlockInfo)
  | publish
  | read
  | subscribe
  | stop
deriving DecidableEq

namespace Subscriber
variable (req : Request)

def start (store : List BlockInfo) (published : ℕ) : Except SubscribeError Subscriber := do
  checkSubscribeBlockHeight req.startBlock req.endBlock
  let lastBlockHeight ← checkAndGetLastBlockHeight store req.startBlock
  let startBlockHeight := if req.startBlock > 0 then req.startBlock else 0
  let phase : Phase := if req.startBlock = -1 ∧ req.endBlock = -1 then .subscribing (-1)
    else .history startBlockHeight (req.endBlock ≠ -1 ∧ req.endBlock ≤ lastBlockHeight)
  return ⟨store, published, [], [], phase⟩

variable (s : Subscriber)

def endHistory (only : Bool) (alreadySendHistoryBlockHeight : ℤ) : Phase :=
  if only then .ended .ok else .subscribing alreadySendHistoryBlockHeight

def read : Option Subscriber :=
  match s.phase with
  | .history i only =>
    match s.store[i.toNat]? with
    | none => some { s with phase := endHistory only (i - 1) }
    | some info => some { s with
        sent := s.sent ++ [historyResult utils req info]
        phase := if req.endBlock ≠ -1 ∧ i + 1 > req.endBlock then endHistory only i
          else .history (i + 1) only }
  | .filling i last =>
    match s.store[i.toNat]? with
    | none => some { s with phase := .waiting (-1) }
    | some info => some { s with
        sent := s.sent ++ [historyResult utils req info]
        phase := if i + 1 > last then .waiting (-1) else .filling (i + 1) last }
  | _ => none

def handle (height : ℕ) (info : BlockInfo) (alreadySendHistoryBlockHeight : ℤ) : Subscriber :=
  let s := { s with received := height :: s.received }
  if alreadySendHistoryBlockHeight ≠ -1 ∧ (height : ℤ) > alreadySendHistoryBlockHeight then
    { s with phase := .filling (alreadySendHistoryBlockHeight + 1) height }
  else
    { s with
      sent := s.sent ++ [eventResult utils req info]
      phase := if req.endBlock ≠ -1 ∧ (height : ℤ) ≥ req.endBlock then .ended .ok
        else .waiting alreadySendHistoryBlockHeight }

def step (e : Event) : Option Subscriber :=
  match e with
  | .commit info => some { s with store := s.store ++ [info] }
  | .publish =>
    let height := s.published + 1
    match s.store[height]? with
    | none => none
    | some info =>
      let s := { s with published := height }
      match s.phase with
      | .history _ _ | .subscribing _ | .ended _ => some s
      | .waiting marker => some (s.handle utils req height info marker)
      | .filling _ _ => none
  | .read => s.read utils req
  | .subscribe =>
    match s.phase with
    | .subscribing marker => some { s with phase := .waiting marker }
    | _ => none
  | .stop =>
    match s.phase with
    | .history _ _ | .subscribing _ | .filling _ _ => some { s with phase := .ended .error }
    | .waiting _ => some { s with phase := .ended .cancelled }
    | .ended _ => none

end Subscriber

def dealBlockSubscription (light : Bool) (orgId : String)
    (parameters : List (SubscribeBlockKey × Bytes)) (store : List BlockInfo) (published : ℕ) :
    Except SubscribeError (Request × Subscriber) := do
  let req ← parameters.foldlM (fun (req : Request) kv => req.setParam utils kv.1 kv.2)
    { light, orgId }
  let s ← Subscriber.start req store published
  return (req, s)

namespace Subscriber
variable {utils} {req : Request} {s s' : Subscriber} {e : Event} {phase : Phase}

/-- The client was sent the blocks from the first one on, in order and each of them once, none above
the last one; if that one was sent, the call has returned; and while it waits, it has sent the
blocks of all events it received. -/
structure Delivers (utils : Utils) (req : Request) (s : Subscriber) : Prop where
  inOrder : s.sent = ((s.store.drop req.startBlock.toNat).take s.sent.length).map
    (historyResult utils req)
  bounded : req.endBlock ≠ -1 → req.startBlock + s.sent.length ≤ req.endBlock + 1
  ends : req.endBlock ≠ -1 → req.startBlock + s.sent.length = req.endBlock + 1 →
    s.phase = .ended .ok
  answered : ∀ marker, s.phase = .waiting marker →
    ∀ height ∈ s.received, (height : ℤ) < req.startBlock + s.sent.length

/-- While the history is read the ledger does not get to the last block of the request; and the
first event that is received after it is of a block above those that were read and below the last
one. -/
def TimelyAt (req : Request) (s : Subscriber) : Event → Phase → Prop
  | .read, .history i false => req.endBlock = -1 ∨ i < req.endBlock ∨ s.store[i.toNat]? = none
  | .publish, .waiting marker => marker = -1 ∨
      marker < s.published + 1 ∧ (req.endBlock = -1 ∨ s.published + 1 < req.endBlock)
  | _, _ => True

instance TimelyAt.decidable : ∀ e phase, Decidable (TimelyAt req s e phase)
  | .read, .history i false =>
    inferInstanceAs (Decidable (req.endBlock = -1 ∨ i < req.endBlock ∨ s.store[i.toNat]? = none))
  | .publish, .waiting marker => inferInstanceAs (Decidable (marker = -1 ∨
      marker < s.published + 1 ∧ (req.endBlock = -1 ∨ s.published + 1 < req.endBlock)))
  | .read, .history _ true | .read, .subscribing _ | .read, .waiting _ | .read, .filling _ _
  | .read, .ended _ | .publish, .history _ _ | .publish, .subscribing _ | .publish, .filling _ _
  | .publish, .ended _ | .commit _, _ | .subscribe, _ | .stop, _ => .isTrue trivial

def Timely (req : Request) (s : Subscriber) (e : Event) : Prop := TimelyAt req s e s.phase

instance : Decidable (Timely req s e) := inferInstanceAs (Decidable (TimelyAt req s e s.phase))

/-- What is known of the call at each place, with the height of the next block to send, the number
of stored blocks and the height of the last event. -/
def Place (req : Request) (next : ℤ) (stored published : ℕ) (received : List ℕ) : Phase → Prop
  | .history i only => i = next ∧ (req.endBlock ≠ -1 → next ≤ req.endBlock) ∧
      (only = true → req.endBlock ≠ -1 ∧ req.endBlock < stored) ∧ received = []
  | .subscribing marker => (req.endBlock ≠ -1 → next ≤ req.endBlock) ∧
      0 ≤ marker ∧ marker + 1 = next ∧ received = []
  | .waiting marker => (req.endBlock ≠ -1 → next ≤ req.endBlock) ∧
      (marker = -1 ∧ next = published + 1 ∨ 0 ≤ marker ∧ marker + 1 = next ∧ received = [])
  | .filling i last => i = next ∧ next ≤ last ∧ last = published ∧
      (req.endBlock ≠ -1 → last < req.endBlock)
  | .ended outcome => req.endBlock ≠ -1 → next ≤ req.endBlock + 1 ∧
      (next = req.endBlock + 1 → outcome = .ok)

structure OnTrack (utils : Utils) (req : Request) (s : Subscriber) : Prop where
  inOrder : s.sent = ((s.store.drop req.startBlock.toNat).take s.sent.length).map
    (historyResult utils req)
  startBlock : 0 ≤ req.startBlock ∧ req.startBlock < s.store.length
  inStore : req.startBlock + s.sent.length ≤ s.store.length
  published : s.published < s.store.length
  received : ∀ height ∈ s.received, height ≤ s.published
  place : Place req (req.startBlock + s.sent.length) s.store.length s.published s.received s.phase

lemma Place.le {next : ℤ} {stored published : ℕ}
    (h : Place req next stored published received phase) (hend : req.endBlock ≠ -1) :
    next ≤ req.endBlock + 1 ∧ (next = req.endBlock + 1 → phase = .ended .ok) := by
  cases phase with
  | history i only =>
    have := h.2.1 hend
    exact ⟨by omega, by omega⟩
  | subscribing | waiting =>
    have := h.1 hend
    exact ⟨by omega, by omega⟩
  | filling i last =>
    have := h.2.2.2 hend
    have := h.2.1
    exact ⟨by omega, by omega⟩
  | ended outcome => exact ⟨(h hend).1, fun hall => by rw [(h hend).2 hall]⟩

namespace OnTrack

variable (h : OnTrack utils req s)
include h

lemma delivers : Delivers utils req s := by
  have hplace := h.place
  refine ⟨h.inOrder, fun hend => (hplace.le hend).1, fun hend hall => (hplace.le hend).2 hall,
    fun marker hphase height hmem => ?_⟩
  rw [hphase] at hplace
  have hle := h.received height hmem
  obtain ⟨-, hsent⟩ | ⟨-, -, hnone⟩ := hplace.2
  · omega
  rw [hnone] at hmem
  cases hmem

lemma send {info : BlockInfo} {published : ℕ} {received : List ℕ} {phase : Phase}
    (hinfo : s.store[(req.startBlock + s.sent.length).toNat]? = some info)
    (hpublished : published < s.store.length) (hreceived : ∀ height ∈ received, height ≤ published)
    (hplace : Place req (req.startBlock + s.sent.length + 1) s.store.length published received
      phase) :
    OnTrack utils req
      { s with sent := s.sent ++ [historyResult utils req info], published, received, phase } := by
  obtain ⟨hstart, -⟩ := h.startBlock
  have hindex : (req.startBlock + s.sent.length).toNat =
      req.startBlock.toNat + s.sent.length := by omega
  have hlength : ((s.sent ++ [historyResult utils req info]).length : ℤ) =
      s.sent.length + 1 := by simp
  obtain ⟨hlt, -⟩ := List.getElem?_eq_some_iff.mp hinfo
  refine ⟨?_, h.startBlock, ?_, hpublished, hreceived, ?_⟩
  · rw [length_append, length_singleton, take_add_one, getElem?_drop, ← hindex, hinfo,
      toList_some, map_append, map_singleton, ← h.inOrder]
  · dsimp only
    omega
  · rwa [hlength, ← add_assoc]

lemma move (hpublished : published < s.store.length)
    (hreceived : ∀ height ∈ received, height ≤ published)
    (hplace : Place req (req.startBlock + s.sent.length) s.store.length published received phase) :
    OnTrack utils req { s with published, received, phase } :=
  ⟨h.inOrder, h.startBlock, h.inStore, hpublished, hreceived, hplace⟩

lemma commit (info : BlockInfo) : OnTrack utils req { s with store := s.store ++ [info] } := by
  obtain ⟨hstart, hlt⟩ := h.startBlock
  have hstore := h.inStore
  have hlength : (s.store ++ [info]).length = s.store.length + 1 := by simp
  have hpublished := h.published
  refine ⟨?_, ⟨hstart, by dsimp only; omega⟩, by dsimp only; omega, by dsimp only; omega,
    h.received, ?_⟩
  · have hle : s.sent.length ≤ (s.store.drop req.startBlock.toNat).length := by
      rw [length_drop]
      omega
    rw [drop_append_of_le_length (by omega), take_append_of_le_length hle]
    exact h.inOrder
  · have hplace := h.place
    dsimp only
    cases hphase : s.phase with
    | history i only =>
      rw [hphase] at hplace
      obtain ⟨hi, hend, honly, hreceived⟩ := hplace
      refine ⟨hi, hend, fun h => ⟨(honly h).1, ?_⟩, hreceived⟩
      have := (honly h).2
      omega
    | subscribing | waiting | filling | ended =>
      rw [hphase] at hplace
      exact hplace

lemma read (htimely : Timely req s .read) (hread : s.read utils req = some s') :
    OnTrack utils req s' := by
  obtain ⟨hstart, hlt⟩ := h.startBlock
  have hplace := h.place
  unfold Timely TimelyAt at htimely
  unfold Subscriber.read at hread
  cases hphase : s.phase with
  | history i only =>
    rw [hphase] at hplace htimely hread
    obtain ⟨rfl, hend, honly, hreceived⟩ := hplace
    dsimp only at hread
    cases hinfo : s.store[(req.startBlock + s.sent.length).toNat]? with
    | none =>
      rw [hinfo] at hread
      cases hread
      -- The ledger ends here, so the request does not end within it, and something was sent.
      have hlength := getElem?_eq_none_iff.mp hinfo
      cases only with
      | true =>
        obtain ⟨hne, hlast⟩ := honly rfl
        omega
      | false => exact h.move h.published h.received ⟨hend, by omega, by omega, hreceived⟩
    | some info =>
      rw [hinfo] at hread
      cases hread
      refine h.send hinfo h.published h.received ?_
      split_ifs with hlast
      · cases only with
        | true =>
          exact fun _ => ⟨by omega, fun _ => rfl⟩
        | false =>
          -- The history would get to the last block of the request.
          obtain hne | hbelow | hnone := htimely
          · exact absurd hne hlast.1
          · omega
          · exact absurd (hinfo.symm.trans hnone) nofun
      · refine ⟨rfl, fun hne => ?_, honly, hreceived⟩
        omega
  | filling i last =>
    rw [hphase] at hplace hread
    obtain ⟨rfl, hlast, hpublished, hend⟩ := hplace
    dsimp only at hread
    have hlt' := h.published
    cases hinfo : s.store[(req.startBlock + s.sent.length).toNat]? with
    | none =>
      have hlength := getElem?_eq_none_iff.mp hinfo
      omega
    | some info =>
      rw [hinfo] at hread
      cases hread
      refine h.send hinfo h.published h.received ?_
      split_ifs with hfilled
      · refine ⟨fun hne => ?_, .inl ⟨rfl, by omega⟩⟩
        omega
      · exact ⟨rfl, by omega, hpublished, hend⟩
  | subscribing | waiting | ended =>
    rw [hphase] at hread
    cases hread

lemma handle {info : BlockInfo} {marker : ℤ} (hphase : s.phase = .waiting marker)
    (hinfo : s.store[s.published + 1]? = some info) (htimely : marker = -1 ∨
      marker < s.published + 1 ∧ (req.endBlock = -1 ∨ s.published + 1 < req.endBlock)) :
    OnTrack utils req
      ({ s with published := s.published + 1 }.handle utils req (s.published + 1) info marker) := by
  obtain ⟨hstored, -⟩ := List.getElem?_eq_some_iff.mp hinfo
  have hplace := h.place
  rw [hphase] at hplace
  obtain ⟨hend, hmarker⟩ := hplace
  have hreceived : ∀ height ∈ (s.published + 1) :: s.received, height ≤ s.published + 1 :=
    forall_mem_cons.mpr
      ⟨le_refl _, fun height hmem => (h.received height hmem).trans (Nat.le_succ _)⟩
  unfold Subscriber.handle
  split
  · -- The gap: the marker is set, so the event is the first one and only the history was sent.
    next hgap =>
    obtain ⟨hset, habove⟩ := hgap
    obtain ⟨hunset, -⟩ | ⟨-, hnext, -⟩ := hmarker
    · exact absurd hunset hset
    obtain hunset | ⟨-, hbelow⟩ := htimely
    · exact absurd hunset hset
    refine h.move hstored hreceived ⟨hnext, by omega, rfl, fun hne => ?_⟩
    have := hbelow.resolve_left hne
    exact this
  · -- The marker is not set: the block of the event is the next one to send.
    next hgap =>
    obtain ⟨rfl, hnext⟩ : marker = -1 ∧ req.startBlock + s.sent.length = s.published + 1 := by
      obtain hunset | ⟨hnonneg, -, -⟩ := hmarker
      · exact hunset
      obtain hunset | ⟨habove, -⟩ := htimely
      · omega
      · exact absurd ⟨by omega, by push_cast; exact habove⟩ hgap
    have hindex : (req.startBlock + s.sent.length).toNat = s.published + 1 := by omega
    rw [eventResult_eq]
    refine h.send (hindex ▸ hinfo) hstored hreceived ?_
    split_ifs with hlast
    · have := hend hlast.1
      exact fun _ => ⟨by omega, fun _ => rfl⟩
    · refine ⟨fun hne => ?_, .inl ⟨rfl, by push_cast; omega⟩⟩
      omega

lemma publish (htimely : Timely req s .publish) (hstep : s.step utils req .publish = some s') :
    OnTrack utils req s' := by
  dsimp only [step] at hstep
  cases hinfo : s.store[s.published + 1]? with
  | none =>
    rw [hinfo] at hstep
    cases hstep
  | some info =>
    obtain ⟨hstored, -⟩ := List.getElem?_eq_some_iff.mp hinfo
    have hplace := h.place
    have hreceived : ∀ height ∈ s.received, height ≤ s.published + 1 :=
      fun height hmem => (h.received height hmem).trans (Nat.le_succ _)
    rw [hinfo] at hstep
    obtain ⟨store, published, sent, received, phase⟩ := s
    cases phase with
    | history | subscribing | ended => exact some.inj hstep ▸ h.move hstored hreceived hplace
    | filling => cases hstep
    | waiting marker => exact some.inj hstep ▸ h.handle rfl hinfo htimely

lemma subscribe (hstep : s.step utils req .subscribe = some s') : OnTrack utils req s' := by
  have hplace := h.place
  dsimp only [Subscriber.step] at hstep
  split at hstep
  case h_1 marker hphase =>
    rw [hphase] at hplace
    exact some.inj hstep ▸ h.move h.published h.received ⟨hplace.1, .inr hplace.2⟩
  case h_2 => cases hstep

lemma stop (hstep : s.step utils req .stop = some s') : OnTrack utils req s' := by
  have hplace := h.place
  have hunfinished : ∀ outcome,
    (req.endBlock ≠ -1 → req.startBlock + s.sent.length ≤ req.endBlock) →
      OnTrack utils req { s with phase := .ended outcome } := by
    intro outcome hend
    refine h.move h.published h.received fun hne => ?_
    exact ⟨by omega, by omega⟩
  obtain ⟨store, published, sent, received, phase⟩ := s
  cases phase with
  | history => exact some.inj hstep ▸ hunfinished .error hplace.2.1
  | subscribing => exact some.inj hstep ▸ hunfinished .error hplace.1
  | waiting => exact some.inj hstep ▸ hunfinished .cancelled hplace.1
  | filling i last =>
    refine some.inj hstep ▸ hunfinished .error fun hne => ?_
    have := hplace.2.2.2 hne
    have := hplace.2.1
    omega
  | ended => cases hstep

lemma step (htimely : Timely req s e) (hstep : s.step utils req e = some s') :
    OnTrack utils req s' := by
  cases e with
  | commit info =>
    cases hstep
    exact h.commit info
  | publish => exact h.publish htimely hstep
  | read => exact h.read htimely hstep
  | subscribe => exact h.subscribe hstep
  | stop => exact h.stop hstep

end OnTrack

lemma onTrack_start (hpublished : published < store.length)
    (hstart : 0 ≤ req.startBlock) (h : start req store published = .ok s) :
    OnTrack utils req s := by
  obtain ⟨⟨⟩, hcheck, h⟩ := bind_ok.mp h
  obtain ⟨last, hlast, h⟩ := bind_ok.mp h
  cases h
  have hbelow : req.startBlock < store.length ∧ last = store.length - 1 := by
    unfold checkAndGetLastBlockHeight at hlast
    dsimp only at hlast
    split at hlast
    · cases hlast
    cases hlast
    exact ⟨by omega, rfl⟩
  have hend : req.endBlock ≠ -1 → req.startBlock ≤ req.endBlock := by
    unfold checkSubscribeBlockHeight at hcheck
    split at hcheck
    · cases hcheck
    · omega
  have hfirst : (if req.startBlock > 0 then req.startBlock else 0) = req.startBlock := by
    split <;> omega
  refine ⟨rfl, ⟨hstart, hbelow.1⟩, ?_, hpublished, nofun, ?_⟩
  · simp only [length_nil, Nat.cast_zero, add_zero]
    omega
  dsimp only
  rw [if_neg (by omega), hfirst]
  refine ⟨by simp, ?_, fun honly => ?_, rfl⟩
  · simpa using hend
  · have := of_decide_eq_true honly
    omega

theorem delivers_in_order (utils : Utils) (light : Bool) (orgId : String)
    (parameters : List (SubscribeBlockKey × Bytes)) (store : List BlockInfo) (published : ℕ)
    (hpublished : published < store.length) (req : Request) (s₀ s : Subscriber)
    (hdeal : dealBlockSubscription utils light orgId parameters store published = .ok (req, s₀))
    (hstart : 0 ≤ req.startBlock) (es : List Event)
    (hes : Runs.Meets (step utils req) (Timely req) s₀ es)
    (hrun : Runs.run (step utils req) s₀ es = some s) : Delivers utils req s := by
  obtain ⟨req', -, hdeal⟩ := bind_ok.mp hdeal
  obtain ⟨s', hs', hdeal⟩ := bind_ok.mp hdeal
  cases hdeal
  have hontrack : OnTrack utils req s :=
    Runs.run_induction (fun _ _ _ h htimely hstep => h.step htimely hstep)
      (onTrack_start hpublished hstart hs') hes hrun
  exact hontrack.delivers

def smallUtils : Utils where
  filterBlockTxs _ block := block
  bytesToInt64
    | [255] => some (-1)
    | [n] => some n.toNat
    | _ => none

def blank (height : UInt64) : BlockInfo :=
  ⟨⟨⟨"chain1", height, 0, [], none, [], [], [], none, 0, 0, false, [], 0, none⟩, none,
    [], none⟩, []⟩

def subscribed (endBlock : UInt8) (store : List BlockInfo) (es : List Event) :
    Option (Request × Subscriber × Subscriber) :=
  match dealBlockSubscription smallUtils false ""
    [(.startBlock, [0]), (.endBlock, [endBlock])] store 0 with
  | .error _ => none
  | .ok (req, s₀) => (Runs.run (step smallUtils req) s₀ es).map fun s => (req, s₀, s)

lemma of_subscribed {endBlock : UInt8} {es : List Event} {s₀ : Subscriber}
    (h : subscribed endBlock store es = some (req, s₀, s)) :
    dealBlockSubscription smallUtils false ""
      [(.startBlock, [0]), (.endBlock, [endBlock])] store 0 =
        .ok (req, s₀) ∧ Runs.run (step smallUtils req) s₀ es = some s := by
  unfold subscribed at h
  split at h
  · cases h
  next req' s₀' hdeal =>
  obtain ⟨s', hrun, heq⟩ := map_eq_some_iff.mp h
  cases heq
  exact ⟨hdeal, hrun⟩

def toThree : List Event :=
  [.read, .read, .commit (blank 1), .publish, .subscribe, .commit (blank 2), .publish, .read, .read,
    .commit (blank 3), .publish]

theorem delivers_in_order_toThree :
    ∃ req s₀ s, subscribed 3 [blank 0] toThree = some (req, s₀, s) ∧ req.endBlock = 3 ∧
      s.sent.length = 4 ∧ s.phase = .ended .ok ∧ Delivers smallUtils req s := by
  have hcall := eq_some_of_isSome (show (subscribed 3 [blank 0] toThree).isSome by decide +kernel)
  obtain ⟨hdeal, hevents⟩ := of_subscribed hcall
  exact ⟨_, _, _, hcall, by decide +kernel, by decide +kernel, by decide +kernel,
    delivers_in_order smallUtils false "" _ [blank 0] 0 (by decide) _ _ _ hdeal (by decide +kernel)
      toThree (by decide +kernel) hevents⟩

def pastTheEnd : List Event :=
  [.read, .read, .subscribe, .commit (blank 1), .publish, .read, .commit (blank 2), .publish]

def eventAfterHistory : List Event := [.read, .commit (blank 1), .read, .read, .subscribe, .publish]

theorem not_delivers :
    (∃ req s₀ s, subscribed 1 [blank 0] pastTheEnd = some (req, s₀, s) ∧ req.endBlock = 1 ∧
      s.sent = [0, 1, 2].map (fun h => historyResult smallUtils req (blank h)) ∧
      ¬ Delivers smallUtils req s) ∧
    ∃ req s₀ s, subscribed 255 [blank 0] eventAfterHistory = some (req, s₀, s) ∧ req.endBlock = -1 ∧
      s.sent = [0, 1, 1].map (fun h => historyResult smallUtils req (blank h)) ∧
      ¬ Delivers smallUtils req s := by
  constructor
  · exact ⟨_, _, _, eq_some_of_isSome (by decide +kernel), by decide +kernel, by decide +kernel,
      fun h => absurd (h.bounded (by decide +kernel)) (by decide +kernel)⟩
  · exact ⟨_, _, _, eq_some_of_isSome (by decide +kernel), by decide +kernel, by decide +kernel,
      fun h => absurd h.inOrder (by decide +kernel)⟩
end Subscriber
end ChainMaker.Rpc
