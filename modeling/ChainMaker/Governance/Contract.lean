import ChainMaker.Basic

/-! The governance contract of Chained BFT: how it is built from the genesis chain
configuration and how the blocks of the chain change it (`governance_opt.go`).
Node ids are an arbitrary linear order, the order `sort.StringSlice` sorts by. -/

namespace ChainMaker.Governance

def ConstMinQuorumForQc : ℕ := 3
def ConstTransitBlock : ℕ := 0
def ConstNodeProposeRound : ℕ := 1
def MinimumTimeOutMill : ℕ := 4000
def MinimumIntervalTimeOutMill : ℕ := 100

inductive ConsensusType where
  | hotstuff
  | other (code : ℤ)
deriving DecidableEq, Repr

inductive ConfKey where
  | roundTimeoutMill
  | roundTimeoutIntervalMill
  | cachedLen
  | other (key : Bytes)
deriving DecidableEq, Repr

structure ExtConf where
  key : ConfKey
  value : Bytes
deriving DecidableEq, Repr

structure OrgConfig (α : Type) where
  nodeId : List α
deriving DecidableEq, Repr

structure ConsensusConfig (α : Type) where
  type : ConsensusType
  nodes : List (OrgConfig α)
  extConfig : List ExtConf
deriving DecidableEq, Repr

structure ChainConfig (α : Type) where
  sequence : ℕ
  consensus : ConsensusConfig α
deriving DecidableEq, Repr

structure GovernanceMember (α : Type) where
  index : ℤ
  nodeId : α
deriving DecidableEq, Repr

structure GovernanceContract (α : Type) where
  epochId : ℕ
  type : ConsensusType
  curMaxIndex : ℤ
  skipTimeoutCommit : Bool
  n : ℕ
  minQuorumForQc : ℕ
  lastMinQuorumForQc : ℕ
  cachedLen : ℕ
  nextSwitchHeight : ℕ
  transitBlock : ℕ
  blockNumPerEpoch : ℕ
  validatorNum : ℕ
  nodeProposeRound : ℕ
  members : List (GovernanceMember α)
  validators : List (GovernanceMember α)
  nextValidators : Option (List (GovernanceMember α))
  configSequence : ℕ
  hotstuffRoundTimeoutMill : ℕ
  hotstuffRoundTimeoutIntervalMill : ℕ
deriving DecidableEq, Repr

def parseUint (s : Bytes) : Option ℕ :=
  if s = [] then none
  else s.foldlM (fun v c =>
    if 48 ≤ c ∧ c ≤ 57 then
      let v' := 10 * v + (c.toNat - 48)
      if v' < 2 ^ 64 then some v' else none
    else none) 0

structure ExtValues where
  newCachedLen : ℕ := 0
  newRoundTimeoutMill : ℕ := 0
  newRoundTimeoutIntervalMill : ℕ := 0

def readExtConf (acc : ExtValues) (oneConf : ExtConf) : ExtValues :=
  match oneConf.key with
  | .roundTimeoutMill =>
    match parseUint oneConf.value with
    | some v => if v < MinimumTimeOutMill then acc else { acc with newRoundTimeoutMill := v }
    | none => acc
  | .roundTimeoutIntervalMill =>
    match parseUint oneConf.value with
    | some v =>
      if v < MinimumIntervalTimeOutMill then acc
      else { acc with newRoundTimeoutIntervalMill := v }
    | none => acc
  | .cachedLen =>
    match parseUint oneConf.value with
    | some v => { acc with newCachedLen := v }
    | none => acc
  | .other _ => acc

variable {α : Type}

def updateGovContractFromConfig (chainConfig : ChainConfig α)
    (g : GovernanceContract α) : Bool × GovernanceContract α :=
  let v := chainConfig.consensus.extConfig.foldl readExtConf {}
  let chgLen := v.newCachedLen ≠ 0 ∧ g.cachedLen ≠ v.newCachedLen
  let chgRound := v.newRoundTimeoutMill ≠ 0 ∧ g.hotstuffRoundTimeoutMill ≠ v.newRoundTimeoutMill
  let chgInterval := v.newRoundTimeoutIntervalMill ≠ 0 ∧
    g.hotstuffRoundTimeoutIntervalMill ≠ v.newRoundTimeoutIntervalMill
  (decide (chgLen ∨ chgRound ∨ chgInterval),
    { g with
      cachedLen := if chgLen then v.newCachedLen else g.cachedLen
      hotstuffRoundTimeoutMill :=
        if chgRound then v.newRoundTimeoutMill else g.hotstuffRoundTimeoutMill
      hotstuffRoundTimeoutIntervalMill :=
        if chgInterval then v.newRoundTimeoutIntervalMill
        else g.hotstuffRoundTimeoutIntervalMill })

/-- The `for ... curNum < chooseM` loop of `getRandomList` from position `i`. A pass over
the `n` peers meets a free one, and one peer is taken for every `seed + 1` free ones met. -/
def josephus (n chooseM seed : ℕ) :
    (fuel : ℕ) → (i j curNum : ℕ) → (taken : List ℕ) → List ℕ
  | 0, _, _, _, taken => taken
  | fuel + 1, i, j, curNum, taken =>
    if curNum < chooseM then
      let i := if n ≤ i then 0 else i
      if i ∈ taken then josephus n chooseM seed fuel (i + 1) j curNum taken
      else if seed < j + 1 then josephus n chooseM seed fuel (i + 1) 0 (curNum + 1) (taken ++ [i])
      else josephus n chooseM seed fuel (i + 1) (j + 1) curNum taken
    else taken

def getRandomList (n chooseM seed : ℕ) : List ℕ :=
  if n ≤ chooseM then List.range n
  else (josephus n chooseM seed (chooseM * (seed + 1) * n + 1) (seed % n) 0 0 []).insertionSort
    (· ≤ ·)

/-- The seed of `createValidators`: the inner loop overwrites `b[i]`, so that only its last
round, `seedBytes[i] ^ seedBytes[i+24]`, is left. -/
def seedOf (seedBytes : Bytes) : ℕ :=
  (List.range 8).foldl (fun seed i =>
    256 * seed + (seedBytes.getD i 0 ^^^ seedBytes.getD (i + 24) 0).toNat) 0

def createValidators (g : GovernanceContract α) (seedBytes : Bytes) : List (GovernanceMember α) :=
  let membersNum := g.members.length
  if membersNum ≤ g.validatorNum then g.members
  else
    ((getRandomList membersNum g.validatorNum (seedOf seedBytes % membersNum)).filterMap
      fun index => g.members[index]?).insertionSort fun a b => a.index ≤ b.index

section Members
variable [DecidableEq α]

def distinctNodeIds (nodes : List (OrgConfig α)) : List α :=
  (nodes.flatMap (·.nodeId)).foldl (fun ids nid => if nid ∈ ids then ids else ids ++ [nid]) []

def indexMembers (old : α → Option (GovernanceMember α)) :
    ℤ → List α → ℤ × List (GovernanceMember α)
  | index, [] => (index, [])
  | index, nid :: nids =>
    match old nid with
    | some member =>
      let r := indexMembers old index nids
      (r.1, member :: r.2)
    | none =>
      let r := indexMembers old (index + 1) nids
      (r.1, { index := index, nodeId := nid } :: r.2)

def oldMembersMap (members : List (GovernanceMember α)) (nid : α) : Option (GovernanceMember α) :=
  (members.filter fun member => member.nodeId = nid).getLast?

end Members

def sortMembers (members : List (GovernanceMember α)) : List (GovernanceMember α) :=
  members.insertionSort fun a b => a.index ≤ b.index

variable [LinearOrder α]

def sortedNodeIds (nodes : List (OrgConfig α)) : List α :=
  (distinctNodeIds nodes).insertionSort (· ≤ ·)

section Contract
variable (marshal : GovernanceContract α → Bytes)

def getGovernanceContractFromConfig (chainConfig : ChainConfig α) : GovernanceContract α :=
  let r := indexMembers (fun _ => none) 0 (sortedNodeIds chainConfig.consensus.nodes)
  let members := sortMembers r.2
  let g : GovernanceContract α := (updateGovContractFromConfig chainConfig
    { epochId := 0
      type := chainConfig.consensus.type
      curMaxIndex := r.1
      skipTimeoutCommit := false
      n := members.length
      minQuorumForQc := ConstMinQuorumForQc
      lastMinQuorumForQc := 0
      cachedLen := 0
      nextSwitchHeight := 0
      transitBlock := ConstTransitBlock
      blockNumPerEpoch := 0
      validatorNum := members.length
      nodeProposeRound := ConstNodeProposeRound
      members := members
      validators := []
      nextValidators := none
      configSequence := chainConfig.sequence
      hotstuffRoundTimeoutMill := 0
      hotstuffRoundTimeoutIntervalMill := 0 }).2
  let g := { g with n := if g.validatorNum < g.n then g.validatorNum else g.n }
  let minQuorumForQc := (2 * g.n + 1) / 3
  let g := { g with
    minQuorumForQc :=
      if minQuorumForQc < ConstMinQuorumForQc then ConstMinQuorumForQc else minQuorumForQc }
  { g with validators := createValidators g (marshal g) }

def updateGovContractByConfig (chainConfig : ChainConfig α) (g : GovernanceContract α) :
    Bool × GovernanceContract α :=
  if g.configSequence = chainConfig.sequence then (false, g)
  else
    let r := indexMembers (oldMembersMap g.members) g.curMaxIndex
      (sortedNodeIds chainConfig.consensus.nodes)
    let members := r.2
    let u := updateGovContractFromConfig chainConfig g
    if r.1 ≠ u.2.curMaxIndex ∨ members.length ≠ u.2.members.length ∨ u.1 then
      let n := members.length
      let minQuorumForQc := (2 * n + 1) / 3
      let g : GovernanceContract α := { u.2 with
        lastMinQuorumForQc := u.2.minQuorumForQc
        curMaxIndex := r.1
        n := n
        minQuorumForQc :=
          if minQuorumForQc < ConstMinQuorumForQc then ConstMinQuorumForQc else minQuorumForQc
        members := sortMembers members
        nextValidators := none
        validatorNum := n }
      (true, { g with
        validators := createValidators g (marshal g)
        configSequence := chainConfig.sequence })
    else (false, { u.2 with configSequence := chainConfig.sequence })

structure BlockHeader where
  blockHeight : ℕ
  preBlockHash : Bytes

omit [LinearOrder α] in
def tryCreateNextValidators (header : BlockHeader) (g : GovernanceContract α) :
    Bool × GovernanceContract α :=
  if g.blockNumPerEpoch = 0 then (false, g)
  else if header.blockHeight % g.blockNumPerEpoch = 0 then
    (true, { g with
      lastMinQuorumForQc := g.minQuorumForQc
      nextValidators := some (createValidators g header.preBlockHash)
      nextSwitchHeight := (header.blockHeight + g.transitBlock) % 2 ^ 64 })
  else (false, g)

omit [LinearOrder α] in
def trySwitchNextValidator (header : BlockHeader) (g : GovernanceContract α) :
    Bool × GovernanceContract α :=
  match g.nextValidators with
  | none => (false, g)
  | some validators =>
    if g.nextSwitchHeight = header.blockHeight then
      (true, { g with validators := validators, nextValidators := none })
    else (false, g)

/-- Step 2 of `CheckAndCreateGovernmentArgs`. `chainConfig` is the configuration that the block
writes, if it is a configuration block. -/
def checkConfigChange (header : BlockHeader) (chainConfig : Option (ChainConfig α))
    (g : GovernanceContract α) : Bool × GovernanceContract α :=
  match chainConfig with
  | some cfg =>
    let r := updateGovContractByConfig marshal cfg g
    (r.1, { r.2 with nextSwitchHeight := (header.blockHeight + r.2.transitBlock) % 2 ^ 64 })
  | none => (false, g)

omit [LinearOrder α] in
def checkEpochSwitch (header : BlockHeader) (configChg : Bool) (g : GovernanceContract α) :
    Bool × GovernanceContract α :=
  if configChg then (false, g)
  else
    let c := tryCreateNextValidators header g
    if c.1 then trySwitchNextValidator header c.2 else (false, c.2)

def checkAndCreateGovernmentArgs (header : BlockHeader) (chainConfig : Option (ChainConfig α))
    (g : GovernanceContract α) : GovernanceContract α :=
  let u := checkConfigChange marshal header chainConfig g
  let v := checkEpochSwitch header u.1 u.2
  { v.2 with epochId := if v.1 || u.1 then (v.2.epochId + 1) % 2 ^ 64 else v.2.epochId }

def governanceAfter (genesis : ChainConfig α)
    (blocks : List (BlockHeader × Option (ChainConfig α))) : GovernanceContract α :=
  blocks.foldl (fun g b => checkAndCreateGovernmentArgs marshal b.1 b.2 g)
    (getGovernanceContractFromConfig marshal genesis)

end Contract

end ChainMaker.Governance
