import InjectiveCore.PeggyTransfersProofs

/-!
# Two chains — no batch is both executed and cancelled

`Peggy.sol` pays out a batch whose checkpoint the validators signed, once per token and
nonce in rising order, and only before the timeout of the batch. The module on the other
chain learns of it later, from an event. In between it may cancel batches: those with a
timeout below the Ethereum height it has seen, and those before an executed one.

The two clocks are the events themselves. They are observed in order and their heights do
not fall, so what the module has seen is never ahead of what is still to be seen:

- a batch that is executed and not yet seen has a timeout above every height seen so far,
  and a nonce above those executed before it, so it stays stored (`Bridged.pending`);
- a batch that is cancelled has a timeout below the present Ethereum height or a nonce
  not above the last one, so it will not be executed (`Bridged.cancelled`).

This file has the two chains and what each of their effects does to `Bridged`.
-/

namespace PeggyPool

open KeyedStore Transition

/-! ## Peggy.sol -/

/-- The events of the contract. An executed batch is told by its nonce and token. -/
inductive EthEvent where
  | transactionBatchExecuted (batch : OutgoingTxBatch)
  | sendToInjective (claim : MsgDepositClaim)
  | valsetUpdated
  deriving DecidableEq, Repr

/-- An event in the block it was emitted in. -/
structure Log where
  event : EthEvent
  height : ℕ
  deriving DecidableEq, Repr

/-- The contract: `state_lastBatchNonces` and the events, that with event nonce `n + 1` at
    place `n`. -/
structure Peggy where
  blockNumber : ℕ
  lastBatchNonces : Store EthAddress ℕ
  logs : List Log

/-- The requirements of `submitBatch`. -/
inductive Revert where
  | batchNonce
  | batchTimeout
  | signatures
  deriving DecidableEq, Repr

namespace Peggy

/-- The contract after `initialize`, which emits the first validator set. -/
def initialized (blockNumber : ℕ) : Peggy := ⟨blockNumber, ∅, [⟨.valsetUpdated, blockNumber⟩]⟩

/-- `lastBatchNonce`. -/
def lastBatchNonce (p : Peggy) (token : EthAddress) : ℕ :=
  (p.lastBatchNonces.lookup token).getD 0

/-- The next event nonce is used up. -/
def emit (p : Peggy) (event : EthEvent) : Peggy :=
  { p with logs := p.logs ++ [⟨event, p.blockNumber⟩] }

/-- The nonce of an executed batch is stored for its token. -/
def storeBatchNonce (p : Peggy) (batch : OutgoingTxBatch) : Peggy :=
  { p with
    lastBatchNonces := put batch.tokenContract (some batch.batchNonce) p.lastBatchNonces }

/-- `submitBatch`; `signed` says whether `checkValidatorSignatures` passes. -/
def submitBatch (p : Peggy) (signed : Bool) (batch : OutgoingTxBatch) : Except Revert Peggy :=
  if ¬ p.lastBatchNonce batch.tokenContract < batch.batchNonce then .error .batchNonce
  else if ¬ p.blockNumber < batch.batchTimeout then .error .batchTimeout
  else if !signed then .error .signatures
  else .ok ((p.storeBatchNonce batch).emit (.transactionBatchExecuted batch))

variable {b : OutgoingTxBatch}

theorem submitBatch_ok {p p' : Peggy} {signed : Bool} (h : p.submitBatch signed b = .ok p') :
    p.lastBatchNonce b.tokenContract < b.batchNonce ∧ p.blockNumber < b.batchTimeout ∧
      signed = true ∧ p' = (p.storeBatchNonce b).emit (.transactionBatchExecuted b) := by
  rw [submitBatch] at h
  split at h
  · cases h
  rename_i hnonce
  split at h
  · cases h
  rename_i htimeout
  cases signed with
  | false => cases h
  | true =>
    cases h
    exact ⟨not_not.mp hnonce, not_not.mp htimeout, rfl, rfl⟩

/-- The batch an event pays out. -/
def batchOf : EthEvent → Option OutgoingTxBatch
  | .transactionBatchExecuted batch => some batch
  | .sendToInjective _ => none
  | .valsetUpdated => none

/-- The batches paid out. -/
def executed (logs : List Log) : List OutgoingTxBatch :=
  logs.filterMap (fun log => batchOf log.event)

theorem batchOf_eq_some {event : EthEvent} :
    batchOf event = some b ↔ event = .transactionBatchExecuted b := by
  cases event with
  | transactionBatchExecuted b' =>
    rw [batchOf, Option.some.injEq, EthEvent.transactionBatchExecuted.injEq]
  | sendToInjective _ | valsetUpdated =>
    constructor
    · intro h
      cases h
    · intro h
      cases h

theorem mem_executed {logs : List Log} :
    b ∈ executed logs ↔ ∃ log ∈ logs, log.event = .transactionBatchExecuted b := by
  rw [executed, List.mem_filterMap]
  exact exists_congr fun log => and_congr_right fun _ => batchOf_eq_some

theorem executed_append (logs logs' : List Log) :
    executed (logs ++ logs') = executed logs ++ executed logs' :=
  List.filterMap_append

variable {log : Log}

theorem executed_cons_none (h : batchOf log.event = none) (logs : List Log) :
    executed (log :: logs) = executed logs :=
  List.filterMap_cons_none h

theorem executed_cons_some (h : batchOf log.event = some b) (logs : List Log) :
    executed (log :: logs) = b :: executed logs :=
  List.filterMap_cons_some h

end Peggy

/-! ## The module -/

/-- The errors that are panics. -/
def PeggyError.isPanic : PeggyError → Bool
  | .panicBurn => true
  | .panicFeeIndexed => true
  | .panicUnknownBatch => true
  | .panicFailedCancel => true
  | .panicNegativeCoin => true
  | .panicReceiver => true
  | _ => false

/-- The environment of an observed event, and what the message in the data of a deposit
    does with the bank (`ProcessClaimData`). -/
structure Observation where
  env : Env
  claimData : Bank → Bank

/-- `OutgoingTxBatchSize`. -/
def outgoingTxBatchSize : ℤ := 100

namespace State

/-- `SendToEth`; the zero address and those on the blacklist are no destinations. -/
def sendToEth (env : Env) (s : State) (sender : Account) (ethDest : EthAddress)
    (amount bridgeFee : Coin) : Except PeggyError State :=
  if env.isOnBlacklist ethDest || ethDest == 0 then .error .invalidEthDestination
  else s.addToOutgoingPool env sender ethDest amount bridgeFee

/-- `RequestBatch`. -/
def requestBatch (env : Env) (s : State) (denom : Denom) : Except PeggyError State := do
  let (isCosmosOriginated, tokenContract) ← denomToERC20Lookup env denom
  if isCosmosOriginated then .error .unsupported
  else s.buildOutgoingTXBatch env tokenContract outgoingTxBatchSize

/-- What `TryAttestation` does with an event that has the votes: the heights are recorded,
    then the handler runs. A deposit that fails leaves nothing behind, unless it panics. -/
def observe (o : Observation) (s : State) (log : Log) : Except PeggyError State :=
  let s := { s with lastHeight := ⟨o.env.blockHeight, log.height⟩ }
  match log.event with
  | .transactionBatchExecuted batch =>
    s.outgoingTxBatchExecuted o.env batch.tokenContract batch.batchNonce
  | .sendToInjective claim =>
    match s.handleDepositClaim o.env claim with
    | .ok s => .ok { s with bank := o.claimData s.bank }
    | .error e => if e.isPanic then .error e else .ok { s with bank := o.claimData s.bank }
  | .valsetUpdated => .ok s

/-- `attestationTally`, over the events that have the votes. -/
def attestationTally : List (Observation × Log) → State → Except PeggyError State
  | [], s => .ok s
  | (o, log) :: rest, s =>
    match s.observe o log with
    | .error e => .error e
    | .ok s => attestationTally rest s

/-- The loop of `cleanupTimedOutBatches`: an error is logged. -/
def cleanupLoop (ethereumHeight : ℕ) : List OutgoingTxBatch → State → State
  | [], s => s
  | batch :: rest, s =>
    if batch.batchTimeout < ethereumHeight then
      match s.cancelOutgoingTXBatch batch.tokenContract batch.batchNonce with
      | .ok s => cleanupLoop ethereumHeight rest s
      | .error _ => cleanupLoop ethereumHeight rest s
    else cleanupLoop ethereumHeight rest s

/-- `cleanupTimedOutBatches`. -/
def cleanupTimedOutBatches (s : State) : State :=
  cleanupLoop s.lastHeight.ethereumBlockHeight s.iterateOutgoingTXBatches s

variable {s : State}

theorem cleanupLoop_spec (hs : s.Placed) (height : ℕ) {bs : List OutgoingTxBatch}
    (hbs : ∀ b ∈ bs, s.batches.lookup b.key = some b) (hnodup : (bs.map (·.key)).Nodup) :
    Cancels (bs.filter (·.batchTimeout < height)) s (cleanupLoop height bs s) := by
  induction bs generalizing s with
  | nil => exact .nil hs
  | cons b bs ih =>
    rw [List.map_cons, List.nodup_cons] at hnodup
    have hb := hbs b List.mem_cons_self
    have hrest := fun b' hb' => hbs b' (List.mem_cons_of_mem b hb')
    rw [cleanupLoop, List.filter_cons]
    by_cases htimeout : b.batchTimeout < height
    · have hstep : s.cancelOutgoingTXBatch b.tokenContract b.batchNonce =
          .ok (s.cancelled b) := cancelOutgoingTXBatch_eq hs hb
      rw [if_pos htimeout, hstep, if_pos (decide_eq_true htimeout)]
      refine (ih (hs.cancelled hb) ?_ hnodup.2).cons
      intro b' hb'
      refine lookup_cancelled_of_ne (hrest b' hb') ?_
      intro heq
      exact hnodup.1 (heq ▸ List.mem_map_of_mem hb')
    · rw [if_neg htimeout, if_neg (fun htrue => htimeout (of_decide_eq_true htrue))]
      exact ih hs hrest hnodup.2

theorem cleanupTimedOutBatches_spec (hs : s.Placed) :
    ∃ bs, Cancels bs s s.cleanupTimedOutBatches ∧
      ∀ b ∈ bs, s.batches.lookup b.key = some b ∧
        b.batchTimeout < s.lastHeight.ethereumBlockHeight := by
  refine ⟨_, cleanupLoop_spec hs _ (fun _ => (mem_iterateOutgoingTXBatches hs).mp)
    (nodup_iterateOutgoingTXBatches hs), ?_⟩
  intro b hb
  obtain ⟨hmem, htimeout⟩ := List.mem_filter.mp hb
  exact ⟨(mem_iterateOutgoingTXBatches hs).mp hmem, of_decide_eq_true htimeout⟩

end State

/-! ## Both chains -/

/-- The module, how far it has observed, and the contract. -/
structure World where
  injective : State
  lastObservedEventNonce : ℕ
  ethereum : Peggy

inductive BridgeError where
  | injective (e : PeggyError)
  | ethereum (r : Revert)
  deriving DecidableEq, Repr

namespace World

/-- Nothing has happened on either chain. -/
def start (blockNumber : ℕ) : World := ⟨.empty, 0, .initialized blockNumber⟩

/-- The events that are still to be observed. -/
def unobserved (w : World) : List Log := w.ethereum.logs.drop w.lastObservedEventNonce

/-- The events that have been observed. -/
def observed (w : World) : List Log := w.ethereum.logs.take w.lastObservedEventNonce

/-- `EndBlocker`, in a block where the next events of the contract have the votes, one for
    each observation: `attestationTally`, then `cleanupTimedOutBatches`. -/
def endBlocker (w : World) (os : List Observation) : Except PeggyError World :=
  let events := os.zip w.unobserved
  match State.attestationTally events w.injective with
  | .error e => .error e
  | .ok s =>
    .ok { w with
      injective := s.cleanupTimedOutBatches
      lastObservedEventNonce := w.lastObservedEventNonce + events.length }

/-- What happens on either chain. -/
inductive Op where
  | sendToEth (env : Env) (sender : Account) (ethDest : EthAddress) (amount bridgeFee : Coin)
  | cancelSendToEth (env : Env) (transactionId : ℕ) (sender : Account)
  | requestBatch (env : Env) (denom : Denom)
  | endBlocker (os : List Observation)
  | otherModules (bank : Bank)
  | mine (blocks : ℕ)
  | submitBatch (batch : OutgoingTxBatch)
  | sendToInjective (claim : MsgDepositClaim)
  | updateValset

/-- The result of a message to the module. -/
def onInjective (w : World) (result : Except PeggyError State) : Except BridgeError World :=
  match result with
  | .error e => .error (.injective e)
  | .ok s => .ok { w with injective := s }

/-- One step of either chain. A batch has the signatures only if the module once stored
    it. -/
def step : Op → World → Except BridgeError World
  | .sendToEth env sender ethDest amount bridgeFee, w =>
    w.onInjective (w.injective.sendToEth env sender ethDest amount bridgeFee)
  | .cancelSendToEth env transactionId sender, w =>
    w.onInjective (w.injective.removeFromOutgoingPoolAndRefund env transactionId sender)
  | .requestBatch env denom, w => w.onInjective (w.injective.requestBatch env denom)
  | .endBlocker os, w => (w.endBlocker os).mapError .injective
  | .otherModules bank, w => w.onInjective (.ok { w.injective with bank := bank })
  | .mine blocks, w =>
    .ok { w with ethereum := { w.ethereum with
      blockNumber := w.ethereum.blockNumber + blocks } }
  | .submitBatch batch, w =>
    match w.ethereum.submitBatch (w.injective.checkpoints.contains batch) batch with
    | .error r => .error (.ethereum r)
    | .ok p => .ok { w with ethereum := p }
  | .sendToInjective claim, w =>
    .ok { w with ethereum := w.ethereum.emit (.sendToInjective claim) }
  | .updateValset, w => .ok { w with ethereum := w.ethereum.emit .valsetUpdated }

/-! ## The invariant -/

/-- A batch that the contract refuses from now on. -/
def Refused (w : World) (b : OutgoingTxBatch) : Prop :=
  b.batchTimeout < w.injective.lastHeight.ethereumBlockHeight ∨
    b.batchNonce ≤ w.ethereum.lastBatchNonce b.tokenContract

/-- What holds between the two chains. -/
structure Bridged (w : World) : Prop where
  placed : w.injective.Placed
  le_length : w.lastObservedEventNonce ≤ w.ethereum.logs.length
  sorted : w.ethereum.logs.Pairwise (fun log log' => log.height ≤ log'.height)
  mined : ∀ log ∈ w.ethereum.logs, log.height ≤ w.ethereum.blockNumber
  seen : w.injective.lastHeight.ethereumBlockHeight ≤ w.ethereum.blockNumber
  unseen : ∀ log ∈ w.unobserved, w.injective.lastHeight.ethereumBlockHeight ≤ log.height
  known : ∀ k b, w.injective.batches.lookup k = some b → b ∈ w.injective.checkpoints
  issued : ∀ b ∈ w.injective.checkpoints,
    b.batchNonce < State.autoIncrementID w.injective.lastOutgoingBatchID
  distinct : (w.injective.checkpoints.map (·.batchNonce)).Nodup
  stored : ∀ b ∈ w.injective.checkpoints,
    w.injective.batches.lookup b.key = some b ∨ w.Refused b
  last : ∀ b ∈ Peggy.executed w.ethereum.logs, b ∈ w.injective.checkpoints ∧
    b.batchNonce ≤ w.ethereum.lastBatchNonce b.tokenContract
  pending : ∀ log ∈ w.unobserved, ∀ b, log.event = .transactionBatchExecuted b →
    w.injective.batches.lookup b.key = some b ∧ log.height < b.batchTimeout
  rising : (Peggy.executed w.ethereum.logs).Pairwise (fun b b' =>
    b.tokenContract = b'.tokenContract → b.batchNonce < b'.batchNonce)
  settled : ∀ b ∈ Peggy.executed w.observed, w.injective.batches.lookup b.key = none ∧
    .withdrawalsCompleted b ∈ w.injective.events
  cancelled : ∀ b, .outgoingBatchCanceled b ∈ w.injective.events →
    b ∈ w.injective.checkpoints ∧ b ∉ Peggy.executed w.ethereum.logs ∧ w.Refused b

theorem start_bridged (blockNumber : ℕ) : (start blockNumber).Bridged where
  placed := State.empty_placed
  le_length := Nat.zero_le _
  sorted := List.pairwise_singleton _ _
  mined log h := by
    obtain rfl : log = ⟨.valsetUpdated, blockNumber⟩ := List.mem_singleton.mp h
    exact le_rfl
  seen := Nat.zero_le _
  unseen _ _ := Nat.zero_le _
  known _ _ h := by cases h
  issued _ h := by cases h
  distinct := List.nodup_nil
  stored _ h := by cases h
  last _ h := by
    change _ ∈ [] at h
    cases h
  pending log h b hb := by
    obtain rfl : log = ⟨.valsetUpdated, blockNumber⟩ := List.mem_singleton.mp h
    cases hb
  rising := by
    show List.Pairwise _ []
    exact List.Pairwise.nil
  settled _ h := by cases h
  cancelled _ h := by cases h

section Keep

variable {w : World}

theorem logs_eq (w : World) : w.ethereum.logs = w.observed ++ w.unobserved :=
  (List.take_append_drop _ _).symm

variable {b : OutgoingTxBatch}

theorem mem_executed_of_unobserved (h : b ∈ Peggy.executed w.unobserved) :
    b ∈ Peggy.executed w.ethereum.logs := by
  rw [logs_eq, Peggy.executed_append]
  exact List.mem_append_right _ h

theorem Bridged.unobserved_of_stored (h : w.Bridged)
    (hb : w.injective.batches.lookup b.key = some b)
    (hexec : b ∈ Peggy.executed w.ethereum.logs) : b ∈ Peggy.executed w.unobserved := by
  rw [logs_eq, Peggy.executed_append, List.mem_append] at hexec
  rcases hexec with hobs | hun
  · have hnone := (h.settled b hobs).1
    rw [hb] at hnone
    cases hnone
  · exact hun

theorem Bridged.rising_unobserved (h : w.Bridged) :
    (Peggy.executed w.unobserved).Pairwise (fun b b' =>
      b.tokenContract = b'.tokenContract → b.batchNonce < b'.batchNonce) := by
  have hrising := h.rising
  rw [logs_eq, Peggy.executed_append, List.pairwise_append] at hrising
  exact hrising.2.1

variable {s : State}

theorem Bridged.aside (h : w.Bridged) (hs : s.Placed)
    (hbatches : s.batches = w.injective.batches)
    (hcheckpoints : s.checkpoints = w.injective.checkpoints)
    (hlast : s.lastOutgoingBatchID = w.injective.lastOutgoingBatchID)
    (hheight : s.lastHeight = w.injective.lastHeight) {es : List Event}
    (hevents : s.events = w.injective.events ++ es) (hes : ∀ b, .outgoingBatchCanceled b ∉ es) :
    { w with injective := s }.Bridged := by
  obtain ⟨pool, feeIndex, batches, blocks, checkpoints, lastTX, lastBatch, mint, bank, height,
    events⟩ := s
  subst hbatches hcheckpoints hlast hheight hevents
  refine { h with placed := hs, settled := ?_, cancelled := ?_ }
  · intro b hb
    exact ⟨(h.settled b hb).1, List.mem_append_left _ (h.settled b hb).2⟩
  · intro b hb
    exact h.cancelled b ((List.mem_append.mp hb).resolve_right (hes b))

theorem Bridged.funded (h : w.Bridged) (bank : Bank) (mintAmounts : Store EthAddress ℤ) :
    { w with injective := { w.injective with
      bank := bank, mintAmounts := mintAmounts } }.Bridged :=
  h.aside (h.placed.of_eq rfl rfl rfl rfl rfl rfl) rfl rfl rfl rfl (List.append_nil _).symm
    (fun _ => List.not_mem_nil)

/-- The module cancels batches that the contract refuses and has not executed. -/
theorem Bridged.cancels (h : w.Bridged) {bs : List OutgoingTxBatch}
    (hc : State.Cancels bs w.injective s)
    (hbs : ∀ b ∈ bs, w.injective.batches.lookup b.key = some b ∧
      b ∉ Peggy.executed w.unobserved ∧ w.Refused b) : { w with injective := s }.Bridged := by
  obtain ⟨hplaced, -, hbatches, hevents, hcheckpoints, -, hlast, -, -, hheight⟩ := hc
  obtain ⟨pool, feeIndex, batches, blocks, checkpoints, lastTX, lastBatch, mint, bank, height,
    events⟩ := s
  subst hcheckpoints hlast hheight hevents
  have hmem : ∀ b, w.injective.batches.lookup b.key = some b → b.key ∈ bs.map (·.key) →
      b ∈ bs := by
    intro b hb hkey
    obtain ⟨b', hb', heq⟩ := List.mem_map.mp hkey
    have hlookup := (hbs b' hb').1
    rw [heq, hb] at hlookup
    rwa [Option.some.inj hlookup]
  refine { h with
    placed := hplaced, known := ?_, stored := ?_, pending := ?_, settled := ?_, cancelled := ?_ }
  · intro k b hb
    rw [hbatches] at hb
    split at hb
    · cases hb
    exact h.known k b hb
  · intro b hb
    rcases h.stored b hb with hlookup | hr
    · by_cases hkey : b.key ∈ bs.map (·.key)
      · exact Or.inr (hbs b (hmem b hlookup hkey)).2.2
      · exact Or.inl ((hbatches _).trans ((if_neg hkey).trans hlookup))
    · exact Or.inr hr
  · intro log hlog b hb
    obtain ⟨hlookup, htimeout⟩ := h.pending log hlog b hb
    refine ⟨?_, htimeout⟩
    rw [hbatches, if_neg, hlookup]
    intro hkey
    exact (hbs b (hmem b hlookup hkey)).2.1 (Peggy.mem_executed.mpr ⟨log, hlog, hb⟩)
  · intro b hb
    obtain ⟨hnone, hevent⟩ := h.settled b hb
    exact ⟨by rw [hbatches, hnone, ite_self], List.mem_append_left _ hevent⟩
  · intro b hb
    rcases List.mem_append.mp hb with hold | hnew
    · exact h.cancelled b hold
    · obtain ⟨b', hb', heq⟩ := List.mem_map.mp hnew
      cases heq
      obtain ⟨hlookup, hnot, hr⟩ := hbs b hb'
      exact ⟨h.known _ _ hlookup, fun hexec => hnot (h.unobserved_of_stored hlookup hexec), hr⟩

theorem Bridged.batched (h : w.Bridged) (hs : (w.injective.batched b).Placed)
    (hnonce : b.batchNonce = State.autoIncrementID w.injective.lastOutgoingBatchID) :
    { w with injective := w.injective.batched b }.Bridged := by
  have hlookup : ∀ k, (w.injective.batched b).batches.lookup k =
      if k = b.key then some b else w.injective.batches.lookup k :=
    fun k => lookup_put b.key k _ _
  -- the nonce is new
  have hne : ∀ b' ∈ w.injective.checkpoints, b'.batchNonce ≠ b.batchNonce := by
    intro b' hb'
    rw [hnonce]
    exact (h.issued b' hb').ne
  have hkey : ∀ b' ∈ w.injective.checkpoints, b'.key ≠ b.key :=
    fun b' hb' heq => hne b' hb' (congrArg BatchKey.nonce heq)
  have hold : ∀ b' ∈ w.injective.checkpoints, b' ∈ w.injective.checkpoints ++ [b] :=
    fun b' => List.mem_append_left _
  refine { h with
    placed := hs, known := ?_, issued := ?_, distinct := ?_, stored := ?_, last := ?_,
    pending := ?_, settled := ?_, cancelled := ?_ }
  · intro k b' hb'
    rw [hlookup] at hb'
    split at hb'
    · cases hb'
      exact List.mem_append_right _ (List.mem_singleton_self b)
    · exact hold b' (h.known k b' hb')
  · refine List.forall_mem_append.mpr ⟨?_, List.forall_mem_singleton.mpr (Nat.lt_succ_self _)⟩
    intro b' hb'
    show b'.batchNonce < b.batchNonce + 1
    rw [hnonce]
    exact Nat.lt_succ_of_lt (h.issued b' hb')
  · show ((w.injective.checkpoints ++ [b]).map (·.batchNonce)).Nodup
    rw [List.map_append, List.map_singleton, List.nodup_append]
    refine ⟨h.distinct, List.nodup_singleton _, ?_⟩
    intro n hn n' hn'
    obtain ⟨b', hb', rfl⟩ := List.mem_map.mp hn
    rw [List.mem_singleton.mp hn']
    exact hne b' hb'
  · intro b' hb'
    rcases List.mem_append.mp hb' with hold' | hnew
    · rcases h.stored b' hold' with hl | hr
      · exact Or.inl (by rw [hlookup, if_neg (hkey b' hold'), hl])
      · exact Or.inr hr
    · rw [List.mem_singleton.mp hnew]
      exact Or.inl ((hlookup _).trans (if_pos rfl))
  · intro b' hb'
    exact ⟨hold b' (h.last b' hb').1, (h.last b' hb').2⟩
  · intro log hlog b' hb'
    obtain ⟨hl, htimeout⟩ := h.pending log hlog b' hb'
    exact ⟨by rw [hlookup, if_neg (hkey b' (h.known _ _ hl)), hl], htimeout⟩
  · intro b' hb'
    obtain ⟨hnone, hevent⟩ := h.settled b' hb'
    have hexec : b' ∈ Peggy.executed w.ethereum.logs := by
      rw [logs_eq, Peggy.executed_append]
      exact List.mem_append_left _ hb'
    exact ⟨by rw [hlookup, if_neg (hkey b' (h.last b' hexec).1), hnone], hevent⟩
  · intro b' hb'
    obtain ⟨hmem, hrest⟩ := h.cancelled b' hb'
    exact ⟨hold b' hmem, hrest⟩

/-! ### Observing the next event -/

variable {log : Log} {rest : List Log}

section Next

variable (hlog : w.unobserved = log :: rest)
include hlog

theorem mem_unobserved : log ∈ w.unobserved ∧ ∀ log' ∈ rest, log' ∈ w.unobserved := by
  rw [hlog]
  exact ⟨List.mem_cons_self, fun _ => List.mem_cons_of_mem _⟩

theorem unobserved_next (s : State) :
    unobserved { w with
      injective := s, lastObservedEventNonce := w.lastObservedEventNonce + 1 } = rest := by
  show w.ethereum.logs.drop (w.lastObservedEventNonce + 1) = rest
  rw [← List.tail_drop]
  exact congrArg List.tail hlog

theorem observed_next (s : State) :
    observed { w with
      injective := s, lastObservedEventNonce := w.lastObservedEventNonce + 1 } =
      w.observed ++ [log] := by
  have hget : w.ethereum.logs[w.lastObservedEventNonce]? = some log := by
    rw [← List.head?_drop]
    exact congrArg List.head? hlog
  show w.ethereum.logs.take (w.lastObservedEventNonce + 1) = _
  rw [List.take_add_one, hget]
  rfl

theorem le_length_next : w.lastObservedEventNonce + 1 ≤ w.ethereum.logs.length := by
  by_contra hlt
  have hnil : w.unobserved = [] := List.drop_of_length_le (by omega)
  rw [hlog] at hnil
  cases hnil

theorem Bridged.heard (h : w.Bridged) (cosmosHeight : ℕ) :
    { w with injective := { w.injective with
      lastHeight := ⟨cosmosHeight, log.height⟩ } }.Bridged := by
  have hmem := (mem_unobserved hlog).1
  have hle := h.unseen log hmem
  have hrefused : ∀ b, w.Refused b → Refused { w with injective := { w.injective with
      lastHeight := ⟨cosmosHeight, log.height⟩ } } b :=
    fun b => Or.imp_left (fun hlt => lt_of_lt_of_le hlt hle)
  refine { h with
    placed := h.placed.of_eq rfl rfl rfl rfl rfl rfl, seen := ?_, unseen := ?_, stored := ?_,
    cancelled := ?_ }
  · exact h.mined log (List.mem_of_mem_drop hmem)
  · show ∀ log' ∈ w.unobserved, log.height ≤ log'.height
    have hsorted : w.unobserved.Pairwise (fun log log' => log.height ≤ log'.height) :=
      h.sorted.sublist (List.drop_sublist _ _)
    rw [hlog] at hsorted ⊢
    exact List.forall_mem_cons.mpr ⟨le_rfl, (List.pairwise_cons.mp hsorted).1⟩
  · intro b hb
    exact (h.stored b hb).imp_right (hrefused b)
  · intro b hb
    obtain ⟨hknown, hnot, hr⟩ := h.cancelled b hb
    exact ⟨hknown, hnot, hrefused b hr⟩

end Next

theorem Bridged.passed (h : w.Bridged) (hlog : w.unobserved = log :: rest)
    (hnone : Peggy.batchOf log.event = none) :
    { w with lastObservedEventNonce := w.lastObservedEventNonce + 1 }.Bridged := by
  have hun := unobserved_next hlog w.injective
  have hobs := observed_next hlog w.injective
  have hmem := (mem_unobserved hlog).2
  refine { h with
    le_length := le_length_next hlog, unseen := ?_, pending := ?_, settled := ?_ }
  · rw [hun]
    exact fun log' hlog' => h.unseen log' (hmem log' hlog')
  · rw [hun]
    exact fun log' hlog' => h.pending log' (hmem log' hlog')
  · rw [hobs, Peggy.executed_append, Peggy.executed_cons_none hnone]
    intro b hb
    exact h.settled b ((List.mem_append.mp hb).resolve_right List.not_mem_nil)

/-- The chain sees a batch Ethereum executed and completes it. -/
theorem Bridged.completed (h : w.Bridged) (hlog : w.unobserved = log :: rest)
    (hb : log.event = .transactionBatchExecuted b) (mintAmounts : Store EthAddress ℤ) :
    { w with
      injective := w.injective.completed b mintAmounts
      lastObservedEventNonce := w.lastObservedEventNonce + 1 }.Bridged := by
  have hun := unobserved_next hlog (w.injective.completed b mintAmounts)
  have hobs := observed_next hlog (w.injective.completed b mintAmounts)
  have hbatch : Peggy.batchOf log.event = some b := Peggy.batchOf_eq_some.mpr hb
  obtain ⟨hhead, hmem⟩ := mem_unobserved hlog
  have hexec : b ∈ Peggy.executed w.ethereum.logs :=
    mem_executed_of_unobserved (Peggy.mem_executed.mpr ⟨log, hhead, hb⟩)
  have hrising := h.rising_unobserved
  rw [hlog, Peggy.executed_cons_some hbatch, List.pairwise_cons] at hrising
  have hlookup : ∀ k, (w.injective.completed b mintAmounts).batches.lookup k =
      if k = b.key then none else w.injective.batches.lookup k :=
    fun k => lookup_put b.key k _ _
  refine { h with
    placed := h.placed.completed (h.pending log hhead b hb).1 _
    le_length := le_length_next hlog, unseen := ?_, known := ?_, stored := ?_, pending := ?_,
    settled := ?_, cancelled := ?_ }
  · rw [hun]
    exact fun log' hlog' => h.unseen log' (hmem log' hlog')
  · intro k b' hb'
    rw [hlookup] at hb'
    split at hb'
    · cases hb'
    exact h.known k b' hb'
  · intro b' hb'
    by_cases hkey : b'.key = b.key
    · have hnonce : b'.batchNonce = b.batchNonce := congrArg BatchKey.nonce hkey
      have htoken : b'.tokenContract = b.tokenContract :=
        congrArg BatchKey.tokenContract hkey
      refine Or.inr (Or.inr ?_)
      rw [hnonce, htoken]
      exact (h.last b hexec).2
    · rw [hlookup, if_neg hkey]
      exact h.stored b' hb'
  · rw [hun]
    intro log' hlog' b' hb'
    obtain ⟨hl, htimeout⟩ := h.pending log' (hmem log' hlog') b' hb'
    refine ⟨?_, htimeout⟩
    rw [hlookup, if_neg, hl]
    -- a later execution for the token has a greater nonce
    intro hkey
    have hlt := hrising.1 b' (Peggy.mem_executed.mpr ⟨log', hlog', hb'⟩)
      (congrArg BatchKey.tokenContract hkey).symm
    exact hlt.ne (congrArg BatchKey.nonce hkey).symm
  · rw [hobs, Peggy.executed_append]
    intro b' hb'
    rw [hlookup]
    rcases List.mem_append.mp hb' with hold | hnew
    · obtain ⟨hnone, hevent⟩ := h.settled b' hold
      exact ⟨by rw [hnone, ite_self], List.mem_append_left _ hevent⟩
    · rw [Peggy.executed_cons_some hbatch] at hnew
      obtain rfl : b' = b := List.mem_singleton.mp hnew
      exact ⟨if_pos rfl, List.mem_append_right _ (List.mem_singleton_self _)⟩
  · intro b' hb'
    refine h.cancelled b' ((List.mem_append.mp hb').resolve_right ?_)
    intro hlast
    cases List.mem_singleton.mp hlast

/-! ### The contract -/

variable {p : Peggy}

/-- The contract emits an event. If it pays out a batch, that one was stored. -/
theorem Bridged.emit (h : w.Bridged) {event : EthEvent}
    (hnumber : p.blockNumber = w.ethereum.blockNumber)
    (hlogs : p.logs = w.ethereum.logs ++ [⟨event, w.ethereum.blockNumber⟩])
    (hmono : ∀ token, w.ethereum.lastBatchNonce token ≤ p.lastBatchNonce token)
    (hexec : ∀ b, event = .transactionBatchExecuted b → b ∈ w.injective.checkpoints ∧
      w.ethereum.lastBatchNonce b.tokenContract < b.batchNonce ∧
      w.ethereum.blockNumber < b.batchTimeout ∧
      b.batchNonce ≤ p.lastBatchNonce b.tokenContract) : { w with ethereum := p }.Bridged := by
  obtain ⟨number, nonces, logs⟩ := p
  subst hnumber hlogs
  -- what the contract accepts is not refused
  have hfree : ∀ b, event = .transactionBatchExecuted b → ¬ w.Refused b := by
    rintro b hb (htimeout | hnonce)
    · exact absurd (htimeout.trans_le (h.seen.trans (hexec b hb).2.2.1.le)) (lt_irrefl _)
    · exact absurd ((hexec b hb).2.1.trans_le hnonce) (lt_irrefl _)
  have hun : (w.ethereum.logs ++ [Log.mk event w.ethereum.blockNumber]).drop
      w.lastObservedEventNonce = w.unobserved ++ [⟨event, w.ethereum.blockNumber⟩] :=
    List.drop_append_of_le_length h.le_length
  have hcases : ∀ b,
      b ∈ Peggy.executed (w.ethereum.logs ++ [⟨event, w.ethereum.blockNumber⟩]) →
      b ∈ Peggy.executed w.ethereum.logs ∨ event = .transactionBatchExecuted b := by
    intro b hb
    rw [Peggy.executed_append, List.mem_append] at hb
    refine hb.imp_right ?_
    intro hnew
    obtain ⟨log, hlog, hevent⟩ := Peggy.mem_executed.mp hnew
    rwa [List.mem_singleton.mp hlog] at hevent
  refine { h with
    le_length := h.le_length.trans (List.sublist_append_left _ _).length_le, sorted := ?_
    mined := ?_, unseen := ?_, stored := ?_, last := ?_, pending := ?_, rising := ?_
    settled := ?_, cancelled := ?_ }
  · refine List.pairwise_append.mpr ⟨h.sorted, List.pairwise_singleton _ _, ?_⟩
    intro log hlog log' hlog'
    rw [List.mem_singleton.mp hlog']
    exact h.mined log hlog
  · exact List.forall_mem_append.mpr ⟨h.mined, List.forall_mem_singleton.mpr le_rfl⟩
  · rw [unobserved, hun]
    exact List.forall_mem_append.mpr ⟨h.unseen, List.forall_mem_singleton.mpr h.seen⟩
  · intro b hb
    exact (h.stored b hb).imp_right (Or.imp_right fun hle => hle.trans (hmono _))
  · intro b hb
    rcases hcases b hb with hold | hnew
    · exact ⟨(h.last b hold).1, (h.last b hold).2.trans (hmono _)⟩
    · exact ⟨(hexec b hnew).1, (hexec b hnew).2.2.2⟩
  · rw [unobserved, hun]
    refine List.forall_mem_append.mpr ⟨h.pending, List.forall_mem_singleton.mpr ?_⟩
    intro b hb
    exact ⟨(h.stored b (hexec b hb).1).resolve_right (hfree b hb), (hexec b hb).2.2.1⟩
  · show (Peggy.executed (_ ++ _)).Pairwise _
    rw [Peggy.executed_append, List.pairwise_append]
    refine ⟨h.rising, ?_, ?_⟩
    · cases hbatch : Peggy.batchOf event with
      | none =>
        rw [Peggy.executed_cons_none hbatch]
        exact List.Pairwise.nil
      | some b =>
        rw [Peggy.executed_cons_some hbatch]
        exact List.pairwise_singleton _ _
    · intro b hb b' hb' htoken
      obtain ⟨log, hlog, hevent⟩ := Peggy.mem_executed.mp hb'
      rw [List.mem_singleton.mp hlog] at hevent
      have hle := (h.last b hb).2
      rw [htoken] at hle
      exact hle.trans_lt (hexec b' hevent).2.1
  · rw [observed, List.take_append_of_le_length h.le_length]
    exact h.settled
  · intro b hb
    obtain ⟨hknown, hnot, hr⟩ := h.cancelled b hb
    refine ⟨hknown, ?_, hr.imp_right fun hle => hle.trans (hmono _)⟩
    intro hmem
    rcases hcases b hmem with hold | hnew
    · exact hnot hold
    · exact hfree b hnew hr

theorem Bridged.mine (h : w.Bridged) (blocks : ℕ) :
    { w with ethereum := { w.ethereum with
      blockNumber := w.ethereum.blockNumber + blocks } }.Bridged :=
  { h with
    mined := fun log hlog => (h.mined log hlog).trans (Nat.le_add_right _ _)
    seen := h.seen.trans (Nat.le_add_right _ _) }

theorem Bridged.submitBatch (h : w.Bridged)
    (hok : w.ethereum.submitBatch (w.injective.checkpoints.contains b) b = .ok p) :
    { w with ethereum := p }.Bridged := by
  obtain ⟨hnonce, htimeout, hsigned, rfl⟩ := Peggy.submitBatch_ok hok
  have hlast : ∀ token, ((w.ethereum.storeBatchNonce b).emit
      (.transactionBatchExecuted b)).lastBatchNonce token =
      if token = b.tokenContract then b.batchNonce else w.ethereum.lastBatchNonce token := by
    intro token
    rw [Peggy.lastBatchNonce, Peggy.emit, Peggy.storeBatchNonce, lookup_put]
    split
    · rfl
    · rfl
  refine h.emit rfl rfl ?_ ?_
  · intro token
    rw [hlast]
    split
    · next heq =>
      rw [heq]
      exact hnonce.le
    · exact le_rfl
  · intro b' hb'
    cases hb'
    refine ⟨List.contains_iff_mem.mp hsigned, hnonce, htimeout, ?_⟩
    rw [hlast, if_pos rfl]

end Keep

end World

end PeggyPool
