import InjectiveCore.ByteKeyProofs
import InjectiveCore.KeyedStoreProofs
import InjectiveCore.TransitionProofs

/-!
# The outgoing pool of the bridge

A transfer to Ethereum is an entry of the outgoing pool until it is refunded or executed.
Entries that can be batched are also keys of a **fee index**, ordered by fee, and the
entries of a batch are copied into the batch. Three stores therefore say where a transfer
is, and five operations move it (`keeper/pool.go`, `keeper/batch.go`):

- `addToOutgoingPool` and `removeFromOutgoingPoolAndRefund` burn and mint the coins;
- `buildOutgoingTXBatch` takes the entries with the highest fees out of the index,
  `cancelOutgoingTXBatch` puts them back;
- `outgoingTxBatchExecuted` removes them from the pool, and cancels every earlier batch
  of the token.

Deposits from Ethereum mint coins (`handleDepositClaim`). The bank keeps balances; its
supply is what the balances add up to. Operations return an error or panic before they
have changed anything that is kept. The history of batches and refunds is in the events.
-/

namespace PeggyPool

open KeyedStore

/-! ## Transfers, batches and coins -/

/-- An Ethereum address. -/
abbrev EthAddress := BitVec 160

/-- Who holds coins. -/
inductive Account where
  | address (bytes : BitVec 160)
  | peggyModule
  | communityPool
  deriving DecidableEq, Repr

/-- How the address in a denom is written. `PeggyDenomString` writes it with the checksum
    in its upper and lower case letters. -/
inductive Spelling where
  | checksummed
  | other (text : String)
  deriving DecidableEq, Repr

/-- A denom of the bank: `peggy` with an address behind it, or another name. -/
inductive Denom where
  | peggy (contract : EthAddress) (spelling : Spelling)
  | native (name : String)
  deriving DecidableEq, Repr

/-- `PeggyDenomString`. -/
def peggyDenomString (tokenContract : EthAddress) : Denom := .peggy tokenContract .checksummed

/-- `NewPeggyDenomFromString` and `TokenContract`: any spelling of the address is read. -/
def newPeggyDenomFromString : Denom → Option EthAddress
  | .peggy contract _ => some contract
  | .native _ => none

/-- `InjectiveCoin`. -/
def injectiveCoin : Denom := .native "inj"

/-- `Coin`. -/
structure Coin where
  denom : Denom
  amount : ℕ
  deriving DecidableEq, Repr

/-- `ERC20Token`. -/
structure ERC20Token where
  contract : EthAddress
  amount : ℕ
  deriving DecidableEq, Repr

/-- `OutgoingTransferTx`. -/
structure OutgoingTransferTx where
  id : ℕ
  sender : Account
  destAddress : EthAddress
  erc20Token : ERC20Token
  erc20Fee : ERC20Token
  deriving DecidableEq, Repr

/-- What the transfer takes from its sender. -/
def OutgoingTransferTx.total (tx : OutgoingTransferTx) : ℕ :=
  tx.erc20Token.amount + tx.erc20Fee.amount

/-- The transfer with both of its tokens at a contract. -/
def OutgoingTransferTx.withContract (tx : OutgoingTransferTx) (contract : EthAddress) :
    OutgoingTransferTx :=
  { tx with
    erc20Token := { tx.erc20Token with contract := contract }
    erc20Fee := { tx.erc20Fee with contract := contract } }

/-- `OutgoingTxBatch`. -/
structure OutgoingTxBatch where
  batchNonce : ℕ
  batchTimeout : ℕ
  transactions : List OutgoingTransferTx
  tokenContract : EthAddress
  block : ℕ
  deriving DecidableEq, Repr

/-- `GetOutgoingTxBatchKey`. -/
structure BatchKey where
  nonce : ℕ
  tokenContract : EthAddress
  deriving DecidableEq, Repr

def OutgoingTxBatch.key (b : OutgoingTxBatch) : BatchKey := ⟨b.batchNonce, b.tokenContract⟩

/-! ## The fee index -/

/-- The components of a fee index key. -/
structure FeeIndexKey where
  token : EthAddress
  fee : ℕ
  txID : ℕ
  deriving DecidableEq, Repr

/-- `GetFeeIndexKey` without its prefix: address, fee in 32 bytes, id in 8 bytes. -/
def getFeeIndexKey (k : FeeIndexKey) : List ℕ :=
  ByteKey.bigEndian 256 20 k.token.toNat ++
    (ByteKey.bigEndian 256 32 k.fee ++ ByteKey.bigEndian 256 8 k.txID)

/-- The key of a transfer under the fee and the id it was given. -/
def OutgoingTransferTx.feeKey (tx : OutgoingTransferTx) : FeeIndexKey :=
  ⟨tx.erc20Token.contract, tx.erc20Fee.amount, tx.id⟩

/-- The order of the components, largest first. -/
def FeeIndexKey.Above (k k' : FeeIndexKey) : Prop :=
  k'.token.toNat < k.token.toNat ∨
    k'.token = k.token ∧ (k'.fee < k.fee ∨ k'.fee = k.fee ∧ k'.txID < k.txID)

instance (k k' : FeeIndexKey) : Decidable (k.Above k') :=
  inferInstanceAs (Decidable (_ ∨ _ ∧ (_ ∨ _ ∧ _)))

/-- **KEY ORDER**: a reverse scan of the bytes goes from the highest fee down, and among
    equal fees from the latest transfer. -/
theorem getFeeIndexKey_lt {k k' : FeeIndexKey} (hfee : k.fee < 256 ^ 32)
    (hid : k.txID < 256 ^ 8) (h : k.Above k') : getFeeIndexKey k' < getFeeIndexKey k := by
  have hbase : 1 < 256 := by decide
  have htoken : ∀ a : EthAddress, a.toNat < 256 ^ 20 := fun a => a.isLt
  rcases h with h | ⟨heq, h | ⟨hfees, h⟩⟩
  · refine ByteKey.append_lt_append_of_lt ?_ (ByteKey.bigEndian_lt hbase (htoken _) h) _ _
    rw [ByteKey.length_bigEndian hbase (htoken _), ByteKey.length_bigEndian hbase (htoken _)]
  · rw [getFeeIndexKey, getFeeIndexKey, heq]
    refine List.append_left_lt (ByteKey.append_lt_append_of_lt ?_
      (ByteKey.bigEndian_lt hbase hfee h) _ _)
    rw [ByteKey.length_bigEndian hbase hfee, ByteKey.length_bigEndian hbase (h.trans hfee)]
  · rw [getFeeIndexKey, getFeeIndexKey, heq, hfees]
    exact List.append_left_lt (List.append_left_lt
      (ByteKey.bigEndian_lt hbase hid h))

/-! ## The bank -/

/-- Balances of accounts. -/
abbrev Bank := Store (Account × Denom) ℕ

namespace Bank

/-- `GetBalance`. -/
def balance (b : Bank) (a : Account) (d : Denom) : ℕ := (b.lookup (a, d)).getD 0

/-- `GetSupply`. -/
def supply (b : Bank) (d : Denom) : ℕ := total (fun k q => if k.2 = d then q else 0) b

/-- Coins that come into an account. -/
def credit (b : Bank) (a : Account) (c : Coin) : Bank :=
  put (a, c.denom) (some (b.balance a c.denom + c.amount)) b

/-- Coins that leave an account, if it has them. -/
def debit (b : Bank) (a : Account) (c : Coin) : Option Bank :=
  if c.amount ≤ b.balance a c.denom then
    some (put (a, c.denom) (some (b.balance a c.denom - c.amount)) b)
  else none

end Bank

/-! ## The keeper -/

/-- `LastObservedEthereumBlockHeight`. -/
structure LastObservedEthereumBlockHeight where
  cosmosBlockHeight : ℕ
  ethereumBlockHeight : ℕ
  deriving DecidableEq, Repr

/-- What the operations read and do not change: the block, the parameters, the index of
    tokens of Cosmos origin, the blacklist. `route` is the account a send of the bank ends
    at, if the bank and its restrictions allow it; `checkRateLimit` compares with the
    limit of the token what is in batches and what is to be batched. -/
structure Env where
  blockHeight : ℕ
  averageBlockTime : ℕ
  averageEthereumBlockTime : ℕ
  targetBatchTimeout : ℕ
  cosmosCoinDenom : Denom
  cosmosCoinERC20Contract : EthAddress
  getCosmosOriginatedDenom : EthAddress → Option Denom
  getCosmosOriginatedERC20 : Denom → Option EthAddress
  segregatedWallet : Account
  isOnBlacklist : EthAddress → Bool
  route : Account → Account → Coin → Option Account
  checkRateLimit : EthAddress → List OutgoingTxBatch → List OutgoingTransferTx → Bool

/-- The events by which the keeper tells what became of batches and transfers. -/
inductive Event where
  | outgoingBatchCanceled (batch : OutgoingTxBatch)
  | bridgeWithdrawCanceled (tx : OutgoingTransferTx)
  | withdrawalsCompleted (batch : OutgoingTxBatch)
  deriving DecidableEq, Repr

/-- The stores of the keeper. `checkpoints` are the batches whose checkpoint was once
    recorded by `SetPastEthSignatureCheckpoint`. -/
structure State where
  pool : Store ℕ OutgoingTransferTx
  feeIndex : Store FeeIndexKey Unit
  batches : Store BatchKey OutgoingTxBatch
  batchBlocks : Store ℕ OutgoingTxBatch
  checkpoints : List OutgoingTxBatch
  lastTXPoolID : Option ℕ
  lastOutgoingBatchID : Option ℕ
  mintAmounts : Store EthAddress ℤ
  bank : Bank
  lastHeight : LastObservedEthereumBlockHeight
  events : List Event

/-- Errors of the operations; those that are panics in the source are called so. -/
inductive PeggyError where
  | differentDenoms
  | unknownDenom
  | unsupported
  | invalidCoins
  | insufficientFunds
  | panicBurn
  | unknown
  | invalidSender
  | inconsistentTokens
  | notInFeeIndex
  | transferVouchers
  | maxElements
  | noUnbatchedTxsFound
  | rateLimit
  | panicFeeIndexed
  | panicUnknownBatch
  | panicFailedCancel
  | invalidEthereumSender
  | panicNegativeCoin
  | supplyOverflow
  | absoluteMintLimitOverflow
  | panicReceiver
  | invalidEthDestination
  deriving DecidableEq, Repr

/-- `DenomToERC20Lookup`. -/
def denomToERC20Lookup (env : Env) (denom : Denom) : Except PeggyError (Bool × EthAddress) :=
  match newPeggyDenomFromString denom with
  | some contract => .ok (false, contract)
  | none =>
    if denom = env.cosmosCoinDenom then .ok (false, env.cosmosCoinERC20Contract)
    else
      match env.getCosmosOriginatedERC20 denom with
      | some contract => .ok (true, contract)
      | none => .error .unknownDenom

/-- `ERC20ToDenomLookup`. -/
def erc20ToDenomLookup (env : Env) (tokenContract : EthAddress) : Bool × Denom :=
  match env.getCosmosOriginatedDenom tokenContract with
  | some denom => (true, denom)
  | none =>
    if tokenContract = env.cosmosCoinERC20Contract then (false, env.cosmosCoinDenom)
    else (false, peggyDenomString tokenContract)

/-- `SendCoins`. -/
def sendCoins (env : Env) (b : Bank) (src dest : Account) (c : Coin) : Option Bank :=
  (env.route src dest c).bind (fun dest => (b.debit src c).map (·.credit dest c))

namespace State

/-- Nothing stored. -/
def empty : State := ⟨∅, ∅, ∅, ∅, [], none, none, ∅, ∅, ⟨0, 0⟩, []⟩

/-- `EmitTypedEvent`. -/
def emit (s : State) (e : Event) : State := { s with events := s.events ++ [e] }

/-- `GetMintAmountERC20`. -/
def getMintAmountERC20 (s : State) (tokenContract : EthAddress) : ℤ :=
  (s.mintAmounts.lookup tokenContract).getD 0

/-- `SetMintAmountERC20`. -/
def setMintAmountERC20 (s : State) (tokenContract : EthAddress) (amount : ℤ) : State :=
  { s with mintAmounts := put tokenContract (some amount) s.mintAmounts }

/-- `setPoolEntry`. -/
def setPoolEntry (s : State) (tx : OutgoingTransferTx) : State :=
  { s with pool := put tx.id (some tx) s.pool }

/-- `removePoolEntry`. -/
def removePoolEntry (s : State) (id : ℕ) : State := { s with pool := put id none s.pool }

/-- `SetOutgoingTxFee`. -/
def setOutgoingTxFee (s : State) (token : EthAddress) (fee : ERC20Token) (txID : ℕ) : State :=
  { s with feeIndex := put ⟨token, fee.amount, txID⟩ (some ()) s.feeIndex }

/-- `DeleteOutgoingTxFee`. -/
def deleteOutgoingTxFee (s : State) (token : EthAddress) (fee : ERC20Token) (txID : ℕ) :
    State :=
  { s with feeIndex := put ⟨token, fee.amount, txID⟩ none s.feeIndex }

/-- `AutoIncrementID`: the first id is 0. The `uint64` of the source wraps after `2 ^ 64`
    transfers or batches, which each need a transaction. -/
def autoIncrementID (last : Option ℕ) : ℕ := last.elim 0 (· + 1)

/-! ## Adding and refunding -/

/-- `AddToOutgoingPool`. -/
def addToOutgoingPool (env : Env) (s : State) (sender : Account)
    (counterpartReceiver : EthAddress) (amount fee : Coin) : Except PeggyError State :=
  if amount.denom ≠ fee.denom then .error .differentDenoms
  else do
    let totalAmount : Coin := ⟨amount.denom, amount.amount + fee.amount⟩
    let (isCosmosOriginated, tokenContract) ← denomToERC20Lookup env totalAmount.denom
    if isCosmosOriginated then .error .unsupported
    else if totalAmount.amount = 0 then .error .invalidCoins
    else
      match sendCoins env s.bank sender .peggyModule totalAmount with
      | none => .error .insufficientFunds
      | some bank =>
        match bank.debit .peggyModule totalAmount with
        | none => .error .panicBurn
        | some bank =>
          let nextID := autoIncrementID s.lastTXPoolID
          let erc20Fee : ERC20Token := ⟨tokenContract, fee.amount⟩
          let outgoing : OutgoingTransferTx :=
            { id := nextID
              sender := sender
              destAddress := counterpartReceiver
              erc20Token := ⟨tokenContract, amount.amount⟩
              erc20Fee := erc20Fee }
          let s := { s with bank := bank, lastTXPoolID := some nextID }
          .ok ((s.setPoolEntry outgoing).setOutgoingTxFee tokenContract erc20Fee nextID)

/-- The coins of a refund. -/
def totalToRefund (env : Env) (tx : OutgoingTransferTx) : Coin :=
  let lookup := erc20ToDenomLookup env tx.erc20Token.contract
  if lookup.2 = env.cosmosCoinDenom || lookup.1 then ⟨lookup.2, tx.total⟩
  else ⟨peggyDenomString tx.erc20Token.contract, tx.total⟩

/-- `RemoveFromOutgoingPoolAndRefund`. Amounts have no bound: that `MintCoins` fails once a
    supply needs more than 256 bits is left out. -/
def removeFromOutgoingPoolAndRefund (env : Env) (s : State) (txId : ℕ) (sender : Account) :
    Except PeggyError State :=
  match s.pool.lookup txId with
  | none => .error .unknown
  | some tx =>
    if sender ≠ tx.sender then .error .invalidSender
    else if tx.erc20Fee.contract ≠ tx.erc20Token.contract then .error .inconsistentTokens
    else if s.feeIndex.lookup ⟨tx.erc20Token.contract, tx.erc20Fee.amount, txId⟩ = none then
      .error .notInFeeIndex
    else
      let tokenContract := tx.erc20Token.contract
      let s := (s.deleteOutgoingTxFee tokenContract tx.erc20Fee txId).removePoolEntry txId
      let coin := totalToRefund env tx
      let minted :=
        if (erc20ToDenomLookup env tokenContract).1 then s.bank
        else s.bank.credit .peggyModule coin
      match sendCoins env minted .peggyModule sender coin with
      | none => .error .transferVouchers
      | some bank => .ok ({ s with bank := bank }.emit (.bridgeWithdrawCanceled tx))

/-! ## Batches -/

/-- `IterateTokenTxsByFee`: the index of a token, highest fee first. -/
def iterateTokenTxsByFee (s : State) (token : EthAddress) : List FeeIndexKey :=
  (s.feeIndex.keys.filter (fun k => k.token = token)).insertionSort (fun k k' => ¬ k'.Above k)

/-- The loop of `pickUnbatchedTX`: it stops when it has `maxElements` transfers, and
    panics at a key without an entry. -/
def pickLoop (s : State) (maxElements : ℤ) :
    List FeeIndexKey → List OutgoingTransferTx → Except PeggyError (List OutgoingTransferTx)
  | [], unbatchedTxs => .ok unbatchedTxs
  | k :: keys, unbatchedTxs =>
    match s.pool.lookup k.txID with
    | none => .error .panicFeeIndexed
    | some tx =>
      if ((unbatchedTxs ++ [tx]).length : ℤ) = maxElements then .ok (unbatchedTxs ++ [tx])
      else pickLoop s maxElements keys (unbatchedTxs ++ [tx])

/-- `pickUnbatchedTX`. -/
def pickUnbatchedTX (s : State) (contractAddress : EthAddress) (maxElements : ℤ) :
    Except PeggyError (List OutgoingTransferTx × State) := do
  let unbatchedTxs ← s.pickLoop maxElements (s.iterateTokenTxsByFee contractAddress) []
  if unbatchedTxs.isEmpty then .error .noUnbatchedTxsFound
  else
    .ok (unbatchedTxs, unbatchedTxs.foldl (fun s tx =>
      s.deleteOutgoingTxFee tx.erc20Fee.contract tx.erc20Fee tx.id) s)

/-- `IterateOutgoingTXBatches`: all batches, latest first. -/
def iterateOutgoingTXBatches (s : State) : List OutgoingTxBatch :=
  (s.batches.entries.map (·.2)).insertionSort (fun b b' =>
    b'.batchNonce < b.batchNonce ∨
      b'.batchNonce = b.batchNonce ∧ b'.tokenContract.toNat ≤ b.tokenContract.toNat)

/-- `StoreBatch`. -/
def storeBatch (s : State) (batch : OutgoingTxBatch) : State :=
  { s with
    batches := put batch.key (some batch) s.batches
    batchBlocks := put batch.block (some batch) s.batchBlocks }

/-- `DeleteBatch`. -/
def deleteBatch (s : State) (batch : OutgoingTxBatch) : State :=
  { s with
    batches := put batch.key none s.batches
    batchBlocks := put batch.block none s.batchBlocks }

/-- `GetOutgoingTXBatch`: the token of the transactions is the one of the key. -/
def getOutgoingTXBatch (s : State) (tokenContract : EthAddress) (nonce : ℕ) :
    Option OutgoingTxBatch :=
  (s.batches.lookup ⟨nonce, tokenContract⟩).map (fun b =>
    { b with transactions := b.transactions.map (·.withContract tokenContract) })

/-- `getBatchTimeoutHeight`, in 64-bit arithmetic. -/
def getBatchTimeoutHeight (env : Env) (s : State) : ℕ :=
  let heights := s.lastHeight
  if heights.cosmosBlockHeight = 0 ∨ heights.ethereumBlockHeight = 0 then 0
  else
    let projectedMillis := (env.blockHeight + 2 ^ 64 - heights.cosmosBlockHeight) % 2 ^ 64 *
      env.averageBlockTime % 2 ^ 64
    let projectedCurrentEthereumHeight :=
      (projectedMillis / env.averageEthereumBlockTime + heights.ethereumBlockHeight) % 2 ^ 64
    let blocksToAdd := env.targetBatchTimeout / env.averageEthereumBlockTime
    (projectedCurrentEthereumHeight + blocksToAdd) % 2 ^ 64

/-- `BuildOutgoingTXBatch`. -/
def buildOutgoingTXBatch (env : Env) (s : State) (contractAddress : EthAddress)
    (maxElements : ℤ) : Except PeggyError State :=
  if maxElements = 0 then .error .maxElements
  else do
    let (selectedTx, s) ← s.pickUnbatchedTX contractAddress maxElements
    if !env.checkRateLimit contractAddress s.iterateOutgoingTXBatches selectedTx then
      .error .rateLimit
    else
      let nextID := autoIncrementID s.lastOutgoingBatchID
      let batch : OutgoingTxBatch :=
        { batchNonce := nextID
          batchTimeout := getBatchTimeoutHeight env s
          transactions := selectedTx
          tokenContract := contractAddress
          block := env.blockHeight }
      let s := { s with lastOutgoingBatchID := some nextID }.storeBatch batch
      .ok { s with checkpoints := s.checkpoints ++ [batch] }

/-- `CancelOutgoingTXBatch`. -/
def cancelOutgoingTXBatch (s : State) (tokenContract : EthAddress) (nonce : ℕ) :
    Except PeggyError State :=
  match s.getOutgoingTXBatch tokenContract nonce with
  | none => .error .unknown
  | some batch =>
    let s := batch.transactions.foldl (fun s tx =>
      s.setOutgoingTxFee tokenContract tx.erc20Fee tx.id) s
    .ok ((s.deleteBatch batch).emit (.outgoingBatchCanceled batch))

/-- The batches of a token before a nonce, as `OutgoingTxBatchExecuted` collects them. -/
def batchesToCancel (s : State) (tokenContract : EthAddress) (nonce : ℕ) :
    List OutgoingTxBatch :=
  s.iterateOutgoingTXBatches.filter (fun batch =>
    batch.batchNonce < nonce ∧ batch.tokenContract = tokenContract)

/-- The loop over the batches to cancel: an error is a panic. -/
def cancelAll (tokenContract : EthAddress) : List OutgoingTxBatch → State →
    Except PeggyError State
  | [], s => .ok s
  | batch :: rest, s =>
    match s.cancelOutgoingTXBatch tokenContract batch.batchNonce with
    | .error _ => .error .panicFailedCancel
    | .ok s => cancelAll tokenContract rest s

/-- `OutgoingTxBatchExecuted`. -/
def outgoingTxBatchExecuted (env : Env) (s : State) (tokenContract : EthAddress)
    (nonce : ℕ) : Except PeggyError State :=
  match s.getOutgoingTXBatch tokenContract nonce with
  | none => .error .panicUnknownBatch
  | some b => do
      let lookup := erc20ToDenomLookup env tokenContract
      let totalAmountWithdrawn := (b.transactions.map (·.total)).sum
      let s := b.transactions.foldl (fun s tx => s.removePoolEntry tx.id) s
      let s ← cancelAll tokenContract (s.batchesToCancel tokenContract b.batchNonce) s
      let s := s.deleteBatch b
      let s :=
        if !lookup.1 && lookup.2 ≠ injectiveCoin then
          s.setMintAmountERC20 tokenContract
            (s.getMintAmountERC20 tokenContract - totalAmountWithdrawn)
        else s
      .ok (s.emit (.withdrawalsCompleted b))

/-- The keys of the fee index in a reverse scan. -/
def feeIndexKeys (s : State) : List FeeIndexKey :=
  s.feeIndex.keys.insertionSort (fun k k' => ¬ k'.Above k)

/-- `GetPoolTransactions`: it panics at a key without an entry. -/
def getPoolTransactions (s : State) : Except PeggyError (List OutgoingTransferTx) :=
  s.feeIndexKeys.mapM (fun k => (s.pool.lookup k.txID).elim (.error .panicFeeIndexed) .ok)

/-! ## Deposits -/

end State

/-- `MsgDepositClaim`, with its addresses as far as they could be read. -/
structure MsgDepositClaim where
  tokenContract : EthAddress
  amount : ℤ
  ethereumSender : Option EthAddress
  cosmosReceiver : Option Account
  deriving DecidableEq, Repr

namespace State

/-- The deposit minted into the module, and the tracked amount with it. -/
def mintDeposit (env : Env) (s : State) (tokenContract : EthAddress) (coin : Coin) :
    Except PeggyError State :=
  if (erc20ToDenomLookup env tokenContract).1 then .ok s
  else if 2 ^ 256 ≤ s.bank.supply coin.denom + coin.amount then .error .supplyOverflow
  else
    let s := { s with bank := s.bank.credit .peggyModule coin }
    if coin.denom = injectiveCoin then .ok s
    else if 2 ^ 256 ≤ |s.getMintAmountERC20 tokenContract + coin.amount| then
      .error .absoluteMintLimitOverflow
    else
      .ok (s.setMintAmountERC20 tokenContract
        (s.getMintAmountERC20 tokenContract + coin.amount))

/-- The deposit sent on: to the segregated wallet for a sender on the blacklist, else to
    the receiver, else to the community pool. -/
def payDeposit (env : Env) (s : State) (sender : EthAddress) (receiver : Account)
    (coin : Coin) : Except PeggyError State :=
  if env.isOnBlacklist sender then
    match sendCoins env s.bank .peggyModule env.segregatedWallet coin with
    | none => .error .insufficientFunds
    | some bank => .ok { s with bank := bank }
  else
    match sendCoins env s.bank .peggyModule receiver coin with
    | some bank => .ok { s with bank := bank }
    | none =>
      match sendCoins env s.bank .peggyModule .communityPool coin with
      | none => .error .insufficientFunds
      | some bank => .ok { s with bank := bank }

/-- `handleDepositClaim`. -/
def handleDepositClaim (env : Env) (s : State) (claim : MsgDepositClaim) :
    Except PeggyError State :=
  match claim.ethereumSender with
  | none => .error .invalidEthereumSender
  | some sender =>
    if claim.amount < 0 then .error .panicNegativeCoin
    else
      let coin : Coin :=
        ⟨(erc20ToDenomLookup env claim.tokenContract).2, claim.amount.toNat⟩
      match s.mintDeposit env claim.tokenContract coin with
      | .error e => .error e
      | .ok s =>
        match claim.cosmosReceiver with
        | none => .error .panicReceiver
        | some receiver => s.payDeposit env sender receiver coin

end State

end PeggyPool
