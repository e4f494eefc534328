import InjectiveCore.PeggyPlaceProofs

/-!
# The operations on transfers, and runs of them

An operation that succeeds has one effect, and there is one lemma for each that says
which (`addToOutgoingPool_ok`, `removeFromOutgoingPoolAndRefund_ok`,
`buildOutgoingTXBatch_ok`, `cancelOutgoingTXBatch_eq`, `outgoingTxBatchExecuted_ok`). A
request that fails changes nothing. Runs of requests from the empty pool therefore keep
every transfer in one place.
-/

namespace PeggyPool

open KeyedStore Transition

namespace State

variable {env : Env} {s s' : State}

/-! ## Loops as writes -/

theorem foldl_setOutgoingTxFee (token : EthAddress) (txs : List OutgoingTransferTx)
    (s : State) :
    txs.foldl (fun s tx => s.setOutgoingTxFee token tx.erc20Fee tx.id) s =
      { s with
        feeIndex := putAll (txs.map (fun tx => ⟨token, tx.erc20Fee.amount, tx.id⟩)) (some ())
          s.feeIndex } := by
  induction txs generalizing s with
  | nil => rfl
  | cons tx txs ih => exact ih _

theorem foldl_deleteOutgoingTxFee (txs : List OutgoingTransferTx) (s : State) :
    txs.foldl (fun s tx => s.deleteOutgoingTxFee tx.erc20Fee.contract tx.erc20Fee tx.id) s =
      { s with
        feeIndex := putAll
          (txs.map (fun tx => ⟨tx.erc20Fee.contract, tx.erc20Fee.amount, tx.id⟩)) none
          s.feeIndex } := by
  induction txs generalizing s with
  | nil => rfl
  | cons tx txs ih => exact ih _

theorem foldl_removePoolEntry (txs : List OutgoingTransferTx) (s : State) :
    txs.foldl (fun s tx => s.removePoolEntry tx.id) s =
      { s with pool := putAll (txs.map (·.id)) none s.pool } := by
  induction txs generalizing s with
  | nil => rfl
  | cons tx txs ih => exact ih _

/-! ## Adding and refunding -/

variable {sender : Account}

theorem addToOutgoingPool_ok {receiver : EthAddress} {amount fee : Coin}
    (h : addToOutgoingPool env s sender receiver amount fee = .ok s') :
    ∃ token paid bank,
      denomToERC20Lookup env amount.denom = .ok (false, token) ∧
      0 < amount.amount + fee.amount ∧
      sendCoins env s.bank sender .peggyModule ⟨amount.denom, amount.amount + fee.amount⟩ =
        some paid ∧
      paid.debit .peggyModule ⟨amount.denom, amount.amount + fee.amount⟩ = some bank ∧
      s' = s.added ⟨autoIncrementID s.lastTXPoolID, sender, receiver,
        ⟨token, amount.amount⟩, ⟨token, fee.amount⟩⟩ bank := by
  rw [addToOutgoingPool] at h
  split at h
  · cases h
  obtain ⟨⟨isCosmosOriginated, token⟩, hlookup, h⟩ := exists_of_bind_eq_ok h
  cases isCosmosOriginated with
  | true => cases h
  | false =>
    simp only [Bool.false_eq_true, if_false] at h
    split at h
    · cases h
    rename_i hpos
    split at h
    · cases h
    rename_i paid hpaid
    split at h
    · cases h
    rename_i bank hbank
    cases h
    exact ⟨token, paid, bank, hlookup, Nat.pos_of_ne_zero hpos, hpaid, hbank, rfl⟩

theorem removeFromOutgoingPoolAndRefund_ok (hs : s.Placed) {txId : ℕ}
    (h : removeFromOutgoingPoolAndRefund env s txId sender = .ok s') :
    ∃ tx bank, s.pool.lookup tx.id = some tx ∧ s.feeIndex.lookup tx.feeKey = some () ∧
      sendCoins env
        (if (erc20ToDenomLookup env tx.erc20Token.contract).1 then s.bank
          else s.bank.credit .peggyModule (totalToRefund env tx))
        .peggyModule sender (totalToRefund env tx) = some bank ∧
      s' = s.refunded tx bank := by
  rw [removeFromOutgoingPoolAndRefund] at h
  split at h
  · cases h
  rename_i tx htx
  obtain rfl := hs.id_eq htx
  split at h
  · cases h
  split at h
  · cases h
  split at h
  · cases h
  rename_i hindexed
  obtain ⟨⟨⟩, hkey⟩ := Option.ne_none_iff_exists'.mp hindexed
  dsimp only at h
  split at h
  · cases h
  rename_i bank hbank
  cases h
  exact ⟨tx, bank, htx, hkey, hbank, rfl⟩

/-! ## Building a batch -/

variable {maxElements : ℤ} {keys : List FeeIndexKey} {txs : List OutgoingTransferTx}

theorem pickLoop_ok {acc : List OutgoingTransferTx}
    (h : s.pickLoop maxElements keys acc = .ok txs) :
    ∃ ks picked, ks <+: keys ∧ txs = acc ++ picked ∧
      picked.map some = ks.map (fun k => s.pool.lookup k.txID) := by
  induction keys generalizing acc with
  | nil =>
    cases h
    exact ⟨[], [], List.prefix_refl _, (List.append_nil _).symm, rfl⟩
  | cons k keys ih =>
    rw [pickLoop] at h
    split at h
    · cases h
    rename_i tx htx
    split at h
    · cases h
      refine ⟨[k], [tx], ⟨keys, rfl⟩, rfl, ?_⟩
      rw [List.map_singleton, List.map_singleton, htx]
    · obtain ⟨ks, picked, hks, rfl, hpicked⟩ := ih h
      refine ⟨k :: ks, tx :: picked, (List.prefix_cons_inj k).mpr hks, ?_, ?_⟩
      · rw [List.append_assoc, List.singleton_append]
      · rw [List.map_cons, List.map_cons, hpicked, htx]

theorem pickLoop_total (maxElements : ℤ)
    (hkeys : ∀ k ∈ keys, ∃ tx, s.pool.lookup k.txID = some tx) (acc : List OutgoingTransferTx) :
    ∃ txs, s.pickLoop maxElements keys acc = .ok txs := by
  induction keys generalizing acc with
  | nil => exact ⟨acc, rfl⟩
  | cons k keys ih =>
    obtain ⟨tx, htx⟩ := hkeys k List.mem_cons_self
    rw [pickLoop, htx]
    dsimp only
    split
    · exact ⟨_, rfl⟩
    · exact ih (fun k' hk' => hkeys k' (List.mem_cons_of_mem k hk')) _

variable {token : EthAddress} {k : FeeIndexKey}

theorem mem_iterateTokenTxsByFee :
    k ∈ s.iterateTokenTxsByFee token ↔ s.feeIndex.lookup k = some () ∧ k.token = token := by
  rw [iterateTokenTxsByFee, (List.perm_insertionSort _ _).mem_iff, List.mem_filter,
    mem_keys_iff, decide_eq_true_iff]
  exact and_congr_left (fun _ => ⟨fun ⟨_, h⟩ => h, fun h => ⟨(), h⟩⟩)

theorem nodup_iterateTokenTxsByFee (token : EthAddress) : (s.iterateTokenTxsByFee token).Nodup := by
  rw [iterateTokenTxsByFee, (List.perm_insertionSort _ _).nodup_iff]
  exact s.feeIndex.keys_nodup.filter _

section Batches

variable (hs : s.Placed)
include hs

theorem Placed.pick (h : s.pickLoop maxElements (s.iterateTokenTxsByFee token) [] = .ok txs) :
    (∀ tx ∈ txs, s.pool.lookup tx.id = some tx ∧ tx.erc20Token.contract = token ∧
      s.feeIndex.lookup tx.feeKey = some ()) ∧ (txs.map (·.id)).Nodup := by
  obtain ⟨ks, _, hks, rfl, hpicked⟩ := pickLoop_ok h
  have hindexed : ∀ k ∈ ks, s.feeIndex.lookup k = some () ∧ k.token = token :=
    fun k hk => mem_iterateTokenTxsByFee.mp (hks.subset hk)
  -- the entry behind a key of the index has that key
  have hmap : ks = txs.map (·.feeKey) := by
    refine (Option.some_injective _).list_map ?_
    have hfee := congrArg (List.map (Option.map OutgoingTransferTx.feeKey)) hpicked
    rw [List.map_map, List.map_map] at hfee
    rw [List.map_map]
    refine Eq.trans (List.map_congr_left ?_) hfee.symm
    intro k hk
    obtain ⟨tx, htx, hkey⟩ := hs.indexed k (hindexed k hk).1
    show some k = (s.pool.lookup k.txID).map _
    rw [htx, Option.map_some, hkey]
  have hfacts : ∀ tx ∈ txs, s.pool.lookup tx.id = some tx ∧
      tx.erc20Token.contract = token ∧ s.feeIndex.lookup tx.feeKey = some () := by
    intro tx htx
    have hkey : tx.feeKey ∈ ks := hmap ▸ List.mem_map_of_mem htx
    have hsome : some tx ∈ ks.map (fun k => s.pool.lookup k.txID) :=
      hpicked ▸ List.mem_map_of_mem htx
    obtain ⟨k, -, hpool⟩ := List.mem_map.mp hsome
    refine ⟨?_, (hindexed _ hkey).2, (hindexed _ hkey).1⟩
    rw [hs.id_eq hpool]
    exact hpool
  refine ⟨hfacts, ?_⟩
  have hnodup : (txs.map (·.feeKey)).Nodup := by
    rw [← hmap]
    exact (nodup_iterateTokenTxsByFee token).sublist hks.sublist
  refine List.Nodup.map_on ?_ (List.Nodup.of_map _ hnodup)
  intro tx htx tx' htx' hid
  have hp := (hfacts tx htx).1
  rw [hid] at hp
  exact Option.some.inj (hp.symm.trans (hfacts tx' htx').1)

/-- A batch that is built has the next nonce, and takes its transfers out of the index. -/
theorem buildOutgoingTXBatch_ok (h : buildOutgoingTXBatch env s token maxElements = .ok s') :
    ∃ b : OutgoingTxBatch, b.batchNonce = autoIncrementID s.lastOutgoingBatchID ∧
      (b.batchTimeout = getBatchTimeoutHeight env s ∧ b.block = env.blockHeight) ∧
      (∀ tx ∈ b.transactions, s.pool.lookup tx.id = some tx ∧
        tx.erc20Token.contract = b.tokenContract ∧ s.feeIndex.lookup tx.feeKey = some ()) ∧
      (b.transactions.map (·.id)).Nodup ∧ s' = s.batched b := by
  rw [buildOutgoingTXBatch] at h
  split at h
  · cases h
  obtain ⟨⟨txs, s₁⟩, hpick, h⟩ := exists_of_bind_eq_ok h
  rw [pickUnbatchedTX] at hpick
  obtain ⟨txs', hloop, hpick⟩ := exists_of_bind_eq_ok hpick
  split at hpick
  · cases hpick
  · cases hpick
    dsimp only at h
    split at h
    · cases h
    obtain ⟨hpicked, hnodup⟩ := hs.pick hloop
    refine ⟨⟨autoIncrementID s.lastOutgoingBatchID, getBatchTimeoutHeight env s, txs,
      token, env.blockHeight⟩, rfl, ⟨rfl, rfl⟩, hpicked, hnodup, ?_⟩
    have hkeys : txs.map (fun tx => (⟨tx.erc20Fee.contract, tx.erc20Fee.amount, tx.id⟩ :
        FeeIndexKey)) = txs.map (·.feeKey) := by
      refine List.map_congr_left ?_
      intro tx htx
      rw [(hs.entry _ _ (hpicked tx htx).1).2]
      rfl
    rw [foldl_deleteOutgoingTxFee, hkeys] at h
    cases h
    rfl

/-! ## Cancelling and executing -/

variable {b : OutgoingTxBatch}

theorem Placed.feeKeys_of_batch {k : BatchKey} (hb : s.batches.lookup k = some b) :
    b.transactions.map (fun tx => (⟨k.tokenContract, tx.erc20Fee.amount, tx.id⟩ :
      FeeIndexKey)) = b.transactions.map (·.feeKey) := by
  refine List.map_congr_left ?_
  intro tx htx
  rw [← hs.keyed k b hb]
  show (⟨b.tokenContract, _, _⟩ : FeeIndexKey) = tx.feeKey
  rw [← (hs.batched k b hb tx htx).2.1]
  rfl

variable {nonce : ℕ}

theorem cancelOutgoingTXBatch_eq (hb : s.batches.lookup ⟨nonce, token⟩ = some b) :
    s.cancelOutgoingTXBatch token nonce = .ok (s.cancelled b) := by
  rw [cancelOutgoingTXBatch, hs.getOutgoingTXBatch, hb]
  dsimp only
  rw [foldl_setOutgoingTxFee, hs.feeKeys_of_batch hb]
  rfl

theorem cancelOutgoingTXBatch_ok (h : s.cancelOutgoingTXBatch token nonce = .ok s') :
    ∃ b, s.batches.lookup ⟨nonce, token⟩ = some b ∧ s' = s.cancelled b := by
  cases hb : s.batches.lookup ⟨nonce, token⟩ with
  | none =>
    rw [cancelOutgoingTXBatch, hs.getOutgoingTXBatch, hb] at h
    cases h
  | some b =>
    rw [cancelOutgoingTXBatch_eq hs hb] at h
    cases h
    exact ⟨b, rfl, rfl⟩

theorem mem_iterateOutgoingTXBatches :
    b ∈ s.iterateOutgoingTXBatches ↔ s.batches.lookup b.key = some b := by
  rw [iterateOutgoingTXBatches, (List.perm_insertionSort _ _).mem_iff, List.mem_map]
  constructor
  · rintro ⟨⟨k, b'⟩, he, rfl⟩
    have hb := mem_entries_iff.mp he
    rw [hs.keyed k b' hb]
    exact hb
  · intro hb
    exact ⟨⟨b.key, b⟩, mem_entries_iff.mpr hb, rfl⟩

theorem nodup_iterateOutgoingTXBatches : (s.iterateOutgoingTXBatches.map (·.key)).Nodup := by
  have hperm := (List.perm_insertionSort (fun b b' : OutgoingTxBatch =>
    b'.batchNonce < b.batchNonce ∨
      b'.batchNonce = b.batchNonce ∧ b'.tokenContract.toNat ≤ b.tokenContract.toNat)
    (s.batches.entries.map (·.2))).map (·.key)
  rw [iterateOutgoingTXBatches, hperm.nodup_iff, List.map_map]
  have hkeys : s.batches.entries.map ((·.key) ∘ (·.2)) = s.batches.keys := by
    refine List.map_congr_left ?_
    rintro ⟨k, b⟩ he
    exact hs.keyed k b (mem_entries_iff.mp he)
  rw [hkeys]
  exact s.batches.keys_nodup

/-- What a list of cancellations leaves. -/
structure Cancels (bs : List OutgoingTxBatch) (s s' : State) : Prop where
  placed : s'.Placed
  pool : s'.pool = s.pool
  batches : ∀ k, s'.batches.lookup k =
    if k ∈ bs.map (·.key) then none else s.batches.lookup k
  events : s'.events = s.events ++ bs.map .outgoingBatchCanceled
  checkpoints : s'.checkpoints = s.checkpoints
  lastTXPoolID : s'.lastTXPoolID = s.lastTXPoolID
  lastOutgoingBatchID : s'.lastOutgoingBatchID = s.lastOutgoingBatchID
  mintAmounts : s'.mintAmounts = s.mintAmounts
  bank : s'.bank = s.bank
  lastHeight : s'.lastHeight = s.lastHeight

theorem Cancels.nil : Cancels [] s s :=
  ⟨hs, rfl, fun _ => (if_neg List.not_mem_nil).symm, (List.append_nil _).symm, rfl, rfl, rfl,
    rfl, rfl, rfl⟩

end Batches

variable {bs : List OutgoingTxBatch}

theorem Cancels.cons (hc : Cancels bs (s.cancelled b) s') : Cancels (b :: bs) s s' := by
  refine ⟨hc.placed, hc.pool, ?_, ?_, hc.checkpoints, hc.lastTXPoolID, hc.lastOutgoingBatchID,
    hc.mintAmounts, hc.bank, hc.lastHeight⟩
  · intro k
    have hlookup : (s.cancelled b).batches.lookup k =
        if k = b.key then none else s.batches.lookup k := lookup_put b.key k _ _
    rw [hc.batches, hlookup, List.map_cons]
    by_cases hmem : k ∈ bs.map (·.key)
    · rw [if_pos hmem, if_pos (List.mem_cons_of_mem _ hmem)]
    · rw [if_neg hmem]
      exact if_congr (by rw [List.mem_cons, or_iff_left hmem]) rfl rfl
  · rw [hc.events, List.map_cons]
    exact List.append_assoc _ [_] _

theorem lookup_cancelled_of_ne {b' : OutgoingTxBatch} (hb' : s.batches.lookup b'.key = some b')
    (hne : b'.key ≠ b.key) : (s.cancelled b).batches.lookup b'.key = some b' :=
  (lookup_put b.key b'.key _ _).trans ((if_neg hne).trans hb')

/-- **A LOOP OF CANCELLATIONS** of distinct stored batches succeeds. -/
theorem cancelAll_spec (hs : s.Placed)
    (hbs : ∀ b ∈ bs, s.batches.lookup b.key = some b ∧ b.tokenContract = token)
    (hnodup : (bs.map (·.key)).Nodup) :
    ∃ s', cancelAll token bs s = .ok s' ∧ Cancels bs s s' := by
  induction bs generalizing s with
  | nil => exact ⟨s, rfl, .nil hs⟩
  | cons b bs ih =>
    rw [List.map_cons, List.nodup_cons] at hnodup
    obtain ⟨hb, rfl⟩ := hbs b List.mem_cons_self
    have hstep : s.cancelOutgoingTXBatch b.tokenContract b.batchNonce = .ok (s.cancelled b) :=
      cancelOutgoingTXBatch_eq hs hb
    have hrest : ∀ b' ∈ bs, (s.cancelled b).batches.lookup b'.key = some b' ∧
        b'.tokenContract = b.tokenContract := by
      intro b' hb'
      obtain ⟨hstored, htoken⟩ := hbs b' (List.mem_cons_of_mem b hb')
      refine ⟨lookup_cancelled_of_ne hstored ?_, htoken⟩
      intro heq
      exact hnodup.1 (heq ▸ List.mem_map_of_mem hb')
    obtain ⟨s', hok, hc⟩ := ih (hs.cancelled hb) hrest hnodup.2
    refine ⟨s', ?_, hc.cons⟩
    rw [cancelAll, hstep]
    exact hok

theorem cancelOutgoingTXBatch_withPool (token : EthAddress) (nonce : ℕ) (s : State)
    (pool : Store ℕ OutgoingTransferTx) :
    State.cancelOutgoingTXBatch { s with pool := pool } token nonce =
      (s.cancelOutgoingTXBatch token nonce).map (fun s' => { s' with pool := pool }) := by
  have hget : State.getOutgoingTXBatch { s with pool := pool } token nonce =
      s.getOutgoingTXBatch token nonce := rfl
  rw [cancelOutgoingTXBatch, cancelOutgoingTXBatch, hget]
  cases s.getOutgoingTXBatch token nonce with
  | none => rfl
  | some batch =>
    dsimp only
    rw [foldl_setOutgoingTxFee, foldl_setOutgoingTxFee]
    rfl

theorem cancelAll_withPool (token : EthAddress) (bs : List OutgoingTxBatch) (s : State)
    (pool : Store ℕ OutgoingTransferTx) :
    cancelAll token bs { s with pool := pool } =
      (cancelAll token bs s).map (fun s' => { s' with pool := pool }) := by
  induction bs generalizing s with
  | nil => rfl
  | cons b bs ih =>
    rw [cancelAll, cancelAll, cancelOutgoingTXBatch_withPool]
    cases s.cancelOutgoingTXBatch token b.batchNonce with
    | error e => rfl
    | ok s' => exact ih s'

theorem mem_batchesToCancel (hs : s.Placed) : b ∈ s.batchesToCancel token nonce ↔
      s.batches.lookup b.key = some b ∧ b.batchNonce < nonce ∧ b.tokenContract = token := by
  rw [batchesToCancel, List.mem_filter, mem_iterateOutgoingTXBatches hs, decide_eq_true_iff]

/-- The tracked amount after an execution. -/
def mintAmountsAfter (env : Env) (s : State) (b : OutgoingTxBatch) : Store EthAddress ℤ :=
  if !(erc20ToDenomLookup env b.tokenContract).1 &&
      (erc20ToDenomLookup env b.tokenContract).2 ≠ injectiveCoin then
    put b.tokenContract (some (s.getMintAmountERC20 b.tokenContract -
      ((b.transactions.map (·.total)).sum : ℕ))) s.mintAmounts
  else s.mintAmounts

/-- **EXECUTION** of a stored batch succeeds: the earlier batches of the token are
    cancelled, and the batch is gone with its transfers. -/
theorem outgoingTxBatchExecuted_eq (env : Env) (hs : s.Placed)
    (hb : s.batches.lookup ⟨nonce, token⟩ = some b) :
    ∃ s₁, cancelAll token (s.batchesToCancel token nonce) s = .ok s₁ ∧
      Cancels (s.batchesToCancel token nonce) s s₁ ∧
      s₁.batches.lookup ⟨nonce, token⟩ = some b ∧
      outgoingTxBatchExecuted env s token nonce =
        .ok (s₁.completed b (mintAmountsAfter env s b)) := by
  have hkey : b.key = ⟨nonce, token⟩ := hs.keyed _ _ hb
  have hnonce : b.batchNonce = nonce := congrArg BatchKey.nonce hkey
  have htoken : b.tokenContract = token := congrArg BatchKey.tokenContract hkey
  have hmem : ∀ b' ∈ s.batchesToCancel token nonce,
      s.batches.lookup b'.key = some b' ∧ b'.batchNonce < nonce ∧ b'.tokenContract = token :=
    fun b' => (mem_batchesToCancel hs).mp
  have hnodup : ((s.batchesToCancel token nonce).map (·.key)).Nodup :=
    (nodup_iterateOutgoingTXBatches hs).sublist (List.filter_sublist.map _)
  obtain ⟨s₁, hok, hc⟩ := cancelAll_spec hs
    (fun b' hb' => ⟨(hmem b' hb').1, (hmem b' hb').2.2⟩) hnodup
  refine ⟨s₁, hok, hc, ?_, ?_⟩
  · -- the batch itself has no smaller nonce
    rw [hc.batches, if_neg, hb]
    intro hkeys
    obtain ⟨b', hb', hkey'⟩ := List.mem_map.mp hkeys
    have hlt := (hmem b' hb').2.1
    rw [show b'.batchNonce = nonce from congrArg BatchKey.nonce hkey'] at hlt
    exact lt_irrefl _ hlt
  · rw [outgoingTxBatchExecuted, hs.getOutgoingTXBatch, hb]
    dsimp only
    rw [foldl_removePoolEntry, hnonce]
    have hcancel : State.batchesToCancel
        { s with pool := putAll (b.transactions.map (·.id)) none s.pool } token nonce =
        s.batchesToCancel token nonce := rfl
    rw [hcancel, cancelAll_withPool, hok]
    subst htoken
    have hmint : s₁.getMintAmountERC20 b.tokenContract =
        s.getMintAmountERC20 b.tokenContract := by
      rw [getMintAmountERC20, getMintAmountERC20, hc.mintAmounts]
    refine congrArg Except.ok ?_
    rw [completed, mintAmountsAfter, hc.pool, ← hmint, ← hc.mintAmounts]
    split <;> rfl

theorem outgoingTxBatchExecuted_ok (hs : s.Placed)
    (h : outgoingTxBatchExecuted env s token nonce = .ok s') :
    ∃ b s₁, cancelAll token (s.batchesToCancel token nonce) s = .ok s₁ ∧
      Cancels (s.batchesToCancel token nonce) s s₁ ∧
      s₁.batches.lookup ⟨nonce, token⟩ = some b ∧
      s' = s₁.completed b (mintAmountsAfter env s b) := by
  cases hb : s.batches.lookup ⟨nonce, token⟩ with
  | none =>
    rw [outgoingTxBatchExecuted, hs.getOutgoingTXBatch, hb] at h
    cases h
  | some b =>
    obtain ⟨s₁, hok, hc, hb₁, heq⟩ := outgoingTxBatchExecuted_eq env hs hb
    rw [heq] at h
    cases h
    exact ⟨b, s₁, hok, hc, hb₁, rfl⟩

/-! ## Deposits -/

variable {coin : Coin}

/-- A deposit is minted unless it is of Cosmos origin, and tracked unless it is INJ. -/
theorem mintDeposit_ok (h : s.mintDeposit env token coin = .ok s') :
    (erc20ToDenomLookup env token).1 = true ∧ s' = s ∨
      (erc20ToDenomLookup env token).1 = false ∧
        s' = { s with
          bank := s.bank.credit .peggyModule coin
          mintAmounts :=
            if coin.denom = injectiveCoin then s.mintAmounts
            else put token (some (s.getMintAmountERC20 token + coin.amount))
              s.mintAmounts } := by
  rw [mintDeposit] at h
  split at h
  · next horigin =>
    cases h
    exact Or.inl ⟨horigin, rfl⟩
  · next horigin =>
    refine Or.inr ⟨Bool.eq_false_iff.mpr horigin, ?_⟩
    split at h
    · cases h
    dsimp only at h
    split at h
    · next hinj =>
      rw [if_pos hinj]
      cases h
      rfl
    · next hinj =>
      rw [if_neg hinj]
      split at h
      · cases h
      exact (Except.ok.inj h).symm

theorem payDeposit_ok {sender : EthAddress} {receiver : Account}
    (h : s.payDeposit env sender receiver coin = .ok s') :
    ∃ dest bank, sendCoins env s.bank .peggyModule dest coin = some bank ∧
      s' = { s with bank := bank } := by
  rw [payDeposit] at h
  split at h
  · split at h
    · cases h
    rename_i bank hbank
    cases h
    exact ⟨_, bank, hbank, rfl⟩
  · split at h
    · next bank hbank =>
      cases h
      exact ⟨_, bank, hbank, rfl⟩
    · split at h
      · cases h
      rename_i bank hbank
      cases h
      exact ⟨_, bank, hbank, rfl⟩

theorem handleDepositClaim_ok {claim : MsgDepositClaim}
    (h : handleDepositClaim env s claim = .ok s') :
    ∃ s₁ dest bank,
      s.mintDeposit env claim.tokenContract
        ⟨(erc20ToDenomLookup env claim.tokenContract).2, claim.amount.toNat⟩ = .ok s₁ ∧
      sendCoins env s₁.bank .peggyModule dest
        ⟨(erc20ToDenomLookup env claim.tokenContract).2, claim.amount.toNat⟩ = some bank ∧
      s' = { s₁ with bank := bank } := by
  rw [handleDepositClaim] at h
  split at h
  · cases h
  split at h
  · cases h
  dsimp only at h
  split at h
  · cases h
  rename_i s₁ hmint
  split at h
  · cases h
  obtain ⟨dest, bank, hbank, rfl⟩ := payDeposit_ok h
  exact ⟨s₁, dest, bank, hmint, hbank, rfl⟩

/-! ## Runs -/

/-- The requests that reach the keeper, and what others do with the bank in between. -/
inductive Op where
  | addToOutgoingPool (sender : Account) (counterpartReceiver : EthAddress)
      (amount fee : Coin)
  | removeFromOutgoingPoolAndRefund (txId : ℕ) (sender : Account)
  | buildOutgoingTXBatch (contractAddress : EthAddress) (maxElements : ℤ)
  | cancelOutgoingTXBatch (tokenContract : EthAddress) (nonce : ℕ)
  | outgoingTxBatchExecuted (tokenContract : EthAddress) (nonce : ℕ)
  | handleDepositClaim (claim : MsgDepositClaim)
  | sendCoins (src dest : Account) (coin : Coin)
  | mintCoins (dest : Account) (coin : Coin)
  | burnCoins (src : Account) (coin : Coin)

/-- A change of the bank, if it allows it. -/
def withBank (s : State) (bank : Option Bank) : Except PeggyError State :=
  bank.elim (.error .insufficientFunds) (fun bank => .ok { s with bank := bank })

/-- A request in its environment. -/
def step : Env × Op → State → Except PeggyError State
  | (env, .addToOutgoingPool sender receiver amount fee), s =>
    s.addToOutgoingPool env sender receiver amount fee
  | (env, .removeFromOutgoingPoolAndRefund txId sender), s =>
    s.removeFromOutgoingPoolAndRefund env txId sender
  | (env, .buildOutgoingTXBatch contractAddress maxElements), s =>
    s.buildOutgoingTXBatch env contractAddress maxElements
  | (_, .cancelOutgoingTXBatch tokenContract nonce), s =>
    s.cancelOutgoingTXBatch tokenContract nonce
  | (env, .outgoingTxBatchExecuted tokenContract nonce), s =>
    s.outgoingTxBatchExecuted env tokenContract nonce
  | (env, .handleDepositClaim claim), s => s.handleDepositClaim env claim
  | (env, .sendCoins src dest coin), s =>
    s.withBank (PeggyPool.sendCoins env s.bank src dest coin)
  | (_, .mintCoins dest coin), s => s.withBank (some (s.bank.credit dest coin))
  | (_, .burnCoins src coin), s => s.withBank (s.bank.debit src coin)

theorem withBank_ok {bank : Option Bank} (h : s.withBank bank = .ok s') :
    ∃ b, bank = some b ∧ s' = { s with bank := b } := by
  cases bank with
  | none => cases h
  | some b =>
    cases h
    exact ⟨b, rfl, rfl⟩

/-- **ONE REQUEST** keeps transfers placed. -/
theorem Placed.step (hs : s.Placed) {x : Env × Op} (h : State.step x s = .ok s') : s'.Placed := by
  obtain ⟨env, op⟩ := x
  cases op with
  | addToOutgoingPool sender receiver amount fee =>
    obtain ⟨token, paid, bank, -, -, -, -, rfl⟩ := addToOutgoingPool_ok h
    exact hs.added bank rfl rfl
  | removeFromOutgoingPoolAndRefund txId sender =>
    obtain ⟨tx, bank, hpool, hindexed, -, rfl⟩ := removeFromOutgoingPoolAndRefund_ok hs h
    exact hs.refunded bank hpool hindexed
  | buildOutgoingTXBatch contractAddress maxElements =>
    obtain ⟨b, hnonce, -, hpicked, honce, rfl⟩ := buildOutgoingTXBatch_ok hs h
    exact hs.batched_effect hnonce hpicked honce
  | cancelOutgoingTXBatch tokenContract nonce =>
    obtain ⟨b, hb, rfl⟩ := cancelOutgoingTXBatch_ok hs h
    exact hs.cancelled hb
  | outgoingTxBatchExecuted tokenContract nonce =>
    obtain ⟨b, s₁, -, hc, hb₁, rfl⟩ := outgoingTxBatchExecuted_ok hs h
    exact hc.placed.completed hb₁ _
  | handleDepositClaim claim =>
    obtain ⟨s₁, dest, bank, hmint, -, rfl⟩ := handleDepositClaim_ok h
    rcases mintDeposit_ok hmint with ⟨-, rfl⟩ | ⟨-, rfl⟩
    · exact hs.of_eq rfl rfl rfl rfl rfl rfl
    · exact hs.of_eq rfl rfl rfl rfl rfl rfl
  | sendCoins src dest coin | mintCoins dest coin | burnCoins src coin =>
    obtain ⟨bank, -, rfl⟩ := withBank_ok h
    exact hs.of_eq rfl rfl rfl rfl rfl rfl

theorem run_placed (requests : List (Env × Op)) : (run step State.empty requests).Placed :=
  run_invariant (fun _ _ _ hs h => hs.step h) requests empty_placed

/-- An environment in which the bank allows every send. -/
def sampleEnv : Env where
  blockHeight := 1
  averageBlockTime := 1
  averageEthereumBlockTime := 1
  targetBatchTimeout := 1
  cosmosCoinDenom := injectiveCoin
  cosmosCoinERC20Contract := 99
  getCosmosOriginatedDenom _ := none
  getCosmosOriginatedERC20 _ := none
  segregatedWallet := .address 0
  isOnBlacklist _ := false
  route _ dest _ := some dest
  checkRateLimit _ _ _ := true

/-! ## One place -/

/-- An entry is in the index under its own key and in no batch, or it is in no index and
    once in one batch of its token. What is indexed or batched has an entry, so no scan of
    the index panics, and what has left has left once and for all. -/
structure InOnePlace (s : State) : Prop where
  place : ∀ id tx, s.pool.lookup id = some tx →
    ((∀ k, s.feeIndex.lookup k = some () ∧ k.txID = id ↔ k = tx.feeKey) ∧
        ∀ k b, s.batches.lookup k = some b → id ∉ b.transactions.map (·.id)) ∨
      ((∀ k, k.txID = id → s.feeIndex.lookup k = none) ∧
        ∃ k b, s.batches.lookup k = some b ∧ b.tokenContract = tx.erc20Token.contract ∧
          (b.transactions.map (·.id)).count id = 1 ∧
          ∀ k' b', s.batches.lookup k' = some b' → id ∈ b'.transactions.map (·.id) → k' = k)
  indexed : ∀ k, s.feeIndex.lookup k = some () → ∃ tx, s.pool.lookup k.txID = some tx
  batched : ∀ k b, s.batches.lookup k = some b →
    ∀ id ∈ b.transactions.map (·.id), ∃ tx, s.pool.lookup id = some tx
  picks : ∀ token maxElements, s.pickUnbatchedTX token maxElements ≠ .error .panicFeeIndexed
  scans : ∃ txs, s.getPoolTransactions = .ok txs
  given : ∀ id, id < autoIncrementID s.lastTXPoolID ↔
    id ∈ s.departures ∨ ∃ tx, s.pool.lookup id = some tx
  departed : ∀ id ∈ s.departures, s.pool.lookup id = none
  leftOnce : s.departures.Nodup

variable {id : ℕ} {tx : OutgoingTransferTx}

theorem Placed.key_of_id (hs : s.Placed) (htx : s.pool.lookup id = some tx)
    (hk : s.feeIndex.lookup k = some ()) (hid : k.txID = id) : k = tx.feeKey := by
  obtain ⟨tx', htx', rfl⟩ := hs.indexed k hk
  rw [hid, htx] at htx'
  rw [Option.some.inj htx']

theorem Placed.pickUnbatchedTX_ne_panic (hs : s.Placed) (token : EthAddress)
    (maxElements : ℤ) : s.pickUnbatchedTX token maxElements ≠ .error .panicFeeIndexed := by
  have hkeys : ∀ k ∈ s.iterateTokenTxsByFee token, ∃ tx, s.pool.lookup k.txID = some tx := by
    intro k hk
    obtain ⟨tx, htx, -⟩ := hs.indexed k (mem_iterateTokenTxsByFee.mp hk).1
    exact ⟨tx, htx⟩
  obtain ⟨txs, htxs⟩ := pickLoop_total maxElements hkeys []
  rw [pickUnbatchedTX, htxs]
  show (if txs.isEmpty then _ else _) ≠ _
  split
  · intro h
    cases h
  · intro h
    cases h

theorem Placed.getPoolTransactions_ok (hs : s.Placed) : ∃ txs, s.getPoolTransactions = .ok txs := by
  refine exists_mapM_eq_ok ?_
  intro k hk
  rw [feeIndexKeys, (List.perm_insertionSort _ _).mem_iff, mem_keys_iff] at hk
  obtain ⟨⟨⟩, hk⟩ := hk
  obtain ⟨tx, htx, -⟩ := hs.indexed k hk
  exact ⟨tx, by rw [htx]; rfl⟩

theorem Placed.mem_of_id (hs : s.Placed) {k : BatchKey} (hb : s.batches.lookup k = some b)
    (htx : s.pool.lookup id = some tx) (hid : id ∈ b.transactions.map (·.id)) :
    tx ∈ b.transactions := by
  obtain ⟨tx', htx', rfl⟩ := List.mem_map.mp hid
  have hpool := (hs.batched k b hb tx' htx').1
  rw [htx] at hpool
  rwa [Option.some.inj hpool]

theorem Placed.inOnePlace (hs : s.Placed) : s.InOnePlace := by
  refine ⟨?_, ?_, ?_, hs.pickUnbatchedTX_ne_panic, hs.getPoolTransactions_ok, hs.given,
    hs.departed, hs.leftOnce⟩
  · intro id tx htx
    rcases hs.placed id tx htx with hindexed | ⟨k, b, hb, hmem⟩
    · left
      constructor
      · intro k
        constructor
        · rintro ⟨hk, hid⟩
          exact hs.key_of_id htx hk hid
        · rintro rfl
          exact ⟨hindexed, hs.id_eq htx⟩
      · intro k b hb hid
        have hnone := (hs.batched k b hb tx (hs.mem_of_id hb htx hid)).2.2
        rw [hindexed] at hnone
        cases hnone
    · right
      obtain ⟨-, hcontract, hnone⟩ := hs.batched k b hb tx hmem
      constructor
      · intro k' hid
        refine Option.eq_none_iff_forall_ne_some.mpr ?_
        rintro ⟨⟩ hk'
        rw [hs.key_of_id htx hk' hid, hnone] at hk'
        cases hk'
      · refine ⟨k, b, hb, hcontract.symm, ?_, ?_⟩
        · refine List.count_eq_one_of_mem (hs.once k b hb) ?_
          rw [← hs.id_eq htx]
          exact List.mem_map_of_mem hmem
        · intro k' b' hb' hid
          exact hs.apart k' b' k b hb' hb tx (hs.mem_of_id hb' htx hid) hmem
  · intro k hk
    obtain ⟨tx, htx, -⟩ := hs.indexed k hk
    exact ⟨tx, htx⟩
  · intro k b hb id hid
    obtain ⟨tx, htx, rfl⟩ := List.mem_map.mp hid
    exact ⟨tx, (hs.batched k b hb tx htx).1⟩

/-- **EVERY TRANSFER IS IN ONE PLACE**, after every run of requests. -/
theorem transfers_in_one_place (requests : List (Env × Op)) :
    (run step State.empty requests).InOnePlace :=
  (run_placed requests).inOnePlace

end State

end PeggyPool
