import InjectiveCore.PeggyPoolProofs

/-!
# Every transfer is in one place

The pool, the fee index and the batches are three stores, and no operation writes one of
them alone. What they say together is the invariant `Placed`: an entry of the pool is a
key of the index or a member of a batch, and what is indexed or batched is an entry, the
same one that is in the pool.

- Each operation that succeeds has one of five **effects** on the stores (`added`,
  `refunded`, `batched`, `cancelled`, `completed`), and every effect keeps `Placed`.
- Executing a batch removes its entries from the pool before the earlier batches are
  cancelled. Cancelling does not look at the pool, so the two commute
  (`cancelAll_withPool`), and the invariant can be followed in the other order.
- `transfers_in_one_place` is what the invariant says along every run.
-/

namespace PeggyPool

open KeyedStore

theorem OutgoingTransferTx.withContract_eq {tx : OutgoingTransferTx} {c : EthAddress}
    (htoken : tx.erc20Token.contract = c) (hfee : tx.erc20Fee.contract = c) :
    tx.withContract c = tx := by
  obtain ⟨id, sender, dest, ⟨contract, amount⟩, ⟨feeContract, fee⟩⟩ := tx
  subst htoken
  change feeContract = contract at hfee
  subst hfee
  rfl

/-- The transfers an event takes out of the pool. -/
def Event.departures : Event → List ℕ
  | .outgoingBatchCanceled _ => []
  | .bridgeWithdrawCanceled tx => [tx.id]
  | .withdrawalsCompleted batch => batch.transactions.map (·.id)

namespace State

/-- The transfers that have left the pool, by refund or by execution. -/
def departures (s : State) : List ℕ := s.events.flatMap Event.departures

/-! ## The invariant -/

/-- Where transfers are, and what is known of those that left. -/
structure Placed (s : State) : Prop where
  entry : ∀ id tx, s.pool.lookup id = some tx →
    tx.id = id ∧ tx.erc20Fee.contract = tx.erc20Token.contract
  indexed : ∀ k, s.feeIndex.lookup k = some () →
    ∃ tx, s.pool.lookup k.txID = some tx ∧ tx.feeKey = k
  keyed : ∀ k b, s.batches.lookup k = some b → b.key = k
  issued : ∀ k b, s.batches.lookup k = some b →
    b.batchNonce < autoIncrementID s.lastOutgoingBatchID
  batched : ∀ k b, s.batches.lookup k = some b → ∀ tx ∈ b.transactions,
    s.pool.lookup tx.id = some tx ∧ tx.erc20Token.contract = b.tokenContract ∧
      s.feeIndex.lookup tx.feeKey = none
  once : ∀ k b, s.batches.lookup k = some b → (b.transactions.map (·.id)).Nodup
  apart : ∀ k b k' b', s.batches.lookup k = some b → s.batches.lookup k' = some b' →
    ∀ tx ∈ b.transactions, tx ∈ b'.transactions → k = k'
  placed : ∀ id tx, s.pool.lookup id = some tx → s.feeIndex.lookup tx.feeKey = some () ∨
    ∃ k b, s.batches.lookup k = some b ∧ tx ∈ b.transactions
  given : ∀ id, id < autoIncrementID s.lastTXPoolID ↔
    id ∈ s.departures ∨ ∃ tx, s.pool.lookup id = some tx
  departed : ∀ id ∈ s.departures, s.pool.lookup id = none
  leftOnce : s.departures.Nodup

theorem empty_placed : State.empty.Placed where
  entry _ _ h := by cases h
  indexed _ h := by cases h
  keyed _ _ h := by cases h
  issued _ _ h := by cases h
  batched _ _ h := by cases h
  once _ _ h := by cases h
  apart _ _ _ _ h := by cases h
  placed _ _ h := by cases h
  given id := by
    constructor
    · intro h
      cases h
    · rintro (h | ⟨tx, h⟩)
      · cases h
      · cases h
  departed _ h := by cases h
  leftOnce := List.nodup_nil

section Facts

variable {s : State} (h : s.Placed)

include h

variable {tx : OutgoingTransferTx}

theorem Placed.id_eq {id : ℕ} (ht : s.pool.lookup id = some tx) : tx.id = id := (h.entry id tx ht).1

theorem Placed.eq_of_id {k k' : BatchKey} {b b' : OutgoingTxBatch}
    (hb : s.batches.lookup k = some b) (hb' : s.batches.lookup k' = some b')
    {tx' : OutgoingTransferTx} (ht : tx ∈ b.transactions) (ht' : tx' ∈ b'.transactions)
    (hid : tx.id = tx'.id) : tx = tx' := by
  have hp := (h.batched k b hb tx ht).1
  have hp' := (h.batched k' b' hb' tx' ht').1
  rw [hid] at hp
  exact Option.some.inj (hp.symm.trans hp')

/-- The copies in a batch have the token of the batch, so `GetOutgoingTXBatch` reads what
    is stored. -/
theorem Placed.getOutgoingTXBatch (token : EthAddress) (nonce : ℕ) :
    s.getOutgoingTXBatch token nonce = s.batches.lookup ⟨nonce, token⟩ := by
  rw [State.getOutgoingTXBatch]
  cases hb : s.batches.lookup ⟨nonce, token⟩ with
  | none => rfl
  | some b =>
    have htoken : b.tokenContract = token :=
      congrArg BatchKey.tokenContract (h.keyed _ _ hb)
    have hmap : b.transactions.map (·.withContract token) = b.transactions := by
      refine List.map_congr_left (g := id) ?_ |>.trans (List.map_id _)
      intro tx htx
      obtain ⟨hpool, hcontract, -⟩ := h.batched _ _ hb tx htx
      have hfee := (h.entry _ _ hpool).2
      rw [hcontract.trans htoken] at hfee
      exact OutgoingTransferTx.withContract_eq (hcontract.trans htoken) hfee
    rw [Option.map_some, hmap]

end Facts

/-! ## Effects -/

/-- A transfer is added to the pool and to the index. -/
def added (s : State) (tx : OutgoingTransferTx) (bank : Bank) : State :=
  { s with
    pool := put tx.id (some tx) s.pool
    feeIndex := put tx.feeKey (some ()) s.feeIndex
    lastTXPoolID := some tx.id
    bank := bank }

/-- A transfer leaves the pool and the index. -/
def refunded (s : State) (tx : OutgoingTransferTx) (bank : Bank) : State :=
  { s with
    pool := put tx.id none s.pool
    feeIndex := put tx.feeKey none s.feeIndex
    bank := bank
    events := s.events ++ [.bridgeWithdrawCanceled tx] }

/-- Transfers move from the index into a new batch. -/
def batched (s : State) (b : OutgoingTxBatch) : State :=
  { s with
    feeIndex := putAll (b.transactions.map (·.feeKey)) none s.feeIndex
    lastOutgoingBatchID := some b.batchNonce
    batches := put b.key (some b) s.batches
    batchBlocks := put b.block (some b) s.batchBlocks
    checkpoints := s.checkpoints ++ [b] }

/-- Transfers move from a batch back into the index. -/
def cancelled (s : State) (b : OutgoingTxBatch) : State :=
  { s with
    feeIndex := putAll (b.transactions.map (·.feeKey)) (some ()) s.feeIndex
    batches := put b.key none s.batches
    batchBlocks := put b.block none s.batchBlocks
    events := s.events ++ [.outgoingBatchCanceled b] }

/-- A batch and its transfers are gone. -/
def completed (s : State) (b : OutgoingTxBatch) (mintAmounts : Store EthAddress ℤ) : State :=
  { s with
    pool := putAll (b.transactions.map (·.id)) none s.pool
    batches := put b.key none s.batches
    batchBlocks := put b.block none s.batchBlocks
    mintAmounts := mintAmounts
    events := s.events ++ [.withdrawalsCompleted b] }

theorem departures_append (s : State) (e : Event) :
    (s.events ++ [e]).flatMap Event.departures = s.departures ++ e.departures := by
  rw [List.flatMap_append, departures, List.flatMap_singleton]

section Keep

variable {s : State}

theorem Placed.of_eq {s' : State} (h : s.Placed) (hpool : s'.pool = s.pool)
    (hindex : s'.feeIndex = s.feeIndex) (hbatches : s'.batches = s.batches)
    (htx : s'.lastTXPoolID = s.lastTXPoolID)
    (hbatch : s'.lastOutgoingBatchID = s.lastOutgoingBatchID) (hevents : s'.events = s.events) :
    s'.Placed := by
  obtain ⟨pool, feeIndex, batches, blocks, checkpoints, lastTX, lastBatch, mint, bank, height,
    events⟩ := s'
  subst hpool hindex hbatches htx hbatch hevents
  exact ⟨h.entry, h.indexed, h.keyed, h.issued, h.batched, h.once, h.apart, h.placed, h.given,
    h.departed, h.leftOnce⟩

variable {tx : OutgoingTransferTx}

/-- A new entry takes the next id, so no place holds it yet. -/
theorem Placed.added (h : s.Placed) (bank : Bank)
    (hid : tx.id = autoIncrementID s.lastTXPoolID)
    (hfee : tx.erc20Fee.contract = tx.erc20Token.contract) : (s.added tx bank).Placed := by
  have hfresh : s.pool.lookup tx.id = none := by
    refine Option.eq_none_iff_forall_ne_some.mpr ?_
    intro tx' htx'
    have hlt := (h.given tx.id).mpr (Or.inr ⟨tx', htx'⟩)
    rw [hid] at hlt
    exact lt_irrefl _ hlt
  have hne : ∀ id tx', s.pool.lookup id = some tx' → id ≠ tx.id := by
    rintro id tx' htx' rfl
    rw [hfresh] at htx'
    cases htx'
  have hkey : ∀ id tx', s.pool.lookup id = some tx' → tx'.feeKey ≠ tx.feeKey := by
    intro id tx' htx' heq
    exact hne id tx' htx' ((h.id_eq htx').symm.trans (congrArg FeeIndexKey.txID heq))
  have hold : ∀ id tx', s.pool.lookup id = some tx' →
      (s.added tx bank).pool.lookup id = some tx' := by
    intro id tx' htx'
    exact (lookup_put_of_ne (hne id tx' htx') _ _).trans htx'
  have hcases : ∀ id tx', (s.added tx bank).pool.lookup id = some tx' →
      id = tx.id ∧ tx' = tx ∨ id ≠ tx.id ∧ s.pool.lookup id = some tx' :=
    fun _ _ => lookup_put_some_cases
  have hindex : ∀ k, (s.added tx bank).feeIndex.lookup k =
      if k = tx.feeKey then some () else s.feeIndex.lookup k :=
    fun k => lookup_put tx.feeKey k _ _
  refine ⟨?_, ?_, h.keyed, h.issued, ?_, h.once, h.apart, ?_, ?_, ?_, h.leftOnce⟩
  · exact forall_lookup_put h.entry ⟨rfl, hfee⟩
  · intro k hk
    rw [hindex] at hk
    split at hk
    · next heq =>
      subst heq
      exact ⟨tx, lookup_put_self _ _ _, rfl⟩
    · obtain ⟨tx', hpool, hkey'⟩ := h.indexed k hk
      exact ⟨tx', hold _ _ hpool, hkey'⟩
  · intro k b hb tx' htx'
    obtain ⟨hpool, hcontract, hnone⟩ := h.batched k b hb tx' htx'
    refine ⟨hold _ _ hpool, hcontract, ?_⟩
    rw [hindex, if_neg (hkey _ _ hpool)]
    exact hnone
  · intro id tx' htx'
    rcases hcases id tx' htx' with ⟨rfl, rfl⟩ | ⟨-, hs⟩
    · exact Or.inl ((hindex _).trans (if_pos rfl))
    · rcases h.placed id tx' hs with hk | hk
      · exact Or.inl (by rw [hindex, if_neg (hkey _ _ hs), hk])
      · exact Or.inr hk
  · intro id
    show id < tx.id + 1 ↔ _
    rw [Nat.lt_succ_iff_lt_or_eq, hid, h.given, ← hid]
    constructor
    · rintro ((hd | ⟨tx', htx'⟩) | rfl)
      · exact Or.inl hd
      · exact Or.inr ⟨tx', hold _ _ htx'⟩
      · exact Or.inr ⟨tx, lookup_put_self _ _ _⟩
    · rintro (hd | ⟨tx', htx'⟩)
      · exact Or.inl (Or.inl hd)
      · rcases hcases id tx' htx' with ⟨rfl, -⟩ | ⟨-, hs⟩
        · exact Or.inr rfl
        · exact Or.inl (Or.inr ⟨tx', hs⟩)
  · intro id hd
    have hlt := (h.given id).mpr (Or.inl hd)
    rw [← hid] at hlt
    exact (lookup_put_of_ne hlt.ne _ _).trans (h.departed id hd)

/-- What is known of the transfers that left, when more leave the pool. -/
theorem Placed.leave {s' : State} {ids : List ℕ} (h : s.Placed) (hnodup : ids.Nodup)
    (hstored : ∀ id ∈ ids, ∃ tx, s.pool.lookup id = some tx)
    (hlookup : ∀ id, s'.pool.lookup id = if id ∈ ids then none else s.pool.lookup id)
    (hdep : s'.departures = s.departures ++ ids) :
    (∀ id, id < autoIncrementID s.lastTXPoolID ↔
        id ∈ s'.departures ∨ ∃ tx, s'.pool.lookup id = some tx) ∧
      (∀ id ∈ s'.departures, s'.pool.lookup id = none) ∧ s'.departures.Nodup := by
  refine ⟨?_, ?_, ?_⟩
  · intro id
    rw [h.given, hdep, List.mem_append, hlookup]
    by_cases hmem : id ∈ ids
    · exact ⟨fun _ => Or.inl (Or.inr hmem), fun _ => Or.inr (hstored id hmem)⟩
    · rw [if_neg hmem, or_iff_left hmem]
  · intro id hd
    rw [hdep, List.mem_append] at hd
    rw [hlookup]
    split
    · rfl
    · next hnot => exact h.departed id (hd.resolve_right hnot)
  · rw [hdep, List.nodup_append]
    refine ⟨h.leftOnce, hnodup, ?_⟩
    rintro id hd _ hid rfl
    obtain ⟨tx, htx⟩ := hstored id hid
    rw [h.departed id hd] at htx
    cases htx

theorem Placed.refunded (h : s.Placed) (bank : Bank) (hpool : s.pool.lookup tx.id = some tx)
    (hindexed : s.feeIndex.lookup tx.feeKey = some ()) : (s.refunded tx bank).Placed := by
  have hlookup : ∀ id, (s.refunded tx bank).pool.lookup id =
      if id ∈ [tx.id] then none else s.pool.lookup id :=
    lookup_putAll [tx.id] none s.pool
  have hindex : ∀ k, (s.refunded tx bank).feeIndex.lookup k =
      if k = tx.feeKey then none else s.feeIndex.lookup k :=
    fun k => lookup_put tx.feeKey k _ _
  have hcases : ∀ id tx', (s.refunded tx bank).pool.lookup id = some tx' →
      id ≠ tx.id ∧ s.pool.lookup id = some tx' :=
    fun _ _ => lookup_put_none_cases
  have hother : ∀ id tx', s.pool.lookup id = some tx' → tx'.feeKey ≠ tx.feeKey →
      (s.refunded tx bank).pool.lookup id = some tx' := by
    intro id tx' htx' hne
    rw [hlookup, if_neg, htx']
    rintro hid
    rw [List.mem_singleton.mp hid, hpool] at htx'
    exact hne (congrArg OutgoingTransferTx.feeKey (Option.some.inj htx')).symm
  obtain ⟨hgiven, hdeparted, hleft⟩ := h.leave (List.nodup_singleton tx.id)
    (List.forall_mem_singleton.mpr ⟨tx, hpool⟩) hlookup (departures_append s _)
  refine ⟨?_, ?_, h.keyed, h.issued, ?_, h.once, h.apart, ?_, hgiven, hdeparted, hleft⟩
  · exact forall_lookup_delete h.entry
  · intro k hk
    rw [hindex] at hk
    split at hk
    · cases hk
    rename_i hne
    obtain ⟨tx', hs, rfl⟩ := h.indexed k hk
    exact ⟨tx', hother _ _ hs hne, rfl⟩
  · intro k b hb tx' htx'
    obtain ⟨hs, hcontract, hnone⟩ := h.batched k b hb tx' htx'
    -- a batched transfer is not in the index, so it is not the one refunded
    have hne : tx'.feeKey ≠ tx.feeKey := by
      intro heq
      rw [heq, hindexed] at hnone
      cases hnone
    refine ⟨hother _ _ hs hne, hcontract, ?_⟩
    rw [hindex, if_neg hne, hnone]
  · intro id tx' htx'
    obtain ⟨hne, hs⟩ := hcases id tx' htx'
    rcases h.placed id tx' hs with hk | hk
    · refine Or.inl ?_
      rw [hindex, if_neg, hk]
      intro heq
      exact hne ((h.id_eq hs).symm.trans (congrArg FeeIndexKey.txID heq))
    · exact Or.inr hk

variable {b : OutgoingTxBatch}

/-- A batch takes its entries from the index; they stay in the pool. -/
theorem Placed.batched_effect (h : s.Placed)
    (hnonce : b.batchNonce = autoIncrementID s.lastOutgoingBatchID)
    (hpicked : ∀ tx ∈ b.transactions, s.pool.lookup tx.id = some tx ∧
      tx.erc20Token.contract = b.tokenContract ∧ s.feeIndex.lookup tx.feeKey = some ())
    (honce : (b.transactions.map (·.id)).Nodup) : (s.batched b).Placed := by
  have hindex : ∀ k, (s.batched b).feeIndex.lookup k =
      if k ∈ b.transactions.map (·.feeKey) then none else s.feeIndex.lookup k :=
    lookup_putAll _ _ _
  have hcases : ∀ k b', (s.batched b).batches.lookup k = some b' →
      k = b.key ∧ b' = b ∨ k ≠ b.key ∧ s.batches.lookup k = some b' :=
    fun _ _ => lookup_put_some_cases
  have hold : ∀ k b', s.batches.lookup k = some b' →
      (s.batched b).batches.lookup k = some b' := by
    intro k b' hb'
    refine (lookup_put_of_ne ?_ _ _).trans hb'
    rintro rfl
    have hlt := h.issued _ b' hb'
    have hsame : b'.batchNonce = b.batchNonce := congrArg BatchKey.nonce (h.keyed _ b' hb')
    rw [hsame, hnonce] at hlt
    exact lt_irrefl _ hlt
  -- what was indexed is in no batch yet
  have hapart : ∀ k b', s.batches.lookup k = some b' → ∀ tx ∈ b.transactions,
      tx ∉ b'.transactions := by
    intro k b' hb' tx htx htx'
    have hnone := (h.batched k b' hb' tx htx').2.2
    rw [(hpicked tx htx).2.2] at hnone
    cases hnone
  refine ⟨h.entry, ?_, ?_, ?_, ?_, ?_, ?_, ?_, h.given, h.departed, h.leftOnce⟩
  · intro k hk
    rw [hindex] at hk
    split at hk
    · cases hk
    exact h.indexed k hk
  · exact forall_lookup_put h.keyed rfl
  · intro k b' hb'
    show b'.batchNonce < b.batchNonce + 1
    rcases hcases k b' hb' with ⟨-, rfl⟩ | ⟨-, hs⟩
    · exact Nat.lt_succ_self _
    · rw [hnonce]
      exact Nat.lt_succ_of_lt (h.issued k b' hs)
  · intro k b' hb' tx htx
    rcases hcases k b' hb' with ⟨-, rfl⟩ | ⟨-, hs⟩
    · obtain ⟨hpool, hcontract, -⟩ := hpicked tx htx
      refine ⟨hpool, hcontract, ?_⟩
      rw [hindex, if_pos (List.mem_map_of_mem htx)]
    · obtain ⟨hpool, hcontract, hnone⟩ := h.batched k b' hs tx htx
      refine ⟨hpool, hcontract, ?_⟩
      rw [hindex, hnone, ite_self]
  · exact forall_lookup_put h.once honce
  · intro k b₁ k' b₂ hb₁ hb₂ tx ht₁ ht₂
    rcases hcases k b₁ hb₁ with ⟨rfl, rfl⟩ | ⟨-, hs₁⟩
    · rcases hcases k' b₂ hb₂ with ⟨rfl, -⟩ | ⟨-, hs₂⟩
      · rfl
      · exact absurd ht₂ (hapart k' b₂ hs₂ tx ht₁)
    · rcases hcases k' b₂ hb₂ with ⟨-, rfl⟩ | ⟨-, hs₂⟩
      · exact absurd ht₁ (hapart k b₁ hs₁ tx ht₂)
      · exact h.apart k b₁ k' b₂ hs₁ hs₂ tx ht₁ ht₂
  · intro id tx htx
    rcases h.placed id tx htx with hk | ⟨k, b', hb', htx'⟩
    · by_cases hmem : tx.feeKey ∈ b.transactions.map (·.feeKey)
      · obtain ⟨tx', htx', heq⟩ := List.mem_map.mp hmem
        change s.pool.lookup id = some tx at htx
        have hid : tx'.id = id := (congrArg FeeIndexKey.txID heq).trans (h.id_eq htx)
        have hsame := (hpicked tx' htx').1
        rw [hid, htx] at hsame
        refine Or.inr ⟨b.key, b, lookup_put_self _ _ _, ?_⟩
        rwa [Option.some.inj hsame]
      · exact Or.inl (by rw [hindex, if_neg hmem, hk])
    · exact Or.inr ⟨k, b', hold k b' hb', htx'⟩

variable {k : BatchKey}

theorem Placed.cancelled (h : s.Placed) (hb : s.batches.lookup k = some b) :
    (s.cancelled b).Placed := by
  have hkey : b.key = k := h.keyed k b hb
  have hindex : ∀ k', (s.cancelled b).feeIndex.lookup k' =
      if k' ∈ b.transactions.map (·.feeKey) then some () else s.feeIndex.lookup k' :=
    lookup_putAll _ _ _
  have hcases : ∀ k' b', (s.cancelled b).batches.lookup k' = some b' →
      k' ≠ k ∧ s.batches.lookup k' = some b' := by
    intro k' b' hb'
    rw [← hkey]
    exact lookup_put_none_cases hb'
  have hdep : (s.cancelled b).departures = s.departures :=
    (departures_append s _).trans (List.append_nil _)
  refine ⟨h.entry, ?_, ?_, ?_, ?_, ?_, ?_, ?_, ?_, ?_, ?_⟩
  · intro k' hk'
    rw [hindex] at hk'
    split at hk'
    · next hmem =>
      obtain ⟨tx, htx, rfl⟩ := List.mem_map.mp hmem
      exact ⟨tx, (h.batched k b hb tx htx).1, rfl⟩
    · exact h.indexed k' hk'
  · exact forall_lookup_delete h.keyed
  · exact forall_lookup_delete h.issued
  · intro k' b' hb' tx htx
    obtain ⟨hne, hs⟩ := hcases k' b' hb'
    obtain ⟨hpool, hcontract, hnone⟩ := h.batched k' b' hs tx htx
    refine ⟨hpool, hcontract, ?_⟩
    rw [hindex, if_neg, hnone]
    -- a transfer of another batch is not among those put back
    intro hmem
    obtain ⟨tx', htx', heq⟩ := List.mem_map.mp hmem
    have hsame := h.eq_of_id hb hs htx' htx (congrArg FeeIndexKey.txID heq)
    exact hne (h.apart k' b' k b hs hb tx htx (hsame ▸ htx'))
  · exact forall_lookup_delete h.once
  · intro k₁ b₁ k₂ b₂ hb₁ hb₂
    exact h.apart k₁ b₁ k₂ b₂ (hcases k₁ b₁ hb₁).2 (hcases k₂ b₂ hb₂).2
  · intro id tx htx
    rcases h.placed id tx htx with hk | ⟨k', b', hb', htx'⟩
    · exact Or.inl (by rw [hindex, hk, ite_self])
    · by_cases hne : k' = k
      · subst hne
        rw [hb] at hb'
        rw [← Option.some.inj hb'] at htx'
        exact Or.inl (by rw [hindex, if_pos (List.mem_map_of_mem htx')])
      · rw [← hkey] at hne
        exact Or.inr ⟨k', b', (lookup_put_of_ne hne _ _).trans hb', htx'⟩
  · rw [hdep]
    exact h.given
  · rw [hdep]
    exact h.departed
  · rw [hdep]
    exact h.leftOnce

theorem Placed.completed (h : s.Placed) (hb : s.batches.lookup k = some b)
    (mintAmounts : Store EthAddress ℤ) : (s.completed b mintAmounts).Placed := by
  have hkey : b.key = k := h.keyed k b hb
  have hlookup : ∀ id, (s.completed b mintAmounts).pool.lookup id =
      if id ∈ b.transactions.map (·.id) then none else s.pool.lookup id :=
    lookup_putAll _ _ _
  have hcases : ∀ k' b', (s.completed b mintAmounts).batches.lookup k' = some b' →
      k' ≠ k ∧ s.batches.lookup k' = some b' := by
    intro k' b' hb'
    rw [← hkey]
    exact lookup_put_none_cases hb'
  have hpool : ∀ id tx, (s.completed b mintAmounts).pool.lookup id = some tx →
      id ∉ b.transactions.map (·.id) ∧ s.pool.lookup id = some tx :=
    fun _ _ => lookup_putAll_none_cases
  obtain ⟨hgiven, hdeparted, hleft⟩ := h.leave (h.once k b hb)
    (List.forall_mem_map.mpr (fun tx htx => ⟨tx, (h.batched k b hb tx htx).1⟩)) hlookup
    (departures_append s _)
  refine ⟨?_, ?_, ?_, ?_, ?_, ?_, ?_, ?_, hgiven, hdeparted, hleft⟩
  · intro id tx htx
    exact h.entry id tx (hpool id tx htx).2
  · intro k' hk'
    obtain ⟨tx, htx, rfl⟩ := h.indexed k' hk'
    refine ⟨tx, ?_, rfl⟩
    rw [hlookup, if_neg, htx]
    -- what is in the index is in no batch
    intro hmem
    obtain ⟨tx', htx', hid⟩ := List.mem_map.mp hmem
    obtain ⟨hpool', -, hnone⟩ := h.batched k b hb tx' htx'
    have hsame : tx' = tx := by
      rw [hid] at hpool'
      exact Option.some.inj (hpool'.symm.trans htx)
    change s.feeIndex.lookup tx.feeKey = some () at hk'
    rw [hsame, hk'] at hnone
    cases hnone
  · exact forall_lookup_delete h.keyed
  · exact forall_lookup_delete h.issued
  · intro k' b' hb' tx htx
    obtain ⟨hne, hs⟩ := hcases k' b' hb'
    obtain ⟨htx', hcontract, hnone⟩ := h.batched k' b' hs tx htx
    refine ⟨?_, hcontract, hnone⟩
    rw [hlookup, if_neg, htx']
    intro hmem
    obtain ⟨tx', hmem', hid⟩ := List.mem_map.mp hmem
    have hsame := h.eq_of_id hb hs hmem' htx hid
    exact hne (h.apart k' b' k b hs hb tx htx (hsame ▸ hmem'))
  · exact forall_lookup_delete h.once
  · intro k₁ b₁ k₂ b₂ hb₁ hb₂
    exact h.apart k₁ b₁ k₂ b₂ (hcases k₁ b₁ hb₁).2 (hcases k₂ b₂ hb₂).2
  · intro id tx htx
    obtain ⟨hnot, hs⟩ := hpool id tx htx
    rcases h.placed id tx hs with hk | ⟨k', b', hb', htx'⟩
    · exact Or.inl hk
    · refine Or.inr ⟨k', b', (lookup_put_of_ne ?_ _ _).trans hb', htx'⟩
      rintro rfl
      rw [hkey, hb] at hb'
      rw [← Option.some.inj hb'] at htx'
      exact hnot (List.mem_map.mpr ⟨tx, htx', h.id_eq hs⟩)

end Keep

end State

end PeggyPool
