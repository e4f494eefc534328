import InjectiveCore.PeggyTransfersProofs

/-!
# Batches by block

`StoreBatch` keeps a batch twice: under its nonce and token, and a second copy under the
height of its block alone. `GetUnjailedBatches` reads the copies, and the validators that
did not confirm what it returns are jailed. Two batches of one height share a key of the
index: the later one hides the earlier one, and deleting either takes the copy away.

- `BlockIndexed`: the index holds the stored batches, each under its height. Deleting a
  batch keeps it; storing one keeps it if no stored batch has the height.
- `unjailed_batches_exact_iff`: in runs whose batches are built so, `GetUnjailedBatches`
  is exact, and the first one that is not built so breaks it.
-/

namespace PeggyPool

open KeyedStore Transition

namespace State

/-! ## Reading the index -/

/-- `IterateBatchByJailedBatchBlock`: the copies from one height up to another, without the
    end. Heights in eight bytes are ordered as numbers. -/
def iterateBatchByJailedBatchBlock (s : State) (lastJailedBatchBlock maxHeight : ℕ) :
    List OutgoingTxBatch :=
  ((s.batchBlocks.entries.filter
    (fun e => lastJailedBatchBlock ≤ e.1 ∧ e.1 < maxHeight)).insertionSort
      (fun e e' => e.1 ≤ e'.1)).map (·.2)

/-- `GetUnjailedBatches`, for the height `GetLastJailedBatchBlock` returns. -/
def getUnjailedBatches (s : State) (lastJailedBatchBlock maxHeight : ℕ) :
    List OutgoingTxBatch :=
  (s.iterateBatchByJailedBatchBlock lastJailedBatchBlock maxHeight).filter
    (fun batch => lastJailedBatchBlock < batch.block)

/-- `GetUnjailedBatches` returns the stored batches between the two heights, each once. -/
def MissesNoBatch (s : State) : Prop :=
  ∀ lastJailedBatchBlock maxHeight,
    (s.getUnjailedBatches lastJailedBatchBlock maxHeight).Nodup ∧
    ∀ b, b ∈ s.getUnjailedBatches lastJailedBatchBlock maxHeight ↔
      s.batches.lookup b.key = some b ∧ lastJailedBatchBlock < b.block ∧ b.block < maxHeight

/-- The index holds the stored batches, each under its height. -/
def BlockIndexed (s : State) : Prop :=
  ∀ height b, s.batchBlocks.lookup height = some b ↔
    s.batches.lookup b.key = some b ∧ b.block = height

variable {s s' : State} {env : Env} {b : OutgoingTxBatch}

theorem mem_getUnjailedBatches {lastJailed maxHeight : ℕ} :
    b ∈ s.getUnjailedBatches lastJailed maxHeight ↔ lastJailed < b.block ∧
      ∃ height, s.batchBlocks.lookup height = some b ∧ lastJailed ≤ height ∧
        height < maxHeight := by
  rw [getUnjailedBatches, List.mem_filter, decide_eq_true_iff, and_comm,
    iterateBatchByJailedBatchBlock, List.mem_map]
  refine and_congr_right (fun _ => ?_)
  constructor
  · rintro ⟨⟨height, b'⟩, he, rfl⟩
    rw [List.mem_insertionSort, List.mem_filter, decide_eq_true_iff] at he
    exact ⟨height, mem_entries_iff.mp he.1, he.2⟩
  · rintro ⟨height, hb, hrange⟩
    refine ⟨⟨height, b⟩, ?_, rfl⟩
    rw [List.mem_insertionSort, List.mem_filter, decide_eq_true_iff]
    exact ⟨mem_entries_iff.mpr hb, hrange⟩

/-- **THE INDEX SUFFICES**. -/
theorem BlockIndexed.missesNoBatch (h : s.BlockIndexed) : s.MissesNoBatch := by
  intro lastJailed maxHeight
  constructor
  · -- the heights of what is read are keys of the index
    refine List.Nodup.filter _ (List.Nodup.of_map (·.block) ?_)
    rw [iterateBatchByJailedBatchBlock, List.map_map,
      ((List.perm_insertionSort _ _).map _).nodup_iff]
    have hkeys : ∀ e ∈ s.batchBlocks.entries.filter
        (fun e => lastJailed ≤ e.1 ∧ e.1 < maxHeight),
        ((·.block) ∘ (·.2)) e = e.1 := by
      intro e he
      exact ((h e.1 e.2).mp (mem_entries_iff.mp (List.mem_of_mem_filter he))).2
    rw [List.map_congr_left hkeys]
    exact s.batchBlocks.keys_nodup.sublist (List.filter_sublist.map _)
  · intro b
    rw [mem_getUnjailedBatches]
    constructor
    · rintro ⟨hlow, height, hb, -, hhigh⟩
      obtain ⟨hstored, rfl⟩ := (h height b).mp hb
      exact ⟨hstored, hlow, hhigh⟩
    · rintro ⟨hstored, hlow, hhigh⟩
      exact ⟨hlow, b.block, (h b.block b).mpr ⟨hstored, rfl⟩, hlow.le, hhigh⟩

/-! ## What the operations do to the index -/

theorem BlockIndexed.of_eq (h : s.BlockIndexed) (hbatches : s'.batches = s.batches)
    (hblocks : s'.batchBlocks = s.batchBlocks) : s'.BlockIndexed := by
  intro height b
  rw [hbatches, hblocks]
  exact h height b

/-- **DELETING** a stored batch takes its own copy out of the index. -/
theorem BlockIndexed.delete (h : s.BlockIndexed) (hb : s.batches.lookup b.key = some b)
    (hbatches : s'.batches = put b.key none s.batches)
    (hblocks : s'.batchBlocks = put b.block none s.batchBlocks) : s'.BlockIndexed := by
  intro height b'
  have hcopy := (h b.block b).mpr ⟨hb, rfl⟩
  rw [hbatches, hblocks, lookup_put, lookup_put]
  by_cases hheight : height = b.block
  · rw [if_pos hheight]
    refine iff_of_false (fun heq => by cases heq) ?_
    rintro ⟨hstored, hblock⟩
    split at hstored
    · cases hstored
    next hkey =>
    have hcopy' := (h b.block b').mpr ⟨hstored, hblock.trans hheight⟩
    exact hkey (congrArg OutgoingTxBatch.key (Option.some.inj (hcopy'.symm.trans hcopy)))
  · rw [if_neg hheight, h height b']
    refine and_congr_left ?_
    rintro rfl
    have hkey : b'.key ≠ b.key ∨ s.batches.lookup b'.key ≠ some b' := by
      by_contra hcon
      obtain ⟨hkey, hstored⟩ := not_or.mp hcon
      rw [not_not] at hkey hstored
      rw [hkey, hb] at hstored
      exact hheight (congrArg OutgoingTxBatch.block (Option.some.inj hstored)).symm
    rcases hkey with hkey | hstored
    · rw [if_neg hkey]
    · refine iff_of_false hstored ?_
      split
      · exact fun heq => by cases heq
      · exact hstored

/-- **STORING** a new batch at a height of which none is stored. -/
theorem BlockIndexed.batched (h : s.BlockIndexed) (hnew : s.batches.lookup b.key = none)
    (hspare : ∀ k b', s.batches.lookup k = some b' → b'.block ≠ b.block) :
    (s.batched b).BlockIndexed := by
  intro height b'
  show (put b.block (some b) s.batchBlocks).lookup height = some b' ↔
    (put b.key (some b) s.batches).lookup b'.key = some b' ∧ b'.block = height
  rw [lookup_put, lookup_put]
  by_cases hkey : b'.key = b.key
  · -- under the new key there is the new batch only
    rw [if_pos hkey]
    by_cases hheight : height = b.block
    · rw [if_pos hheight, hheight]
      refine ⟨fun heq => ⟨heq, ?_⟩, And.left⟩
      rw [Option.some.inj heq]
    · rw [if_neg hheight, h height b', hkey, hnew]
      refine iff_of_false (fun hand => by cases hand.1) ?_
      rintro ⟨heq, hblock⟩
      rw [← Option.some.inj heq] at hblock
      exact hheight hblock.symm
  · rw [if_neg hkey]
    by_cases hheight : height = b.block
    · rw [if_pos hheight]
      refine iff_of_false ?_ ?_
      · intro heq
        exact hkey (congrArg OutgoingTxBatch.key (Option.some.inj heq)).symm
      · rintro ⟨hstored, hblock⟩
        exact hspare _ b' hstored (hblock.trans hheight)
    · rw [if_neg hheight]
      exact h height b'

theorem Placed.nonce_new (hs : s.Placed) (hnonce : b.batchNonce =
    autoIncrementID s.lastOutgoingBatchID) : s.batches.lookup b.key = none := by
  refine Option.eq_none_iff_forall_ne_some.mpr ?_
  intro b' hb'
  have hlt := hs.issued _ _ hb'
  rw [← hnonce] at hlt
  exact hlt.ne (congrArg BatchKey.nonce (hs.keyed _ _ hb'))

theorem BlockIndexed.cancelAll (h : s.BlockIndexed) (hs : s.Placed) {token : EthAddress}
    {bs : List OutgoingTxBatch} (hok : cancelAll token bs s = .ok s') : s'.BlockIndexed := by
  induction bs generalizing s with
  | nil =>
    cases hok
    exact h
  | cons b bs ih =>
    rw [State.cancelAll] at hok
    split at hok
    · cases hok
    next s₁ hcancel =>
    obtain ⟨b', hb', rfl⟩ := cancelOutgoingTXBatch_ok hs hcancel
    have hkeyed := hs.keyed _ _ hb'
    exact ih (h.delete (hkeyed.symm ▸ hb') rfl rfl) (hs.cancelled hb') hok

/-! ## Runs -/

/-- A batch is built at a height of which no batch is stored. -/
def SpareBlock (s : State) : Env × Op → Prop
  | (env, .buildOutgoingTXBatch _ _) =>
    ∀ k b, s.batches.lookup k = some b → b.block ≠ env.blockHeight
  | _ => True

/-- Every batch of a run is built so. -/
def SpareBlocks : State → List (Env × Op) → Prop
  | _, [] => True
  | s, x :: xs => SpareBlock s x ∧ SpareBlocks (attempt step s x) xs

/-- **ONE REQUEST** keeps the index. -/
theorem BlockIndexed.step (h : s.BlockIndexed) (hs : s.Placed) {x : Env × Op}
    (hspare : SpareBlock s x) (hok : State.step x s = .ok s') : s'.BlockIndexed := by
  obtain ⟨env, op⟩ := x
  cases op with
  | addToOutgoingPool sender receiver amount fee =>
    obtain ⟨token, paid, bank, -, -, -, -, rfl⟩ := addToOutgoingPool_ok hok
    exact h.of_eq rfl rfl
  | removeFromOutgoingPoolAndRefund txId sender =>
    obtain ⟨tx, bank, -, -, -, rfl⟩ := removeFromOutgoingPoolAndRefund_ok hs hok
    exact h.of_eq rfl rfl
  | buildOutgoingTXBatch contractAddress maxElements =>
    obtain ⟨b, hnonce, ⟨-, hblock⟩, -, -, rfl⟩ := buildOutgoingTXBatch_ok hs hok
    exact h.batched (hs.nonce_new hnonce) (hblock ▸ hspare)
  | cancelOutgoingTXBatch tokenContract nonce =>
    obtain ⟨b, hb, rfl⟩ := cancelOutgoingTXBatch_ok hs hok
    have hkeyed := hs.keyed _ _ hb
    exact h.delete (hkeyed.symm ▸ hb) rfl rfl
  | outgoingTxBatchExecuted tokenContract nonce =>
    obtain ⟨b, s₁, hcancel, hc, hb, rfl⟩ := outgoingTxBatchExecuted_ok hs hok
    have hkeyed := hc.placed.keyed _ _ hb
    exact (h.cancelAll hs hcancel).delete (hkeyed.symm ▸ hb) rfl rfl
  | handleDepositClaim claim =>
    obtain ⟨s₁, dest, bank, hmint, -, rfl⟩ := handleDepositClaim_ok hok
    rcases mintDeposit_ok hmint with ⟨-, rfl⟩ | ⟨-, rfl⟩
    · exact h.of_eq rfl rfl
    · exact h.of_eq rfl rfl
  | sendCoins src dest coin | mintCoins dest coin | burnCoins src coin =>
    obtain ⟨bank, -, rfl⟩ := withBank_ok hok
    exact h.of_eq rfl rfl

theorem run_blockIndexed {requests : List (Env × Op)} (hs : s.Placed) (h : s.BlockIndexed)
    (hspare : SpareBlocks s requests) : (run step s requests).BlockIndexed := by
  induction requests generalizing s with
  | nil => exact h
  | cons x xs ih =>
    have hplaced : (attempt State.step s x).Placed :=
      run_invariant (fun _ _ _ hs hok => hs.step hok) [x] hs
    refine ih hplaced ?_ hspare.2
    rw [attempt]
    split
    · next s' hok => exact h.step hs hspare.1 hok
    · exact h

/-- A batch whose height another one takes is not returned any more. -/
theorem not_missesNoBatch_batched {k : BatchKey} {b' : OutgoingTxBatch} (hs : s.Placed)
    (hnew : s.batches.lookup b.key = none) (hb' : s.batches.lookup k = some b')
    (hblock : b'.block = b.block) (hpos : 0 < b.block) (h : s.BlockIndexed) :
    ¬ (s.batched b).MissesNoBatch := by
  intro hexact
  obtain rfl := hs.keyed k b' hb'
  have hkey : b'.key ≠ b.key := by
    intro heq
    rw [heq, hnew] at hb'
    cases hb'
  have hstored : (s.batched b).batches.lookup b'.key = some b' :=
    (lookup_put b.key b'.key _ _).trans ((if_neg hkey).trans hb')
  have hmem := ((hexact 0 (b.block + 1)).2 b').mpr
    ⟨hstored, hblock ▸ hpos, hblock ▸ Nat.lt_succ_self _⟩
  obtain ⟨-, height, hcopy, -⟩ := mem_getUnjailedBatches.mp hmem
  rw [show (s.batched b).batchBlocks.lookup height = _ from lookup_put b.block height _ _] at hcopy
  split at hcopy
  · exact hkey (congrArg OutgoingTxBatch.key (Option.some.inj hcopy)).symm
  next hheight => exact hheight (((h height b').mp hcopy).2.symm.trans hblock)

/-- **JAILING MISSES NO BATCH** in a run that builds at most one batch of every height while
    it is stored, and misses one as soon as another batch of a height is built. -/
theorem unjailed_batches_exact_iff (requests : List (Env × Op))
    (hspare : SpareBlocks .empty requests) :
    (run step .empty requests).MissesNoBatch ∧
    ∀ (env : Env) (token : EthAddress) (maxElements : ℤ) (s' : State), 0 < env.blockHeight →
      step (env, .buildOutgoingTXBatch token maxElements) (run step .empty requests) = .ok s' →
      (s'.MissesNoBatch ↔
        SpareBlock (run step .empty requests) (env, .buildOutgoingTXBatch token maxElements)) := by
  have hempty : State.empty.BlockIndexed :=
    fun _ _ => iff_of_false (fun h => by cases h) (fun h => by cases h.1)
  have hs := run_placed requests
  have h := run_blockIndexed empty_placed hempty hspare
  refine ⟨h.missesNoBatch, ?_⟩
  intro env token maxElements s' hpos hok
  refine ⟨?_, fun hspare => (h.step hs hspare hok).missesNoBatch⟩
  obtain ⟨b, hnonce, ⟨-, hblock⟩, -, -, rfl⟩ := buildOutgoingTXBatch_ok hs hok
  intro hexact k b' hb' heq
  rw [← hblock] at heq hpos
  exact not_missesNoBatch_batched hs (hs.nonce_new hnonce) hb' heq hpos h hexact

/-- Two tokens, a withdrawal of each, and a batch of the first one. -/
def sampleBatches : List (Env × Op) :=
  [(sampleEnv, .mintCoins (.address 5) ⟨peggyDenomString 1, 10⟩),
    (sampleEnv, .mintCoins (.address 5) ⟨peggyDenomString 2, 10⟩),
    (sampleEnv, .addToOutgoingPool (.address 5) 8 ⟨peggyDenomString 1, 3⟩
      ⟨peggyDenomString 1, 1⟩),
    (sampleEnv, .addToOutgoingPool (.address 5) 8 ⟨peggyDenomString 2, 3⟩
      ⟨peggyDenomString 2, 1⟩),
    (sampleEnv, .buildOutgoingTXBatch 1 100)]

theorem unjailed_batches_exact_sample : SpareBlocks .empty sampleBatches ∧
    (run step .empty sampleBatches).MissesNoBatch := by
  have hspare : SpareBlocks .empty sampleBatches := by
    refine ⟨trivial, trivial, trivial, trivial, ?_, trivial⟩
    intro k b hb
    cases hb
  exact ⟨hspare, (unjailed_batches_exact_iff sampleBatches hspare).1⟩

/-- A batch of the second token in the same block hides the first one, and cancelling it
    leaves the first one without a copy. -/
theorem second_token_hides_batch :
    (∃ b₁ b₂, b₁ ≠ b₂ ∧ (run step .empty (sampleBatches ++
        [(sampleEnv, .buildOutgoingTXBatch 2 100)])).iterateOutgoingTXBatches = [b₂, b₁] ∧
      b₁.block = 1 ∧ b₂.block = 1 ∧ (run step .empty (sampleBatches ++
        [(sampleEnv, .buildOutgoingTXBatch 2 100)])).getUnjailedBatches 0 5 = [b₂]) ∧
    ∃ b₁, (run step .empty (sampleBatches ++ [(sampleEnv, .buildOutgoingTXBatch 2 100),
        (sampleEnv, .cancelOutgoingTXBatch 2 1)])).iterateOutgoingTXBatches = [b₁] ∧
      b₁.block = 1 ∧ (run step .empty (sampleBatches ++
        [(sampleEnv, .buildOutgoingTXBatch 2 100),
          (sampleEnv, .cancelOutgoingTXBatch 2 1)])).getUnjailedBatches 0 5 = [] := by
  refine ⟨⟨⟨0, 0, [⟨0, .address 5, 8, ⟨1, 3⟩, ⟨1, 1⟩⟩], 1, 1⟩,
    ⟨1, 0, [⟨1, .address 5, 8, ⟨2, 3⟩, ⟨2, 1⟩⟩], 2, 1⟩, ?_⟩,
    ⟨0, 0, [⟨0, .address 5, 8, ⟨1, 3⟩, ⟨1, 1⟩⟩], 1, 1⟩, ?_⟩
  · decide +kernel
  · decide +kernel

end State

end PeggyPool
