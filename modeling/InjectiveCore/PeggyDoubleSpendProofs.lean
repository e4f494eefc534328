import InjectiveCore.PeggyBridgeProofs

/-!
# Every interleaving — what the bridge pays is not paid back

The steps of both chains keep `Bridged`, so it holds along every interleaving of them
(`run_bridged`). An event of the contract finds its batch stored even when several are
observed in one block, since each one is taken from a state where `Bridged` holds
(`Bridged.attestationTally`).

`no_double_spend` says what follows for money. The transfers of an executed batch are in
a batch or have left the pool with it, and a transfer that was refunded is in neither
case.
-/

namespace PeggyPool

open KeyedStore Transition

namespace World

/-! ## The end of a block -/

/-- The panics of `OutgoingTxBatchExecuted`. -/
def FailedExecution (e : PeggyError) : Prop := e = .panicUnknownBatch ∨ e = .panicFailedCancel

variable {env : Env} {s : State} {e : PeggyError} {coin : Coin}

theorem mintDeposit_error {token : EthAddress} (h : s.mintDeposit env token coin = .error e) :
    e = .supplyOverflow ∨ e = .absoluteMintLimitOverflow := by
  rw [State.mintDeposit] at h
  split at h
  · cases h
  split at h
  · cases h
    exact Or.inl rfl
  · dsimp only at h
    split at h
    · cases h
    split at h
    · cases h
      exact Or.inr rfl
    · cases h

theorem payDeposit_error {sender : EthAddress} {receiver : Account}
    (h : s.payDeposit env sender receiver coin = .error e) : e = .insufficientFunds := by
  rw [State.payDeposit] at h
  split at h
  · split at h
    · cases h
      rfl
    · cases h
  · split at h
    · cases h
    split at h
    · cases h
      rfl
    · cases h

theorem handleDepositClaim_error {claim : MsgDepositClaim}
    (h : s.handleDepositClaim env claim = .error e) : ¬ FailedExecution e := by
  rw [State.handleDepositClaim] at h
  split at h
  · cases h
    simp [FailedExecution]
  · split at h
    · cases h
      simp [FailedExecution]
    · dsimp only at h
      split at h
      · next e' hmint =>
        cases h
        rcases mintDeposit_error hmint with rfl | rfl
        · simp [FailedExecution]
        · simp [FailedExecution]
      · split at h
        · cases h
          simp [FailedExecution]
        · rw [payDeposit_error h]
          simp [FailedExecution]

section EndBlock

variable {w : World}

/-- **ONE EVENT** is observed, unless a deposit panics. -/
theorem Bridged.observe (h : w.Bridged) (o : Observation) {log : Log} {rest : List Log}
    (hlog : w.unobserved = log :: rest) :
    (∃ s, w.injective.observe o log = .ok s ∧ { w with
        injective := s
        lastObservedEventNonce := w.lastObservedEventNonce + 1 }.Bridged) ∨
      ∃ e, w.injective.observe o log = .error e ∧ ¬ FailedExecution e := by
  have h₁ := h.heard hlog o.env.blockHeight
  rw [State.observe]
  dsimp only
  cases hevent : log.event with
  | transactionBatchExecuted b =>
    refine Or.inl ?_
    have hhead := (mem_unobserved hlog).1
    obtain ⟨s₁, -, hc, -, heq⟩ :=
      State.outgoingTxBatchExecuted_eq o.env h₁.placed (h₁.pending log hhead b hevent).1
    refine ⟨_, heq, ?_⟩
    have hmem := Peggy.mem_executed.mpr ⟨log, hhead, hevent⟩
    -- the batches before this one are not executed any more
    have h₂ := h₁.cancels hc (fun b' hb' => ?_)
    · exact h₂.completed hlog hevent _
    · obtain ⟨hlookup, hlt, htoken⟩ := (State.mem_batchesToCancel h₁.placed).mp hb'
      refine ⟨hlookup, ?_, ?_⟩
      · intro hexec
        have hrising := h.rising_unobserved
        change b' ∈ Peggy.executed w.unobserved at hexec
        rw [hlog, Peggy.executed_cons_some (Peggy.batchOf_eq_some.mpr hevent)] at hrising hexec
        rcases List.mem_cons.mp hexec with rfl | hlater
        · exact lt_irrefl _ hlt
        · exact lt_asymm hlt ((List.pairwise_cons.mp hrising).1 b' hlater htoken.symm)
      · refine Or.inr ?_
        rw [htoken]
        exact hlt.le.trans (h.last b (mem_executed_of_unobserved hmem)).2
  | sendToInjective claim =>
    have hnone : Peggy.batchOf log.event = none := by rw [hevent]; rfl
    dsimp only
    split
    · next s hok =>
      refine Or.inl ⟨_, rfl, ?_⟩
      obtain ⟨s₁, dest, bank, hmint, -, rfl⟩ := State.handleDepositClaim_ok hok
      rcases State.mintDeposit_ok hmint with ⟨-, rfl⟩ | ⟨-, rfl⟩
      · exact (h₁.funded _ _).passed hlog hnone
      · exact (h₁.funded _ _).passed hlog hnone
    · next e herror =>
      split
      · exact Or.inr ⟨e, rfl, handleDepositClaim_error herror⟩
      · exact Or.inl ⟨_, rfl, (h₁.funded _ _).passed hlog hnone⟩
  | valsetUpdated =>
    have hnone : Peggy.batchOf log.event = none := by rw [hevent]; rfl
    exact Or.inl ⟨_, rfl, h₁.passed hlog hnone⟩

/-- **A TALLY** observes the next events one after the other. -/
theorem Bridged.attestationTally (h : w.Bridged) (os : List Observation) :
    (∃ s, State.attestationTally (os.zip w.unobserved) w.injective = .ok s ∧ { w with
        injective := s
        lastObservedEventNonce :=
          w.lastObservedEventNonce + (os.zip w.unobserved).length }.Bridged) ∨
      ∃ e, State.attestationTally (os.zip w.unobserved) w.injective = .error e ∧
        ¬ FailedExecution e := by
  induction os generalizing w with
  | nil => exact Or.inl ⟨_, rfl, h⟩
  | cons o os ih =>
    cases hlog : w.unobserved with
    | nil => exact Or.inl ⟨_, rfl, h⟩
    | cons log rest =>
      rw [List.zip_cons_cons, State.attestationTally, List.length_cons]
      rcases h.observe o hlog with ⟨s, hok, hs⟩ | ⟨e, herror, he⟩
      · rw [hok]
        have hnext := ih hs
        rw [unobserved_next hlog] at hnext
        rw [Nat.add_comm _ 1, ← Nat.add_assoc]
        exact hnext
      · rw [herror]
        exact Or.inr ⟨e, rfl, he⟩

/-- **THE END OF A BLOCK**: no execution fails, and the batches that are cleaned up are
    refused by the contract. -/
theorem Bridged.endBlocker (h : w.Bridged) (os : List Observation) :
    (∃ w', w.endBlocker os = .ok w' ∧ w'.Bridged) ∨
      ∃ e, w.endBlocker os = .error e ∧ ¬ FailedExecution e := by
  rw [World.endBlocker]
  rcases h.attestationTally os with ⟨s, hok, hs⟩ | ⟨e, herror, he⟩
  · rw [hok]
    refine Or.inl ⟨_, rfl, ?_⟩
    obtain ⟨bs, hc, hbs⟩ := State.cleanupTimedOutBatches_spec hs.placed
    refine hs.cancels hc ?_
    intro b hb
    obtain ⟨hlookup, htimeout⟩ := hbs b hb
    refine ⟨hlookup, ?_, Or.inl htimeout⟩
    -- an execution still to be seen happened before the timeout, but not before this height
    intro hexec
    obtain ⟨log, hlog, hevent⟩ := Peggy.mem_executed.mp hexec
    have hlt := (hs.pending log hlog b hevent).2
    exact lt_irrefl _ (htimeout.trans_le ((hs.unseen log hlog).trans hlt.le))
  · rw [herror]
    exact Or.inr ⟨e, rfl, he⟩

end EndBlock

/-! ## Runs -/

variable {w w' : World}

theorem onInjective_ok {result : Except PeggyError State} (h : w.onInjective result = .ok w') :
    ∃ s, result = .ok s ∧ w' = { w with injective := s } := by
  cases result with
  | error e => cases h
  | ok s =>
    cases h
    exact ⟨s, rfl, rfl⟩

/-- **ONE STEP** of either chain. -/
theorem Bridged.step (h : w.Bridged) {op : Op} (hstep : World.step op w = .ok w') : w'.Bridged := by
  cases op with
  | sendToEth env sender ethDest amount bridgeFee =>
    obtain ⟨s, hok, rfl⟩ := onInjective_ok hstep
    rw [State.sendToEth] at hok
    split at hok
    · cases hok
    obtain ⟨token, paid, bank, -, -, -, -, rfl⟩ := State.addToOutgoingPool_ok hok
    exact h.aside (h.placed.added bank rfl rfl) rfl rfl rfl rfl (List.append_nil _).symm
      (fun _ => List.not_mem_nil)
  | cancelSendToEth env transactionId sender =>
    obtain ⟨s, hok, rfl⟩ := onInjective_ok hstep
    obtain ⟨tx, bank, hpool, hindexed, -, rfl⟩ :=
      State.removeFromOutgoingPoolAndRefund_ok h.placed hok
    refine h.aside (h.placed.refunded bank hpool hindexed) rfl rfl rfl rfl rfl ?_
    intro b hb
    cases List.mem_singleton.mp hb
  | requestBatch env denom =>
    obtain ⟨s, hok, rfl⟩ := onInjective_ok hstep
    obtain ⟨⟨isCosmosOriginated, token⟩, -, hok⟩ := exists_of_bind_eq_ok hok
    cases isCosmosOriginated with
    | true => cases hok
    | false =>
      simp only [Bool.false_eq_true, if_false] at hok
      obtain ⟨b, hnonce, -, hpicked, honce, rfl⟩ := State.buildOutgoingTXBatch_ok h.placed hok
      exact h.batched (h.placed.batched_effect hnonce hpicked honce) hnonce
  | endBlocker os =>
    change (w.endBlocker os).mapError _ = _ at hstep
    rcases h.endBlocker os with ⟨w₁, hok, hw₁⟩ | ⟨e, herror, -⟩
    · rw [hok] at hstep
      cases hstep
      exact hw₁
    · rw [herror] at hstep
      cases hstep
  | otherModules bank =>
    cases hstep
    exact h.funded bank _
  | mine blocks =>
    cases hstep
    exact h.mine blocks
  | submitBatch b =>
    rw [World.step] at hstep
    split at hstep
    · cases hstep
    rename_i p hok
    cases hstep
    exact h.submitBatch hok
  | sendToInjective claim | updateValset =>
    cases hstep
    exact h.emit rfl rfl (fun _ => le_rfl) (fun _ hb => by cases hb)

theorem run_bridged (blockNumber : ℕ) (ops : List Op) :
    (run step (start blockNumber) ops).Bridged :=
  run_invariant (fun _ _ _ h hstep => h.step hstep) ops (start_bridged blockNumber)

/-! ## No double spend -/

/-- An executed batch is found when its event is observed, and was not cancelled. Its
    transfers are not refunded, nor paid out with another batch. -/
structure NoDoubleSpend (w : World) : Prop where
  found : ∀ b ∈ Peggy.executed w.unobserved,
    w.injective.getOutgoingTXBatch b.tokenContract b.batchNonce = some b
  executes : ∀ os e, w.endBlocker os = .error e →
    e ≠ .panicUnknownBatch ∧ e ≠ .panicFailedCancel
  notCancelled : ∀ b ∈ Peggy.executed w.ethereum.logs, ∀ b',
    .outgoingBatchCanceled b' ∈ w.injective.events → b'.key ≠ b.key
  notRefunded : ∀ b ∈ Peggy.executed w.ethereum.logs, ∀ tx ∈ b.transactions, ∀ tx',
    .bridgeWithdrawCanceled tx' ∈ w.injective.events → tx'.id ≠ tx.id
  paidOnce : ((Peggy.executed w.ethereum.logs).flatMap
    (fun b => b.transactions.map (·.id))).Nodup

section Facts

variable {w : World} (h : w.Bridged)

include h

variable {b : OutgoingTxBatch}

theorem Bridged.stored_or_completed (hb : b ∈ Peggy.executed w.ethereum.logs) :
    w.injective.batches.lookup b.key = some b ∨ .withdrawalsCompleted b ∈ w.injective.events := by
  rw [logs_eq, Peggy.executed_append, List.mem_append] at hb
  rcases hb with hobs | hun
  · exact Or.inr (h.settled b hobs).2
  · obtain ⟨log, hlog, hevent⟩ := Peggy.mem_executed.mp hun
    exact Or.inl (h.pending log hlog b hevent).1

variable {b' : OutgoingTxBatch}

theorem Bridged.eq_of_key (hb : b ∈ w.injective.checkpoints)
    (hb' : b' ∈ w.injective.checkpoints) (hkey : b'.key = b.key) : b' = b :=
  List.inj_on_of_nodup_map h.distinct hb' hb (congrArg BatchKey.nonce hkey)

theorem Bridged.departures_disjoint {e e' : Event} (he : e ∈ w.injective.events)
    (he' : e' ∈ w.injective.events) (hne : e ≠ e') :
    e.departures.Disjoint e'.departures := by
  have hpairwise := (List.nodup_flatMap.mp h.placed.leftOnce).2
  have : Std.Symm (Function.onFun List.Disjoint Event.departures) := ⟨fun _ _ hd => hd.symm⟩
  exact hpairwise.forall he he' hne

theorem Bridged.not_pooled {e : Event} (he : e ∈ w.injective.events) {id : ℕ}
    (hid : id ∈ e.departures) : w.injective.pool.lookup id = none :=
  h.placed.departed id (List.mem_flatMap.mpr ⟨e, he, hid⟩)

theorem Bridged.notCancelled (hb : b ∈ Peggy.executed w.ethereum.logs)
    (hb' : .outgoingBatchCanceled b' ∈ w.injective.events) : b'.key ≠ b.key := by
  intro hkey
  obtain ⟨hknown, hnot, -⟩ := h.cancelled b' hb'
  rw [h.eq_of_key (h.last b hb).1 hknown hkey] at hnot
  exact hnot hb

theorem Bridged.notRefunded (hb : b ∈ Peggy.executed w.ethereum.logs)
    {tx tx' : OutgoingTransferTx} (htx : tx ∈ b.transactions)
    (htx' : .bridgeWithdrawCanceled tx' ∈ w.injective.events) : tx'.id ≠ tx.id := by
  intro hid
  have hleft : tx.id ∈ (Event.bridgeWithdrawCanceled tx').departures :=
    List.mem_singleton.mpr hid.symm
  rcases h.stored_or_completed hb with hstored | hcompleted
  · have hpool := (h.placed.batched _ _ hstored tx htx).1
    rw [h.not_pooled htx' hleft] at hpool
    cases hpool
  · have hne : Event.bridgeWithdrawCanceled tx' ≠ .withdrawalsCompleted b :=
      fun heq => by cases heq
    exact h.departures_disjoint htx' hcompleted hne hleft (List.mem_map_of_mem htx)

theorem Bridged.ids_disjoint (hb : b ∈ Peggy.executed w.ethereum.logs)
    (hb' : b' ∈ Peggy.executed w.ethereum.logs) (hne : b ≠ b') :
    (b.transactions.map (·.id)).Disjoint (b'.transactions.map (·.id)) := by
  rcases h.stored_or_completed hb with hstored | hcompleted
  · rcases h.stored_or_completed hb' with hstored' | hcompleted'
    · intro id hid hid'
      obtain ⟨tx, htx, rfl⟩ := List.mem_map.mp hid
      obtain ⟨tx', htx', hsame⟩ := List.mem_map.mp hid'
      have heq := h.placed.eq_of_id hstored' hstored htx' htx hsame
      have hkey := h.placed.apart _ _ _ _ hstored hstored' tx htx (heq ▸ htx')
      rw [hkey, hstored'] at hstored
      exact hne (Option.some.inj hstored).symm
    · intro id hid hid'
      obtain ⟨tx, htx, rfl⟩ := List.mem_map.mp hid
      have hpool := (h.placed.batched _ _ hstored tx htx).1
      rw [h.not_pooled hcompleted' hid'] at hpool
      cases hpool
  · rcases h.stored_or_completed hb' with hstored' | hcompleted'
    · intro id hid hid'
      obtain ⟨tx', htx', rfl⟩ := List.mem_map.mp hid'
      have hpool := (h.placed.batched _ _ hstored' tx' htx').1
      rw [h.not_pooled hcompleted hid] at hpool
      cases hpool
    · exact h.departures_disjoint hcompleted hcompleted'
        (fun heq => hne (Event.withdrawalsCompleted.inj heq))

theorem Bridged.paidOnce : ((Peggy.executed w.ethereum.logs).flatMap
    (fun b => b.transactions.map (·.id))).Nodup := by
  rw [List.nodup_flatMap]
  constructor
  · intro b hb
    rcases h.stored_or_completed hb with hstored | hcompleted
    · exact h.placed.once _ _ hstored
    · exact (List.nodup_flatMap.mp h.placed.leftOnce).1 _ hcompleted
  · refine h.rising.imp_of_mem ?_
    intro b b' hb hb' hlt
    refine h.ids_disjoint hb hb' ?_
    rintro rfl
    exact lt_irrefl _ (hlt rfl)

end Facts

/-- **NO DOUBLE SPEND**, along every interleaving of the two chains. -/
theorem no_double_spend (blockNumber : ℕ) (ops : List Op) :
    (run step (start blockNumber) ops).NoDoubleSpend := by
  have h := run_bridged blockNumber ops
  refine ⟨?_, ?_, fun b hb b' => h.notCancelled hb, fun b hb tx htx tx' => h.notRefunded hb htx,
    h.paidOnce⟩
  · intro b hb
    obtain ⟨log, hlog, hevent⟩ := Peggy.mem_executed.mp hb
    rw [h.placed.getOutgoingTXBatch]
    exact (h.pending log hlog b hevent).1
  · intro os e he
    rcases h.endBlocker os with ⟨w', hok, -⟩ | ⟨e', herror, hnot⟩
    · rw [he] at hok
      cases hok
    · rw [he] at herror
      cases herror
      exact ⟨fun heq => hnot (Or.inl heq), fun heq => hnot (Or.inr heq)⟩

/-- Two batches of one token; the second is executed and observed. -/
def sampleBatch (nonce : ℕ) : OutgoingTxBatch :=
  ⟨nonce, 12, [⟨nonce, .address 5, 8, ⟨1, 3⟩, ⟨1, 1⟩⟩], 1, 1⟩

def sampleOps : List Op :=
  [.sendToInjective ⟨1, 10, some 7, some (.address 5)⟩,
    .endBlocker [⟨State.sampleEnv, id⟩, ⟨State.sampleEnv, id⟩],
    .sendToEth State.sampleEnv (.address 5) 8 ⟨peggyDenomString 1, 3⟩ ⟨peggyDenomString 1, 1⟩,
    .requestBatch State.sampleEnv (peggyDenomString 1),
    .sendToEth State.sampleEnv (.address 5) 8 ⟨peggyDenomString 1, 3⟩ ⟨peggyDenomString 1, 1⟩,
    .requestBatch State.sampleEnv (peggyDenomString 1),
    .submitBatch (sampleBatch 1),
    .endBlocker [⟨State.sampleEnv, id⟩]]

example : Peggy.executed (run step (start 11) sampleOps).ethereum.logs = [sampleBatch 1] := by
  decide

example : (run step (start 11) sampleOps).injective.events =
    [.outgoingBatchCanceled (sampleBatch 0), .withdrawalsCompleted (sampleBatch 1)] := by
  decide

end World

end PeggyPool
