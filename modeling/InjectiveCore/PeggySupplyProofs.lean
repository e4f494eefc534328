import InjectiveCore.BalanceSheetProofs
import InjectiveCore.PeggyTransfersProofs

/-!
# The supply of bridged tokens

The keeper tracks how much of a token has come over the bridge. Coins are burned when a
withdrawal is requested and minted again when it is refunded, but the tracked amount
only falls when the withdrawal is seen executed, so at any time

  tracked amount = supply of the denom + what waits in the pool.

`difference` is what the two sides differ by. Every operation keeps it: the lemmas about
the bank say how a write moves the supply, those about the effects how it moves the pool.

A withdrawal burns coins of the denom it is given, and any spelling of the address is
read as the token. Only the checksummed spelling is ever minted, so there is nothing to
burn of the others (`Unspelled`).
-/

namespace PeggyPool

open KeyedStore Transition

/-! ## Supply -/

namespace Bank

variable {b b' : Bank}

theorem supply_credit (b : Bank) (a : Account) (c : Coin) (d : Denom) :
    ((b.credit a c).supply d : ℤ) = b.supply d + if c.denom = d then (c.amount : ℤ) else 0 := by
  have h : (b.credit a c).supply d = b.supply d + if d = c.denom then c.amount else 0 :=
    BalanceSheet.supply_credit b a c.denom c.amount d
  rw [h, Nat.cast_add, Nat.cast_ite, Nat.cast_zero]
  exact congrArg _ (if_congr eq_comm rfl rfl)

theorem supply_debit {a : Account} {c : Coin} (h : b.debit a c = some b') (d : Denom) :
    (b'.supply d : ℤ) = b.supply d - if c.denom = d then (c.amount : ℤ) else 0 := by
  have hd : b'.supply d + (if d = c.denom then c.amount else 0) = b.supply d :=
    BalanceSheet.supply_debit h d
  rw [← hd, Nat.cast_add, Nat.cast_ite, Nat.cast_zero, eq_sub_iff_add_eq]
  exact congrArg _ (if_congr eq_comm rfl rfl)

end Bank

theorem sendCoins_some {env : Env} {b b' : Bank} {src dest : Account} {c : Coin}
    (h : sendCoins env b src dest c = some b') :
    c.amount ≤ b.supply c.denom ∧ ∀ d, b'.supply d = b.supply d := by
  rw [sendCoins, Option.bind_eq_some_iff] at h
  obtain ⟨dest', -, h⟩ := h
  rw [Option.map_eq_some_iff] at h
  obtain ⟨b₁, hdebit, rfl⟩ := h
  refine ⟨(BalanceSheet.debit_some hdebit).1.trans (BalanceSheet.balance_le_supply b src c.denom),
    ?_⟩
  intro d
  have hcredit := b₁.supply_credit dest' c d
  rw [Bank.supply_debit hdebit d] at hcredit
  omega

/-! ## The tracked amount -/

/-- What the transfer takes of a token. -/
def OutgoingTransferTx.totalOf (tx : OutgoingTransferTx) (token : EthAddress) : ℤ :=
  if tx.erc20Token.contract = token then tx.total else 0

/-- A token of Ethereum origin other than the native coin. -/
structure Env.Tracks (env : Env) (token : EthAddress) : Prop where
  origin : env.getCosmosOriginatedDenom token = none
  contract : token ≠ env.cosmosCoinERC20Contract
  denom : ∀ spelling, env.cosmosCoinDenom ≠ .peggy token spelling

namespace State

variable {env : Env} {s s' : State} {token : EthAddress}

/-- What of the token waits in the pool. -/
def poolTotal (s : State) (token : EthAddress) : ℤ := total (fun _ tx => tx.totalOf token) s.pool

/-- What the tracked amount has over the supply and the pool. -/
def difference (s : State) (token : EthAddress) : ℤ :=
  s.getMintAmountERC20 token - s.bank.supply (peggyDenomString token) - s.poolTotal token

/-- There are no coins in another spelling of the denom. -/
def Unspelled (s : State) (token : EthAddress) : Prop :=
  ∀ text, s.bank.supply (.peggy token (.other text)) = 0

theorem lookup_of_tracks (h : env.Tracks token) :
    erc20ToDenomLookup env token = (false, peggyDenomString token) := by
  rw [erc20ToDenomLookup, h.origin]
  exact if_neg h.contract

theorem lookup_of_ne (h : env.Tracks token) {c : EthAddress} (hc : c ≠ token)
    (horigin : (erc20ToDenomLookup env c).1 = false) (spelling : Spelling) :
    (erc20ToDenomLookup env c).2 ≠ .peggy token spelling := by
  rw [erc20ToDenomLookup] at horigin ⊢
  cases hdenom : env.getCosmosOriginatedDenom c with
  | some d =>
    rw [hdenom] at horigin
    cases horigin
  | none =>
    dsimp only
    split
    · exact h.denom spelling
    · intro heq
      exact hc (Denom.peggy.inj heq).1

variable {tx : OutgoingTransferTx}

theorem totalToRefund_of_tracks (h : env.Tracks token) (htx : tx.erc20Token.contract = token) :
    totalToRefund env tx = ⟨peggyDenomString token, tx.total⟩ := by
  rw [totalToRefund, htx, lookup_of_tracks h]
  dsimp only
  split <;> rfl

theorem totalToRefund_of_ne (h : env.Tracks token) (htx : tx.erc20Token.contract ≠ token)
    (horigin : (erc20ToDenomLookup env tx.erc20Token.contract).1 = false) (spelling : Spelling) :
    (totalToRefund env tx).denom ≠ .peggy token spelling := by
  rw [totalToRefund]
  split
  · exact lookup_of_ne h htx horigin spelling
  · intro heq
    exact htx (Denom.peggy.inj heq).1

/-! ## Effects on the pool -/

theorem poolTotal_nonneg (s : State) (token : EthAddress) : 0 ≤ s.poolTotal token := by
  refine total_nonneg ?_
  rintro ⟨id, tx⟩ -
  show 0 ≤ tx.totalOf token
  rw [OutgoingTransferTx.totalOf]
  split
  · exact Int.natCast_nonneg _
  · exact le_rfl

theorem poolTotal_added (hs : s.Placed) (bank : Bank)
    (hid : tx.id = autoIncrementID s.lastTXPoolID) :
    (s.added tx bank).poolTotal token = s.poolTotal token + tx.totalOf token := by
  have hfresh : s.pool.lookup tx.id = none := by
    refine Option.eq_none_iff_forall_ne_some.mpr ?_
    intro tx' htx'
    have hlt := (hs.given tx.id).mpr (Or.inr ⟨tx', htx'⟩)
    rw [hid] at hlt
    exact lt_irrefl _ hlt
  have hput := total_put_sub (fun (_ : ℕ) tx => tx.totalOf token) tx.id (some tx) s.pool
  rw [hfresh, weight_none, weight_some, sub_zero] at hput
  exact hput

theorem poolTotal_refunded (bank : Bank) (hpool : s.pool.lookup tx.id = some tx) :
    (s.refunded tx bank).poolTotal token = s.poolTotal token - tx.totalOf token := by
  have hput := total_put_sub (fun (_ : ℕ) tx => tx.totalOf token) tx.id none s.pool
  rw [hpool, weight_none, weight_some, zero_sub] at hput
  exact hput

theorem poolTotal_completed (hs : s.Placed) {k : BatchKey} {b : OutgoingTxBatch}
    (hb : s.batches.lookup k = some b) (mintAmounts : Store EthAddress ℤ) :
    (s.completed b mintAmounts).poolTotal token =
      s.poolTotal token -
        if b.tokenContract = token then (((b.transactions.map (·.total)).sum : ℕ) : ℤ)
        else 0 := by
  have htotal := total_putAll_none (fun (_ : ℕ) tx => OutgoingTransferTx.totalOf tx token)
    (hs.once k b hb) s.pool
  have hterms : (b.transactions.map (·.id)).map (fun id =>
      weight (fun _ tx => OutgoingTransferTx.totalOf tx token) id (s.pool.lookup id)) =
      b.transactions.map (fun tx =>
        if b.tokenContract = token then (tx.total : ℤ) else 0) := by
    rw [List.map_map]
    refine List.map_congr_left ?_
    intro tx htx
    obtain ⟨hpool, hcontract, -⟩ := hs.batched k b hb tx htx
    show weight (fun (_ : ℕ) tx => OutgoingTransferTx.totalOf tx token) tx.id
      (s.pool.lookup tx.id) = _
    rw [hpool, weight_some, OutgoingTransferTx.totalOf, hcontract]
  have hsum : (b.transactions.map (fun tx =>
      if b.tokenContract = token then (tx.total : ℤ) else 0)).sum =
      if b.tokenContract = token then (((b.transactions.map (·.total)).sum : ℕ) : ℤ)
      else 0 := by
    split
    · rw [Nat.cast_list_sum, List.map_map]
      rfl
    · rw [List.map_const', List.sum_replicate, smul_zero]
  rw [hterms, hsum] at htotal
  show total _ (putAll (b.transactions.map (·.id)) none s.pool) = total _ s.pool - _
  rw [htotal, add_sub_cancel_left]

/-! ## Requests -/

/-- Others leave the coins of the token alone, in whatever spelling. -/
def Op.Spares (token : EthAddress) : Op → Prop
  | .mintCoins _ coin => ∀ spelling, coin.denom ≠ .peggy token spelling
  | .burnCoins _ coin => ∀ spelling, coin.denom ≠ .peggy token spelling
  | _ => True

/-- What a request keeps. -/
structure Tracked (token : EthAddress) (c : ℤ) (s : State) : Prop where
  placed : s.Placed
  unspelled : s.Unspelled token
  kept : s.difference token = c

variable {c : ℤ}

theorem Tracked.withBank (h : s.Tracked token c) {bank : Bank}
    (hsupply : ∀ spelling, bank.supply (.peggy token spelling) =
      s.bank.supply (.peggy token spelling)) : Tracked token c { s with bank := bank } := by
  refine ⟨h.placed.of_eq rfl rfl rfl rfl rfl rfl, ?_, ?_⟩
  · intro text
    rw [← h.unspelled text]
    exact hsupply _
  · rw [← h.kept]
    show s.getMintAmountERC20 token - bank.supply (.peggy token .checksummed) -
      s.poolTotal token = _
    rw [hsupply]
    rfl

variable {sender : Account}

section Requests

variable (h : s.Tracked token c) (henv : env.Tracks token)
include h henv

/-- A withdrawal burns what it adds to the pool. -/
theorem Tracked.addToOutgoingPool {receiver : EthAddress} {amount fee : Coin}
    (hok : addToOutgoingPool env s sender receiver amount fee = .ok s') : s'.Tracked token c := by
  obtain ⟨contract, paid, bank, hlookup, hpos, hpaid, hburn, rfl⟩ := addToOutgoingPool_ok hok
  obtain ⟨hfunds, hsent⟩ := sendCoins_some hpaid
  have hsupply : ∀ d, (bank.supply d : ℤ) = s.bank.supply d -
      if amount.denom = d then ((amount.amount + fee.amount : ℕ) : ℤ) else 0 := by
    intro d
    rw [Bank.supply_debit hburn, hsent]
  -- the token of the entry is the one the denom stands for
  have hdenom : ∀ spelling, amount.denom = .peggy token spelling →
      spelling = .checksummed ∧ contract = token := by
    intro spelling hd
    rw [denomToERC20Lookup, hd] at hlookup
    cases hlookup
    refine ⟨?_, rfl⟩
    cases spelling with
    | checksummed => rfl
    | other text =>
      have hnone := h.unspelled text
      rw [← hd] at hnone
      change amount.amount + fee.amount ≤ s.bank.supply amount.denom at hfunds
      omega
  have hcontract : contract = token → amount.denom = peggyDenomString token := by
    rintro rfl
    rw [denomToERC20Lookup] at hlookup
    split at hlookup
    · next c' hparse =>
      cases hlookup
      cases hd : amount.denom with
      | native name =>
        rw [hd] at hparse
        cases hparse
      | peggy c'' spelling =>
        rw [hd] at hparse
        cases hparse
        rw [(hdenom spelling hd).1]
        rfl
    · split at hlookup
      · exact absurd (Prod.mk.inj (Except.ok.inj hlookup)).2.symm henv.contract
      · split at hlookup
        · cases hlookup
        · cases hlookup
  refine ⟨h.placed.added bank rfl rfl, ?_, ?_⟩
  · intro text
    have hd := hsupply (.peggy token (.other text))
    rw [if_neg (fun heq => by cases (hdenom _ heq).1), h.unspelled text] at hd
    show bank.supply _ = 0
    omega
  · rw [← h.kept, difference, difference, poolTotal_added h.placed bank rfl]
    show s.getMintAmountERC20 token - (bank.supply (peggyDenomString token) : ℤ) - _ = _
    rw [hsupply, OutgoingTransferTx.totalOf]
    by_cases hc : contract = token
    · rw [if_pos (hcontract hc), if_pos hc]
      rw [OutgoingTransferTx.total]
      ring
    · rw [if_neg hc, if_neg (fun heq : amount.denom = peggyDenomString token =>
        hc (hdenom _ heq).2)]
      ring

theorem Tracked.removeFromOutgoingPoolAndRefund {txId : ℕ}
    (hok : removeFromOutgoingPoolAndRefund env s txId sender = .ok s') : s'.Tracked token c := by
  obtain ⟨tx, bank, hpool, hindexed, hsend, rfl⟩ := removeFromOutgoingPoolAndRefund_ok h.placed hok
  obtain ⟨-, hsent⟩ := sendCoins_some hsend
  have hsupply : ∀ spelling, (bank.supply (.peggy token spelling) : ℤ) =
      s.bank.supply (.peggy token spelling) +
        if spelling = .checksummed then tx.totalOf token else 0 := by
    intro spelling
    rw [hsent]
    by_cases htx : tx.erc20Token.contract = token
    · rw [htx, lookup_of_tracks henv, totalToRefund_of_tracks henv htx,
        OutgoingTransferTx.totalOf, if_pos htx]
      simp only [Bool.false_eq_true, if_false]
      rw [Bank.supply_credit]
      congr 1
      refine if_congr ?_ rfl rfl
      rw [peggyDenomString, Denom.peggy.injEq]
      exact ⟨fun heq => heq.2.symm, fun heq => ⟨rfl, heq.symm⟩⟩
    · rw [OutgoingTransferTx.totalOf, if_neg htx, ite_self, add_zero]
      split
      · rfl
      · next horigin =>
        rw [Bank.supply_credit, if_neg, add_zero]
        exact totalToRefund_of_ne henv htx (Bool.eq_false_iff.mpr horigin) spelling
  refine ⟨h.placed.refunded bank hpool hindexed, ?_, ?_⟩
  · intro text
    have hd := hsupply (.other text)
    rw [if_neg (fun heq => by cases heq), h.unspelled text] at hd
    show bank.supply _ = 0
    omega
  · rw [← h.kept, difference, difference, poolTotal_refunded bank hpool]
    show s.getMintAmountERC20 token - (bank.supply (.peggy token .checksummed) : ℤ) - _ = _
    rw [hsupply, if_pos rfl, peggyDenomString]
    ring

variable {contract : EthAddress}

theorem Tracked.outgoingTxBatchExecuted {nonce : ℕ}
    (hok : outgoingTxBatchExecuted env s contract nonce = .ok s') : s'.Tracked token c := by
  obtain ⟨b, s₁, -, hc, hb₁, rfl⟩ := outgoingTxBatchExecuted_ok h.placed hok
  refine ⟨hc.placed.completed hb₁ _, ?_, ?_⟩
  · intro text
    show s₁.bank.supply _ = 0
    rw [hc.bank]
    exact h.unspelled text
  · rw [← h.kept, difference, difference, poolTotal_completed hc.placed hb₁]
    have hpool : s₁.poolTotal token = s.poolTotal token := by
      rw [poolTotal, poolTotal, hc.pool]
    have hbank : (s₁.completed b (mintAmountsAfter env s b)).bank = s.bank := hc.bank
    have hmint : (s₁.completed b (mintAmountsAfter env s b)).getMintAmountERC20 token =
        s.getMintAmountERC20 token -
          if b.tokenContract = token then (((b.transactions.map (·.total)).sum : ℕ) : ℤ)
          else 0 := by
      show ((mintAmountsAfter env s b).lookup token).getD 0 = _
      rw [mintAmountsAfter]
      by_cases htoken : b.tokenContract = token
      · have hdenom : peggyDenomString token ≠ injectiveCoin := fun heq => by cases heq
        rw [htoken, lookup_of_tracks henv, if_pos (by simpa using hdenom), lookup_put,
          if_pos rfl, if_pos rfl]
        rfl
      · rw [if_neg htoken, sub_zero]
        split
        · rw [lookup_put, if_neg (fun heq => htoken heq.symm)]
          rfl
        · rfl
    rw [hpool, hbank, hmint]
    ring

theorem Tracked.mintDeposit {coin : Coin}
    (hcoin : coin.denom = (erc20ToDenomLookup env contract).2)
    (hok : s.mintDeposit env contract coin = .ok s') : s'.Tracked token c := by
  rcases mintDeposit_ok hok with ⟨-, rfl⟩ | ⟨horigin, hs'⟩
  · exact h
  · have hsupply : ∀ spelling, (s'.bank.supply (.peggy token spelling) : ℤ) =
        s.bank.supply (.peggy token spelling) +
          if contract = token ∧ spelling = .checksummed then (coin.amount : ℤ) else 0 := by
      intro spelling
      rw [hs', Bank.supply_credit]
      congr 1
      refine if_congr ?_ rfl rfl
      rw [hcoin]
      by_cases htoken : contract = token
      · rw [htoken, lookup_of_tracks henv, peggyDenomString, Denom.peggy.injEq]
        exact ⟨fun heq => ⟨rfl, heq.2.symm⟩, fun heq => ⟨rfl, heq.2.symm⟩⟩
      · exact ⟨fun heq => absurd heq (lookup_of_ne henv htoken horigin spelling),
          fun heq => absurd heq.1 htoken⟩
    have hmint : s'.getMintAmountERC20 token =
        s.getMintAmountERC20 token + if contract = token then (coin.amount : ℤ) else 0 := by
      rw [hs', getMintAmountERC20]
      dsimp only
      by_cases htoken : contract = token
      · subst htoken
        rw [if_neg, lookup_put, if_pos rfl, if_pos rfl]
        · rfl
        · rw [hcoin, lookup_of_tracks henv]
          intro heq
          cases heq
      · rw [if_neg htoken, add_zero]
        split
        · rfl
        · rw [lookup_put, if_neg (fun heq => htoken heq.symm)]
          rfl
    refine ⟨?_, ?_, ?_⟩
    · rw [hs']
      exact h.placed.of_eq rfl rfl rfl rfl rfl rfl
    · intro text
      have hd := hsupply (.other text)
      rw [if_neg (fun heq => by cases heq.2), h.unspelled text] at hd
      omega
    · have hpool : s'.poolTotal token = s.poolTotal token := by
        rw [hs']
        rfl
      rw [← h.kept, difference, difference, hmint, hpool, peggyDenomString, hsupply]
      by_cases htoken : contract = token
      · rw [if_pos htoken, if_pos ⟨htoken, rfl⟩]
        ring
      · rw [if_neg htoken, if_neg (fun heq => htoken heq.1)]
        ring

theorem Tracked.handleDepositClaim {claim : MsgDepositClaim}
    (hok : handleDepositClaim env s claim = .ok s') : s'.Tracked token c := by
  obtain ⟨s₁, dest, bank, hmint, hpay, rfl⟩ := handleDepositClaim_ok hok
  refine (h.mintDeposit henv rfl hmint).withBank ?_
  intro spelling
  exact (sendCoins_some hpay).2 _

end Requests

/-- **ONE REQUEST** keeps the difference. -/
theorem Tracked.step (h : s.Tracked token c) {x : Env × Op} (henv : x.1.Tracks token)
    (hop : x.2.Spares token) (hok : State.step x s = .ok s') : s'.Tracked token c := by
  obtain ⟨env, op⟩ := x
  cases op with
  | addToOutgoingPool sender receiver amount fee => exact h.addToOutgoingPool henv hok
  | removeFromOutgoingPoolAndRefund txId sender =>
    exact h.removeFromOutgoingPoolAndRefund henv hok
  | buildOutgoingTXBatch contractAddress maxElements =>
    obtain ⟨b, hnonce, -, hpicked, honce, rfl⟩ := buildOutgoingTXBatch_ok h.placed hok
    exact ⟨h.placed.batched_effect hnonce hpicked honce, h.unspelled, h.kept⟩
  | cancelOutgoingTXBatch tokenContract nonce =>
    obtain ⟨b, hb, rfl⟩ := cancelOutgoingTXBatch_ok h.placed hok
    exact ⟨h.placed.cancelled hb, h.unspelled, h.kept⟩
  | outgoingTxBatchExecuted tokenContract nonce => exact h.outgoingTxBatchExecuted henv hok
  | handleDepositClaim claim => exact h.handleDepositClaim henv hok
  | sendCoins src dest coin =>
    obtain ⟨bank, hbank, rfl⟩ := withBank_ok hok
    exact h.withBank (fun spelling => (sendCoins_some hbank).2 _)
  | mintCoins dest coin =>
    obtain ⟨bank, hbank, rfl⟩ := withBank_ok hok
    cases hbank
    refine h.withBank ?_
    intro spelling
    have hd := s.bank.supply_credit dest coin (.peggy token spelling)
    rw [if_neg (hop spelling), add_zero] at hd
    exact_mod_cast hd
  | burnCoins src coin =>
    obtain ⟨bank, hbank, rfl⟩ := withBank_ok hok
    refine h.withBank ?_
    intro spelling
    have hd := Bank.supply_debit hbank (.peggy token spelling)
    rw [if_neg (hop spelling), sub_zero] at hd
    exact_mod_cast hd

theorem run_tracked {requests : List (Env × Op)}
    (hrequests : ∀ x ∈ requests, x.1.Tracks token ∧ x.2.Spares token) (h : s.Tracked token c) :
    (run State.step s requests).Tracked token c :=
  run_invariant_on (fun x hx _ _ hs hok =>
    hs.step (hrequests x hx).1 (hrequests x hx).2 hok) h

theorem Tracked.mintAmount_nonneg (h : s.Tracked token c) (hc : 0 ≤ c) :
    0 ≤ s.getMintAmountERC20 token := by
  have hd := h.kept
  rw [difference] at hd
  have hpool := s.poolTotal_nonneg token
  omega

/-- **SUPPLY INVARIANT**: in every run the difference stays what it was; from the empty
    state it is zero, and the tracked amount is never negative. -/
theorem supply_tracked (token : EthAddress) (requests : List (Env × Op))
    (hrequests : ∀ x ∈ requests, x.1.Tracks token ∧ x.2.Spares token) :
    (∀ s : State, s.Placed → s.Unspelled token →
      (run step s requests).difference token = s.difference token ∧
        (0 ≤ s.difference token → 0 ≤ (run step s requests).getMintAmountERC20 token)) ∧
      (run step State.empty requests).difference token = 0 ∧
      0 ≤ (run step State.empty requests).getMintAmountERC20 token := by
  have hempty : State.empty.Tracked token 0 := ⟨empty_placed, fun _ => rfl, rfl⟩
  refine ⟨?_, ?_, ?_⟩
  · intro s hplaced hunspelled
    have htracked := run_tracked hrequests ⟨hplaced, hunspelled, rfl⟩
    exact ⟨htracked.kept, htracked.mintAmount_nonneg⟩
  · exact (run_tracked hrequests hempty).kept
  · exact (run_tracked hrequests hempty).mintAmount_nonneg le_rfl

/-- A deposit of 10, two withdrawals, one of them executed. -/
def sampleRequests : List (Env × Op) :=
  [(sampleEnv, .handleDepositClaim ⟨1, 10, some 7, some (.address 5)⟩),
    (sampleEnv, .addToOutgoingPool (.address 5) 8 ⟨peggyDenomString 1, 3⟩
      ⟨peggyDenomString 1, 1⟩),
    (sampleEnv, .buildOutgoingTXBatch 1 100),
    (sampleEnv, .addToOutgoingPool (.address 5) 8 ⟨peggyDenomString 1, 2⟩
      ⟨peggyDenomString 1, 1⟩),
    (sampleEnv, .outgoingTxBatchExecuted 1 0)]

/-- After the run 6 are tracked: 3 are in circulation and 3 wait in the pool. -/
theorem supply_tracked_sample :
    (run step State.empty sampleRequests).difference 1 = 0 ∧
      (run step State.empty sampleRequests).getMintAmountERC20 1 = 6 ∧
      (run step State.empty sampleRequests).poolTotal 1 = 3 := by
  refine ⟨(supply_tracked 1 sampleRequests ?_).2.1, by decide, by decide⟩
  have htracks : sampleEnv.Tracks 1 := ⟨rfl, by decide, fun spelling heq => by cases heq⟩
  simp only [sampleRequests, List.forall_mem_cons, List.not_mem_nil, false_implies,
    implies_true, and_true, Op.Spares, htracks]

/-! ## Refunds -/

section Refund

open BalanceSheet

variable {id : ℕ} (horigin : (erc20ToDenomLookup env tx.erc20Token.contract).1 = false)
  (hroute : env.route .peggyModule tx.sender (totalToRefund env tx) = some tx.sender)
  (hsender : tx.sender ≠ .peggyModule)
include horigin hroute hsender

/-- A transfer in the index is refunded: its coins are minted first, so they are there. -/
theorem Placed.refund (hs : s.Placed) (htx : s.pool.lookup id = some tx)
    (hindexed : s.feeIndex.lookup tx.feeKey = some ()) :
    ∃ s', s.removeFromOutgoingPoolAndRefund env id tx.sender = .ok s' ∧
      s'.bank.balance tx.sender (totalToRefund env tx).denom =
        s.bank.balance tx.sender (totalToRefund env tx).denom + tx.total := by
  obtain rfl := hs.id_eq htx
  have hamount : (totalToRefund env tx).amount = tx.total := by
    rw [totalToRefund]
    split <;> rfl
  rw [removeFromOutgoingPoolAndRefund, htx]
  dsimp only
  rw [if_neg (not_not.mpr rfl), if_neg (not_not.mpr (hs.entry _ _ htx).2),
    if_neg (fun hnone => by cases hnone.symm.trans hindexed), horigin]
  generalize totalToRefund env tx = coin at hroute hamount ⊢
  have hminted := balance_credit s.bank .peggyModule coin.denom coin.amount
  have hfunds := hminted .peggyModule coin.denom
  rw [entry_same_account, inDenom_self] at hfunds
  obtain ⟨bank, hbank⟩ :=
    Option.isSome_iff_exists.mp (transfer_isSome_iff.mpr (hfunds ▸ Nat.le_add_left _ _))
  have hsent : sendCoins env (s.bank.credit .peggyModule coin) .peggyModule tx.sender coin =
      some bank := by
    rw [sendCoins, hroute]
    exact hbank
  split
  · next hnone => cases hnone.symm.trans hsent
  · next hsome =>
    obtain rfl := Option.some.inj (hsome.symm.trans hsent)
    have hmoved := balance_transfer hbank tx.sender coin.denom
    have hcredit := hminted tx.sender coin.denom
    rw [entry_of_ne hsender] at hmoved hcredit
    rw [entry_same_account, inDenom_self] at hmoved
    exact ⟨_, rfl, hmoved.trans (congrArg₂ (· + ·) hcredit hamount)⟩

/-- **NO TRANSFER IS STUCK**: after every run, a transfer in the pool can be refunded to its
    sender, at once or after its batch is cancelled, if the bank lets the send through. The
    sender then has the amount and the fee again. -/
theorem transfer_refundable {requests : List (Env × Op)} (hrun : run step .empty requests = s)
    (htx : s.pool.lookup id = some tx) :
    ∃ s₁ s₂, (s₁ = s ∨ ∃ nonce token b, s.batches.lookup ⟨nonce, token⟩ = some b ∧
        tx ∈ b.transactions ∧ s.cancelOutgoingTXBatch token nonce = .ok s₁) ∧
      s₁.removeFromOutgoingPoolAndRefund env id tx.sender = .ok s₂ ∧
      s₂.bank.balance tx.sender (totalToRefund env tx).denom =
        s.bank.balance tx.sender (totalToRefund env tx).denom + tx.total := by
  have hs : s.Placed := hrun ▸ run_placed requests
  rcases hs.placed id tx htx with hindexed | ⟨⟨nonce, token⟩, b, hb, hmem⟩
  · obtain ⟨s₂, hrefund, hpaid⟩ := hs.refund horigin hroute hsender htx hindexed
    exact ⟨s, s₂, .inl rfl, hrefund, hpaid⟩
  · have hindexed : (s.cancelled b).feeIndex.lookup tx.feeKey = some () :=
      (lookup_putAll _ _ _ _).trans (if_pos (List.mem_map_of_mem hmem))
    obtain ⟨s₂, hrefund, hpaid⟩ := (hs.cancelled hb).refund horigin hroute hsender htx hindexed
    exact ⟨_, s₂, .inr ⟨nonce, token, b, hb, hmem, cancelOutgoingTXBatch_eq hs hb⟩, hrefund,
      hpaid⟩

end Refund

/-- The first withdrawal of the sample is in a batch. -/
theorem transfer_refundable_sample :
    ∃ s₁ s₂ : State, (s₁ = run step .empty (sampleRequests.take 3) ∨ ∃ nonce token b,
        (run step .empty (sampleRequests.take 3)).batches.lookup ⟨nonce, token⟩ = some b ∧
        ⟨0, .address 5, 8, ⟨1, 3⟩, ⟨1, 1⟩⟩ ∈ b.transactions ∧
        (run step .empty (sampleRequests.take 3)).cancelOutgoingTXBatch token nonce = .ok s₁) ∧
      s₁.removeFromOutgoingPoolAndRefund sampleEnv 0 (.address 5) = .ok s₂ ∧
      s₂.bank.balance (.address 5) (peggyDenomString 1) = 6 + 4 :=
  @transfer_refundable sampleEnv _ ⟨0, .address 5, 8, ⟨1, 3⟩, ⟨1, 1⟩⟩ 0 rfl rfl (by decide) _ rfl
    (by decide)

end State

end PeggyPool
