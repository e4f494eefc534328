import InjectiveCore.ExchangeFeesProofs

/-!
# Deposits and the bank — every deposited coin is held by the module

A subaccount has, per denom, an **available** and a **total** balance. The coins behind
them lie in the bank account of the exchange module. The deposits of a *default*
subaccount follow the bank balance of its owner: whole coins of the available balance are
sent out at once, and a negative balance is made up for from the bank
(`keeper/subaccount/keeper.go`).

All of that is one write and one signed transfer. `setDepositOrSendToBank_spec` says so
without its branches: some integer number of coins leaves the module for the owner, and
both balances shrink by it. Every other operation is built on it, and
`deposits_stay_backed` follows by induction over the calls: what the module holds beyond
the deposits moves by exactly the deltas passed to `UpdateDepositWithDelta`.

A call may return an error **after** it has written: `ExecuteWithdraw` lowers the deposit
before the bank refuses the transfer. Messages that return an error are rolled back; the
results are about what is kept.
-/

namespace ExchangeDeposits

open DecArith ExchangeFees

variable {D : Type} [DecArith D]

/-! ## State -/

/-- `Deposit`. -/
@[ext] structure Deposit (D : Type) where
  availableBalance : D
  totalBalance : D
  deriving DecidableEq, Repr

/-- `Deposit.IsEmpty`. -/
def Deposit.isEmpty (d : Deposit D) : Bool :=
  decide (d.availableBalance = 0) && decide (d.totalBalance = 0)

/-- Add an amount to both balances. -/
def Deposit.shift (d : Deposit D) (amount : D) : Deposit D :=
  ⟨d.availableBalance + amount, d.totalBalance + amount⟩

/-- The errors of the deposit functions. -/
inductive DepositError where
  | insufficientFunds
  | insufficientDeposit
  | invalidAmount
  | invalidCoins
  | badSubaccountID
  | sendRestricted
  | bankTransferFailed
  deriving DecidableEq, Repr

/-- Deposits by subaccount and denom, bank balances of the owners and of the exchange
    module. A deposit that is not in the store is empty. -/
structure State (D : Type) where
  deposits : Hash × String → Deposit D
  accounts : Address × String → ℤ
  exchangeModule : String → ℤ

/-- `IsDefaultSubaccountID`: the last 12 bytes are zero. -/
def isDefaultSubaccountID (subaccountID : Hash) : Bool :=
  decide (subaccountID.setWidth 96 = 0#96)

namespace State

/-- `GetDeposit`. -/
def getDeposit (s : State D) (subaccountID : Hash) (denom : String) : Deposit D :=
  s.deposits (subaccountID, denom)

/-- `SetDeposit`. -/
def setDeposit (s : State D) (subaccountID : Hash) (denom : String) (deposit : Deposit D) :
    State D :=
  { s with deposits := Function.update s.deposits (subaccountID, denom) deposit }

/-- A bank transfer of `amount` coins from the exchange module to an account, and for a
    negative amount the other way. -/
def moveCoins (s : State D) (account : Address) (denom : String) (amount : ℤ) : State D :=
  { s with
    accounts := Function.update s.accounts (account, denom)
      (s.accounts (account, denom) + amount)
    exchangeModule := Function.update s.exchangeModule denom
      (s.exchangeModule denom - amount) }

/-- `GetSpendableFunds`: a default subaccount also spends from the bank. -/
def getSpendableFunds (s : State D) (subaccountID : Hash) (denom : String) : D :=
  let available := (s.getDeposit subaccountID denom).availableBalance
  if isDefaultSubaccountID subaccountID then
    newDec (s.accounts (subaccountIDToEthAddress subaccountID, denom)) + available
  else available

/-! ## Operations -/

/-- `ChargeBank`. In every operation the bank decides with `bankSend` whether the
    transfer takes place. -/
def chargeBank (s : State D) (bankSend : Bool) (account : Address) (denom : String)
    (amount : ℤ) : Except DepositError (State D) :=
  if amount = 0 then .ok s
  else if s.accounts (account, denom) < amount then .error .insufficientFunds
  else if bankSend then .ok (s.moveCoins account denom (-amount))
  else .error .bankTransferFailed

/-- `SetDepositOrSendToBank`. -/
def setDepositOrSendToBank (s : State D) (bankSend : Bool) (subaccountID : Hash)
    (denom : String) (deposit : Deposit D) (isPreventingBankCharge : Bool) : State D :=
  let account := subaccountIDToEthAddress subaccountID
  let amountToSendToBank := truncateInt deposit.availableBalance
  if 0 < amountToSendToBank ∧ isDefaultSubaccountID subaccountID then
    -- never more than the whole coins of the total balance
    let amount := min amountToSendToBank (max (truncateInt deposit.totalBalance) 0)
    if bankSend then
      (s.moveCoins account denom amount).setDeposit subaccountID denom
        (deposit.shift (-newDec amount))
    else s.setDeposit subaccountID denom deposit
  else if !isPreventingBankCharge ∧
      (deposit.availableBalance < 0 ∨ deposit.totalBalance < 0) ∧
      isDefaultSubaccountID subaccountID then
    let amount := ceilInt |min deposit.availableBalance deposit.totalBalance|
    match s.chargeBank bankSend account denom amount with
    | .ok s' => s'.setDeposit subaccountID denom (deposit.shift (newDec amount))
    | .error _ => s.setDeposit subaccountID denom deposit
  else s.setDeposit subaccountID denom deposit

/-- `IncrementAvailableBalanceOrBank`. -/
def incrementAvailableBalanceOrBank (s : State D) (bankSend : Bool) (subaccountID : Hash)
    (denom : String) (amount : D) : State D :=
  if amount = 0 then s
  else
    let deposit := s.getDeposit subaccountID denom
    s.setDepositOrSendToBank bankSend subaccountID denom
      { deposit with availableBalance := deposit.availableBalance + amount } false

/-- `UpdateDepositWithDelta`, and with the flag set
    `UpdateDepositWithDeltaWithoutBankCharge`. -/
def updateDepositWithDelta (s : State D) (bankSend isPreventingBankCharge : Bool)
    (subaccountID : Hash) (denom : String) (depositDelta : DepositDelta D) : State D :=
  if depositDelta.totalBalanceDelta = 0 ∧ depositDelta.availableBalanceDelta = 0 then s
  else
    let deposit := s.getDeposit subaccountID denom
    s.setDepositOrSendToBank bankSend subaccountID denom
      ⟨deposit.availableBalance + depositDelta.availableBalanceDelta,
        deposit.totalBalance + depositDelta.totalBalanceDelta⟩ isPreventingBankCharge

/-- `ChargeAvailableDeposits`. `restricted` is the verdict of the permissions module. -/
def chargeAvailableDeposits (s : State D) (restricted : Bool) (subaccountID : Hash)
    (denom : String) (amount : D) : Except DepositError (State D) :=
  let deposit := s.getDeposit subaccountID denom
  if deposit.isEmpty then .error .insufficientDeposit
  else if deposit.availableBalance < amount then .error .insufficientDeposit
  else if restricted then .error .sendRestricted
  else .ok (s.setDeposit subaccountID denom
    { deposit with availableBalance := deposit.availableBalance - amount })

/-- What the environment decides in a charge: the bank on the charge and on the transfer
    that follows, the permissions module on the denom. -/
structure ChargeOutcomes where
  bankCharge : Bool
  bankSend : Bool
  restricted : Bool
  deriving DecidableEq, Repr

/-- `chargeBankAndIncrementTotalDeposits`. -/
def chargeBankAndIncrementTotalDeposits (s : State D) (env : ChargeOutcomes)
    (subaccountID : Hash) (denom : String) (amount : D) : Except DepositError (State D) :=
  let intAmount := ceilInt amount
  match s.chargeBank env.bankCharge (subaccountIDToEthAddress subaccountID) denom intAmount with
  | .error e => .error e
  | .ok s' =>
    .ok (s'.updateDepositWithDelta env.bankSend false subaccountID denom
      ⟨newDec intAmount - amount, newDec intAmount⟩)

/-- `HasSufficientFunds`. -/
def hasSufficientFunds (s : State D) (subaccountID : Hash) (denom : String) (amount : D) :
    Bool :=
  if isDefaultSubaccountID subaccountID then
    decide (ceilInt amount ≤ s.accounts (subaccountIDToEthAddress subaccountID, denom))
  else
    let deposit := s.getDeposit subaccountID denom
    decide (amount ≤ deposit.availableBalance) && decide (amount ≤ deposit.totalBalance)

/-- `ChargeAccount`. -/
def chargeAccount (s : State D) (env : ChargeOutcomes) (subaccountID : Hash)
    (denom : String) (amount : D) : Except DepositError (State D) :=
  if amount = 0 then .ok s
  else if amount < 0 then .error .invalidAmount
  else if isDefaultSubaccountID subaccountID then
    s.chargeBankAndIncrementTotalDeposits env subaccountID denom amount
  else s.chargeAvailableDeposits env.restricted subaccountID denom amount

/-- `IncrementDepositForNonDefaultSubaccount`. -/
def incrementDepositForNonDefaultSubaccount (s : State D) (subaccountID : Hash)
    (denom : String) (amount : D) : Except DepositError (State D) :=
  if isDefaultSubaccountID subaccountID then .error .badSubaccountID
  else .ok (s.setDeposit subaccountID denom ((s.getDeposit subaccountID denom).shift amount))

/-- `DecrementDeposit`. -/
def decrementDeposit (s : State D) (subaccountID : Hash) (denom : String) (amount : D) :
    Except DepositError (State D) :=
  if amount = 0 then .ok s
  else
    let deposit := s.getDeposit subaccountID denom
    if deposit.isEmpty ∨ deposit.availableBalance < amount ∨ deposit.totalBalance < amount
    then .error .insufficientDeposit
    else .ok (s.setDeposit subaccountID denom (deposit.shift (-amount)))

/-- A deposit or withdrawal message, its subaccount id resolved. `isDenomValid` and
    `bankSend` are the answers of the bank. -/
structure Message where
  sender : Address
  subaccountID : Hash
  denom : String
  amount : ℤ
  isDenomValid : Bool
  bankSend : Bool
  deriving DecidableEq, Repr

/-- `ExecuteDeposit`: the coins are moved before the subaccount is looked at. The state
    is the one at the return, error or not. -/
def executeDeposit (s : State D) (msg : Message) : State D × Option DepositError :=
  if !msg.isDenomValid then (s, some .invalidCoins)
  else if !msg.bankSend then (s, some .bankTransferFailed)
  else
    let s' := s.moveCoins msg.sender msg.denom (-msg.amount)
    match s'.incrementDepositForNonDefaultSubaccount msg.subaccountID msg.denom
        (newDec msg.amount) with
    | .error e => (s', some e)
    | .ok s'' => (s'', none)

/-- `ExecuteWithdraw`: the deposit is lowered before the coins are moved. -/
def executeWithdraw (s : State D) (msg : Message) : State D × Option DepositError :=
  if !msg.isDenomValid then (s, some .invalidCoins)
  else
    match s.decrementDeposit msg.subaccountID msg.denom (newDec msg.amount) with
    | .error e => (s, some e)
    | .ok s' =>
      if msg.bankSend then (s'.moveCoins msg.sender msg.denom msg.amount, none)
      else (s', some .bankTransferFailed)

/-- What is kept of a call: its writes, or nothing if it returned an error. -/
def keep (s : State D) (r : State D × Option DepositError) : State D :=
  if r.2 = none then r.1 else s

end State

/-- A call of one of the deposit functions. -/
inductive Call (D : Type) where
  | incrementAvailableBalanceOrBank (bankSend : Bool) (subaccountID : Hash)
      (denom : String) (amount : D)
  | updateDepositWithDelta (bankSend isPreventingBankCharge : Bool) (subaccountID : Hash)
      (denom : String) (depositDelta : DepositDelta D)
  | chargeAccount (env : State.ChargeOutcomes) (subaccountID : Hash) (denom : String)
      (amount : D)
  | executeDeposit (msg : State.Message)
  | executeWithdraw (msg : State.Message)

/-- The state at the return of a call, and its error. -/
def Call.exec (s : State D) : Call D → State D × Option DepositError
  | .incrementAvailableBalanceOrBank bankSend subaccountID denom amount =>
    (s.incrementAvailableBalanceOrBank bankSend subaccountID denom amount, none)
  | .updateDepositWithDelta bankSend isPreventing subaccountID denom delta =>
    (s.updateDepositWithDelta bankSend isPreventing subaccountID denom delta, none)
  | .chargeAccount env subaccountID denom amount =>
    match s.chargeAccount env subaccountID denom amount with
    | .error e => (s, some e)
    | .ok s' => (s', none)
  | .executeDeposit msg => s.executeDeposit msg
  | .executeWithdraw msg => s.executeWithdraw msg

/-- The total balance delta a call passes to `UpdateDepositWithDelta` itself. -/
def Call.totalDelta (denom : String) : Call D → D
  | .updateDepositWithDelta _ _ _ d delta =>
    if d = denom then delta.totalBalanceDelta else 0
  | _ => 0

/-- A run of calls; failed ones leave nothing behind. -/
def run (calls : List (Call D)) (s : State D) : State D :=
  calls.foldl (fun s c => s.keep (c.exec s)) s

/-! ## Accounting -/

namespace State

/-- The sum of the total balances of all subaccounts in a denom. -/
noncomputable def totalDeposits (s : State D) (denom : String) : D :=
  ∑ subaccountID : Hash, (s.deposits (subaccountID, denom)).totalBalance

/-- What the module holds in a denom beyond the deposits. -/
noncomputable def surplus (s : State D) (denom : String) : D :=
  newDec (s.exchangeModule denom) - s.totalDeposits denom

section Moves

variable (s : State D)

theorem totalDeposits_setDeposit (subaccountID : Hash) (denom d : String) (deposit : Deposit D) :
    (s.setDeposit subaccountID denom deposit).totalDeposits d =
      s.totalDeposits d + if denom = d then
        deposit.totalBalance - (s.getDeposit subaccountID denom).totalBalance else 0 := by
  simp only [totalDeposits, setDeposit, getDeposit]
  by_cases hd : denom = d
  · subst hd
    rw [if_pos rfl, ← sub_eq_iff_eq_add', ← Finset.sum_sub_distrib]
    rw [Finset.sum_eq_single subaccountID]
    · rw [Function.update_self]
    · intro x _ hx
      rw [Function.update_of_ne (fun h => hx (congrArg Prod.fst h)), sub_self]
    · intro h
      exact absurd (Finset.mem_univ _) h
  · rw [if_neg hd, add_zero]
    refine Finset.sum_congr rfl fun x _ => ?_
    rw [Function.update_of_ne (fun h => hd (congrArg Prod.snd h).symm)]

theorem surplus_setDeposit (subaccountID : Hash) (denom d : String) (deposit : Deposit D) :
    (s.setDeposit subaccountID denom deposit).surplus d =
      s.surplus d - if denom = d then
        deposit.totalBalance - (s.getDeposit subaccountID denom).totalBalance else 0 := by
  rw [surplus, totalDeposits_setDeposit, ← sub_sub]
  rfl

theorem surplus_moveCoins (account : Address) (denom d : String) (n : ℤ) :
    (s.moveCoins account denom n).surplus d =
      s.surplus d - if denom = d then newDec n else 0 := by
  show newDec (Function.update s.exchangeModule denom _ d) - s.totalDeposits d = _
  by_cases hd : denom = d
  · subst hd
    rw [Function.update_self, if_pos rfl, newDec_sub, surplus]
    abel
  · rw [Function.update_of_ne (Ne.symm hd), if_neg hd, sub_zero, surplus]

omit [DecArith D] in
@[simp] theorem moveCoins_zero (account : Address) (denom : String) :
    s.moveCoins account denom 0 = s := by
  simp [moveCoins]

omit [DecArith D] in
@[simp] theorem setDeposit_getDeposit (subaccountID : Hash) (denom : String) :
    s.setDeposit subaccountID denom (s.getDeposit subaccountID denom) = s := by
  simp [setDeposit, getDeposit]

omit [DecArith D] in
@[simp] theorem getDeposit_moveCoins (account : Address) (denom d : String) (n : ℤ)
    (subaccountID : Hash) :
    (s.moveCoins account denom n).getDeposit subaccountID d = s.getDeposit subaccountID d :=
  rfl

omit [DecArith D] in
@[simp] theorem getDeposit_setDeposit (subaccountID : Hash) (denom : String) (deposit : Deposit D) :
    (s.setDeposit subaccountID denom deposit).getDeposit subaccountID denom = deposit :=
  Function.update_self ..

omit [DecArith D] in
@[simp] theorem accounts_setDeposit (subaccountID : Hash) (denom : String) (deposit : Deposit D)
    (a : Address × String) :
    (s.setDeposit subaccountID denom deposit).accounts a = s.accounts a := rfl

omit [DecArith D] in
@[simp] theorem accounts_moveCoins (account : Address) (denom : String) (n : ℤ) :
    (s.moveCoins account denom n).accounts (account, denom) =
      s.accounts (account, denom) + n := Function.update_self ..

/-! ## What each operation does -/

/-- `n` coins leave the module for the owner of a subaccount and both balances of the new
    deposit shrink by them. -/
def sendAndSet (s : State D) (subaccountID : Hash) (denom : String) (deposit : Deposit D)
    (n : ℤ) : State D :=
  (s.moveCoins (subaccountIDToEthAddress subaccountID) denom n).setDeposit subaccountID denom
    (deposit.shift (-newDec n))

theorem sendAndSet_zero (subaccountID : Hash) (denom : String) (deposit : Deposit D) :
    s.sendAndSet subaccountID denom deposit 0 = s.setDeposit subaccountID denom deposit := by
  simp [sendAndSet, Deposit.shift, newDec_zero]

theorem surplus_sendAndSet (subaccountID : Hash) (denom d : String) (deposit : Deposit D) (n : ℤ) :
    (s.sendAndSet subaccountID denom deposit n).surplus d =
      s.surplus d - if denom = d then
        deposit.totalBalance - (s.getDeposit subaccountID denom).totalBalance else 0 := by
  rw [sendAndSet, surplus_setDeposit, surplus_moveCoins, getDeposit_moveCoins]
  split
  · simp only [Deposit.shift]; abel
  · rw [sub_zero]

end Moves

variable {s s' : State D} {denom : String}

omit [DecArith D] in
theorem chargeBank_ok {bankSend : Bool} {account : Address} {amount : ℤ}
    (h : s.chargeBank bankSend account denom amount = .ok s') :
    s' = s.moveCoins account denom (-amount) := by
  rw [chargeBank] at h
  split at h
  · next h0 => rw [h0, neg_zero, moveCoins_zero]; exact (Except.ok.inj h).symm
  · split at h
    · exact nomatch h
    split at h
    · exact (Except.ok.inj h).symm
    · exact nomatch h

/-- Coins move for default subaccounts only, and leave no negative available balance. -/
def CoinsMove (subaccountID : Hash) (deposit : Deposit D) (n : ℤ) : Prop :=
  n ≠ 0 → isDefaultSubaccountID subaccountID = true ∧
    0 ≤ deposit.availableBalance - newDec n

theorem CoinsMove.zero (subaccountID : Hash) (deposit : Deposit D) :
    CoinsMove subaccountID deposit 0 := fun h => absurd rfl h

/-- **ONE WRITE, ONE TRANSFER**: whatever branch is taken. -/
theorem setDepositOrSendToBank_spec (s : State D) (bankSend : Bool) (subaccountID : Hash)
    (denom : String) (deposit : Deposit D) (isPreventing : Bool) :
    ∃ n, CoinsMove subaccountID deposit n ∧
      s.setDepositOrSendToBank bankSend subaccountID denom deposit isPreventing =
        s.sendAndSet subaccountID denom deposit n := by
  have hset : CoinsMove subaccountID deposit 0 ∧ s.setDeposit subaccountID denom deposit =
      s.sendAndSet subaccountID denom deposit 0 :=
    ⟨.zero _ _, (sendAndSet_zero s subaccountID denom deposit).symm⟩
  simp only [setDepositOrSendToBank]
  split
  · next hsend =>
      split
      · refine ⟨_, fun _ => ⟨hsend.2, ?_⟩, rfl⟩
        have hpos : 0 ≤ deposit.availableBalance := by
          by_contra hneg
          have hle := ceilInt_le deposit.availableBalance 0
            (by rw [newDec_zero]; exact (not_le.mp hneg).le)
          rw [truncateInt, if_pos (not_le.mp hneg)] at hsend
          exact absurd hsend.1 (not_lt.mpr hle)
        rw [sub_nonneg]
        exact (newDec_le _ _ (min_le_left _ _)).trans (newDec_truncateInt_le hpos)
      · exact ⟨0, hset⟩
  · split
    · next hcharge =>
        split
        · next s' h =>
            refine ⟨-ceilInt |min deposit.availableBalance deposit.totalBalance|,
              fun _ => ⟨hcharge.2.2, ?_⟩, ?_⟩
            · rw [newDec_neg, sub_neg_eq_add, ← neg_le_iff_add_nonneg']
              refine le_trans ?_ (le_newDec_ceilInt _)
              exact (neg_le_neg (min_le_left _ _)).trans (neg_le_abs _)
            · rw [chargeBank_ok h, sendAndSet, newDec_neg, neg_neg]
        · exact ⟨0, hset⟩
    · exact ⟨0, hset⟩

theorem incrementAvailableBalanceOrBank_spec (s : State D) (bankSend : Bool)
    (subaccountID : Hash) (denom : String) (amount : D) :
    let deposit : Deposit D :=
      ⟨(s.getDeposit subaccountID denom).availableBalance + amount,
        (s.getDeposit subaccountID denom).totalBalance⟩
    ∃ n, CoinsMove subaccountID deposit n ∧
      s.incrementAvailableBalanceOrBank bankSend subaccountID denom amount =
        s.sendAndSet subaccountID denom deposit n := by
  intro deposit
  simp only [incrementAvailableBalanceOrBank]
  split
  · next h =>
      refine ⟨0, .zero _ _, ?_⟩
      simp only [deposit]
      rw [sendAndSet_zero, h, add_zero, setDeposit_getDeposit]
  · exact setDepositOrSendToBank_spec ..

/-- The spendable funds rise by what is released, in the deposit or in the bank. -/
theorem getSpendableFunds_incrementAvailableBalanceOrBank (s : State D) (bankSend : Bool)
    (subaccountID : Hash) (denom : String) (amount : D) :
    (s.incrementAvailableBalanceOrBank bankSend subaccountID denom amount).getSpendableFunds
      subaccountID denom = s.getSpendableFunds subaccountID denom + amount := by
  obtain ⟨n, hmove, hn⟩ :=
    incrementAvailableBalanceOrBank_spec s bankSend subaccountID denom amount
  rw [hn]
  simp only [getSpendableFunds, sendAndSet, getDeposit_setDeposit, accounts_setDeposit,
    accounts_moveCoins, Deposit.shift]
  split
  · rw [newDec_add]; abel
  · next hdefault =>
      have hzero : n = 0 := by
        by_contra hne
        exact hdefault (hmove hne).1
      rw [hzero, newDec_zero, neg_zero, add_zero]

theorem updateDepositWithDelta_spec (s : State D) (bankSend isPreventing : Bool)
    (subaccountID : Hash) (denom : String) (delta : DepositDelta D) :
    let deposit : Deposit D :=
      ⟨(s.getDeposit subaccountID denom).availableBalance + delta.availableBalanceDelta,
        (s.getDeposit subaccountID denom).totalBalance + delta.totalBalanceDelta⟩
    ∃ n, CoinsMove subaccountID deposit n ∧
      s.updateDepositWithDelta bankSend isPreventing subaccountID denom delta =
        s.sendAndSet subaccountID denom deposit n := by
  intro deposit
  simp only [updateDepositWithDelta]
  split
  · next h =>
      refine ⟨0, .zero _ _, ?_⟩
      simp only [deposit]
      rw [sendAndSet_zero, h.1, h.2, add_zero, add_zero, setDeposit_getDeposit]
  · exact setDepositOrSendToBank_spec ..

variable {amount : D} {env : ChargeOutcomes} {subaccountID : Hash}

/-- A successful charge of a default subaccount: coins come in from the owner, and the
    rounded-up amount is deposited. -/
theorem chargeBankAndIncrement_ok
    (h : s.chargeBankAndIncrementTotalDeposits env subaccountID denom amount = .ok s') :
    ∃ n, s' = (s.moveCoins (subaccountIDToEthAddress subaccountID) denom
        (-ceilInt amount)).sendAndSet subaccountID denom
      ⟨(s.getDeposit subaccountID denom).availableBalance + (newDec (ceilInt amount) - amount),
        (s.getDeposit subaccountID denom).totalBalance + newDec (ceilInt amount)⟩ n := by
  simp only [chargeBankAndIncrementTotalDeposits] at h
  split at h
  · exact nomatch h
  rename_i s₁ hcharge
  obtain ⟨n, -, hn⟩ := updateDepositWithDelta_spec s₁ env.bankSend false subaccountID denom
    ⟨newDec (ceilInt amount) - amount, newDec (ceilInt amount)⟩
  refine ⟨n, ?_⟩
  rw [← Except.ok.inj h, hn, chargeBank_ok hcharge]
  rfl

/-- A successful charge of another subaccount takes the amount from what is available. -/
theorem chargeAvailableDeposits_ok {restricted : Bool}
    (h : s.chargeAvailableDeposits restricted subaccountID denom amount = .ok s') :
    s' = s.setDeposit subaccountID denom
      ⟨(s.getDeposit subaccountID denom).availableBalance - amount,
        (s.getDeposit subaccountID denom).totalBalance⟩ := by
  simp only [chargeAvailableDeposits] at h
  split at h
  · exact nomatch h
  split at h
  · exact nomatch h
  split at h
  · exact nomatch h
  exact (Except.ok.inj h).symm

section Charge

variable (h : s.chargeAccount env subaccountID denom amount = .ok s')
include h

theorem chargeAccount_cases :
    (amount = 0 ∧ s' = s) ∨
      s.chargeBankAndIncrementTotalDeposits env subaccountID denom amount = .ok s' ∨
      s.chargeAvailableDeposits env.restricted subaccountID denom amount = .ok s' := by
  rw [chargeAccount] at h
  split at h
  · next h0 => exact Or.inl ⟨h0, (Except.ok.inj h).symm⟩
  · split at h
    · exact nomatch h
    split at h
    · exact Or.inr (Or.inl h)
    · exact Or.inr (Or.inr h)

/-- **A CHARGE LOCKS ITS AMOUNT**: what is total but not available grows by it, and the
    owner's coins and total balance together stay the same. -/
theorem chargeAccount_locks :
    let before := s.getDeposit subaccountID denom
    let after := s'.getDeposit subaccountID denom
    let owner := (subaccountIDToEthAddress subaccountID, denom)
    after.totalBalance - after.availableBalance =
        before.totalBalance - before.availableBalance + amount ∧
      newDec (s'.accounts owner) + after.totalBalance =
        newDec (s.accounts owner) + before.totalBalance := by
  intro before after owner
  rcases chargeAccount_cases h with ⟨h0, rfl⟩ | hbank | havail
  · exact ⟨by rw [h0, add_zero], rfl⟩
  · obtain ⟨n, hn⟩ := chargeBankAndIncrement_ok hbank
    have hafter : after = Deposit.shift
        ⟨before.availableBalance + (newDec (ceilInt amount) - amount),
          before.totalBalance + newDec (ceilInt amount)⟩ (-newDec n) := by
      show s'.getDeposit subaccountID denom = _
      rw [hn, sendAndSet, getDeposit_setDeposit]
    have howner : s'.accounts owner = s.accounts owner + -ceilInt amount + n := by
      rw [hn, sendAndSet, accounts_setDeposit, accounts_moveCoins, accounts_moveCoins]
    rw [hafter, howner, newDec_add, newDec_add, newDec_neg]
    simp only [Deposit.shift]
    constructor <;> abel
  · have hs := chargeAvailableDeposits_ok havail
    have hafter : after = ⟨before.availableBalance - amount, before.totalBalance⟩ := by
      show s'.getDeposit subaccountID denom = _
      rw [hs, getDeposit_setDeposit]
    have howner : s'.accounts owner = s.accounts owner := by rw [hs, accounts_setDeposit]
    rw [hafter, howner]
    exact ⟨by simp only; abel, rfl⟩

/-- The spendable funds fall by what is charged. -/
theorem getSpendableFunds_chargeAccount :
    s'.getSpendableFunds subaccountID denom = s.getSpendableFunds subaccountID denom - amount := by
  obtain ⟨hlocked, howner⟩ := chargeAccount_locks h
  simp only [getSpendableFunds]
  by_cases hdefault : isDefaultSubaccountID subaccountID = true
  · have hsplit : ∀ coins available total : D,
        coins + available = coins + total - (total - available) := by
      intro coins available total
      abel
    rw [if_pos hdefault, if_pos hdefault, hsplit _ _ (s'.getDeposit subaccountID denom).totalBalance,
      howner, hlocked]
    abel
  · rw [if_neg hdefault, if_neg hdefault]
    rw [chargeAccount, if_neg hdefault] at h
    split at h
    · next h0 => rw [← Except.ok.inj h, h0, sub_zero]
    split at h
    · exact nomatch h
    rw [chargeAvailableDeposits_ok h, getDeposit_setDeposit]

theorem surplus_chargeAccount (d : String) : s'.surplus d = s.surplus d := by
  rcases chargeAccount_cases h with ⟨-, rfl⟩ | hbank | havail
  · rfl
  · obtain ⟨n, hn⟩ := chargeBankAndIncrement_ok hbank
    rw [hn, surplus_sendAndSet, surplus_moveCoins, getDeposit_moveCoins, newDec_neg]
    split
    · simp only [add_sub_cancel_left, sub_neg_eq_add, add_sub_cancel_right]
    · rw [sub_zero, sub_zero]
  · rw [chargeAvailableDeposits_ok havail, surplus_setDeposit, sub_self, ite_self, sub_zero]

end Charge

theorem surplus_executeDeposit (s : State D) (msg : Message)
    (h : (s.executeDeposit msg).2 = none) (d : String) :
    (s.executeDeposit msg).1.surplus d = s.surplus d := by
  simp only [executeDeposit] at h ⊢
  split at h
  · exact nomatch h
  rename_i hvalid
  split at h
  · exact nomatch h
  rename_i hsend
  rw [if_neg hvalid, if_neg hsend]
  split at h
  · exact nomatch h
  rename_i s'' hinc
  show s''.surplus d = _
  rw [incrementDepositForNonDefaultSubaccount] at hinc
  split at hinc
  · exact nomatch hinc
  rw [← Except.ok.inj hinc, surplus_setDeposit, surplus_moveCoins, newDec_neg]
  split
  · simp only [Deposit.shift]; abel
  · rw [sub_zero, sub_zero]

theorem surplus_executeWithdraw (s : State D) (msg : Message)
    (h : (s.executeWithdraw msg).2 = none) (d : String) :
    (s.executeWithdraw msg).1.surplus d = s.surplus d := by
  simp only [executeWithdraw] at h ⊢
  split at h
  · exact nomatch h
  rename_i hvalid
  rw [if_neg hvalid]
  split at h
  · exact nomatch h
  rename_i s' hdec
  split at h
  · next hsend =>
      simp only [if_pos hsend, surplus_moveCoins]
      rw [decrementDeposit] at hdec
      split at hdec
      · next h0 => rw [← Except.ok.inj hdec, h0, ite_self, sub_zero]
      · simp only at hdec
        split at hdec
        · exact nomatch hdec
        rw [← Except.ok.inj hdec, surplus_setDeposit]
        split
        · simp only [Deposit.shift]; abel
        · rw [sub_zero, sub_zero]
  · exact nomatch h

/-! ## Runs -/

theorem surplus_keep (s : State D) (result : State D × Option DepositError) (d : String)
    (h : result.2 = none → result.1.surplus d = s.surplus d) :
    (s.keep result).surplus d = s.surplus d := by
  rw [keep]
  by_cases hok : result.2 = none
  · rw [if_pos hok, h hok]
  · rw [if_neg hok]

/-- **STEP**: what is kept of a call moves the surplus by its own delta. -/
theorem surplus_keep_exec (s : State D) (c : Call D) (d : String) :
    (s.keep (c.exec s)).surplus d = s.surplus d - c.totalDelta d := by
  cases c with
  | incrementAvailableBalanceOrBank bankSend subaccountID denom amount =>
    obtain ⟨n, -, hn⟩ := incrementAvailableBalanceOrBank_spec s bankSend subaccountID denom amount
    simp only [keep, Call.exec, if_true, Call.totalDelta, hn, surplus_sendAndSet, sub_self,
      ite_self]
  | updateDepositWithDelta bankSend isPreventing subaccountID denom delta =>
    obtain ⟨n, -, hn⟩ :=
      updateDepositWithDelta_spec s bankSend isPreventing subaccountID denom delta
    simp only [keep, Call.exec, if_true, Call.totalDelta, hn, surplus_sendAndSet,
      add_sub_cancel_left]
  | chargeAccount env subaccountID denom amount =>
    simp only [Call.totalDelta, sub_zero]
    refine surplus_keep s _ d ?_
    simp only [Call.exec]
    cases h : s.chargeAccount env subaccountID denom amount with
    | error e => exact nofun
    | ok s' => exact fun _ => surplus_chargeAccount h d
  | executeDeposit msg =>
    simp only [Call.totalDelta, sub_zero]
    exact surplus_keep s _ d fun h => surplus_executeDeposit s msg h d
  | executeWithdraw msg =>
    simp only [Call.totalDelta, sub_zero]
    exact surplus_keep s _ d fun h => surplus_executeWithdraw s msg h d

end State

theorem surplus_run (calls : List (Call D)) (s : State D) (d : String) :
    (run calls s).surplus d = s.surplus d - (calls.map (Call.totalDelta d)).sum := by
  induction calls generalizing s with
  | nil => simp [run]
  | cons c rest ih =>
    have hstep := ih (s.keep (c.exec s))
    rw [State.surplus_keep_exec] at hstep
    rw [List.map_cons, List.sum_cons, ← sub_sub]
    exact hstep

/-- **DEPOSITS STAY BACKED**: over every sequence of calls, with any outcome of the bank
    transfers, what the module holds beyond the total deposits falls by exactly the total
    deltas passed to `UpdateDepositWithDelta`; and every successful charge locks exactly
    its amount without changing what its owner has in bank and deposit together. -/
theorem deposits_stay_backed (calls : List (Call D)) (s : State D) :
    (∀ denom, (run calls s).surplus denom =
      s.surplus denom - (calls.map (Call.totalDelta denom)).sum) ∧
    ∀ (env : State.ChargeOutcomes) (subaccountID : Hash) (denom : String) (amount : D)
      (s' : State D), (run calls s).chargeAccount env subaccountID denom amount = .ok s' →
      let before := (run calls s).getDeposit subaccountID denom
      let after := s'.getDeposit subaccountID denom
      let owner := (subaccountIDToEthAddress subaccountID, denom)
      after.totalBalance - after.availableBalance =
          before.totalBalance - before.availableBalance + amount ∧
        newDec (s'.accounts owner) + after.totalBalance =
          newDec ((run calls s).accounts owner) + before.totalBalance :=
  ⟨surplus_run calls s, fun _ _ _ _ _ h => State.chargeAccount_locks h⟩

/-- Ten coins in the bank account of the zero address, three in the module, which
    subaccount 1 of that address has deposited. -/
def threeDeposited : State ℚ where
  deposits := Function.update (fun _ => ⟨0, 0⟩) (1, "usdt") ⟨3, 3⟩
  accounts := Function.update (fun _ => 0) (0, "usdt") 10
  exchangeModule := Function.update (fun _ => 0) "usdt" 3

/-- A charge of three halves to the default subaccount takes two coins from the bank. -/
theorem deposits_stay_backed_sample :
    ∃ s', threeDeposited.chargeAccount ⟨true, true, false⟩ 0 "usdt" (3 / 2) = .ok s' ∧
      let after := s'.getDeposit 0 "usdt"
      after.totalBalance - after.availableBalance = 3 / 2 ∧
        newDec (s'.accounts (0, "usdt")) + after.totalBalance = (10 : ℚ) := by
  have hcharge : (threeDeposited.chargeAccount ⟨true, true, false⟩ 0 "usdt" (3 / 2)).toBool =
      true := by decide +kernel
  obtain ⟨s', hs⟩ : ∃ s', threeDeposited.chargeAccount ⟨true, true, false⟩ 0 "usdt" (3 / 2) =
      .ok s' := by
    cases h : threeDeposited.chargeAccount ⟨true, true, false⟩ 0 "usdt" (3 / 2) with
    | error e => rw [h] at hcharge; exact nomatch hcharge
    | ok s' => exact ⟨s', rfl⟩
  obtain ⟨hlocked, howned⟩ := (deposits_stay_backed [] threeDeposited).2 _ _ _ _ _ hs
  refine ⟨s', hs, hlocked.trans ?_, howned.trans ?_⟩ <;> decide +kernel

/-- A withdrawal of the three coins that the bank refuses. -/
def refusedWithdrawal : State.Message := ⟨0, 1, "usdt", 3, true, false⟩

/-- Without the rollback the claim is lost: the refused withdrawal returns its error with
    the deposit already lowered and the coins still in the module. -/
theorem refused_withdrawal_lowers_deposit :
    ((Call.executeWithdraw refusedWithdrawal).exec threeDeposited).2 =
        some .bankTransferFailed ∧
      ((Call.executeWithdraw refusedWithdrawal).exec threeDeposited).1.surplus "usdt" =
        threeDeposited.surplus "usdt" + 3 := by
  have hexec : (Call.executeWithdraw refusedWithdrawal).exec threeDeposited =
      (threeDeposited.setDeposit 1 "usdt" ((Deposit.mk 3 3).shift (-3)),
        some .bankTransferFailed) := rfl
  rw [hexec]
  refine ⟨rfl, ?_⟩
  have hheld : (threeDeposited.getDeposit 1 "usdt").totalBalance = 3 := by decide +kernel
  rw [State.surplus_setDeposit, if_pos rfl, hheld, Deposit.shift]
  norm_num

end ExchangeDeposits
