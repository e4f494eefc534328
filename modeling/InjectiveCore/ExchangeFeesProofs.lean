import InjectiveCore.DecArithProofs
import InjectiveCore.DeltaLedgerProofs

/-!
# Fees and deposits — who is charged, who is paid

What every fill of the exchange has in common, spot or derivative:

- the trading fee, discounted by the account's tier and split between the relayer
  (fee recipient) and the auction (`keeper/rewards/trades.go`);
- the deposit deltas a batch accumulates per subaccount (`types/deposit.go`);
- the conversion of human-readable notionals to chain format (`types/market.go`).

The key fact is `rewards_eq_traderFee`: for either sign of the fee, what the relayer
and the auction receive is **exactly** what the trader is charged, in rounded
arithmetic too, because the split is a subtraction.
-/

namespace ExchangeFees

open DecArith DeltaLedger

variable {D : Type} [DecArith D]

/-! ## Accounts -/

/-- A 32-byte hash: subaccount ids, market ids and order hashes. -/
abbrev Hash := BitVec 256

instance instLawfulBEqHash : LawfulBEq Hash := inferInstance

/-- A 20-byte address. -/
abbrev Address := BitVec 160

/-- `EthAddressToSubaccountID`: the address padded on the right to 32 bytes. -/
def ethAddressToSubaccountID (addr : Address) : Hash := addr.setWidth 256 <<< 96

/-- `SubaccountIDToEthAddress`: the first 20 bytes. -/
def subaccountIDToEthAddress (subaccountID : Hash) : Address :=
  (subaccountID >>> 96).setWidth 160

/-- `AuctionSubaccountID`. -/
def auctionSubaccountID : Hash :=
  0x1111111111111111111111111111111111111111111111111111111111111111#256

/-- The subaccount credited with the fee recipient's reward: the auction when the
    order names no fee recipient. -/
def feeRecipientSubaccount (feeRecipient : Address) : Hash :=
  if ethAddressToSubaccountID feeRecipient = 0 then auctionSubaccountID
  else ethAddressToSubaccountID feeRecipient

/-- `MarketType`. -/
inductive MarketType where
  | spot
  | perpetual
  | expiry
  | binaryOption
  deriving DecidableEq, Repr

/-! ## Orders -/

/-- `OrderType`. -/
inductive OrderType where
  | unspecified
  | buy
  | sell
  | stopBuy
  | stopSell
  | takeBuy
  | takeSell
  | buyPO
  | sellPO
  | buyAtomic
  | sellAtomic
  deriving DecidableEq, Repr

/-- `OrderType.IsBuy`. -/
def OrderType.isBuy : OrderType → Bool
  | .buy | .stopBuy | .takeBuy | .buyPO | .buyAtomic => true
  | _ => false

/-- `OrderType.IsPostOnly`. -/
def OrderType.isPostOnly : OrderType → Bool
  | .buyPO | .sellPO => true
  | _ => false

/-- `OrderType.IsConditional`. -/
def OrderType.isConditional : OrderType → Bool
  | .stopBuy | .stopSell | .takeBuy | .takeSell => true
  | _ => false

/-- `OrderType.IsAtomic`. -/
def OrderType.isAtomic : OrderType → Bool
  | .buyAtomic | .sellAtomic => true
  | _ => false

/-- `OrderInfo`. -/
structure OrderInfo (D : Type) where
  subaccountID : Hash
  feeRecipient : Address
  price : D
  quantity : D
  cid : String
  deriving DecidableEq, Repr

/-- `PointsMultiplier`. -/
structure PointsMultiplier (D : Type) where
  makerPointsMultiplier : D
  takerPointsMultiplier : D
  deriving DecidableEq, Repr

/-! ## Chain format -/

/-- `NotionalToChainFormat`, and `QuantityToChainFormat` alike: scale by a power of
    ten. -/
def toChainFormat (humanReadableValue : D) (decimals : ℕ) : D :=
  mul humanReadableValue (newDec (10 ^ decimals))

/-- `NotionalFromChainFormat`. -/
def fromChainFormat (notional : D) (decimals : ℕ) : D :=
  quo notional (newDec (10 ^ decimals))

/-- `GetScaledPrice`. -/
def getScaledPrice (price : D) (scaleFactor : ℕ) : D :=
  mul price (newDec (10 ^ scaleFactor))

theorem toChainFormat_eq_zsmul (x : D) (decimals : ℕ) :
    toChainFormat x decimals = (10 ^ decimals : ℤ) • x := mul_newDec x _

theorem toChainFormat_add (x y : D) (decimals : ℕ) :
    toChainFormat (x + y) decimals = toChainFormat x decimals + toChainFormat y decimals :=
  add_mul_newDec x y _

theorem toChainFormat_sub (x y : D) (decimals : ℕ) :
    toChainFormat (x - y) decimals = toChainFormat x decimals - toChainFormat y decimals := by
  rw [toChainFormat_eq_zsmul, zsmul_sub, ← toChainFormat_eq_zsmul, ← toChainFormat_eq_zsmul]

@[simp] theorem toChainFormat_zero (decimals : ℕ) :
    toChainFormat (0 : D) decimals = 0 := DecArith.zero_mul _

theorem toChainFormat_nonpos {x : D} (h : x ≤ 0) (decimals : ℕ) : toChainFormat x decimals ≤ 0 := by
  have hle := DecArith.mul_le_mul_right x 0 (newDec (10 ^ decimals)) h
    (newDec_nonneg (by positivity))
  rwa [DecArith.zero_mul] at hle

/-! ## Fee discounts -/

/-- The discount rates of the batch: for an account and a maker or taker fee, the
    rate of the account's tier, `none` when it has no tier. -/
structure FeeDiscountConfig (D : Type) where
  getFeeDiscountRate : Address → Bool → Option D

/-- The bounds the exchange puts on every discount rate of a schedule. -/
def FeeDiscountConfig.Valid (config : FeeDiscountConfig D) : Prop :=
  ∀ account isMaker r, config.getFeeDiscountRate account isMaker = some r →
    0 ≤ r ∧ r ≤ one

/-- No fee discount schedule. -/
def FeeDiscountConfig.none : FeeDiscountConfig D := ⟨fun _ _ => Option.none⟩

theorem FeeDiscountConfig.none_valid : (FeeDiscountConfig.none : FeeDiscountConfig D).Valid :=
  fun _ _ _ h => nomatch h

/-- `FetchAndUpdateDiscountedTradingFeeRate`: negative fees are never discounted. -/
def discountedTradingFeeRate (config : FeeDiscountConfig D) (tradingFeeRate : D)
    (isMakerFee : Bool) (account : Address) : D :=
  if tradingFeeRate < 0 then tradingFeeRate
  else match config.getFeeDiscountRate account isMakerFee with
    | Option.none => tradingFeeRate
    | some feeDiscountRate => mul (one - feeDiscountRate) tradingFeeRate

variable {rate : D}

theorem discountedTradingFeeRate_of_neg (config : FeeDiscountConfig D) (h : rate < 0)
    (isMaker : Bool) (account : Address) :
    discountedTradingFeeRate config rate isMaker account = rate := if_pos h

/-- A discount in `[0, 1]` keeps a non-negative rate between zero and itself. -/
theorem discountedTradingFeeRate_bounds (config : FeeDiscountConfig D) (hc : config.Valid)
    (h : 0 ≤ rate) (isMaker : Bool) (account : Address) :
    0 ≤ discountedTradingFeeRate config rate isMaker account ∧
      discountedTradingFeeRate config rate isMaker account ≤ rate := by
  unfold discountedTradingFeeRate
  rw [if_neg (not_lt.mpr h)]
  cases hr : config.getFeeDiscountRate account isMaker with
  | none => exact ⟨h, le_refl rate⟩
  | some r =>
    obtain ⟨h0, h1⟩ := hc account isMaker r hr
    refine ⟨DecArith.mul_nonneg (sub_nonneg.mpr h1) h, ?_⟩
    have hle := DecArith.mul_le_mul_right (one - r) one rate (sub_le_self one h0) h
    rwa [DecArith.mul_comm one rate, DecArith.mul_one] at hle

/-! ## The fee of a fill -/

/-- `TradeFeeData`. -/
structure TradeFeeData (D : Type) where
  totalTradeFee : D
  traderFee : D
  tradingRewardPoints : D
  feeRecipientReward : D
  auctionFeeReward : D
  discountedTradeFeeRate : D
  deriving DecidableEq, Repr

/-- `NewEmptyTradeFeeData`. -/
def newEmptyTradeFeeData (discountedTradeFeeRate : D) : TradeFeeData D :=
  { totalTradeFee := 0, traderFee := 0, tradingRewardPoints := 0,
    feeRecipientReward := 0, auctionFeeReward := 0,
    discountedTradeFeeRate := discountedTradeFeeRate }

/-- The four amounts `GetOrderFillFeeInfo` returns. -/
structure OrderFillFeeInfo (D : Type) where
  totalTradeFee : D
  traderFee : D
  feeRecipientReward : D
  auctionFeeReward : D
  deriving DecidableEq, Repr

/-- `GetOrderFillFeeInfo`: of a negative fee (a rebate) the fee recipient's part is
    withheld from the trader and the auction pays the whole. -/
def getOrderFillFeeInfo (orderFillNotional tradeFeeRate relayerFeeShareRate : D) :
    OrderFillFeeInfo D :=
  let totalTradeFee := mul orderFillNotional tradeFeeRate
  let feeRecipientReward := |mul relayerFeeShareRate totalTradeFee|
  if totalTradeFee < 0 then
    { totalTradeFee := totalTradeFee
      traderFee := totalTradeFee + feeRecipientReward
      feeRecipientReward := feeRecipientReward
      auctionFeeReward := totalTradeFee }
  else
    { totalTradeFee := totalTradeFee
      traderFee := totalTradeFee
      feeRecipientReward := feeRecipientReward
      auctionFeeReward := totalTradeFee - feeRecipientReward }

/-- `GetTradeDataAndIncrementVolumeContribution`, without the volume counter. -/
def getTradeData (config : FeeDiscountConfig D) (subaccountID : Hash)
    (fillQuantity executionPrice tradeFeeRate relayerFeeShareRate
      tradeRewardMultiplier : D) (isMaker : Bool) : TradeFeeData D :=
  let discountedTradeFeeRate := discountedTradingFeeRate config tradeFeeRate isMaker
    (subaccountIDToEthAddress subaccountID)
  if fillQuantity = 0 then newEmptyTradeFeeData discountedTradeFeeRate
  else
    let orderFillNotional := mul fillQuantity executionPrice
    let info :=
      getOrderFillFeeInfo orderFillNotional discountedTradeFeeRate relayerFeeShareRate
    { totalTradeFee := info.totalTradeFee
      traderFee := info.traderFee
      tradingRewardPoints := |mul orderFillNotional tradeRewardMultiplier|
      feeRecipientReward := info.feeRecipientReward
      auctionFeeReward := info.auctionFeeReward
      discountedTradeFeeRate := discountedTradeFeeRate }

theorem getOrderFillFeeInfo_split (notional rate share : D) :
    (getOrderFillFeeInfo notional rate share).feeRecipientReward +
        (getOrderFillFeeInfo notional rate share).auctionFeeReward =
      (getOrderFillFeeInfo notional rate share).traderFee := by
  unfold getOrderFillFeeInfo
  simp only
  split
  · exact add_comm _ _
  · exact add_sub_cancel _ _

section Trade

variable (config : FeeDiscountConfig D) (s : Hash) (fq price rate share mult : D) (isMaker : Bool)

/-- **FEE SPLIT**: relayer and auction receive exactly what the trader is charged. -/
theorem rewards_eq_traderFee :
    (getTradeData config s fq price rate share mult isMaker).feeRecipientReward +
        (getTradeData config s fq price rate share mult isMaker).auctionFeeReward =
      (getTradeData config s fq price rate share mult isMaker).traderFee := by
  unfold getTradeData
  simp only
  split
  · exact add_zero 0
  · exact getOrderFillFeeInfo_split _ _ _

@[simp] theorem getTradeData_rate :
    (getTradeData config s fq price rate share mult isMaker).discountedTradeFeeRate =
      discountedTradingFeeRate config rate isMaker (subaccountIDToEthAddress s) := by
  unfold getTradeData
  simp only
  split <;> rfl

theorem getTradeData_zero :
    getTradeData config s 0 price rate share mult isMaker =
      newEmptyTradeFeeData
        (discountedTradingFeeRate config rate isMaker (subaccountIDToEthAddress s)) :=
  if_pos rfl

end Trade

/-! ## Fees in exact arithmetic -/

section TradeData

variable (config : FeeDiscountConfig ℚ) (s : Hash) (fq ep rate share mult : ℚ) (isMaker : Bool)

theorem getTradeData_exact_of_nonneg (hc : config.Valid) (hfq : 0 ≤ fq) (hep : 0 ≤ ep)
    (hrate : 0 ≤ rate) :
    let d := discountedTradingFeeRate config rate isMaker (subaccountIDToEthAddress s)
    0 ≤ d ∧ d ≤ rate ∧
      (getTradeData config s fq ep rate share mult isMaker).totalTradeFee = fq * ep * d ∧
      (getTradeData config s fq ep rate share mult isMaker).traderFee = fq * ep * d := by
  intro d
  obtain ⟨hd0, hd1⟩ :=
    discountedTradingFeeRate_bounds config hc hrate isMaker (subaccountIDToEthAddress s)
  refine ⟨hd0, hd1, ?_⟩
  rcases hfq.eq_or_lt with h0 | hpos
  · rw [← h0, getTradeData_zero, zero_mul, zero_mul]
    exact ⟨rfl, rfl⟩
  · have hn : ¬fq * ep * d < 0 :=
      not_lt.mpr (mul_nonneg (mul_nonneg hfq hep) hd0)
    simp only [getTradeData, if_neg hpos.ne', getOrderFillFeeInfo, mul_rat]
    rw [if_neg hn]
    exact ⟨rfl, rfl⟩

theorem getTradeData_exact_of_neg (hfq : 0 ≤ fq) (hep : 0 ≤ ep) (hrate : rate < 0)
    (hshare : 0 ≤ share) :
    (getTradeData config s fq ep rate share mult isMaker).totalTradeFee =
        fq * ep * rate ∧
      (getTradeData config s fq ep rate share mult isMaker).traderFee =
        (1 - share) * (fq * ep * rate) := by
  rcases hfq.eq_or_lt with h0 | hpos
  · rw [← h0, getTradeData_zero, zero_mul, zero_mul, mul_zero]
    exact ⟨rfl, rfl⟩
  · have hle : fq * ep * rate ≤ 0 :=
      mul_nonpos_of_nonneg_of_nonpos (mul_nonneg hfq hep) hrate.le
    simp only [getTradeData, if_neg hpos.ne', getOrderFillFeeInfo,
      discountedTradingFeeRate_of_neg config hrate, mul_rat]
    rcases hle.eq_or_lt with he | hlt
    · rw [he, if_neg (lt_irrefl 0)]
      exact ⟨rfl, (mul_zero _).symm⟩
    · rw [if_pos hlt, abs_of_nonpos (mul_nonpos_of_nonneg_of_nonpos hshare hle)]
      exact ⟨rfl, by ring⟩

theorem traderFee_cases (hshare : 0 ≤ share) (hshare1 : share ≤ 1) :
    let feeData := getTradeData config s fq ep rate share mult isMaker
    (feeData.totalTradeFee < 0 ∧ feeData.traderFee ≤ 0) ∨
      (0 ≤ feeData.totalTradeFee ∧ feeData.traderFee = feeData.totalTradeFee) := by
  simp only [getTradeData]
  split
  · exact Or.inr ⟨le_refl 0, rfl⟩
  · simp only [getOrderFillFeeInfo, mul_rat]
    generalize fq * ep * discountedTradingFeeRate config rate isMaker
      (subaccountIDToEthAddress s) = fee
    by_cases hneg : fee < 0
    · rw [if_pos hneg]
      refine Or.inl ⟨hneg, ?_⟩
      show fee + |share * fee| ≤ 0
      rw [abs_of_nonpos (mul_nonpos_of_nonneg_of_nonpos hshare hneg.le)]
      nlinarith
    · rw [if_neg hneg]
      exact Or.inr ⟨not_lt.mp hneg, rfl⟩

end TradeData

/-- `GetMarketBalanceDelta`: a negative payout is not booked here, and the fee of a
    reduce-only fill, taken out of its payout, still leaves the market. -/
def getMarketBalanceDelta (payout collateralizationMargin tradeFee : D)
    (isReduceOnly : Bool) : D :=
  let payout' := if payout < 0 then 0 else payout
  let payout'' := if isReduceOnly then payout' + tradeFee else payout'
  collateralizationMargin - payout''

/-! ## Deposit deltas -/

/-- `DepositDelta`. -/
@[ext] structure DepositDelta (D : Type) where
  availableBalanceDelta : D
  totalBalanceDelta : D
  deriving DecidableEq, Repr

namespace DepositDelta

instance : Zero (DepositDelta D) := ⟨⟨0, 0⟩⟩
instance : Add (DepositDelta D) := ⟨fun x y =>
  ⟨x.availableBalanceDelta + y.availableBalanceDelta,
    x.totalBalanceDelta + y.totalBalanceDelta⟩⟩

@[simp] theorem zero_total : (0 : DepositDelta D).totalBalanceDelta = 0 := rfl
@[simp] theorem zero_available : (0 : DepositDelta D).availableBalanceDelta = 0 := rfl
@[simp] theorem add_total (x y : DepositDelta D) :
    (x + y).totalBalanceDelta = x.totalBalanceDelta + y.totalBalanceDelta := rfl
@[simp] theorem add_available (x y : DepositDelta D) :
    (x + y).availableBalanceDelta = x.availableBalanceDelta + y.availableBalanceDelta :=
  rfl

instance : AddCommMonoid (DepositDelta D) where
  add_assoc x y z := DepositDelta.ext (add_assoc _ _ _) (add_assoc _ _ _)
  zero_add x := DepositDelta.ext (zero_add _) (zero_add _)
  add_zero x := DepositDelta.ext (add_zero _) (add_zero _)
  add_comm x y := DepositDelta.ext (add_comm _ _) (add_comm _ _)
  nsmul := nsmulRec

/-- `NewUniformDepositDelta`. -/
def uniform (delta : D) : DepositDelta D := ⟨delta, delta⟩

omit [DecArith D] in
@[simp] theorem uniform_total (d : D) : (uniform d).totalBalanceDelta = d := rfl
omit [DecArith D] in
@[simp] theorem uniform_available (d : D) : (uniform d).availableBalanceDelta = d := rfl

/-- What a delta adds to the locked part of a deposit, total minus available. -/
def locked (d : DepositDelta D) : D := d.totalBalanceDelta - d.availableBalanceDelta

@[simp] theorem locked_zero : locked (0 : DepositDelta D) = 0 := sub_zero 0
@[simp] theorem locked_uniform (d : D) : locked (uniform d) = 0 := sub_self d

theorem locked_add (x y : DepositDelta D) : locked (x + y) = locked x + locked y := by
  unfold locked; rw [add_total, add_available]; abel

end DepositDelta

/-- `DepositDeltas`: the deposit deltas of a batch by subaccount. -/
abbrev DepositDeltas (D : Type) := Ledger Hash (DepositDelta D)

/-- The sum over all subaccounts of the total-balance deltas. -/
def DepositDeltas.totalBalance (m : DepositDeltas D) : D :=
  (Ledger.total m).totalBalanceDelta

@[simp] theorem totalBalance_empty :
    DepositDeltas.totalBalance (Ledger.empty : DepositDeltas D) = 0 := rfl

@[simp] theorem totalBalance_applyDelta (m : DepositDeltas D) (k : Hash)
    (v : DepositDelta D) :
    DepositDeltas.totalBalance (m.applyDelta k v) =
      DepositDeltas.totalBalance m + v.totalBalanceDelta := by
  unfold DepositDeltas.totalBalance
  rw [Ledger.total_applyDelta, DepositDelta.add_total]

end ExchangeFees
