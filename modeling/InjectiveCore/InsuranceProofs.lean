import InjectiveCore.DecArithProofs
import InjectiveCore.VouchersProofs

/-!
# Insurance funds

A derivative market is backed by an insurance fund (`modules/insurance`). Underwriters
deposit coins and get share tokens, a share of the fund's balance. To leave, they lock
shares in the module account (`requestInsuranceFundRedemption`); after a notice period the
shares are burned and the coins paid (`processRedemption`). The exchange draws on the fund
(`withdrawFromInsuranceFund`) and pays into it (`moveCoinsIntoInsuranceFund`).

The module account holds the coins of all funds, locked shares, the coins behind vouchers,
and the shares the protocol owns of every fund. A fund whose balance is used up is
**refreshed**: it gets a new share denom, and the old shares are worth nothing.

Settling a redemption is atomic. If it fails the shares stay locked and the schedule is
kept as a failed one; if only the send fails the redeemer gets a voucher.
-/

namespace Insurance

open KeyedStore BalanceSheet Transition Vouchers DecArith

/-! ## Markets and their ids -/

/-- A market id. -/
abbrev Hash := BitVec 256

/-- `oracletypes.OracleType`. -/
inductive OracleType where
  | unspecified | band | priceFeed | coinbase | chainlink | razor | dia | api3 | uma | pyth
  | bandIBC | provider | stork | chainlinkDataStreams | pythPro | sedaFast
  deriving DecidableEq, Repr

def OracleType.toText : OracleType → String
  | unspecified => "Unspecified"
  | band => "Band"
  | priceFeed => "PriceFeed"
  | coinbase => "Coinbase"
  | chainlink => "Chainlink"
  | razor => "Razor"
  | dia => "Dia"
  | api3 => "API3"
  | uma => "Uma"
  | pyth => "Pyth"
  | bandIBC => "BandIBC"
  | provider => "Provider"
  | stork => "Stork"
  | chainlinkDataStreams => "ChainlinkDataStreams"
  | pythPro => "PythPro"
  | sedaFast => "SedaFast"

/-- What the chain runs on: the hash of a string, and the spelling of a peggy denom (any
    other denom is left as it is). -/
structure Platform where
  keccak256Hash : String → Hash
  peggyDenomString : Denom → Denom

/-- What the id of a derivative market is made from. -/
structure MarketSpec where
  ticker : String
  quoteDenom : Denom
  oracleBase : String
  oracleQuote : String
  oracleType : OracleType
  /-- `-1` for a perpetual market, `-2` for binary options. -/
  expiry : ℤ
  deriving DecidableEq

def perpetualExpiryFlag : ℤ := -1

def binaryOptionsExpiryFlag : ℤ := -2

/-- The hashed string of `NewPerpetualMarketID`, `NewBinaryOptionsMarketID` and
    `NewExpiryFuturesMarketID`: nothing stands between its parts. -/
def MarketSpec.idString (p : Platform) (m : MarketSpec) : String :=
  let parts := m.oracleType.toText ++ m.ticker ++ p.peggyDenomString m.quoteDenom ++
    m.oracleBase ++ m.oracleQuote
  if m.expiry = binaryOptionsExpiryFlag then "-BINARY-OPTIONS-MARKET-" ++ parts
  else if m.expiry = perpetualExpiryFlag then "-PERPETUAL-MARKET-" ++ parts
  else "-EXPIRY-FUTURES-MARKET-" ++ parts ++ toString m.expiry

def MarketSpec.marketID (p : Platform) (m : MarketSpec) : Hash := p.keccak256Hash (m.idString p)

/-! ## State -/

structure InsuranceFund where
  depositDenom : Denom
  insurancePoolTokenDenom : Denom
  redemptionNoticePeriodDuration : ℤ
  balance : ℤ
  totalShare : ℤ
  deriving DecidableEq

def InsuranceFund.shareDenom (fund : InsuranceFund) : Denom := fund.insurancePoolTokenDenom

structure RedemptionSchedule where
  id : ℕ
  marketId : Hash
  redeemer : AccAddress
  claimableRedemptionTime : ℤ
  redemptionAmount : Coin
  deriving DecidableEq

/-- `GetRedemptionScheduleKey`. -/
def RedemptionSchedule.key (r : RedemptionSchedule) : ℤ × ℕ := (r.claimableRedemptionTime, r.id)

structure State where
  bank : Bank
  vouchers : VoucherStore
  funds : Store Hash InsuranceFund
  schedules : Store (ℤ × ℕ) RedemptionSchedule
  failedSchedules : Store ℕ RedemptionSchedule
  nextShareDenomId : ℕ
  nextRedemptionScheduleId : ℕ
  nextFailedRedemptionScheduleId : ℕ
  defaultRedemptionNoticePeriodDuration : ℤ

def State.genesis (bank : Bank) (defaultRedemptionNoticePeriodDuration : ℤ) : State :=
  { bank := bank, vouchers := ∅, funds := ∅, schedules := ∅, failedSchedules := ∅,
    nextShareDenomId := 1, nextRedemptionScheduleId := 1, nextFailedRedemptionScheduleId := 1,
    defaultRedemptionNoticePeriodDuration := defaultRedemptionNoticePeriodDuration }

def insuranceModule : Account := .moduleAccount "insurance"

def exchangeModule : Account := .moduleAccount "exchange"

def shareDenomFromId (id : ℕ) : Denom := "share" ++ Nat.repr id

/-- The shares of a new fund. -/
def insuranceFundInitialSupply : ℕ := 10 ^ 18

/-- The shares of a new fund that the protocol keeps in the module account. -/
def insuranceFundProtocolOwnedLiquiditySupply : ℕ := 10 ^ 16

def insuranceFundCreatorSupply : ℕ :=
  insuranceFundInitialSupply - insuranceFundProtocolOwnedLiquiditySupply

inductive Error where
  | insuranceFundNotFound
  | insuranceFundAlreadyExists
  | invalidRequest
  | invalidDepositAmount
  | invalidDepositDenom
  | invalidShareDenom
  | payoutTooLarge
  | invalidCoins
  | sendFailed
  | insufficientFunds
  | overflow
  | voucher (e : Vouchers.Error)
  deriving DecidableEq, Repr

/-! ## The bank -/

/-- `sdk.Coins{coin}` is valid for a positive amount only. -/
def mintCoins (b : Bank) (c : Coin) : Except Error Bank :=
  if c.amount = 0 then .error .invalidCoins
  else .ok (credit b insuranceModule c.denom c.amount)

def burnCoins (b : Bank) (c : Coin) : Except Error Bank :=
  if c.amount = 0 then .error .invalidCoins
  else
    match debit b insuranceModule c.denom c.amount with
    | none => .error .insufficientFunds
    | some b' => .ok b'

def sendCoinsFromAccountToModule (allowed : Bool) (b : Bank) (sender : AccAddress) (c : Coin) :
    Except Error Bank :=
  if c.amount = 0 then .error .invalidCoins
  else
    match sendCoins allowed b (.address sender) insuranceModule c with
    | none => .error .sendFailed
    | some b' => .ok b'

/-- Sends between modules drop a coin of amount zero. -/
def sendCoinsFromModuleToModule (allowed : Bool) (b : Bank) (src dst : Account) (c : Coin) :
    Except Error Bank :=
  match sendCoins allowed b src dst c with
  | none => .error .sendFailed
  | some b' => .ok b'

/-! ## Shares -/

def mintShareTokens (allowed : Bool) (b : Bank) (fund : InsuranceFund) (addr : AccAddress)
    (shares : ℤ) : Except Error (Bank × InsuranceFund) := do
  -- `NewCoin` panics on a negative amount
  let b ← mintCoins b ⟨fund.shareDenom, shares.toNat⟩
  match sendCoins allowed b insuranceModule (.address addr) ⟨fund.shareDenom, shares.toNat⟩ with
  | none => .error .sendFailed
  | some b' => .ok (b', { fund with totalShare := fund.totalShare + shares })

def burnShareTokens (b : Bank) (fund : InsuranceFund) (shares : ℕ) :
    Except Error (Bank × InsuranceFund) := do
  let b ← burnCoins b ⟨fund.shareDenom, shares⟩
  return (b, { fund with totalShare := fund.totalShare - shares })

/-- Integers have at most 256 bits. `SafeMul` returns an error beyond, `Mul` panics. -/
def safeMul (x y : ℤ) : Option ℤ := if (x * y).natAbs < 2 ^ 256 then some (x * y) else none

/-! ## Deposits -/

structure MsgCreateInsuranceFund where
  sender : AccAddress
  market : MarketSpec
  initialDeposit : Coin

/-- The time of the block in seconds, and what the bank answers to the sends of a message. -/
structure MsgEnv where
  blockTimeUnix : ℤ
  depositAllowed : Bool
  sharesAllowed : Bool

/-- `1` trillion with 18 decimals. -/
def maxUnderwritingAmount : ℕ := 10 ^ 30

/-- `ValidateDenom`: a letter, then 2 to 127 letters, digits or some punctuation. -/
def validateDenom (denom : Denom) : Bool :=
  match denom.toList with
  | [] => false
  | c :: rest =>
    c.isAlpha && decide (2 ≤ rest.length ∧ rest.length ≤ 127) &&
      rest.all (fun c => c.isAlphanum || c ∈ ['/', ':', '.', '_', '-'])

def MsgCreateInsuranceFund.validateBasic (msg : MsgCreateInsuranceFund) : Bool :=
  msg.market.ticker != "" && decide ((bytes msg.market.ticker).length ≤ 40) &&
  msg.market.quoteDenom != "" && msg.market.oracleBase != "" && msg.market.oracleQuote != "" &&
  msg.market.oracleType != .unspecified &&
  msg.market.quoteDenom == msg.initialDeposit.denom &&
  !(msg.market.oracleType == .provider && msg.market.expiry != binaryOptionsExpiryFlag &&
    msg.market.expiry != perpetualExpiryFlag) &&
  validateDenom msg.initialDeposit.denom &&
  msg.initialDeposit.amount != 0 && decide (msg.initialDeposit.amount ≤ maxUnderwritingAmount)

/-- The fund of `NewInsuranceFund` with the deposit and the protocol's shares. -/
def newInsuranceFund (s : State) (msg : MsgCreateInsuranceFund) : InsuranceFund :=
  { depositDenom := msg.initialDeposit.denom
    insurancePoolTokenDenom := shareDenomFromId s.nextShareDenomId
    redemptionNoticePeriodDuration :=
      -- a minute for binary options
      if msg.market.expiry = binaryOptionsExpiryFlag then 60 * 10 ^ 9
      else s.defaultRedemptionNoticePeriodDuration
    balance := msg.initialDeposit.amount
    totalShare := insuranceFundProtocolOwnedLiquiditySupply }

def createInsuranceFund (p : Platform) (env : MsgEnv) (msg : MsgCreateInsuranceFund)
    (s : State) : Except Error State :=
  if !msg.validateBasic then .error .invalidRequest
  else if msg.market.expiry ≠ perpetualExpiryFlag ∧ msg.market.expiry ≠ binaryOptionsExpiryFlag ∧
      msg.market.expiry < env.blockTimeUnix then .error .invalidRequest
  else if (s.funds.lookup (msg.market.marketID p)).isSome then .error .insuranceFundAlreadyExists
  else do
    let bank ← sendCoinsFromAccountToModule env.depositAllowed s.bank msg.sender
      msg.initialDeposit
    let bank ← mintCoins bank
      ⟨shareDenomFromId s.nextShareDenomId, insuranceFundProtocolOwnedLiquiditySupply⟩
    let (bank, fund) ← mintShareTokens env.sharesAllowed bank (newInsuranceFund s msg)
      msg.sender insuranceFundCreatorSupply
    return { s with
      bank := bank
      funds := put (msg.market.marketID p) (some fund) s.funds
      nextShareDenomId := s.nextShareDenomId + 1 }

/-- The fund starts over with a new share denom, of which the protocol owns its part. -/
def refreshInsuranceFund (s : State) (fund : InsuranceFund) :
    Except Error (State × InsuranceFund) := do
  let denom := shareDenomFromId s.nextShareDenomId
  let bank ← mintCoins s.bank ⟨denom, insuranceFundProtocolOwnedLiquiditySupply⟩
  return ({ s with bank := bank, nextShareDenomId := s.nextShareDenomId + 1 },
    { fund with
      insurancePoolTokenDenom := denom
      totalShare := insuranceFundProtocolOwnedLiquiditySupply })

def underwriteInsuranceFund (env : MsgEnv) (underwriter : AccAddress) (marketID : Hash)
    (deposit : Coin) (s : State) : Except Error State :=
  match s.funds.lookup marketID with
  | none => .error .insuranceFundNotFound
  | some fund =>
    if deposit.denom ≠ fund.depositDenom then .error .invalidDepositDenom
    else do
      let bank ← sendCoinsFromAccountToModule env.depositAllowed s.bank underwriter deposit
      let s₁ := { s with bank := bank }
      if fund.balance ≤ 0 then do
        let (s₂, fund₂) ← refreshInsuranceFund s₁ fund
        let (bank, fund₃) ← mintShareTokens env.sharesAllowed s₂.bank
          { fund₂ with balance := fund₂.balance + deposit.amount } underwriter
          insuranceFundCreatorSupply
        return { s₂ with bank := bank, funds := put marketID (some fund₃) s₂.funds }
      else
        match safeMul fund.totalShare deposit.amount with
        | none => .error .overflow
        | some product => do
          let (bank, fund₃) ← mintShareTokens env.sharesAllowed s₁.bank
            { fund with balance := fund.balance + deposit.amount } underwriter
            (product.tdiv fund.balance)
          return { s₁ with bank := bank, funds := put marketID (some fund₃) s₁.funds }

/-! ## The exchange -/

def withdrawFromInsuranceFund (allowed : Bool) (marketID : Hash) (amount : ℕ) (s : State) :
    Except Error State :=
  match s.funds.lookup marketID with
  | none => .error .insuranceFundNotFound
  | some fund =>
    if fund.balance < amount then .error .payoutTooLarge
    else do
      let bank ← sendCoinsFromModuleToModule allowed s.bank insuranceModule exchangeModule
        ⟨fund.depositDenom, amount⟩
      return { s with
        bank := bank
        funds := put marketID (some { fund with balance := fund.balance - amount }) s.funds }

def depositIntoInsuranceFund (marketID : Hash) (amount : ℕ) (s : State) : Except Error State :=
  match s.funds.lookup marketID with
  | none => .error .insuranceFundNotFound
  | some fund =>
    .ok { s with
      funds := put marketID (some { fund with balance := fund.balance + amount }) s.funds }

/-- It sends the quote denom of the market. -/
def moveCoinsIntoInsuranceFund (p : Platform) (allowed : Bool) (market : MarketSpec)
    (insuranceFundPaymentAmount : ℕ) (s : State) : Except Error State :=
  if (s.funds.lookup (market.marketID p)).isNone then .error .insuranceFundNotFound
  else do
    let bank ← sendCoinsFromModuleToModule allowed s.bank exchangeModule insuranceModule
      ⟨market.quoteDenom, insuranceFundPaymentAmount⟩
    depositIntoInsuranceFund (market.marketID p) insuranceFundPaymentAmount
      { s with bank := bank }

/-! ## Redemptions -/

variable {D : Type} [DecArith D]

/-- The block, the exchange's markets, and how the payout of a schedule ends. -/
structure BlockEnv (D : Type) where
  blockTime : ℤ
  marketBalance : Hash → D
  isMarketDemolishedOrExpired : Hash → Bool
  payout : ℕ → Delivery

/-- A negative market balance is taken off the fund's balance. -/
def redeemableBalance (marketBalance : D) (fund : InsuranceFund) : D :=
  if marketBalance < 0 then newDec fund.balance + marketBalance else newDec fund.balance

def getRedemptionAmountFromShare (marketBalance : D) (fund : InsuranceFund)
    (shareAmount : ℕ) : ℤ :=
  if redeemableBalance marketBalance fund < 0 then 0
  else if fund.totalShare = 0 then 0
  else
    match safeMul shareAmount (truncateInt (redeemableBalance marketBalance fund)) with
    | none => 0
    | some product => product.tdiv fund.totalShare

/-- A payout that cannot be sent is promised. -/
def payRedemption (payout : Delivery) (b : Bank) (v : VoucherStore) (redeemer : AccAddress)
    (denom : Denom) (redeemAmount : ℤ) : Except Error (Bank × VoucherStore) :=
  if redeemAmount ≤ 0 then .ok (b, v)
  else
    match payout.send b insuranceModule redeemer ⟨denom, redeemAmount.toNat⟩ with
    | some b' => .ok (b', v)
    | none =>
      match addVoucher v redeemer ⟨denom, redeemAmount.toNat⟩ with
      | .ok v' => .ok (b, v')
      | .error e => .error (.voucher e)

def settleRedemption (env : BlockEnv D) (fund : InsuranceFund) (schedule : RedemptionSchedule)
    (s : State) : Except Error State :=
  if fund.shareDenom ≠ schedule.redemptionAmount.denom then do
    -- shares of a denom that was refreshed away
    let bank ← burnCoins s.bank schedule.redemptionAmount
    return { s with bank := bank }
  else do
    let shareAmount := schedule.redemptionAmount.amount
    let redeemAmount := getRedemptionAmountFromShare (env.marketBalance schedule.marketId) fund
      shareAmount
    let (bank, vouchers) ← payRedemption (env.payout schedule.id) s.bank s.vouchers
      schedule.redeemer fund.depositDenom redeemAmount
    let (bank, fund) ← burnShareTokens bank fund shareAmount
    return { s with
      bank := bank
      vouchers := vouchers
      funds := put schedule.marketId
        (some { fund with balance := fund.balance - redeemAmount }) s.funds }

def setRedemptionSchedule (schedule : RedemptionSchedule) (s : State) : State :=
  { s with schedules := put schedule.key (some schedule) s.schedules }

def deleteRedemptionSchedule (schedule : RedemptionSchedule) (s : State) : State :=
  { s with schedules := put schedule.key none s.schedules }

/-- A settlement that fails is reverted, and the schedule is kept as a failed one. -/
def processRedemption (env : BlockEnv D) (schedule : RedemptionSchedule) (s : State) :
    Except Error State :=
  match s.funds.lookup schedule.marketId with
  | none => .error .insuranceFundNotFound
  | some fund =>
    match settleRedemption env fund schedule (deleteRedemptionSchedule schedule s) with
    | .ok s' => .ok s'
    | .error _ =>
      .ok { deleteRedemptionSchedule schedule s with
        failedSchedules :=
          put s.nextFailedRedemptionScheduleId (some schedule) s.failedSchedules
        nextFailedRedemptionScheduleId := s.nextFailedRedemptionScheduleId + 1 }

/-- The schedules in the order of their keys. -/
def redemptionSchedules (s : State) : List RedemptionSchedule :=
  (s.schedules.entries.map (fun e => e.2)).insertionSort
    (fun a b => a.claimableRedemptionTime < b.claimableRedemptionTime ∨
      a.claimableRedemptionTime = b.claimableRedemptionTime ∧ a.id ≤ b.id)

/-- 24 hours. -/
def redemptionBatchingWindow : ℤ := 24 * 3600 * 10 ^ 9

/-- The first pending schedule of the sender and the market that can be claimed within the
    window of a time. -/
def findRecentRedemptionSchedule (s : State) (sender : AccAddress) (marketID : Hash)
    (newClaimTime : ℤ) : Option RedemptionSchedule :=
  (redemptionSchedules s).find? (fun r => r.redeemer == sender && r.marketId == marketID &&
    decide (|newClaimTime - r.claimableRedemptionTime| ≤ redemptionBatchingWindow))

/-- The schedule of a request. It is merged with one of the window in the same denom. -/
def scheduleRedemption (s : State) (sender : AccAddress) (marketID : Hash) (shares : Coin)
    (claimTime : ℤ) : RedemptionSchedule × State :=
  match (findRecentRedemptionSchedule s sender marketID claimTime).filter
    (fun existing => existing.redemptionAmount.denom == shares.denom) with
  | some existing =>
    let schedule : RedemptionSchedule :=
      { id := existing.id, marketId := marketID, redeemer := sender,
        claimableRedemptionTime := claimTime
        redemptionAmount := ⟨shares.denom, existing.redemptionAmount.amount + shares.amount⟩ }
    (schedule, setRedemptionSchedule schedule (deleteRedemptionSchedule existing s))
  | none =>
    let schedule : RedemptionSchedule :=
      { id := s.nextRedemptionScheduleId, marketId := marketID, redeemer := sender,
        claimableRedemptionTime := claimTime, redemptionAmount := shares }
    (schedule, setRedemptionSchedule schedule
      { s with nextRedemptionScheduleId := s.nextRedemptionScheduleId + 1 })

def requestInsuranceFundRedemption (allowed : Bool) (env : BlockEnv D) (sender : AccAddress)
    (marketID : Hash) (shares : Coin) (s : State) : Except Error State :=
  match s.funds.lookup marketID with
  | none => .error .insuranceFundNotFound
  | some fund =>
    if shares.denom ≠ fund.shareDenom then .error .invalidShareDenom
    else do
      let bank ← sendCoinsFromAccountToModule allowed s.bank sender shares
      let (schedule, s') := scheduleRedemption { s with bank := bank } sender marketID shares
        (env.blockTime + fund.redemptionNoticePeriodDuration)
      if env.isMarketDemolishedOrExpired marketID then processRedemption env schedule s'
      else .ok s'

def isMatured (env : BlockEnv D) (schedule : RedemptionSchedule) : Bool :=
  env.isMarketDemolishedOrExpired schedule.marketId ||
    decide (schedule.claimableRedemptionTime < env.blockTime)

/-- An error is logged only. -/
def withdrawAllMaturedRedemptions (env : BlockEnv D) (s : State) : State :=
  run (processRedemption env) s ((redemptionSchedules s).filter (isMatured env))

/-! ## Runs -/

inductive Op (D : Type) where
  | createInsuranceFund (env : MsgEnv) (msg : MsgCreateInsuranceFund)
  | underwriteInsuranceFund (env : MsgEnv) (underwriter : AccAddress) (marketID : Hash)
      (deposit : Coin)
  | requestInsuranceFundRedemption (allowed : Bool) (env : BlockEnv D) (sender : AccAddress)
      (marketID : Hash) (shares : Coin)
  | withdrawAllMaturedRedemptions (env : BlockEnv D)
  | withdrawFromInsuranceFund (allowed : Bool) (marketID : Hash) (amount : ℕ)
  | moveCoinsIntoInsuranceFund (allowed : Bool) (market : MarketSpec) (amount : ℕ)
  | claimVoucher (allowed : Bool) (sender : AccAddress) (denom : Denom)
  /-- Coins change hands elsewhere. -/
  | send (src dst : Account) (coin : Coin)

def step (p : Platform) : Op D → State → Except Error State
  | .createInsuranceFund env msg, s => createInsuranceFund p env msg s
  | .underwriteInsuranceFund env underwriter marketID deposit, s =>
    underwriteInsuranceFund env underwriter marketID deposit s
  | .requestInsuranceFundRedemption allowed env sender marketID shares, s =>
    requestInsuranceFundRedemption allowed env sender marketID shares s
  | .withdrawAllMaturedRedemptions env, s => .ok (withdrawAllMaturedRedemptions env s)
  | .withdrawFromInsuranceFund allowed marketID amount, s =>
    withdrawFromInsuranceFund allowed marketID amount s
  | .moveCoinsIntoInsuranceFund allowed market amount, s =>
    moveCoinsIntoInsuranceFund p allowed market amount s
  | .claimVoucher allowed sender denom, s =>
    match Vouchers.claimVoucher "insurance" allowed s.bank s.vouchers sender denom with
    | .ok (bank, vouchers) => .ok { s with bank := bank, vouchers := vouchers }
    | .error e => .error (.voucher e)
  | .send src dst coin, s =>
    if src = insuranceModule ∨ dst = insuranceModule then .error .invalidRequest
    else
      match transfer s.bank src dst coin.denom coin.amount with
      | none => .error .insufficientFunds
      | some bank => .ok { s with bank := bank }

end Insurance
