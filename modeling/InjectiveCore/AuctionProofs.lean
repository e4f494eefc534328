import InjectiveCore.DecArithProofs
import InjectiveCore.VouchersProofs

/-!
# The auction: one account, three purposes

Every week a basket of coins is auctioned for INJ (`modules/auction`). The auction module
account holds the basket, the highest bid, and the coins behind the vouchers of winners
whose basket could not be sent. Nothing but arithmetic keeps the three apart:

- `bid` takes the bidder's coins, or what is missing to them when the highest bidder
  raises, and refunds the bidder who is outbid;
- `endBlocker` burns the highest bid and sends to the winner what is not reserved by
  vouchers, INJ up to a cap; what cannot be sent becomes a voucher;
- `claimVoucher` pays a voucher.

Requests that fail are reverted. The bank may refuse any send. `Event`s record the coins
that moved, newest first: `escrow` is what a bidder has paid in and not got back, and
`Fair` says that refunds and settlements are of exactly that. `Sound` is the invariant:
promised coins and the highest bid are in the account (`Sound.backed`).
-/

namespace Auction

open KeyedStore BalanceSheet Transition Vouchers DecArith

/-! ## State -/

/-- A sender as it is written in a message: bech32 allows lower and upper case letters,
    so an address has two spellings, and bidders are compared by spelling. -/
structure Bech32 where
  address : AccAddress
  upperCase : Bool
  deriving DecidableEq

/-- No bidder is the empty string. -/
structure Bid where
  bidder : Option Bech32
  amount : ℕ
  deriving DecidableEq

structure Params (D : Type) where
  biddersWhitelist : List Bech32
  minNextBidIncrementRate : D
  injBasketMaxCap : ℕ
  auctionPeriod : ℤ

def injectiveCoin : Denom := "inj"

def auctionModule : Account := .moduleAccount "auction"

/-- The subaccount of the auction module that collects ante fees. -/
def auctionFeesSubaccount : Account := .moduleAccount "auction/fees"

def exchangeModule : Account := .moduleAccount "exchange"

/-- What happened to coins of the account. -/
inductive Event where
  /-- A bidder paid in. -/
  | paid (bidder : Bech32) (amount : ℕ)
  | refunded (bidder : Bech32) (amount : ℕ)
  | burned (amount : ℕ)
  /-- The winner got a coin of the basket, or a voucher for it. -/
  | delivered (winner : AccAddress) (coin : Coin) (asVoucher : Bool)
  /-- A round with a winner is over. -/
  | settled (winner : Bech32) (amount : ℕ) (injBasketMaxCap : ℕ)
  deriving DecidableEq

structure State (D : Type) where
  bank : Bank
  vouchers : VoucherStore
  params : Params D
  round : ℕ
  endingTimeStamp : ℤ
  highestBid : Option Bid
  events : List Event

/-- The state before the first bid. -/
def State.genesis {D : Type} (bank : Bank) (params : Params D) (round : ℕ)
    (endingTimeStamp : ℤ) : State D :=
  { bank := bank, vouchers := ∅, params := params, round := round,
    endingTimeStamp := endingTimeStamp, highestBid := none, events := [] }

inductive Error where
  | unauthorized
  | bidRound
  | invalidRequest
  | invalidAddress
  | depositFailed
  | refundFailed
  | insufficientFunds
  | voucher (e : Vouchers.Error)
  deriving DecidableEq, Repr

variable {D : Type} [DecArith D]

/-! ## Bids -/

structure MsgBid where
  sender : Bech32
  bidAmount : Coin
  round : ℕ

/-- The block, and what the bank answers to the sends of a bid. -/
structure BidEnv where
  blockTime : ℤ
  depositAllowed : Bool
  refundAllowed : Bool

def MsgBid.validateBasic (msg : MsgBid) : Bool :=
  msg.bidAmount.denom == injectiveCoin && msg.bidAmount.amount != 0

omit [DecArith D] in
def getHighestBid (s : State D) : Bid := s.highestBid.getD ⟨none, 0⟩

def refundLastBidder (env : BidEnv) (bank : Bank) (lastBid : Bid) :
    Except Error (Bank × Event) :=
  match lastBid.bidder with
  | none => .error .invalidAddress
  | some bidder =>
    match sendCoins env.refundAllowed bank auctionModule (.address bidder.address)
      ⟨injectiveCoin, lastBid.amount⟩ with
    | none => .error .refundFailed
    | some bank' => .ok (bank', .refunded bidder lastBid.amount)

def isCurrentBidder (s : State D) (msg : MsgBid) : Bool :=
  (getHighestBid s).bidder == some msg.sender

/-- The highest bidder pays in what the new bid is higher by. -/
def amountToDeposit (s : State D) (msg : MsgBid) : ℕ :=
  if isCurrentBidder s msg then msg.bidAmount.amount - (getHighestBid s).amount
  else msg.bidAmount.amount

/-- The checks of a bid before coins move. -/
def checkBid (env : BidEnv) (msg : MsgBid) (s : State D) : Except Error Unit :=
  if !msg.validateBasic then .error .invalidRequest
  else if !s.params.biddersWhitelist.isEmpty && !s.params.biddersWhitelist.contains msg.sender
    then .error .unauthorized
  else if s.round == 0 then .error .bidRound
  else if msg.round != s.round then .error .bidRound
  else if s.endingTimeStamp ≤ env.blockTime then .error .bidRound
  else if isCurrentBidder s msg && decide (msg.bidAmount.amount < (getHighestBid s).amount)
    then .error .invalidRequest
  else if newDec (msg.bidAmount.amount : ℤ) <
      mul (newDec ((getHighestBid s).amount : ℤ)) (one + s.params.minNextBidIncrementRate)
    then .error .invalidRequest
  else .ok ()

def bid (env : BidEnv) (msg : MsgBid) (s : State D) : Except Error (State D) := do
  checkBid env msg s
  match sendCoins env.depositAllowed s.bank (.address msg.sender.address) auctionModule
    ⟨injectiveCoin, amountToDeposit s msg⟩ with
  | none => .error .depositFailed
  | some bank =>
    let paid := Event.paid msg.sender (amountToDeposit s msg)
    let highestBid := some ⟨some msg.sender, msg.bidAmount.amount⟩
    -- only a previous bidder other than the sender is refunded
    if (getHighestBid s).amount == 0 || isCurrentBidder s msg then
      .ok { s with bank := bank, highestBid := highestBid, events := paid :: s.events }
    else do
      let (bank, refunded) ← refundLastBidder env bank (getHighestBid s)
      .ok { s with bank := bank, highestBid := highestBid, events := refunded :: paid :: s.events }

/-! ## The end of a block -/

/-- The block, what the bank answers to the sends of the basket, and what the exchange
    sends for the next one when it may send up to an amount of INJ. -/
structure BlockEnv where
  blockTime : ℤ
  delivery : Denom → Delivery
  sweepAllowed : Bool
  withdrawAllAuctionBalances : ℕ → List Coin

/-- `GetVoucherReservedPerDenom`: the vouchers added up per denom. -/
def reservedPerDenom (avs : List AddressVoucher) : Store (List UInt8) ℕ :=
  avs.foldl (fun reserved av =>
    put av.denom (some ((reserved.lookup av.denom).getD 0 + av.amount)) reserved) ∅

/-- An error is logged, and nothing is taken for reserved. A panic is not recovered. -/
def getVoucherReservedPerDenom (v : VoucherStore) : Except Error (Store (List UInt8) ℕ) :=
  match getAllVouchers v with
  | .ok avs => .ok (reservedPerDenom avs)
  | .error .keyTooShort => .ok ∅
  | .error e => .error (.voucher e)

def subtractReserved (coin : Coin) (reserved : Store (List UInt8) ℕ) : Coin :=
  match reserved.lookup (bytes coin.denom) with
  | none => coin
  | some r => if r = 0 then coin else { coin with amount := coin.amount - r }

/-- What the winner gets of a balance. -/
def basketCoin (reserved : Store (List UInt8) ℕ) (maxInjCap : ℕ) (coin : Coin) : Coin :=
  let coin := subtractReserved coin reserved
  if coin.denom = injectiveCoin ∧ maxInjCap < coin.amount then { coin with amount := maxInjCap }
  else coin

/-- An error is logged only. -/
def createVoucherOnFailedSend (s : State D) (winner : AccAddress) (coin : Coin) : State D :=
  match addVoucher s.vouchers winner coin with
  | .ok v => { s with vouchers := v, events := .delivered winner coin true :: s.events }
  | .error _ => s

/-- The body of the loop of `sendBasketToWinner`. -/
def deliver (env : BlockEnv) (winner : AccAddress) (s : State D) (coin : Coin) : State D :=
  if coin.amount = 0 then s
  else
    match (env.delivery coin.denom).send s.bank auctionModule winner coin with
    | some bank => { s with bank := bank, events := .delivered winner coin false :: s.events }
    | none => createVoucherOnFailedSend s winner coin

/-- `GetAllBalances`: the denoms the account has something of. -/
def getAllBalances (b : Bank) (a : Account) : List Coin :=
  (b.entries.filter (fun e => e.1.1 == a && e.2 != 0)).map (fun e => ⟨e.1.2, e.2⟩)

def sendBasketToWinner (env : BlockEnv) (maxInjCap : ℕ) (winner : AccAddress) (s : State D) :
    Except Error (State D) := do
  let reserved ← getVoucherReservedPerDenom s.vouchers
  return ((getAllBalances s.bank auctionModule).map (basketCoin reserved maxInjCap)).foldl
    (deliver env winner) s

/-- A failure to burn is logged only. -/
def burnBidAmountInModule (s : State D) (lastBidAmount : ℕ) : State D :=
  match debit s.bank auctionModule injectiveCoin lastBidAmount with
  | some bank => { s with bank := bank, events := .burned lastBidAmount :: s.events }
  | none => s

def settleFinishedAuctionRound (env : BlockEnv) (s : State D) : Except Error (State D) :=
  match (getHighestBid s).bidder with
  | none => .ok s
  | some lastBidder =>
    if (getHighestBid s).amount = 0 then .ok s
    else do
      let s' ← sendBasketToWinner env s.params.injBasketMaxCap lastBidder.address
        (burnBidAmountInModule s (getHighestBid s).amount)
      return { s' with
        highestBid := none
        events := .settled lastBidder (getHighestBid s).amount s.params.injBasketMaxCap ::
          s'.events }

/-- How much INJ the exchange may still send for the next basket. -/
def computeExchangeWithdrawalInjCap (maxInjCap totalInjInModule reservedInj : ℕ) : ℕ :=
  maxInjCap - (totalInjInModule - reservedInj)

/-- Coins sent to the account, if the sender has them. -/
def receive (b : Bank) (src : Account) (c : Coin) : Bank :=
  (transfer b src auctionModule c.denom c.amount).getD b

def sweepFeesSubaccountToModule (env : BlockEnv) (b : Bank) : Bank :=
  if env.sweepAllowed then
    receive b auctionFeesSubaccount
      ⟨injectiveCoin, balance b auctionFeesSubaccount injectiveCoin⟩
  else b

/-- The next round ends at least half a period from now. -/
def getNextEndingTimeStamp (env : BlockEnv) (s : State D) : ℤ :=
  max (s.endingTimeStamp + s.params.auctionPeriod)
    (env.blockTime + s.params.auctionPeriod.tdiv 2)

/-- The coins for the next basket. -/
def collectBasket (env : BlockEnv) (maxInjCap : ℕ) (reserved : Store (List UInt8) ℕ)
    (b : Bank) : Bank :=
  let b := sweepFeesSubaccountToModule env b
  (env.withdrawAllAuctionBalances (computeExchangeWithdrawalInjCap maxInjCap
    (balance b auctionModule injectiveCoin)
    ((reserved.lookup (bytes injectiveCoin)).getD 0))).foldl
    (fun b c => receive b exchangeModule c) b

def endBlocker (env : BlockEnv) (s : State D) : Except Error (State D) :=
  if env.blockTime < s.endingTimeStamp then .ok s
  else do
    let s' ← settleFinishedAuctionRound env s
    let reserved ← getVoucherReservedPerDenom s'.vouchers
    return { s' with
      round := s'.round + 1
      endingTimeStamp := getNextEndingTimeStamp env s'
      bank := collectBasket env s.params.injBasketMaxCap reserved s'.bank }

/-! ## Runs -/

inductive Op (D : Type) where
  | bid (env : BidEnv) (msg : MsgBid)
  | claimVoucher (allowed : Bool) (sender : AccAddress) (denom : Denom)
  | endBlocker (env : BlockEnv)
  /-- Governance replaces the parameters. -/
  | updateParams (params : Params D)
  /-- Another account sends coins, possibly to the auction. -/
  | send (src dst : Account) (coin : Coin)
  /-- Coins come into being, possibly in the auction account. -/
  | mint (dst : Account) (coin : Coin)

def step : Op D → State D → Except Error (State D)
  | .bid env msg, s => bid env msg s
  | .claimVoucher allowed sender denom, s =>
    match Vouchers.claimVoucher "auction" allowed s.bank s.vouchers sender denom with
    | .ok (bank, vouchers) => .ok { s with bank := bank, vouchers := vouchers }
    | .error e => .error (.voucher e)
  | .endBlocker env, s => endBlocker env s
  | .updateParams params, s => .ok { s with params := params }
  | .send src dst coin, s =>
    -- other modules do not take coins out of the auction account
    if src = auctionModule then .error .unauthorized
    else
      match transfer s.bank src dst coin.denom coin.amount with
      | none => .error .insufficientFunds
      | some bank => .ok { s with bank := bank }
  | .mint dst coin, s => .ok { s with bank := credit s.bank dst coin.denom coin.amount }

end Auction
