import InjectiveCore.AuctionProofs

/-!
# The auction account covers what it owes

The events of a run say who paid in, who got back how much, what was burned and what the
winner got. `escrow` reads off them what a bidder has in the auction; `Fair` says that a
refund is of exactly that, and that a settlement took exactly that from the winner, burned
it once, and gave the winner no more INJ than the cap.

`Sound` is kept by every step: the account holds at least what vouchers promise and the
highest bid, per denom, and the highest bidder is the only one with coins in the auction.
The one loop is over the basket (`Basket`): a coin's denom has not been touched before its
turn, so what is left of it after its turn is at least what vouchers of earlier rounds
promise. `auction_escrow_backed` is the result about every run.
-/

namespace Auction

open KeyedStore BalanceSheet Transition Vouchers DecArith

/-! ## What the events say -/

/-- What a bidder has paid in and not got back, nor lost to the winning bid. -/
def escrow (bidder : Bech32) : List Event → ℕ
  | [] => 0
  | .paid b x :: events => escrow bidder events + if bidder = b then x else 0
  | .refunded b _ :: events => if bidder = b then 0 else escrow bidder events
  | .settled b _ _ :: events => if bidder = b then 0 else escrow bidder events
  | .burned _ :: events => escrow bidder events
  | .delivered _ _ _ :: events => escrow bidder events

/-- What was burned since the last settlement. -/
def burns : List Event → List ℕ
  | [] => []
  | .burned x :: events => x :: burns events
  | .settled _ _ _ :: _ => []
  | .paid _ _ :: events => burns events
  | .refunded _ _ :: events => burns events
  | .delivered _ _ _ :: events => burns events

/-- The INJ that was delivered since the last settlement, sent or promised. -/
def injDelivered : List Event → ℕ
  | [] => 0
  | .delivered _ coin _ :: events =>
    injDelivered events + inDenom coin.denom coin.amount injectiveCoin
  | .settled _ _ _ :: _ => 0
  | .paid _ _ :: events => injDelivered events
  | .refunded _ _ :: events => injDelivered events
  | .burned _ :: events => injDelivered events

/-- Refunds and settlements are of what the bidder paid in. The winning bid is burned once,
    and the winner gets no more INJ than the cap. -/
def Fair : List Event → Prop
  | [] => True
  | .refunded b x :: events => x = escrow b events ∧ Fair events
  | .settled b x cap :: events =>
    x = escrow b events ∧ burns events = [x] ∧ injDelivered events ≤ cap ∧ Fair events
  | .paid _ _ :: events => Fair events
  | .burned _ :: events => Fair events
  | .delivered _ _ _ :: events => Fair events

variable {D : Type}

/-- What the highest bid is for a bidder. -/
def bidOf (b : Bid) (bidder : Bech32) : ℕ := if b.bidder = some bidder then b.amount else 0

/-- **THE INVARIANT** between requests. -/
structure Sound (s : State D) : Prop where
  /-- Promised coins and the highest bid are in the account. -/
  backed : ∀ d, outstanding s.vouchers d + inDenom injectiveCoin (getHighestBid s).amount d ≤
    balance s.bank auctionModule d
  /-- Vouchers are kept under valid denoms. -/
  denoms : ∀ k q, s.vouchers.lookup k = some q → validateDenom (bytes k.1) = true
  /-- A bid that is stored has a bidder and an amount. -/
  stored : ∀ b, s.highestBid = some b → (∃ bidder, b.bidder = some bidder) ∧ b.amount ≠ 0
  /-- Only the highest bidder has coins in the auction. -/
  escrowed : ∀ bidder, escrow bidder s.events = bidOf (getHighestBid s) bidder
  noBurns : burns s.events = []
  noInj : injDelivered s.events = 0
  fair : Fair s.events

theorem Sound.genesis (bank : Bank) (params : Params D) (round : ℕ) (endingTimeStamp : ℤ) :
    Sound (State.genesis bank params round endingTimeStamp) where
  backed := fun d => by
    show 0 + inDenom injectiveCoin 0 d ≤ _
    rw [inDenom_zero]
    exact Nat.zero_le _
  denoms := fun k q h => by cases h
  stored := fun b h => by cases h
  escrowed := fun bidder => (ite_self 0).symm
  noBurns := rfl
  noInj := rfl
  fair := trivial

/-! ## Coins of the account -/

variable {b b' : Bank} {d : Denom} {q : ℕ}

/-- Coins that another account sends do not lower the balance of the auction. -/
theorem balance_le_of_transfer {src dst : Account} (hsrc : src ≠ auctionModule)
    (h : transfer b src dst d q = some b') (d' : Denom) :
    balance b auctionModule d' ≤ balance b' auctionModule d' := by
  have hbal := balance_transfer h auctionModule d'
  rw [entry_of_ne hsrc.symm] at hbal
  omega

theorem address_ne_auctionModule (a : AccAddress) : Account.address a ≠ auctionModule := by
  intro h
  cases h

variable {a : AccAddress}

theorem balance_deposit (h : transfer b (.address a) auctionModule d q = some b') (d' : Denom) :
    balance b' auctionModule d' = balance b auctionModule d' + inDenom d q d' := by
  have hbal := balance_transfer h auctionModule d'
  rw [entry_of_ne (address_ne_auctionModule a).symm, entry_same_account] at hbal
  exact hbal

theorem balance_payout (h : transfer b auctionModule (.address a) d q = some b') (d' : Denom) :
    balance b' auctionModule d' + inDenom d q d' = balance b auctionModule d' := by
  have hbal := balance_transfer h auctionModule d'
  rw [entry_of_ne (address_ne_auctionModule a).symm, entry_same_account] at hbal
  exact hbal

theorem balance_receive (b : Bank) (src : Account) (c : Coin) (d : Denom) :
    balance b auctionModule d ≤ balance (receive b src c) auctionModule d := by
  rw [receive]
  cases h : transfer b src auctionModule c.denom c.amount with
  | none => exact Nat.le_refl _
  | some b' =>
    rw [Option.getD_some]
    have hbal := balance_transfer h auctionModule d
    by_cases hsrc : src = auctionModule
    · rw [hsrc] at hbal
      omega
    · exact balance_le_of_transfer hsrc h d

theorem balance_collectBasket (env : BlockEnv) (cap : ℕ) (reserved : Store (List UInt8) ℕ)
    (b : Bank) (d : Denom) :
    balance b auctionModule d ≤ balance (collectBasket env cap reserved b) auctionModule d := by
  have hfold : ∀ (cs : List Coin) (b : Bank), balance b auctionModule d ≤
      balance (cs.foldl (fun b c => receive b exchangeModule c) b) auctionModule d := by
    intro cs
    induction cs with
    | nil => exact fun b => Nat.le_refl _
    | cons c cs ih => exact fun b => (balance_receive b exchangeModule c d).trans (ih _)
  have hsweep : balance b auctionModule d ≤
      balance (sweepFeesSubaccountToModule env b) auctionModule d := by
    rw [sweepFeesSubaccountToModule]
    split
    · exact balance_receive b _ _ d
    · exact Nat.le_refl _
  exact hsweep.trans (hfold _ _)

/-! ## Bids -/

section Bids

variable [DecArith D] {env : BidEnv} {msg : MsgBid} {s : State D}

theorem checkBid_ok (h : checkBid env msg s = .ok ()) : msg.bidAmount.amount ≠ 0 ∧
      (isCurrentBidder s msg = true → (getHighestBid s).amount ≤ msg.bidAmount.amount) := by
  rw [checkBid] at h
  split at h
  · cases h
  next hbasic =>
  split at h
  · cases h
  split at h
  · cases h
  split at h
  · cases h
  split at h
  · cases h
  split at h
  · cases h
  next hraise =>
  constructor
  · intro hzero
    rw [MsgBid.validateBasic, hzero] at hbasic
    simp at hbasic
  · intro hcur
    rw [hcur, Bool.true_and, decide_eq_true_eq] at hraise
    exact Nat.le_of_not_lt hraise

variable {s' : State D}

/-- What a bid does: the sender's coins come in, and a highest bidder who is outbid gets
    theirs back. -/
theorem bid_ok (h : bid env msg s = .ok s') :
    ∃ bank, msg.bidAmount.amount ≠ 0 ∧
      transfer s.bank (.address msg.sender.address) auctionModule injectiveCoin
        (amountToDeposit s msg) = some bank ∧
      (((getHighestBid s).bidder = some msg.sender ∨ (getHighestBid s).amount = 0) ∧
          amountToDeposit s msg + bidOf (getHighestBid s) msg.sender = msg.bidAmount.amount ∧
          s' = { s with
            bank := bank
            highestBid := some ⟨some msg.sender, msg.bidAmount.amount⟩
            events := .paid msg.sender (amountToDeposit s msg) :: s.events } ∨
        ∃ bidder bank', (getHighestBid s).bidder = some bidder ∧ msg.sender ≠ bidder ∧
          amountToDeposit s msg = msg.bidAmount.amount ∧
          transfer bank auctionModule (.address bidder.address) injectiveCoin
            (getHighestBid s).amount = some bank' ∧
          s' = { s with
            bank := bank'
            highestBid := some ⟨some msg.sender, msg.bidAmount.amount⟩
            events := .refunded bidder (getHighestBid s).amount ::
              .paid msg.sender (amountToDeposit s msg) :: s.events }) := by
  rw [bid] at h
  obtain ⟨_, hcheck, h⟩ := exists_of_bind_eq_ok h
  obtain ⟨hamount, hraise⟩ := checkBid_ok hcheck
  split at h
  · cases h
  next bank hsend =>
  refine ⟨bank, hamount, sendCoins_some hsend, ?_⟩
  have hcur : isCurrentBidder s msg = true ↔ (getHighestBid s).bidder = some msg.sender := by
    rw [isCurrentBidder, beq_iff_eq]
  split at h
  · next hfirst =>
    left
    rw [Bool.or_eq_true, beq_iff_eq, hcur] at hfirst
    refine ⟨hfirst.symm, ?_, (Except.ok.inj h).symm⟩
    rw [amountToDeposit, bidOf]
    by_cases hc : isCurrentBidder s msg = true
    · rw [if_pos hc, if_pos (hcur.mp hc)]
      exact Nat.sub_add_cancel (hraise hc)
    · rw [if_neg hc, if_neg (fun hh => hc (hcur.mpr hh)), Nat.add_zero]
  · next hfirst =>
    right
    rw [Bool.or_eq_true, not_or] at hfirst
    obtain ⟨⟨bank', refunded⟩, hrefund, h⟩ := exists_of_bind_eq_ok h
    rw [refundLastBidder] at hrefund
    split at hrefund
    · cases hrefund
    next bidder hbidder =>
    split at hrefund
    · cases hrefund
    next bank'' hpay =>
    obtain ⟨rfl, rfl⟩ := Prod.mk.inj (Except.ok.inj hrefund)
    refine ⟨bidder, bank'', hbidder, ?_, ?_, sendCoins_some hpay, (Except.ok.inj h).symm⟩
    · intro hsame
      exact hfirst.2 (hcur.mpr (hsame ▸ hbidder))
    · rw [amountToDeposit, if_neg hfirst.2]

theorem stored_bid {bidder : Bech32} (hq : q ≠ 0) (b : Bid)
    (h : some ⟨some bidder, q⟩ = some b) : (∃ bidder, b.bidder = some bidder) ∧ b.amount ≠ 0 := by
  rw [← Option.some.inj h]
  exact ⟨⟨bidder, rfl⟩, hq⟩

/-- A bid escrows its amount and refunds the one it beats. -/
theorem Sound.bid (hs : Sound s) (h : bid env msg s = .ok s') : Sound s' := by
  obtain ⟨bank, hamount, hdeposit, ⟨hlast, hsum, rfl⟩ |
    ⟨bidder, bank', hbidder, hne, hsum, hrefund, rfl⟩⟩ := bid_ok h
  · -- nobody is refunded: what the sender had in the auction and the deposit are the bid
    have hold : (getHighestBid s).amount = bidOf (getHighestBid s) msg.sender := by
      rw [bidOf]
      split
      · rfl
      · next hother => exact hlast.resolve_left hother
    refine { hs with backed := ?_, stored := stored_bid hamount, escrowed := ?_ }
    · intro d
      have hbacked := hs.backed d
      show outstanding s.vouchers d + inDenom injectiveCoin msg.bidAmount.amount d ≤
        balance bank auctionModule d
      rw [balance_deposit hdeposit, ← hsum, ← hold, inDenom_add]
      omega
    · intro x
      show escrow x s.events + (if x = msg.sender then amountToDeposit s msg else 0) =
        if some msg.sender = some x then msg.bidAmount.amount else 0
      rw [hs.escrowed x]
      by_cases hx : x = msg.sender
      · rw [hx, if_pos rfl, if_pos rfl, ← hsum, Nat.add_comm]
      · rw [if_neg hx, if_neg (fun hh => hx (Option.some.inj hh).symm), bidOf, Nat.add_zero]
        split
        · next hcur =>
          rcases hlast with hlast | hlast
          · exact absurd (Option.some.inj (hcur.symm.trans hlast)) hx
          · exact hlast
        · rfl
  · -- the highest bidder gets exactly the bid back
    have hbid : escrow bidder (.paid msg.sender (amountToDeposit s msg) :: s.events) =
        (getHighestBid s).amount := by
      show escrow bidder s.events + (if bidder = msg.sender then _ else 0) = _
      rw [hs.escrowed bidder, if_neg hne.symm, bidOf, if_pos hbidder, Nat.add_zero]
    refine { hs with
      backed := ?_, stored := stored_bid hamount, escrowed := ?_, fair := ⟨hbid.symm, hs.fair⟩ }
    · intro d
      have hbacked := hs.backed d
      have hpay := balance_payout hrefund d
      rw [balance_deposit hdeposit] at hpay
      show outstanding s.vouchers d + inDenom injectiveCoin msg.bidAmount.amount d ≤
        balance bank' auctionModule d
      rw [← hsum]
      omega
    · intro x
      show (if x = bidder then 0 else
        escrow x s.events + if x = msg.sender then amountToDeposit s msg else 0) =
        if some msg.sender = some x then msg.bidAmount.amount else 0
      by_cases hx : x = bidder
      · rw [if_pos hx, if_neg (fun hh => hne ((Option.some.inj hh).trans hx))]
      · have hnone : escrow x s.events = 0 := by
          rw [hs.escrowed x, bidOf, hbidder, if_neg (fun hh => hx (Option.some.inj hh).symm)]
        rw [if_neg hx, hnone, Nat.zero_add, hsum]
        exact if_congr (by rw [Option.some.injEq, eq_comm]) rfl rfl

end Bids

/-! ## What vouchers reserve -/

theorem lookup_reservedPerDenom (avs : List AddressVoucher) (d : List UInt8) :
    ((reservedPerDenom avs).lookup d).getD 0 =
      (avs.map (fun av => if av.denom = d then av.amount else 0)).sum := by
  have hfold : ∀ (avs : List AddressVoucher) (r : Store (List UInt8) ℕ),
      ((avs.foldl (fun r av => put av.denom (some ((r.lookup av.denom).getD 0 + av.amount)) r)
        r).lookup d).getD 0 =
        (r.lookup d).getD 0 + (avs.map (fun av => if av.denom = d then av.amount else 0)).sum := by
    intro avs
    induction avs with
    | nil => exact fun r => rfl
    | cons av avs ih =>
      intro r
      rw [List.foldl_cons, ih, lookup_put, List.map_cons, List.sum_cons, ← Nat.add_assoc]
      congr 1
      by_cases hd : d = av.denom
      · rw [if_pos hd, if_pos hd.symm, hd]
        rfl
      · rw [if_neg hd, if_neg (Ne.symm hd), Nat.add_zero]
  exact (hfold avs ∅).trans (Nat.zero_add _)

variable {v : VoucherStore} {reserved : Store (List UInt8) ℕ}

/-- **RESERVED**: what the end of a block takes for reserved is what vouchers promise. -/
theorem getVoucherReservedPerDenom_spec
    (hv : ∀ k q, v.lookup k = some q → validateDenom (bytes k.1) = true)
    (h : getVoucherReservedPerDenom v = .ok reserved) (d : Denom) :
    (reserved.lookup (bytes d)).getD 0 = outstanding v d := by
  rw [getVoucherReservedPerDenom] at h
  split at h
  · next avs havs =>
    rw [← Except.ok.inj h, lookup_reservedPerDenom, outstanding, total]
    refine congrArg List.sum (map_eq_of_mapM_eq_ok ?_ havs)
    intro e av hav
    obtain ⟨hdenom, hamount⟩ := decodeVoucher_spec hav
    rw [hdenom, hamount]
    exact if_congr bytes_inj rfl rfl
  · next hshort =>
    obtain ⟨e, he, hfail⟩ := exists_of_mapM_eq_error hshort
    exact absurd hfail (decodeVoucher_ne_keyTooShort (hv e.1 e.2 (mem_entries_iff.mp he)))
  · cases h

theorem subtractReserved_denom (coin : Coin) (reserved : Store (List UInt8) ℕ) :
    (subtractReserved coin reserved).denom = coin.denom := by
  rw [subtractReserved]
  split
  · rfl
  · split
    · rfl
    · rfl

theorem subtractReserved_amount (coin : Coin) (reserved : Store (List UInt8) ℕ) :
    (subtractReserved coin reserved).amount =
      coin.amount - (reserved.lookup (bytes coin.denom)).getD 0 := by
  rw [subtractReserved]
  split
  · next h => rw [h, Option.getD_none, Nat.sub_zero]
  · next r h =>
    rw [h, Option.getD_some]
    split
    · next hr => rw [hr, Nat.sub_zero]
    · rfl

/-- What the winner gets of a coin leaves what is reserved, and is capped for INJ. -/
theorem basketCoin_spec (reserved : Store (List UInt8) ℕ) (cap : ℕ) (coin : Coin) :
    (basketCoin reserved cap coin).denom = coin.denom ∧
      (basketCoin reserved cap coin).amount ≤
        coin.amount - (reserved.lookup (bytes coin.denom)).getD 0 ∧
      (coin.denom = injectiveCoin → (basketCoin reserved cap coin).amount ≤ cap) := by
  rw [← subtractReserved_amount, basketCoin]
  have hdenom := subtractReserved_denom coin reserved
  split
  · next hcap => exact ⟨hdenom, hcap.2.le, fun _ => Nat.le_refl _⟩
  · next hcap =>
    refine ⟨hdenom, Nat.le_refl _, ?_⟩
    intro hinj
    exact Nat.le_of_not_lt (fun hlt => hcap ⟨hdenom.trans hinj, hlt⟩)

/-! ## The basket -/

theorem deliver_cases (env : BlockEnv) (winner : AccAddress) (s : State D) (c : Coin) :
    deliver env winner s c = s ∨
      (∃ dst bank, transfer s.bank auctionModule dst c.denom c.amount = some bank ∧
        deliver env winner s c =
          { s with bank := bank, events := .delivered winner c false :: s.events }) ∨
      ∃ v, addVoucher s.vouchers winner c = .ok v ∧ deliver env winner s c =
        { s with vouchers := v, events := .delivered winner c true :: s.events } := by
  rw [deliver]
  split
  · exact .inl rfl
  split
  · next bank hsend =>
    obtain ⟨dst, -, hsend⟩ := Delivery.send_some hsend
    exact .inr (.inl ⟨dst, bank, hsend, rfl⟩)
  · rw [createVoucherOnFailedSend]
    split
    · next v hv => exact .inr (.inr ⟨v, hv, rfl⟩)
    · exact .inl rfl

/-- The loop over the basket, with the coins still to be delivered: what is to be delivered
    leaves what vouchers promise, and nothing of it has been touched. -/
structure Basket (s₀ : State D) (cap : ℕ) (rest : List Coin) (s : State D) : Prop where
  backed : ∀ d, outstanding s.vouchers d ≤ balance s.bank auctionModule d
  ahead : ∀ c ∈ rest,
    outstanding s.vouchers c.denom + c.amount ≤ balance s.bank auctionModule c.denom
  nodup : (rest.map Coin.denom).Nodup
  capped : ∀ c ∈ rest, c.denom = injectiveCoin → c.amount ≤ cap
  denoms : ∀ k q, s.vouchers.lookup k = some q → validateDenom (bytes k.1) = true
  kept : ∀ k, (s₀.vouchers.lookup k).getD 0 ≤ (s.vouchers.lookup k).getD 0
  promised : ∀ d, outstanding s₀.vouchers d ≤ outstanding s.vouchers d
  escrowed : ∀ bidder, escrow bidder s.events = escrow bidder s₀.events
  burned : burns s.events = burns s₀.events
  inj : injDelivered s.events ≤ cap
  injAhead : injectiveCoin ∈ rest.map Coin.denom → injDelivered s.events = 0
  fair : Fair s.events

variable {s₀ s : State D} {cap : ℕ} {c : Coin} {rest : List Coin}

section Coin

variable (h : Basket s₀ cap (c :: rest) s)
include h

theorem Basket.ne_of_mem {c' : Coin} (hc' : c' ∈ rest) : c'.denom ≠ c.denom := by
  intro heq
  have hnodup := h.nodup
  rw [List.map_cons, List.nodup_cons] at hnodup
  exact hnodup.1 (heq ▸ List.mem_map_of_mem hc')

theorem Basket.tail : Basket s₀ cap rest s :=
  { h with
    ahead := fun c' hc' => h.ahead c' (List.mem_cons_of_mem c hc')
    nodup := (List.nodup_cons.mp h.nodup).2
    capped := fun c' hc' => h.capped c' (List.mem_cons_of_mem c hc')
    injAhead := fun hmem => h.injAhead (List.mem_cons_of_mem _ hmem) }

theorem Basket.head_le (d : Denom) :
    outstanding s.vouchers d + inDenom c.denom c.amount d ≤ balance s.bank auctionModule d := by
  by_cases hd : d = c.denom
  · rw [hd, inDenom_self]
    exact h.ahead c List.mem_cons_self
  · rw [inDenom_of_ne hd]
    exact h.backed d

theorem Basket.injDelivered_cons (winner : AccAddress) (asVoucher : Bool) :
    injDelivered (.delivered winner c asVoucher :: s.events) ≤ cap ∧
      (injectiveCoin ∈ rest.map Coin.denom →
        injDelivered (.delivered winner c asVoucher :: s.events) = 0) := by
  show injDelivered s.events + inDenom c.denom c.amount injectiveCoin ≤ cap ∧
    (_ → injDelivered s.events + inDenom c.denom c.amount injectiveCoin = 0)
  by_cases hinj : c.denom = injectiveCoin
  · have hzero := h.injAhead (hinj ▸ List.mem_cons_self)
    rw [hzero, Nat.zero_add, hinj, inDenom_self]
    refine ⟨h.capped c List.mem_cons_self hinj, ?_⟩
    intro hmem
    obtain ⟨c', hc', hdenom⟩ := List.mem_map.mp hmem
    exact absurd (hdenom.trans hinj.symm) (h.ne_of_mem hc')
  · rw [inDenom_of_ne (Ne.symm hinj), Nat.add_zero]
    exact ⟨h.inj, h.tail.injAhead⟩

/-- **ONE COIN**: its denom loses what the winner gets, or promises it; vouchers of earlier
    rounds stay covered either way. -/
theorem Basket.deliver (env : BlockEnv) (winner : AccAddress) :
    Basket s₀ cap rest (deliver env winner s c) := by
  rcases deliver_cases env winner s c with heq | ⟨dst, bank, hsend, heq⟩ | ⟨v, hv, heq⟩
  · rw [heq]
    exact h.tail
  · rw [heq]
    have hbal : ∀ d, balance s.bank auctionModule d ≤
        balance bank auctionModule d + inDenom c.denom c.amount d := by
      intro d
      have htransfer := balance_transfer hsend auctionModule d
      rw [entry_same_account] at htransfer
      omega
    obtain ⟨hinj, hinjAhead⟩ := h.injDelivered_cons winner false
    refine { h.tail with backed := ?_, ahead := ?_, inj := hinj, injAhead := hinjAhead }
    · intro d
      exact Nat.le_of_add_le_add_right ((h.head_le d).trans (hbal d))
    · intro c' hc'
      have hd := hbal c'.denom
      rw [inDenom_of_ne (h.ne_of_mem hc')] at hd
      exact (h.tail.ahead c' hc').trans hd
  · rw [heq]
    have hout := outstanding_addVoucher hv
    obtain ⟨hinj, hinjAhead⟩ := h.injDelivered_cons winner true
    refine { h.tail with
      backed := ?_, ahead := ?_, denoms := ?_, promised := ?_, inj := hinj, injAhead := hinjAhead,
      kept := fun k => (h.kept k).trans (lookup_addVoucher hv k) }
    · intro d
      exact (hout d).trans_le (h.head_le d)
    · intro c' hc'
      show outstanding v c'.denom + c'.amount ≤ balance s.bank auctionModule c'.denom
      rw [hout, inDenom_of_ne (h.ne_of_mem hc')]
      exact h.tail.ahead c' hc'
    · obtain ⟨hvalid, rfl⟩ := addVoucher_ok hv
      exact forall_lookup_put h.denoms hvalid
    · intro d
      show outstanding s₀.vouchers d ≤ outstanding v d
      rw [hout d]
      exact (h.promised d).trans (Nat.le_add_right _ _)

end Coin

theorem Basket.foldl (h : Basket s₀ cap rest s) (env : BlockEnv) (winner : AccAddress) :
    Basket s₀ cap [] (rest.foldl (Auction.deliver env winner) s) := by
  induction rest generalizing s with
  | nil => exact h
  | cons c rest ih => exact ih (h.deliver env winner)

theorem mem_getAllBalances {a : Account} (h : c ∈ getAllBalances b a) :
    balance b a c.denom = c.amount := by
  obtain ⟨e, he, rfl⟩ := List.mem_map.mp h
  obtain ⟨he, hkey⟩ := List.mem_filter.mp he
  rw [Bool.and_eq_true, beq_iff_eq] at hkey
  rw [balance, ← hkey.1, mem_entries_iff.mp (show (⟨(e.1.1, e.1.2), e.2⟩ :
    Sigma fun _ : Account × Denom => ℕ) ∈ b.entries from he)]
  rfl

theorem nodup_getAllBalances (b : Bank) (a : Account) :
    ((getAllBalances b a).map Coin.denom).Nodup := by
  rw [getAllBalances, List.map_map]
  refine List.Nodup.map_on ?_ (b.nodupKeys.nodup.filter _)
  intro e he e' he' hdenom
  obtain ⟨he, hkey⟩ := List.mem_filter.mp he
  obtain ⟨he', hkey'⟩ := List.mem_filter.mp he'
  rw [Bool.and_eq_true, beq_iff_eq] at hkey hkey'
  have hk : e.1 = e'.1 := Prod.ext (hkey.1.trans hkey'.1.symm) hdenom
  exact b.nodupKeys.eq_of_fst_eq he he' hk

theorem Basket.start (s : State D) (cap : ℕ)
    (hbacked : ∀ d, outstanding s.vouchers d ≤ balance s.bank auctionModule d)
    (hdenoms : ∀ k q, s.vouchers.lookup k = some q → validateDenom (bytes k.1) = true)
    (hreserved : getVoucherReservedPerDenom s.vouchers = .ok reserved)
    (hinj : injDelivered s.events = 0) (hfair : Fair s.events) :
    Basket s cap ((getAllBalances s.bank auctionModule).map (basketCoin reserved cap)) s where
  backed := hbacked
  ahead := by
    intro c' hc'
    obtain ⟨c, hc, rfl⟩ := List.mem_map.mp hc'
    obtain ⟨hdenom, hamount, -⟩ := basketCoin_spec reserved cap c
    have hle := hbacked c.denom
    rw [getVoucherReservedPerDenom_spec hdenoms hreserved] at hamount
    rw [hdenom]
    rw [mem_getAllBalances hc] at hle ⊢
    omega
  nodup := by
    have hdenoms : ((getAllBalances s.bank auctionModule).map (basketCoin reserved cap)).map
        Coin.denom = (getAllBalances s.bank auctionModule).map Coin.denom := by
      rw [List.map_map]
      exact List.map_congr_left (fun c _ => (basketCoin_spec reserved cap c).1)
    rw [hdenoms]
    exact nodup_getAllBalances s.bank auctionModule
  capped := by
    intro c' hc' hdenom
    obtain ⟨c, hc, rfl⟩ := List.mem_map.mp hc'
    obtain ⟨hdenom', -, hcap⟩ := basketCoin_spec reserved cap c
    exact hcap (hdenom'.symm.trans hdenom)
  denoms := hdenoms
  kept := fun k => Nat.le_refl _
  promised := fun d => Nat.le_refl _
  escrowed := fun bidder => rfl
  burned := rfl
  inj := hinj.le.trans (Nat.zero_le _)
  injAhead := fun _ => hinj
  fair := hfair

/-! ## The end of a block -/

/-- Vouchers that are there stay there, and stay covered. -/
structure Keeps (s s' : State D) : Prop where
  kept : ∀ k, (s.vouchers.lookup k).getD 0 ≤ (s'.vouchers.lookup k).getD 0
  covered : ∀ d, outstanding s.vouchers d ≤ balance s'.bank auctionModule d

theorem Sound.covered (hs : Sound s) (d : Denom) :
    outstanding s.vouchers d ≤ balance s.bank auctionModule d :=
  (Nat.le_add_right _ _).trans (hs.backed d)

theorem Sound.keeps_self (hs : Sound s) : Keeps s s := ⟨fun _ => Nat.le_refl _, hs.covered⟩

/-- **THE BURN** takes the bid, as its event says, out of the supply. -/
theorem Sound.burn (hs : Sound s) :
    ∃ bank, burnBidAmountInModule s (getHighestBid s).amount =
        { s with bank := bank, events := .burned (getHighestBid s).amount :: s.events } ∧
      (∀ d, supply bank d + inDenom injectiveCoin (getHighestBid s).amount d =
        supply s.bank d) ∧
      ∀ d, outstanding s.vouchers d ≤ balance bank auctionModule d := by
  have hinj := hs.backed injectiveCoin
  rw [inDenom_self] at hinj
  have hle : (getHighestBid s).amount ≤ balance s.bank auctionModule injectiveCoin :=
    (Nat.le_add_left _ _).trans hinj
  rw [burnBidAmountInModule]
  cases hdebit : debit s.bank auctionModule injectiveCoin (getHighestBid s).amount with
  | none =>
    rw [debit, if_pos hle] at hdebit
    cases hdebit
  | some bank =>
    refine ⟨bank, rfl, supply_debit hdebit, ?_⟩
    intro d
    have hbal := balance_debit hdebit auctionModule d
    rw [entry_same_account] at hbal
    have hbacked := hs.backed d
    omega

variable {s' : State D} {env : BlockEnv}

theorem Sound.settleFinishedAuctionRound (hs : Sound s)
    (h : settleFinishedAuctionRound env s = .ok s') : Sound s' ∧ Keeps s s' := by
  rw [Auction.settleFinishedAuctionRound] at h
  split at h
  · rw [← Except.ok.inj h]
    exact ⟨hs, hs.keeps_self⟩
  next bidder hbidder =>
  split at h
  · rw [← Except.ok.inj h]
    exact ⟨hs, hs.keeps_self⟩
  obtain ⟨bank, hburn, -, hbacked⟩ := hs.burn
  rw [hburn] at h
  obtain ⟨s₂, hsend, h⟩ := exists_of_bind_eq_ok h
  rw [sendBasketToWinner] at hsend
  obtain ⟨reserved, hreserved, hsend⟩ := exists_of_bind_eq_ok hsend
  have hbasket := (Basket.start
    { s with bank := bank, events := .burned (getHighestBid s).amount :: s.events }
    s.params.injBasketMaxCap hbacked hs.denoms hreserved hs.noInj hs.fair).foldl env
    bidder.address
  rw [Except.ok.inj hsend] at hbasket
  have hescrow : ∀ x, escrow x s₂.events = bidOf (getHighestBid s) x :=
    fun x => (hbasket.escrowed x).trans (hs.escrowed x)
  have hwinner : (getHighestBid s).amount = escrow bidder s₂.events := by
    rw [hescrow bidder, bidOf, if_pos hbidder]
  have hburned : burns s₂.events = [(getHighestBid s).amount] := by
    rw [hbasket.burned]
    exact congrArg (_ :: ·) hs.noBurns
  rw [← Except.ok.inj h]
  refine ⟨⟨?_, hbasket.denoms, ?_, ?_, rfl, rfl, hwinner, hburned, hbasket.inj, hbasket.fair⟩,
    hbasket.kept, fun d => (hbasket.promised d).trans (hbasket.backed d)⟩
  · intro d
    show outstanding s₂.vouchers d + inDenom injectiveCoin 0 d ≤ balance s₂.bank auctionModule d
    rw [inDenom_zero]
    exact hbasket.backed d
  · intro b hb
    cases hb
  · intro x
    show (if x = bidder then 0 else escrow x s₂.events) = if none = some x then 0 else 0
    rw [ite_self, hescrow x, bidOf, hbidder]
    split
    · rfl
    · next hx => exact if_neg (fun hh => hx (Option.some.inj hh).symm)

theorem Sound.endBlocker (hs : Sound s) (h : endBlocker env s = .ok s') :
    Sound s' ∧ Keeps s s' := by
  rw [Auction.endBlocker] at h
  split at h
  · rw [← Except.ok.inj h]
    exact ⟨hs, hs.keeps_self⟩
  obtain ⟨s₁, hsettle, h⟩ := exists_of_bind_eq_ok h
  obtain ⟨reserved, -, h⟩ := exists_of_bind_eq_ok h
  obtain ⟨hs₁, hkeeps⟩ := hs.settleFinishedAuctionRound hsettle
  rw [← Except.ok.inj h]
  have hbal := balance_collectBasket env s.params.injBasketMaxCap reserved s₁.bank
  exact ⟨{ hs₁ with backed := fun d => (hs₁.backed d).trans (hbal d) },
    hkeeps.kept, fun d => (hkeeps.covered d).trans (hbal d)⟩

/-! ## Runs -/

variable {bank : Bank}

theorem Sound.withBank (hs : Sound s)
    (h : ∀ d, balance s.bank auctionModule d ≤ balance bank auctionModule d) :
    Sound { s with bank := bank } :=
  { hs with backed := fun d => (hs.backed d).trans (h d) }

theorem Sound.claimVoucher (hs : Sound s) {allowed : Bool} {receiver : AccAddress}
    {denom : Denom}
    (h : Vouchers.claimVoucher "auction" allowed s.bank s.vouchers receiver denom =
      .ok (bank, v)) : Sound { s with bank := bank, vouchers := v } := by
  obtain ⟨hsend, rfl⟩ := claimVoucher_spec h
  refine { hs with backed := ?_, denoms := forall_lookup_delete hs.denoms }
  intro d
  have hbacked := hs.backed d
  have hpay := balance_payout hsend d
  have hput := outstanding_delete denom receiver s.vouchers d
  show outstanding (put (denom, receiver) none s.vouchers) d +
    inDenom injectiveCoin (getHighestBid s).amount d ≤ balance bank auctionModule d
  omega

variable [DecArith D]

theorem Sound.step {op : Op D} (hs : Sound s) (h : step op s = .ok s') : Sound s' := by
  cases op with
  | bid env msg => exact hs.bid h
  | claimVoucher allowed sender denom =>
    rw [Auction.step] at h
    split at h
    · next bank v hclaim =>
      rw [← Except.ok.inj h]
      exact hs.claimVoucher hclaim
    · cases h
  | endBlocker env => exact (hs.endBlocker h).1
  | updateParams params =>
    rw [← Except.ok.inj h]
    exact { hs with }
  | send src dst coin =>
    rw [Auction.step] at h
    split at h
    · cases h
    next hsrc =>
    split at h
    · cases h
    next bank hsend =>
    rw [← Except.ok.inj h]
    exact hs.withBank (balance_le_of_transfer hsrc hsend)
  | mint dst coin =>
    rw [← Except.ok.inj h]
    refine hs.withBank ?_
    intro d
    rw [balance_credit]
    exact Nat.le_add_right _ _

/-- The state after some requests. -/
def State.after (bank : Bank) (params : Params D) (round : ℕ) (endingTimeStamp : ℤ)
    (ops : List (Op D)) : State D :=
  run Auction.step (State.genesis bank params round endingTimeStamp) ops

theorem Sound.after (bank : Bank) (params : Params D) (round : ℕ) (endingTimeStamp : ℤ)
    (ops : List (Op D)) : Sound (State.after bank params round endingTimeStamp ops) :=
  run_invariant (fun _ _ _ hs h => hs.step h) ops (Sound.genesis bank params round endingTimeStamp)

end Auction
