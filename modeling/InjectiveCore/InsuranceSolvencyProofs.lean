import InjectiveCore.InsuranceProofs

/-!
# What the insurance account holds, and for whom

The account holds coins for funds, vouchers, locked shares and the protocol. The **slack**
of a denom is what is left of the balance when all of these are taken off. `Sound` says
how shares and schedules fit together: the total share of a fund is the supply of its
share denom, share denoms are never reused, a schedule belongs to one key.

Every function of the model has one lemma that says what its success does to the bank
(`Moves`, the change of the account's balance and of the supply per denom) and to the
state. Deposits and withdrawals leave the slack of every denom (`Keeps`). A payment of the
exchange does not when it comes in another denom than the fund's
(`slack_moveCoinsIntoInsuranceFund`): it is credited in the fund's.
-/

namespace Insurance

open KeyedStore BalanceSheet Transition Vouchers DecArith

/-! ## Amounts per denom -/

/-- What an amount of one denom is in another: nothing. -/
def amountIn (d₀ : Denom) (x : ℤ) (d : Denom) : ℤ := if d = d₀ then x else 0

@[simp] theorem amountIn_self (d : Denom) (x : ℤ) : amountIn d x d = x := if_pos rfl

variable {d d₀ : Denom}

theorem amountIn_of_ne (h : d ≠ d₀) (x : ℤ) : amountIn d₀ x d = 0 := if_neg h

@[simp] theorem amountIn_zero (d₀ d : Denom) : amountIn d₀ 0 d = 0 := ite_self 0

theorem amountIn_add (d₀ : Denom) (x y : ℤ) (d : Denom) :
    amountIn d₀ (x + y) d = amountIn d₀ x d + amountIn d₀ y d := by
  by_cases h : d = d₀
  · rw [h, amountIn_self, amountIn_self, amountIn_self]
  · rw [amountIn_of_ne h, amountIn_of_ne h, amountIn_of_ne h, add_zero]

theorem amountIn_sub (d₀ : Denom) (x y : ℤ) (d : Denom) :
    amountIn d₀ (x - y) d = amountIn d₀ x d - amountIn d₀ y d := by
  by_cases h : d = d₀
  · rw [h, amountIn_self, amountIn_self, amountIn_self]
  · rw [amountIn_of_ne h, amountIn_of_ne h, amountIn_of_ne h, sub_zero]

theorem cast_inDenom (d₀ : Denom) (q : ℕ) (d : Denom) :
    ((inDenom d₀ q d : ℕ) : ℤ) = amountIn d₀ q d := by
  by_cases h : d = d₀
  · rw [h, inDenom_self, amountIn_self]
  · rw [inDenom_of_ne h, amountIn_of_ne h, Nat.cast_zero]

variable {i : ℕ}

theorem shareDenomFromId_inj {j : ℕ} : shareDenomFromId i = shareDenomFromId j ↔ i = j := by
  rw [shareDenomFromId, shareDenomFromId, String.append_right_inj]
  exact Nat.repr_inj

/-! ## What the bank does -/

/-- The change of the account's balance and of the supply, per denom. -/
structure Moves (b b' : Bank) (held minted : Denom → ℤ) : Prop where
  held : ∀ d, (balance b' insuranceModule d : ℤ) = balance b insuranceModule d + held d
  supply : ∀ d, (supply b' d : ℤ) = supply b d + minted d

variable {b b' b'' : Bank} {c : Coin}

theorem Moves.trans {held minted held' minted' : Denom → ℤ} (h : Moves b b' held minted)
    (h' : Moves b' b'' held' minted') :
    Moves b b'' (fun d => held d + held' d) (fun d => minted d + minted' d) := by
  constructor
  · intro d
    rw [h'.held, h.held, add_assoc]
  · intro d
    rw [h'.supply, h.supply, add_assoc]

theorem mintCoins_moves (h : mintCoins b c = .ok b') :
    c.amount ≠ 0 ∧ Moves b b' (amountIn c.denom c.amount) (amountIn c.denom c.amount) := by
  rw [mintCoins] at h
  split at h
  · cases h
  next hc =>
  rw [← Except.ok.inj h]
  refine ⟨hc, ?_, ?_⟩
  · intro d
    rw [balance_credit, entry_same_account, Nat.cast_add, cast_inDenom]
  · intro d
    rw [supply_credit, Nat.cast_add, cast_inDenom]

theorem burnCoins_moves (h : burnCoins b c = .ok b') :
    c.amount ≤ balance b insuranceModule c.denom ∧
      Moves b b' (fun d => -amountIn c.denom c.amount d)
        (fun d => -amountIn c.denom c.amount d) := by
  rw [burnCoins] at h
  split at h
  · cases h
  split at h
  · cases h
  next b₁ hdebit =>
  obtain rfl : b₁ = b' := Except.ok.inj h
  refine ⟨(debit_some hdebit).1, ?_, ?_⟩
  · intro d
    have hbal := balance_debit hdebit insuranceModule d
    rw [entry_same_account] at hbal
    rw [← hbal, Nat.cast_add, cast_inDenom]
    ring
  · intro d
    rw [← supply_debit hdebit d, Nat.cast_add, cast_inDenom]
    ring

variable {src : Account} {q : ℕ}

theorem transfer_moves_in (hsrc : src ≠ insuranceModule)
    (h : transfer b src insuranceModule d₀ q = some b') :
    Moves b b' (amountIn d₀ q) (fun _ => 0) := by
  constructor
  · intro d
    have hbal := balance_transfer h insuranceModule d
    rw [entry_of_ne hsrc.symm, entry_same_account, Nat.add_zero] at hbal
    rw [hbal, Nat.cast_add, cast_inDenom]
  · intro d
    rw [supply_transfer h, add_zero]

variable {dst : Account}

theorem transfer_moves_out (hdst : dst ≠ insuranceModule)
    (h : transfer b insuranceModule dst d₀ q = some b') :
    Moves b b' (fun d => -amountIn d₀ q d) (fun _ => 0) := by
  constructor
  · intro d
    have hbal := balance_transfer h insuranceModule d
    rw [entry_of_ne hdst.symm, entry_same_account, Nat.add_zero] at hbal
    rw [← hbal, Nat.cast_add, cast_inDenom]
    ring
  · intro d
    rw [supply_transfer h, add_zero]

theorem address_ne_insuranceModule (a : AccAddress) : Account.address a ≠ insuranceModule := by
  intro h
  cases h

theorem exchangeModule_ne_insuranceModule : exchangeModule ≠ insuranceModule := by
  decide

variable {allowed : Bool}

theorem sendCoinsFromAccountToModule_ok {sender : AccAddress}
    (h : sendCoinsFromAccountToModule allowed b sender c = .ok b') :
    c.amount ≠ 0 ∧ transfer b (.address sender) insuranceModule c.denom c.amount = some b' := by
  rw [sendCoinsFromAccountToModule] at h
  split at h
  · cases h
  next hc =>
  split at h
  · cases h
  next b₁ hsend =>
  obtain rfl : b₁ = b' := Except.ok.inj h
  exact ⟨hc, sendCoins_some hsend⟩

theorem sendCoinsFromModuleToModule_ok
    (h : sendCoinsFromModuleToModule allowed b src dst c = .ok b') :
    transfer b src dst c.denom c.amount = some b' := by
  rw [sendCoinsFromModuleToModule] at h
  split at h
  · cases h
  next b₁ hsend =>
  obtain rfl : b₁ = b' := Except.ok.inj h
  exact sendCoins_some hsend

variable {fund fund' : InsuranceFund}

theorem mintShareTokens_ok {addr : AccAddress} {shares : ℤ}
    (h : mintShareTokens allowed b fund addr shares = .ok (b', fund')) :
    0 < shares ∧ fund' = { fund with totalShare := fund.totalShare + shares } ∧
      Moves b b' (fun _ => 0) (amountIn fund.shareDenom shares) ∧
      ∃ b₁, mintCoins b ⟨fund.shareDenom, shares.toNat⟩ = .ok b₁ ∧
        transfer b₁ insuranceModule (.address addr) fund.shareDenom shares.toNat = some b' := by
  obtain ⟨b₁, hmint, h⟩ := exists_of_bind_eq_ok h
  split at h
  · cases h
  next b₂ hsend =>
  obtain ⟨rfl, rfl⟩ := Prod.mk.inj (Except.ok.inj h)
  obtain ⟨hne, hmoves⟩ := mintCoins_moves hmint
  have hpos : 0 < shares := by
    have : shares.toNat ≠ 0 := hne
    omega
  have hcast : ((shares.toNat : ℕ) : ℤ) = shares := Int.toNat_of_nonneg hpos.le
  have htransfer := sendCoins_some hsend
  have htotal := hmoves.trans (transfer_moves_out (address_ne_insuranceModule addr) htransfer)
  refine ⟨hpos, rfl, ⟨?_, ?_⟩, b₁, hmint, htransfer⟩
  · intro d
    rw [htotal.held, add_neg_cancel]
  · intro d
    rw [htotal.supply, add_zero, hcast]

theorem burnShareTokens_ok {shares : ℕ} (h : burnShareTokens b fund shares = .ok (b', fund')) :
    fund' = { fund with totalShare := fund.totalShare - shares } ∧
      burnCoins b ⟨fund.shareDenom, shares⟩ = .ok b' := by
  obtain ⟨b₁, hburn, h⟩ := exists_of_bind_eq_ok h
  obtain ⟨rfl, rfl⟩ := Prod.mk.inj (Except.ok.inj h)
  exact ⟨rfl, hburn⟩

/-! ## What the account holds coins for -/

/-- The balances of the funds. -/
def funded (funds : Store Hash InsuranceFund) (d : Denom) : ℤ :=
  total (fun _ f => amountIn f.depositDenom f.balance d) funds

/-- The shares of schedules. -/
def locked {K : Type} (schedules : Store K RedemptionSchedule) (d : Denom) : ℤ :=
  total (fun _ r => amountIn r.redemptionAmount.denom r.redemptionAmount.amount d) schedules

/-- The shares the protocol owns of every share denom there was. -/
def protocolOwned (nextShareDenomId : ℕ) (d : Denom) : ℤ :=
  ∑ i ∈ Finset.Ico 1 nextShareDenomId,
    amountIn (shareDenomFromId i) insuranceFundProtocolOwnedLiquiditySupply d

/-- What is left of the balance. -/
def slack (s : State) (d : Denom) : ℤ :=
  balance s.bank insuranceModule d - funded s.funds d - outstanding s.vouchers d -
    locked s.schedules d - locked s.failedSchedules d - protocolOwned s.nextShareDenomId d

variable {funds : Store Hash InsuranceFund} {m : Hash}

theorem funded_put {f : InsuranceFund} (h : funds.lookup m = some f) (f' : InsuranceFund)
    (d : Denom) :
    funded (put m (some f') funds) d =
      funded funds d + (amountIn f'.depositDenom f'.balance d -
        amountIn f.depositDenom f.balance d) := by
  rw [funded, total_put_sub, h]
  rfl

theorem funded_put_new (h : funds.lookup m = none) (f' : InsuranceFund) (d : Denom) :
    funded (put m (some f') funds) d = funded funds d + amountIn f'.depositDenom f'.balance d := by
  rw [funded, total_put_sub, h, weight_none, sub_zero]
  rfl

section Locked

variable {K : Type} [DecidableEq K] {schedules : Store K RedemptionSchedule} {k : K}

theorem locked_put_new (h : schedules.lookup k = none) (r : RedemptionSchedule) (d : Denom) :
    locked (put k (some r) schedules) d =
      locked schedules d + amountIn r.redemptionAmount.denom r.redemptionAmount.amount d := by
  rw [locked, total_put_sub, h, weight_none, sub_zero]
  rfl

theorem locked_delete {r : RedemptionSchedule} (h : schedules.lookup k = some r) (d : Denom) :
    locked (put k none schedules) d =
      locked schedules d - amountIn r.redemptionAmount.denom r.redemptionAmount.amount d := by
  rw [locked, total_put_sub, h, weight_none, zero_sub]
  rfl

end Locked

variable {n : ℕ}

theorem protocolOwned_succ (h : 1 ≤ n) (d : Denom) :
    protocolOwned (n + 1) d = protocolOwned n d +
      amountIn (shareDenomFromId n) insuranceFundProtocolOwnedLiquiditySupply d :=
  Finset.sum_Ico_succ_top h _

/-! ## How shares and schedules fit together -/

/-- A denom that was given out as a share denom. -/
def Issued (nextShareDenomId : ℕ) (d : Denom) : Prop :=
  ∃ i, 1 ≤ i ∧ i < nextShareDenomId ∧ d = shareDenomFromId i

theorem Issued.ne_of_le (h : Issued n d) (hi : n ≤ i) : d ≠ shareDenomFromId i := by
  obtain ⟨j, -, hj, rfl⟩ := h
  intro heq
  rw [shareDenomFromId_inj] at heq
  omega

theorem Issued.succ (h : Issued n d) : Issued (n + 1) d := by
  obtain ⟨j, hpos, hj, hd⟩ := h
  exact ⟨j, hpos, Nat.lt_succ_of_lt hj, hd⟩

structure Sound (s : State) : Prop where
  /-- The total share of a fund is the supply of its share denom. -/
  shares : ∀ m f, s.funds.lookup m = some f → f.totalShare = supply s.bank f.shareDenom
  issued : ∀ m f, s.funds.lookup m = some f → Issued s.nextShareDenomId f.shareDenom
  apart : ∀ m f, s.funds.lookup m = some f → f.depositDenom ≠ f.shareDenom
  nonneg : ∀ m f, s.funds.lookup m = some f → 0 ≤ f.balance
  /-- Share denoms to come do not exist yet. -/
  fresh : ∀ i, s.nextShareDenomId ≤ i → supply s.bank (shareDenomFromId i) = 0
  distinct : ∀ m f m' f', s.funds.lookup m = some f → s.funds.lookup m' = some f' →
    f.shareDenom = f'.shareDenom → m = m'
  /-- A schedule is kept under its own key. -/
  keyed : ∀ k r, s.schedules.lookup k = some r → k = r.key ∧ r.id < s.nextRedemptionScheduleId
  scheduled : ∀ k r, s.schedules.lookup k = some r →
    Issued s.nextShareDenomId r.redemptionAmount.denom
  unique : ∀ k r k' r', s.schedules.lookup k = some r → s.schedules.lookup k' = some r' →
    r.id = r'.id → k = k'
  /-- The shares of a schedule are, or were, shares of its market's fund. -/
  owner : ∀ k r m f, s.schedules.lookup k = some r → s.funds.lookup m = some f →
    f.shareDenom = r.redemptionAmount.denom → m = r.marketId
  failed : ∀ i, s.nextFailedRedemptionScheduleId ≤ i → s.failedSchedules.lookup i = none
  next_pos : 1 ≤ s.nextShareDenomId

variable {bank : Bank}

theorem Sound.genesis (h : ∀ i, supply bank (shareDenomFromId i) = 0) (duration : ℤ) :
    Sound (State.genesis bank duration) where
  shares := fun m f hf => by cases hf
  issued := fun m f hf => by cases hf
  apart := fun m f hf => by cases hf
  nonneg := fun m f hf => by cases hf
  fresh := fun i _ => h i
  distinct := fun m f m' f' hf => by cases hf
  keyed := fun k r hr => by cases hr
  scheduled := fun k r hr => by cases hr
  unique := fun k r k' r' hr => by cases hr
  owner := fun k r m f hr => by cases hr
  failed := fun i _ => rfl
  next_pos := Nat.le_refl 1

variable {s s' : State} {m : Hash} {f f' : InsuranceFund}

/-- **A FUND CHANGES**, with the supply of its share denom, and no other supply. -/
theorem Sound.putFund (hs : Sound s) (hf : s.funds.lookup m = some f) (v : VoucherStore)
    (hshare : f'.shareDenom = f.shareDenom) (hdeposit : f'.depositDenom = f.depositDenom)
    (hnonneg : 0 ≤ f'.balance)
    (hsupply : ∀ d, (supply bank d : ℤ) = supply s.bank d +
      (amountIn f.shareDenom f'.totalShare d - amountIn f.shareDenom f.totalShare d)) :
    Sound { s with bank := bank, vouchers := v, funds := put m (some f') s.funds } :=
  have hother : ∀ d, d ≠ f.shareDenom → supply bank d = supply s.bank d := by
    intro d hd
    have h := hsupply d
    rw [amountIn_of_ne hd, amountIn_of_ne hd, sub_zero, add_zero] at h
    exact Nat.cast_inj.mp h
  { hs with
    shares := by
      intro m₁ f₁ h
      rcases lookup_put_some_cases h with ⟨-, rfl⟩ | ⟨hm, h⟩
      · rw [hshare, hsupply, amountIn_self, amountIn_self, hs.shares m f hf, add_sub_cancel]
      · rw [hs.shares m₁ f₁ h, hother]
        intro heq
        exact hm (hs.distinct m₁ f₁ m f h hf heq)
    issued := by
      refine forall_lookup_put hs.issued ?_
      rw [hshare]
      exact hs.issued m f hf
    apart := by
      refine forall_lookup_put hs.apart ?_
      rw [hshare, hdeposit]
      exact hs.apart m f hf
    nonneg := forall_lookup_put hs.nonneg hnonneg
    fresh := by
      intro i hi
      rw [hother _ ((hs.issued m f hf).ne_of_le hi).symm]
      exact hs.fresh i hi
    distinct := lookup_put_inj hs.distinct
      (fun m₁ f₁ h heq => hs.distinct m₁ f₁ m f h hf (heq.trans hshare))
    owner := by
      intro k r m₁ f₁ hr h heq
      rcases lookup_put_some_cases h with ⟨rfl, rfl⟩ | ⟨-, h⟩
      · exact hs.owner k r m₁ f hr hf (hshare.symm.trans heq)
      · exact hs.owner k r m₁ f₁ hr h heq }

/-- **NEW SHARES**: a fund is created or refreshed with the next share denom. -/
theorem Sound.newShares (hs : Sound s)
    (hshare : f'.shareDenom = shareDenomFromId s.nextShareDenomId)
    (hdeposit : f'.depositDenom ≠ shareDenomFromId s.nextShareDenomId)
    (hnonneg : 0 ≤ f'.balance)
    (hsupply : ∀ d, (supply bank d : ℤ) = supply s.bank d +
      amountIn (shareDenomFromId s.nextShareDenomId) f'.totalShare d) :
    Sound { s with
      bank := bank
      funds := put m (some f') s.funds
      nextShareDenomId := s.nextShareDenomId + 1 } :=
  have hother : ∀ d, d ≠ shareDenomFromId s.nextShareDenomId →
      supply bank d = supply s.bank d := by
    intro d hd
    have h := hsupply d
    rw [amountIn_of_ne hd, add_zero] at h
    exact Nat.cast_inj.mp h
  { hs with
    shares := by
      intro m₁ f₁ h
      rcases lookup_put_some_cases h with ⟨-, rfl⟩ | ⟨-, h⟩
      · rw [hshare, hsupply, hs.fresh _ (Nat.le_refl _), amountIn_self, Nat.cast_zero, zero_add]
      · rw [hs.shares m₁ f₁ h, hother _ ((hs.issued m₁ f₁ h).ne_of_le (Nat.le_refl _))]
    issued := forall_lookup_put (fun m₁ f₁ h => (hs.issued m₁ f₁ h).succ)
      ⟨s.nextShareDenomId, hs.next_pos, Nat.lt_succ_self _, hshare⟩
    apart := by
      refine forall_lookup_put hs.apart ?_
      rw [hshare]
      exact hdeposit
    nonneg := forall_lookup_put hs.nonneg hnonneg
    fresh := by
      intro i hi
      have hlt : s.nextShareDenomId < i := hi
      rw [hother]
      · exact hs.fresh i hlt.le
      · exact fun heq => hlt.ne' (shareDenomFromId_inj.mp heq)
    distinct := lookup_put_inj hs.distinct (fun m₁ f₁ h heq =>
      absurd (heq.trans hshare) ((hs.issued m₁ f₁ h).ne_of_le (Nat.le_refl _)))
    scheduled := fun k r hr => (hs.scheduled k r hr).succ
    owner := by
      intro k r m₁ f₁ hr h heq
      rcases lookup_put_some_cases h with ⟨rfl, rfl⟩ | ⟨-, h⟩
      · -- no schedule has shares of a denom that is given out only now
        exact absurd (heq.symm.trans hshare) ((hs.scheduled k r hr).ne_of_le (Nat.le_refl _))
      · exact hs.owner k r m₁ f₁ hr h heq
    next_pos := Nat.le_succ_of_le hs.next_pos }

theorem Sound.withBank (hs : Sound s) (v : VoucherStore)
    (hshares : ∀ m f, s.funds.lookup m = some f →
      supply bank f.shareDenom = supply s.bank f.shareDenom)
    (hfresh : ∀ i, s.nextShareDenomId ≤ i →
      supply bank (shareDenomFromId i) = supply s.bank (shareDenomFromId i)) :
    Sound { s with bank := bank, vouchers := v } :=
  { hs with
    shares := fun m f h => (hs.shares m f h).trans (congrArg Nat.cast (hshares m f h).symm)
    fresh := fun i hi => (hfresh i hi).trans (hs.fresh i hi) }

theorem Sound.withBank_of_supply (hs : Sound s) (v : VoucherStore)
    (h : ∀ d, supply bank d = supply s.bank d) :
    Sound { s with bank := bank, vouchers := v } :=
  hs.withBank v (fun _ f _ => h f.shareDenom) (fun i _ => h (shareDenomFromId i))

/-! ## Deposits -/

/-- What an operation keeps. -/
structure Keeps (s s' : State) : Prop where
  sound : Sound s'
  slack : ∀ d, slack s' d = slack s d

theorem Sound.ne_nextShareDenom (hs : Sound s) (hq : q ≠ 0)
    (h : transfer s.bank src dst d q = some b') : d ≠ shareDenomFromId s.nextShareDenomId := by
  intro heq
  have hsome : (transfer s.bank src dst d q).isSome := by
    rw [h]
    rfl
  have hle := transfer_isSome_iff.mp hsome
  have hsupply := balance_le_supply s.bank src d
  rw [heq, hs.fresh _ (Nat.le_refl _)] at hsupply
  rw [heq] at hle
  omega

variable {p : Platform} {env : MsgEnv}

theorem Sound.createInsuranceFund (hs : Sound s) {msg : MsgCreateInsuranceFund}
    (h : createInsuranceFund p env msg s = .ok s') : Keeps s s' := by
  rw [Insurance.createInsuranceFund] at h
  split at h
  · cases h
  split at h
  · cases h
  split at h
  · cases h
  next hnew =>
  have hnone : s.funds.lookup (msg.market.marketID p) = none :=
    Option.not_isSome_iff_eq_none.mp hnew
  obtain ⟨bank₁, hsend, h⟩ := exists_of_bind_eq_ok h
  obtain ⟨bank₂, hmint, h⟩ := exists_of_bind_eq_ok h
  obtain ⟨⟨bank₃, fund⟩, hshares, h⟩ := exists_of_bind_eq_ok h
  obtain ⟨hamount, hsend⟩ := sendCoinsFromAccountToModule_ok hsend
  obtain ⟨-, rfl, hmoves₃, -⟩ := mintShareTokens_ok hshares
  have hmoves := ((transfer_moves_in (address_ne_insuranceModule _) hsend).trans
    (mintCoins_moves hmint).2).trans hmoves₃
  obtain rfl := Except.ok.inj h
  constructor
  · refine hs.newShares rfl (hs.ne_nextShareDenom hamount hsend) (Int.natCast_nonneg _) ?_
    intro d
    rw [hmoves.supply, zero_add]
    exact congrArg _ (amountIn_add _ _ _ d).symm
  · intro d
    have hheld := hmoves.held d
    have hfunded := funded_put_new hnone
      { newInsuranceFund s msg with
        totalShare := (newInsuranceFund s msg).totalShare + insuranceFundCreatorSupply } d
    have howned := protocolOwned_succ hs.next_pos d
    change _ = _ + amountIn msg.initialDeposit.denom msg.initialDeposit.amount d at hfunded
    simp only [add_zero] at hheld
    simp only [slack, hheld, hfunded, howned]
    ring

variable {u : AccAddress} {deposit : Coin}

/-- What underwriting does: the shares are of the fund's denom at its price, or of a new
    denom when the balance was used up. -/
theorem underwriteInsuranceFund_ok (h : underwriteInsuranceFund env u m deposit s = .ok s') :
    ∃ f bank₁, s.funds.lookup m = some f ∧ deposit.denom = f.depositDenom ∧
      deposit.amount ≠ 0 ∧
      transfer s.bank (.address u) insuranceModule deposit.denom deposit.amount = some bank₁ ∧
      ((f.balance ≤ 0 ∧ ∃ bank₂ bank₃,
          mintCoins bank₁ ⟨shareDenomFromId s.nextShareDenomId,
            insuranceFundProtocolOwnedLiquiditySupply⟩ = .ok bank₂ ∧
          mintShareTokens env.sharesAllowed bank₂
            { f with
              insurancePoolTokenDenom := shareDenomFromId s.nextShareDenomId
              totalShare := insuranceFundProtocolOwnedLiquiditySupply
              balance := f.balance + deposit.amount } u insuranceFundCreatorSupply =
            .ok (bank₃, { f with
              insurancePoolTokenDenom := shareDenomFromId s.nextShareDenomId
              totalShare := insuranceFundProtocolOwnedLiquiditySupply + insuranceFundCreatorSupply
              balance := f.balance + deposit.amount }) ∧
          s' = { s with
            bank := bank₃
            nextShareDenomId := s.nextShareDenomId + 1
            funds := put m (some { f with
              insurancePoolTokenDenom := shareDenomFromId s.nextShareDenomId
              totalShare := insuranceFundProtocolOwnedLiquiditySupply + insuranceFundCreatorSupply
              balance := f.balance + deposit.amount }) s.funds }) ∨
        (0 < f.balance ∧ ∃ bank₃ fund₃,
          mintShareTokens env.sharesAllowed bank₁ { f with balance := f.balance + deposit.amount }
            u ((f.totalShare * deposit.amount).tdiv f.balance) = .ok (bank₃, fund₃) ∧
          s' = { s with bank := bank₃, funds := put m (some fund₃) s.funds })) := by
  rw [underwriteInsuranceFund] at h
  split at h
  · cases h
  next f hf =>
  split at h
  · cases h
  next hdenom =>
  obtain ⟨bank₁, hsend, h⟩ := exists_of_bind_eq_ok h
  obtain ⟨hamount, hsend⟩ := sendCoinsFromAccountToModule_ok hsend
  refine ⟨f, bank₁, hf, not_not.mp hdenom, hamount, hsend, ?_⟩
  split at h
  · next hbalance =>
    left
    obtain ⟨⟨s₂, fund₂⟩, hrefresh, h⟩ := exists_of_bind_eq_ok h
    obtain ⟨bank₂, hmint, hrefresh⟩ := exists_of_bind_eq_ok hrefresh
    obtain ⟨rfl, rfl⟩ := Prod.mk.inj (Except.ok.inj hrefresh)
    obtain ⟨⟨bank₃, fund₃⟩, hshares, h⟩ := exists_of_bind_eq_ok h
    obtain ⟨-, rfl, -, -⟩ := mintShareTokens_ok hshares
    exact ⟨hbalance, bank₂, bank₃, hmint, hshares, (Except.ok.inj h).symm⟩
  · next hbalance =>
    right
    split at h
    · cases h
    next product hproduct =>
    obtain ⟨⟨bank₃, fund₃⟩, hshares, h⟩ := exists_of_bind_eq_ok h
    rw [safeMul] at hproduct
    split at hproduct
    · rw [← Option.some.inj hproduct] at hshares
      exact ⟨not_le.mp hbalance, bank₃, fund₃, hshares, (Except.ok.inj h).symm⟩
    · cases hproduct

theorem Sound.underwriteInsuranceFund (hs : Sound s)
    (h : underwriteInsuranceFund env u m deposit s = .ok s') : Keeps s s' := by
  obtain ⟨f, bank₁, hf, hdenom, hamount, hsend, ⟨-, bank₂, bank₃, hmint, hshares, rfl⟩ |
    ⟨-, bank₃, fund₃, hshares, rfl⟩⟩ := underwriteInsuranceFund_ok h
  · obtain ⟨-, -, hmoves₃, -⟩ := mintShareTokens_ok hshares
    have hmoves := ((transfer_moves_in (address_ne_insuranceModule u) hsend).trans
      (mintCoins_moves hmint).2).trans hmoves₃
    have hne := hs.ne_nextShareDenom hamount hsend
    constructor
    · refine hs.newShares rfl (hdenom ▸ hne)
        (add_nonneg (hs.nonneg m f hf) (Int.natCast_nonneg _)) ?_
      intro d
      rw [hmoves.supply, zero_add]
      exact congrArg _ (amountIn_add _ _ _ d).symm
    · intro d
      have hheld := hmoves.held d
      have howned := protocolOwned_succ hs.next_pos d
      simp only [add_zero, hdenom] at hheld
      simp only [slack, hheld, funded_put hf, howned, amountIn_add]
      ring
  · obtain ⟨-, rfl, hmoves₃, -⟩ := mintShareTokens_ok hshares
    have hmoves := (transfer_moves_in (address_ne_insuranceModule u) hsend).trans hmoves₃
    constructor
    · refine hs.putFund hf s.vouchers rfl rfl
        (add_nonneg (hs.nonneg m f hf) (Int.natCast_nonneg _)) ?_
      intro d
      rw [hmoves.supply, zero_add, amountIn_add, add_sub_cancel_left]
      rfl
    · intro d
      have hheld := hmoves.held d
      simp only [add_zero, hdenom] at hheld
      simp only [slack, hheld, funded_put hf, amountIn_add]
      ring

/-! ## The exchange -/

variable {amount : ℕ}

theorem withdrawFromInsuranceFund_ok
    (h : withdrawFromInsuranceFund allowed m amount s = .ok s') :
    ∃ f bank, s.funds.lookup m = some f ∧ amount ≤ f.balance ∧
      transfer s.bank insuranceModule exchangeModule f.depositDenom amount = some bank ∧
      s' = { s with
        bank := bank
        funds := put m (some { f with balance := f.balance - amount }) s.funds } := by
  rw [withdrawFromInsuranceFund] at h
  split at h
  · cases h
  next f hf =>
  split at h
  · cases h
  next hamount =>
  obtain ⟨bank, hsend, h⟩ := exists_of_bind_eq_ok h
  exact ⟨f, bank, hf, not_lt.mp hamount, sendCoinsFromModuleToModule_ok hsend,
    (Except.ok.inj h).symm⟩

theorem Sound.withdrawFromInsuranceFund (hs : Sound s)
    (h : withdrawFromInsuranceFund allowed m amount s = .ok s') : Keeps s s' := by
  obtain ⟨f, bank, hf, hamount, hsend, rfl⟩ := withdrawFromInsuranceFund_ok h
  constructor
  · refine hs.putFund hf s.vouchers rfl rfl (sub_nonneg.mpr hamount) ?_
    intro d
    rw [supply_transfer hsend, sub_self, add_zero]
  · intro d
    have hheld := (transfer_moves_out exchangeModule_ne_insuranceModule hsend).held d
    simp only [slack, hheld, funded_put hf, amountIn_sub]
    ring

variable {market : MarketSpec}

section MoveCoins

variable (h : moveCoinsIntoInsuranceFund p allowed market amount s = .ok s')
include h

theorem moveCoinsIntoInsuranceFund_ok :
    ∃ f bank, s.funds.lookup (market.marketID p) = some f ∧
      transfer s.bank exchangeModule insuranceModule market.quoteDenom amount = some bank ∧
      s' = { s with
        bank := bank
        funds := put (market.marketID p) (some { f with balance := f.balance + amount })
          s.funds } := by
  rw [moveCoinsIntoInsuranceFund] at h
  split at h
  · cases h
  obtain ⟨bank, hsend, h⟩ := exists_of_bind_eq_ok h
  rw [depositIntoInsuranceFund] at h
  split at h
  · cases h
  next f hf =>
  exact ⟨f, bank, hf, sendCoinsFromModuleToModule_ok hsend, (Except.ok.inj h).symm⟩

theorem Sound.moveCoinsIntoInsuranceFund (hs : Sound s) : Sound s' := by
  obtain ⟨f, bank, hf, hsend, rfl⟩ := moveCoinsIntoInsuranceFund_ok h
  refine hs.putFund hf s.vouchers rfl rfl
    (add_nonneg (hs.nonneg _ f hf) (Int.natCast_nonneg _)) ?_
  intro d
  rw [supply_transfer hsend, sub_self, add_zero]

/-- **A PAYMENT** of the exchange comes in as the market's denom, and is credited to the
    fund as the fund's. -/
theorem slack_moveCoinsIntoInsuranceFund (hf : s.funds.lookup (market.marketID p) = some f)
    (d : Denom) :
    slack s' d = slack s d + amountIn market.quoteDenom amount d -
      amountIn f.depositDenom amount d := by
  obtain ⟨f', bank, hf', hsend, rfl⟩ := moveCoinsIntoInsuranceFund_ok h
  obtain rfl : f' = f := Option.some.inj (hf'.symm.trans hf)
  have hheld := (transfer_moves_in exchangeModule_ne_insuranceModule hsend).held d
  simp only [slack, hheld, funded_put hf, amountIn_add]
  ring

end MoveCoins

/-! ## Schedules -/

theorem Sound.deleteRedemptionSchedule (hs : Sound s) (r : RedemptionSchedule) :
    Sound (deleteRedemptionSchedule r s) :=
  { hs with
    keyed := forall_lookup_delete hs.keyed
    scheduled := forall_lookup_delete hs.scheduled
    unique := fun k r₁ k' r₂ h h' => hs.unique k r₁ k' r₂ (lookup_put_none_cases h).2
      (lookup_put_none_cases h').2
    owner := fun k r' m f h => hs.owner k r' m f (lookup_put_none_cases h).2 }

variable {r : RedemptionSchedule}

theorem Sound.setRedemptionSchedule (hs : Sound s) (hf : s.funds.lookup r.marketId = some f)
    (hdenom : r.redemptionAmount.denom = f.shareDenom)
    (hid : r.id < s.nextRedemptionScheduleId)
    (hnew : ∀ k r', s.schedules.lookup k = some r' → r'.id ≠ r.id) :
    Sound (setRedemptionSchedule r s) :=
  { hs with
    keyed := forall_lookup_put hs.keyed ⟨rfl, hid⟩
    scheduled := by
      refine forall_lookup_put hs.scheduled ?_
      rw [hdenom]
      exact hs.issued _ f hf
    unique := lookup_put_inj hs.unique (fun k r' h heq => absurd heq (hnew k r' h))
    owner := by
      intro k r' m f' h hf' heq
      rcases lookup_put_some_cases h with ⟨-, rfl⟩ | ⟨-, h⟩
      · exact hs.distinct m f' _ f hf' hf (heq.trans hdenom)
      · exact hs.owner k r' m f' h hf' heq }

theorem Sound.locked_setRedemptionSchedule (hs : Sound s)
    (hnew : ∀ k r', s.schedules.lookup k = some r' → r'.id ≠ r.id) (d : Denom) :
    locked (Insurance.setRedemptionSchedule r s).schedules d = locked s.schedules d +
      amountIn r.redemptionAmount.denom r.redemptionAmount.amount d := by
  refine locked_put_new ?_ r d
  cases hr : s.schedules.lookup r.key with
  | none => rfl
  | some r' =>
    have hkey := (hs.keyed _ r' hr).1
    exact absurd (congrArg Prod.snd hkey).symm (hnew _ r' hr)

theorem mem_redemptionSchedules :
    r ∈ redemptionSchedules s ↔ ∃ k, s.schedules.lookup k = some r := by
  rw [redemptionSchedules, List.mem_insertionSort, List.mem_map]
  constructor
  · rintro ⟨e, he, rfl⟩
    exact ⟨e.1, mem_entries_iff.mp he⟩
  · rintro ⟨k, hk⟩
    exact ⟨⟨k, r⟩, mem_entries_iff.mpr hk, rfl⟩

theorem Sound.lookup_of_mem (hs : Sound s) (h : r ∈ redemptionSchedules s) :
    s.schedules.lookup r.key = some r := by
  obtain ⟨k, hk⟩ := mem_redemptionSchedules.mp h
  rw [← (hs.keyed k r hk).1]
  exact hk

end Insurance
