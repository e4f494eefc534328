import InjectiveCore.InsuranceRedemptionProofs

/-!
# The price of a share never falls

Underwriting mints `⌊S·d/B⌋` shares for a deposit `d`, and redeeming `n` shares pays
`⌊n·B'/S⌋` with `B' ≤ B`. Both are rounded in favour of the fund, so the price `B/S` of a
share, compared by cross-multiplication, never falls (`NoCheaper`). It can be chained
because the protocol's own shares are never redeemed: the total share stays positive, and
with it the balance, so that the fund is never refreshed. This rests on the module account,
which has to hold what it owes in shares of the fund (`Solvent`). A payment in another denom
than the fund's breaks that, and the protocol's shares with it
(`protocol_shares_redeemed`).

What a user gains a fund loses, at most: balance and wealth together do not grow
(`Exchanges`). A user whose operations leave the total share as it was has therefore not
gained anything, however they split deposits and redemptions.
-/

namespace Insurance

open KeyedStore BalanceSheet Transition Vouchers DecArith

variable {D : Type} [DecArith D] {s s' : State} {m : Hash} {f : InsuranceFund}

/-! ## Underwriters' operations -/

inductive ShareOp (D : Type) where
  | underwrite (env : MsgEnv) (underwriter : AccAddress) (marketID : Hash) (deposit : Coin)
  | request (allowed : Bool) (env : BlockEnv D) (sender : AccAddress) (marketID : Hash)
      (shares : Coin)
  /-- A schedule that is stored is processed. -/
  | process (env : BlockEnv D) (schedule : RedemptionSchedule)

def shareStep : ShareOp D → State → Except Error State
  | .underwrite env underwriter marketID deposit, s =>
    underwriteInsuranceFund env underwriter marketID deposit s
  | .request allowed env sender marketID shares, s =>
    requestInsuranceFundRedemption allowed env sender marketID shares s
  | .process env schedule, s =>
    if s.schedules.lookup schedule.key = some schedule then processRedemption env schedule s
    else .error .invalidRequest

/-- The operations of one user with one fund. -/
def ShareOp.IsOf (u : AccAddress) (m : Hash) : ShareOp D → Prop
  | .underwrite _ underwriter marketID _ => underwriter = u ∧ marketID = m
  | .request _ _ sender marketID _ => sender = u ∧ marketID = m
  | .process _ schedule => schedule.redeemer = u ∧ schedule.marketId = m

variable {op : ShareOp D}

theorem Sound.shareStep (hs : Sound s) (h : shareStep op s = .ok s') : Keeps s s' := by
  cases op with
  | underwrite env u m deposit => exact hs.underwriteInsuranceFund h
  | request allowed env sender m shares => exact hs.requestInsuranceFundRedemption h
  | process env r =>
    rw [Insurance.shareStep] at h
    split at h
    · next hr => exact (hs.processRedemption hr h).1
    · cases h

/-! ## The protocol's shares -/

variable {x : ℤ}

theorem amountIn_nonneg (hx : 0 ≤ x) (d₀ d : Denom) : 0 ≤ amountIn d₀ x d := by
  rw [amountIn]
  split
  · exact hx
  · exact le_rfl

theorem locked_nonneg {K : Type} (schedules : Store K RedemptionSchedule) (d : Denom) :
    0 ≤ locked schedules d :=
  total_nonneg (fun _ _ => amountIn_nonneg (Int.natCast_nonneg _) _ _)

theorem Sound.funded_nonneg (hs : Sound s) (d : Denom) : 0 ≤ funded s.funds d :=
  total_nonneg (fun e he => amountIn_nonneg (hs.nonneg e.1 e.2 (mem_entries_iff.mp he)) _ _)

theorem Issued.le_protocolOwned {n : ℕ} {d : Denom} (h : Issued n d) :
    (insuranceFundProtocolOwnedLiquiditySupply : ℤ) ≤ protocolOwned n d := by
  obtain ⟨i, hpos, hi, rfl⟩ := h
  have hself := amountIn_self (shareDenomFromId i) insuranceFundProtocolOwnedLiquiditySupply
  rw [← hself, protocolOwned]
  refine Finset.single_le_sum (f := fun j => amountIn (shareDenomFromId j) _ _) ?_
    (Finset.mem_Ico.mpr ⟨hpos, hi⟩)
  exact fun j _ => amountIn_nonneg (Int.natCast_nonneg _) _ _

/-- **PROTOCOL-OWNED SHARES** are part of every fund: they are in the account, on top of
    what is locked there. -/
theorem Sound.le_totalShare (hs : Sound s) (hf : s.funds.lookup m = some f)
    (hslack : 0 ≤ slack s f.shareDenom) :
    (insuranceFundProtocolOwnedLiquiditySupply : ℤ) ≤ f.totalShare := by
  have howned := (hs.issued m f hf).le_protocolOwned
  have hlocked := locked_nonneg s.schedules f.shareDenom
  have hfailed := locked_nonneg s.failedSchedules f.shareDenom
  have hfunded := hs.funded_nonneg f.shareDenom
  have hpromised : (0 : ℤ) ≤ outstanding s.vouchers f.shareDenom := Int.natCast_nonneg _
  have hsupply : (balance s.bank insuranceModule f.shareDenom : ℤ) ≤ f.totalShare := by
    rw [hs.shares m f hf]
    exact Nat.cast_le.mpr (balance_le_supply _ _ _)
  rw [slack] at hslack
  linarith

/-! ## The price -/

/-- A share of the fund is worth as much as before, or more. -/
structure NoCheaper (f f' : InsuranceFund) : Prop where
  price : f.balance * f'.totalShare ≤ f'.balance * f.totalShare
  balance_pos : 0 < f'.balance
  owned_le : (insuranceFundProtocolOwnedLiquiditySupply : ℤ) ≤ f'.totalShare
  shareDenom_eq : f'.shareDenom = f.shareDenom
  depositDenom_eq : f'.depositDenom = f.depositDenom

theorem NoCheaper.refl (hpos : 0 < f.balance)
    (howned : (insuranceFundProtocolOwnedLiquiditySupply : ℤ) ≤ f.totalShare) :
    NoCheaper f f := ⟨le_rfl, hpos, howned, rfl, rfl⟩

theorem protocolOwned_pos : (0 : ℤ) < insuranceFundProtocolOwnedLiquiditySupply := by decide

/-- Prices that do not fall twice have not fallen: the total share in between is positive. -/
theorem NoCheaper.trans {f₁ f₂ f₃ : InsuranceFund} (h : NoCheaper f₁ f₂) (h' : NoCheaper f₂ f₃)
    (hshare : 0 ≤ f₁.totalShare) : NoCheaper f₁ f₃ := by
  have hmid : 0 < f₂.totalShare := protocolOwned_pos.trans_le h.owned_le
  have hlast : 0 ≤ f₃.totalShare := (protocolOwned_pos.trans_le h'.owned_le).le
  refine ⟨?_, h'.balance_pos, h'.owned_le, h'.shareDenom_eq.trans h.shareDenom_eq,
    h'.depositDenom_eq.trans h.depositDenom_eq⟩
  refine le_of_mul_le_mul_right ?_ hmid
  calc f₁.balance * f₃.totalShare * f₂.totalShare
      = f₁.balance * f₂.totalShare * f₃.totalShare := mul_right_comm _ _ _
    _ ≤ f₂.balance * f₁.totalShare * f₃.totalShare := mul_le_mul_of_nonneg_right h.price hlast
    _ = f₂.balance * f₃.totalShare * f₁.totalShare := mul_right_comm _ _ _
    _ ≤ f₃.balance * f₂.totalShare * f₁.totalShare := mul_le_mul_of_nonneg_right h'.price hshare
    _ = f₃.balance * f₁.totalShare * f₂.totalShare := mul_right_comm _ _ _

/-! ## Users' coins -/

/-- What a user has of a denom, or is promised. -/
def wealth (s : State) (u : AccAddress) (d : Denom) : ℤ :=
  balance s.bank (.address u) d + ((s.vouchers.lookup (d, u)).getD 0 : ℕ)

section Bank

variable {b b' : Bank} {c : Coin} {u : AccAddress}

theorem balance_mintCoins (h : mintCoins b c = .ok b') (u : AccAddress) (d : Denom) :
    balance b' (.address u) d = balance b (.address u) d := by
  rw [mintCoins] at h
  split at h
  · cases h
  rw [← Except.ok.inj h, balance_credit, entry_of_ne (address_ne_insuranceModule u), Nat.add_zero]

theorem balance_burnCoins (h : burnCoins b c = .ok b') (u : AccAddress) (d : Denom) :
    balance b' (.address u) d = balance b (.address u) d := by
  rw [burnCoins] at h
  split at h
  · cases h
  split at h
  · cases h
  next b₁ hdebit =>
  obtain rfl : b₁ = b' := Except.ok.inj h
  have hbal := balance_debit hdebit (.address u) d
  rw [entry_of_ne (address_ne_insuranceModule u)] at hbal
  exact hbal

theorem balance_payIn {d₀ : Denom} {q : ℕ}
    (h : transfer b (.address u) insuranceModule d₀ q = some b') (d : Denom) :
    balance b' (.address u) d + inDenom d₀ q d = balance b (.address u) d := by
  have hbal := balance_transfer h (.address u) d
  rw [entry_same_account, entry_of_ne (address_ne_insuranceModule u)] at hbal
  exact hbal

theorem balance_mintShareTokens {allowed : Bool} {fund fund' : InsuranceFund} {shares : ℤ}
    (h : mintShareTokens allowed b fund u shares = .ok (b', fund')) {d : Denom}
    (hd : d ≠ fund.shareDenom) : balance b' (.address u) d = balance b (.address u) d := by
  obtain ⟨-, -, -, b₁, hmint, hsend⟩ := mintShareTokens_ok h
  have hbal := balance_transfer hsend (.address u) d
  rw [entry_same_account, inDenom_of_ne hd, entry_of_ne (address_ne_insuranceModule u),
    balance_mintCoins hmint] at hbal
  exact hbal

end Bank

/-- What an operation does with a fund: the price does not fall, and who acts on their own
    account gets no more than the fund gives. -/
structure Trades (own : AccAddress → Prop) (m : Hash) (s s' : State) (f f' : InsuranceFund) :
    Prop where
  found : s'.funds.lookup m = some f'
  price : f.balance * f'.totalShare ≤ f'.balance * f.totalShare
  shareDenom_eq : f'.shareDenom = f.shareDenom
  depositDenom_eq : f'.depositDenom = f.depositDenom
  exchange : ∀ u, own u →
    f'.balance + wealth s' u f.depositDenom ≤ f.balance + wealth s u f.depositDenom

variable {own : AccAddress → Prop}

theorem Trades.of_same (hf : s'.funds.lookup m = some f)
    (hwealth : ∀ u, own u → wealth s' u f.depositDenom ≤ wealth s u f.depositDenom) :
    Trades own m s s' f f :=
  ⟨hf, le_rfl, rfl, rfl, fun u hu => add_le_add_right (hwealth u hu) _⟩

variable {u : AccAddress} {m₁ : Hash}

/-- Another fund than the one that is written. -/
theorem Trades.of_ne (hf : s.funds.lookup m = some f) (hm : m ≠ m₁)
    (hkept : s'.funds.lookup m = s.funds.lookup m) :
    Trades (fun u' => u = u' ∧ m₁ = m) m s s' f f :=
  Trades.of_same (hkept.trans hf) (fun _ hu => absurd hu.2.symm hm)

theorem underwriteInsuranceFund_trades (hs : Sound s) (hf : s.funds.lookup m = some f)
    (hpos : 0 < f.balance) (hshare : 0 ≤ f.totalShare) {env : MsgEnv} {deposit : Coin}
    (h : underwriteInsuranceFund env u m₁ deposit s = .ok s') :
    ∃ f', Trades (fun u' => u = u' ∧ m₁ = m) m s s' f f' := by
  obtain ⟨f₁, bank₁, hf₁, hdenom, -, hsend, ⟨hempty, bank₂, bank₃, -, -, rfl⟩ |
    ⟨-, bank₃, fund₃, hshares, rfl⟩⟩ := underwriteInsuranceFund_ok h
  · -- only a fund whose balance is used up is refreshed
    have hm : m ≠ m₁ := by
      rintro rfl
      obtain rfl : f = f₁ := Option.some.inj (hf.symm.trans hf₁)
      exact absurd hpos (not_lt.mpr hempty)
    exact ⟨f, Trades.of_ne hf hm (lookup_put_of_ne hm _ _)⟩
  by_cases hm : m = m₁
  · subst hm
    obtain rfl : f = f₁ := Option.some.inj (hf.symm.trans hf₁)
    have hbal := balance_mintShareTokens hshares (hs.apart m f hf)
    obtain ⟨-, rfl, -, -⟩ := mintShareTokens_ok hshares
    refine ⟨{ f with
      balance := f.balance + deposit.amount
      totalShare := f.totalShare + (f.totalShare * deposit.amount).tdiv f.balance },
      ?_, ?_, rfl, rfl, ?_⟩
    · exact (lookup_put _ _ _ _).trans (if_pos rfl)
    · -- the shares of the deposit are rounded down
      have hprod : 0 ≤ f.totalShare * deposit.amount := mul_nonneg hshare (Int.natCast_nonneg _)
      have hround : f.totalShare * deposit.amount / f.balance * f.balance ≤
          f.totalShare * deposit.amount := Int.ediv_mul_le _ hpos.ne'
      show f.balance * (f.totalShare + (f.totalShare * deposit.amount).tdiv f.balance) ≤
        (f.balance + deposit.amount) * f.totalShare
      rw [Int.tdiv_eq_ediv_of_nonneg hprod]
      linarith
    · rintro u' ⟨rfl, -⟩
      have hpay := balance_payIn hsend f.depositDenom
      rw [hdenom, inDenom_self] at hpay
      show f.balance + deposit.amount + ((balance bank₃ (.address u) f.depositDenom : ℕ) + _) ≤
        f.balance + ((balance s.bank (.address u) f.depositDenom : ℕ) + _)
      rw [hbal, ← hpay, Nat.cast_add]
      linarith
  · exact ⟨f, Trades.of_ne hf hm (lookup_put_of_ne hm _ _)⟩

variable {bank : Bank}

theorem wealth_payRedemption {payout : Delivery} {d₀ : Denom} {v : VoucherStore} (hx : 0 ≤ x)
    (h : payRedemption payout s.bank s.vouchers u d₀ x = .ok (bank, v)) :
    wealth { s with bank := bank, vouchers := v } u d₀ ≤ wealth s u d₀ + x := by
  have hcast : ((x.toNat : ℕ) : ℤ) = x := Int.toNat_of_nonneg hx
  rcases payRedemption_ok h with ⟨-, rfl, rfl⟩ | ⟨-, rfl, dst, -, hsend⟩ | ⟨-, rfl, hv⟩
  · exact le_add_of_nonneg_right hx
  · have hbal := balance_transfer hsend (.address u) d₀
    rw [entry_of_ne (address_ne_insuranceModule u), Nat.add_zero] at hbal
    have hentry : entry dst d₀ x.toNat (.address u) d₀ ≤ x.toNat := by
      rw [entry]
      split
      · exact Nat.le_refl _
      · exact Nat.zero_le _
    simp only [wealth]
    omega
  · obtain ⟨-, rfl⟩ := addVoucher_ok hv
    simp only [wealth, lookup_put, if_pos, Option.getD_some, Nat.cast_add, hcast]
    linarith

variable {env : BlockEnv D} {r : RedemptionSchedule}

theorem processRedemption_trades (hs : Sound s) (hf : s.funds.lookup m = some f)
    (h : processRedemption env r s = .ok s') :
    ∃ f', Trades (fun u => r.redeemer = u ∧ r.marketId = m) m s s' f f' := by
  rw [processRedemption] at h
  split at h
  · cases h
  next f₁ hf₁ =>
  split at h
  · next s₁ hsettle =>
    obtain rfl : s₁ = s' := Except.ok.inj h
    rcases settleRedemption_ok hsettle with ⟨-, bank, hburn, rfl⟩ |
      ⟨-, bank₁, bank₂, v, hpay, hburn, rfl⟩
    · refine ⟨f, Trades.of_same hf ?_⟩
      intro u _
      show (balance bank (.address u) f.depositDenom : ℤ) + _ ≤ balance s.bank _ _ + _
      rw [balance_burnCoins hburn u]
      exact le_rfl
    · by_cases hm : m = r.marketId
      · subst hm
        obtain rfl : f = f₁ := Option.some.inj (hf.symm.trans hf₁)
        have hnonneg := hs.nonneg _ f hf
        have hshare : 0 ≤ f.totalShare := by
          rw [hs.shares _ f hf]
          exact Int.natCast_nonneg _
        have hround := getRedemptionAmountFromShare_mul_le (env.marketBalance r.marketId)
          r.redemptionAmount.amount hnonneg
        have hredeem := getRedemptionAmountFromShare_nonneg (env.marketBalance r.marketId)
          r.redemptionAmount.amount hshare
        refine ⟨{ f with
          totalShare := f.totalShare - r.redemptionAmount.amount
          balance := f.balance - getRedemptionAmountFromShare (env.marketBalance r.marketId) f
            r.redemptionAmount.amount }, ?_, ?_, rfl, rfl, ?_⟩
        · exact (lookup_put _ _ _ _).trans (if_pos rfl)
        · show f.balance * (f.totalShare - r.redemptionAmount.amount) ≤
            (f.balance - getRedemptionAmountFromShare _ f _) * f.totalShare
          linarith
        · rintro u ⟨rfl, -⟩
          have hwealth := wealth_payRedemption hredeem hpay
          have hbal := balance_burnCoins hburn r.redeemer f.depositDenom
          simp only [wealth, deleteRedemptionSchedule] at hwealth ⊢
          rw [hbal]
          linarith
      · exact ⟨f, Trades.of_ne hf hm (lookup_put_of_ne hm _ _)⟩
  · obtain rfl := Except.ok.inj h
    exact ⟨f, Trades.of_same hf (fun _ _ => le_rfl)⟩

variable {sender : AccAddress} {shares : Coin}

theorem scheduleRedemption_frame {claimTime : ℤ}
    (h : scheduleRedemption s sender m shares claimTime = (r, s')) :
    s'.bank = s.bank ∧ s'.vouchers = s.vouchers ∧ s'.funds = s.funds ∧ r.redeemer = sender ∧
      r.marketId = m := by
  rw [scheduleRedemption] at h
  split at h
  · obtain ⟨rfl, rfl⟩ := Prod.mk.inj h
    exact ⟨rfl, rfl, rfl, rfl, rfl⟩
  · obtain ⟨rfl, rfl⟩ := Prod.mk.inj h
    exact ⟨rfl, rfl, rfl, rfl, rfl⟩

theorem requestInsuranceFundRedemption_trades (hs : Sound s) (hf : s.funds.lookup m = some f)
    {allowed : Bool}
    (h : requestInsuranceFundRedemption allowed env sender m₁ shares s = .ok s') :
    ∃ f', Trades (fun u => sender = u ∧ m₁ = m) m s s' f f' := by
  obtain ⟨f₁, bank, r, s₁, hf₁, hdenom, hsend, hschedule, h⟩ :=
    requestInsuranceFundRedemption_ok h
  have hbank := hs.withBank_of_supply s.vouchers (supply_transfer hsend)
  obtain ⟨hs₁, -, -⟩ := hbank.scheduleRedemption hf₁ hdenom hschedule
  obtain ⟨hb, hv, hfunds, hredeemer, hmarket⟩ := scheduleRedemption_frame hschedule
  have hfound : s₁.funds.lookup m = some f := by
    rw [hfunds]
    exact hf
  have hwealth : ∀ u, sender = u ∧ m₁ = m →
      wealth s₁ u f.depositDenom ≤ wealth s u f.depositDenom := by
    rintro u ⟨rfl, -⟩
    have hpay := balance_payIn hsend f.depositDenom
    simp only [wealth, hb, hv]
    omega
  rcases h with h | rfl
  · obtain ⟨f', ht⟩ := processRedemption_trades hs₁ hfound h
    refine ⟨f', { ht with exchange := ?_ }⟩
    intro u hu
    have hexchange := ht.exchange u ⟨hredeemer.trans hu.1, hmarket.trans hu.2⟩
    exact hexchange.trans (add_le_add_right (hwealth u hu) _)
  · exact ⟨f, Trades.of_same hfound hwealth⟩

/-- **ONE OPERATION**. -/
theorem shareStep_trades (hs : Sound s) (hf : s.funds.lookup m = some f) (hpos : 0 < f.balance)
    (hshare : 0 ≤ f.totalShare) (h : shareStep op s = .ok s') :
    ∃ f', Trades (fun u => op.IsOf u m) m s s' f f' := by
  cases op with
  | underwrite env u m₁ deposit => exact underwriteInsuranceFund_trades hs hf hpos hshare h
  | request allowed env sender m₁ shares => exact requestInsuranceFundRedemption_trades hs hf h
  | process env r =>
    rw [shareStep] at h
    split at h
    · exact processRedemption_trades hs hf h
    · cases h

theorem Trades.noCheaper {f' : InsuranceFund} (ht : Trades own m s s' f f') (hs' : Sound s')
    (hslack : 0 ≤ slack s' f.shareDenom) (hpos : 0 < f.balance) (hshare : 0 ≤ f.totalShare) :
    NoCheaper f f' := by
  have howned := hs'.le_totalShare ht.found (ht.shareDenom_eq.symm ▸ hslack)
  refine ⟨ht.price, ?_, howned, ht.shareDenom_eq, ht.depositDenom_eq⟩
  by_contra hneg
  have hleft := mul_pos hpos (protocolOwned_pos.trans_le howned)
  have hright := mul_nonpos_of_nonpos_of_nonneg (not_lt.mp hneg) hshare
  exact absurd (hleft.trans_le ht.price) (not_lt.mpr hright)

/-! ## Runs -/

/-- A state in which the account covers what it owes in a denom. -/
structure Solvent (d : Denom) (s : State) : Prop where
  sound : Sound s
  slack_nonneg : 0 ≤ slack s d

variable {d : Denom}

theorem Solvent.keeps (hs : Solvent d s) (h : Keeps s s') : Solvent d s' :=
  ⟨h.sound, hs.slack_nonneg.trans_eq (h.slack d).symm⟩

theorem Solvent.genesis (h : ∀ i, supply bank (shareDenomFromId i) = 0) (duration : ℤ) :
    Solvent d (State.genesis bank duration) := by
  refine ⟨Sound.genesis h duration, ?_⟩
  show 0 ≤ (balance bank insuranceModule d : ℤ) - 0 - ((0 : ℕ) : ℤ) - 0 - 0 - protocolOwned 1 d
  rw [protocolOwned, Finset.Ico_self, Finset.sum_empty]
  omega

/-- Every payment of a run comes in the denom of its fund. -/
def Matching (p : Platform) (s : State) : List (Op D) → Prop
  | [] => True
  | op :: ops => Matched p s op ∧ Matching p (attempt (step p) s op) ops

theorem Solvent.run (hs : Solvent d s) {p : Platform} {ops : List (Op D)}
    (hops : Matching p s ops) : Solvent d (run (step p) s ops) := by
  induction ops generalizing s with
  | nil => exact hs
  | cons op ops ih =>
    refine ih ?_ hops.2
    rw [attempt]
    split
    · next s₁ h =>
      obtain ⟨hsound, hslack⟩ := hs.sound.step h
      exact hs.keeps ⟨hsound, hslack.mpr hops.1⟩
    · exact hs

/-- **A RUN**: the price has not fallen, and whoever made all of its operations got no more
    than the fund gave. By induction on the operations. -/
theorem Solvent.run_trades (hs : Solvent f.shareDenom s) (hf : s.funds.lookup m = some f)
    (hpos : 0 < f.balance) (ops : List (ShareOp D)) :
    Solvent f.shareDenom (Transition.run shareStep s ops) ∧
    ∃ f', (Transition.run shareStep s ops).funds.lookup m = some f' ∧
      NoCheaper f f' ∧ ∀ u, (∀ op ∈ ops, op.IsOf u m) →
        f'.balance + wealth (Transition.run shareStep s ops) u f.depositDenom ≤
          f.balance + wealth s u f.depositDenom := by
  induction ops generalizing s f with
  | nil =>
    have howned := hs.sound.le_totalShare hf hs.slack_nonneg
    exact ⟨hs, f, hf, NoCheaper.refl hpos howned, fun _ _ => le_rfl⟩
  | cons op ops ih =>
    have hshare : 0 ≤ f.totalShare :=
      protocolOwned_pos.le.trans (hs.sound.le_totalShare hf hs.slack_nonneg)
    -- an operation that fails changes nothing
    obtain ⟨hs₁, f₁, ht⟩ : Solvent f.shareDenom (attempt shareStep s op) ∧
        ∃ f₁, Trades (fun u => op.IsOf u m) m s (attempt shareStep s op) f f₁ := by
      rw [attempt]
      split
      · next s₁ hstep =>
        exact ⟨hs.keeps (hs.sound.shareStep hstep),
          shareStep_trades hs.sound hf hpos hshare hstep⟩
      · exact ⟨hs, f, Trades.of_same hf (fun _ _ => le_rfl)⟩
    have hprice₁ := ht.noCheaper hs₁.sound hs₁.slack_nonneg hpos hshare
    have hsolvent₁ : Solvent f₁.shareDenom (attempt shareStep s op) := ht.shareDenom_eq.symm ▸ hs₁
    obtain ⟨hsolvent, f', hf', hprice, hexchange⟩ := ih hsolvent₁ ht.found hprice₁.balance_pos
    refine ⟨ht.shareDenom_eq ▸ hsolvent, f', hf', hprice₁.trans hprice hshare, ?_⟩
    intro u hu
    have hrest := hexchange u (fun op' hop' => hu op' (List.mem_cons_of_mem op hop'))
    rw [ht.depositDenom_eq] at hrest
    exact hrest.trans (ht.exchange u (hu op List.mem_cons_self))

/-- **THE PRICE NEVER FALLS** while the account covers the shares of the fund that it owes:
    for a fund with a balance and any operations of underwriters, at any balances of the
    markets and whatever the bank refuses,

- the price of a share has not fallen, the balance is positive, and the total share is at
  least what the protocol owns;
- it does not fall at the next operation;
- a user whose operations leave the total share as it was has no more than before. -/
theorem share_price_never_falls (hf : s.funds.lookup m = some f)
    (hs : Solvent f.shareDenom s) (hpos : 0 < f.balance) (ops : List (ShareOp D)) :
    ∃ f', (run shareStep s ops).funds.lookup m = some f' ∧ NoCheaper f f' ∧
      (∀ op : ShareOp D, ∃ f'',
        (attempt shareStep (run shareStep s ops) op).funds.lookup m = some f'' ∧
          NoCheaper f' f'') ∧
      ∀ u, (∀ op ∈ ops, op.IsOf u m) → f'.totalShare = f.totalShare →
        wealth (run shareStep s ops) u f.depositDenom ≤ wealth s u f.depositDenom := by
  obtain ⟨hsolvent, f', hf', hprice, hexchange⟩ := hs.run_trades hf hpos ops
  refine ⟨f', hf', hprice, ?_, ?_⟩
  · intro op
    obtain ⟨-, f'', hf'', hprice', -⟩ := Solvent.run_trades
      (hprice.shareDenom_eq.symm ▸ hsolvent) hf' hprice.balance_pos [op]
    exact ⟨f'', hf'', hprice'⟩
  · intro u hu htotal
    have hshare := protocolOwned_pos.trans_le hprice.owned_le
    have hbalance : f.balance ≤ f'.balance := by
      have h := hprice.price
      rw [← htotal] at h
      exact le_of_mul_le_mul_right h hshare
    linarith [hexchange u hu]

namespace Sample

/-- A block in which the market has lost a little. -/
def block : BlockEnv LegacyDec :=
  { blockTime := 1, marketBalance := fun _ => ⟨-1⟩, isMarketDemolishedOrExpired := fun _ => false,
    payout := fun _ => .delivered }

/-- A deposit, and the redemption of its shares. -/
def roundTrip : List (ShareOp LegacyDec) :=
  [.underwrite ⟨0, true, true⟩ alice 7 ⟨"inj", 10⟩,
    .request true block alice 7 ⟨"share1", 10 ^ 17⟩,
    .process block ⟨1, 7, alice, 1, ⟨"share1", 10 ^ 17⟩⟩]

theorem roundTrip_isOf : ∀ op ∈ roundTrip, op.IsOf alice 7 := by
  rw [roundTrip, List.forall_mem_cons, List.forall_mem_cons, List.forall_mem_singleton]
  exact ⟨⟨rfl, rfl⟩, ⟨rfl, rfl⟩, rfl, rfl⟩

end Sample

/-- The shares of the deposit are redeemed, and nothing is gained. -/
theorem share_price_round_trip : ∃ f',
    (run shareStep (State.after ⟨fun _ => 7, id⟩ Sample.bank 0 [Sample.createFund])
      Sample.roundTrip).funds.lookup 7 = some f' ∧
    f'.totalShare = Sample.fund.totalShare ∧
    wealth (run shareStep
        (State.after ⟨fun _ => 7, id⟩ Sample.bank 0 [Sample.createFund])
        Sample.roundTrip) Sample.alice "inj" ≤
      wealth (State.after ⟨fun _ => 7, id⟩ Sample.bank 0 [Sample.createFund])
        Sample.alice "inj" := by
  have hs : Solvent "share1"
      (State.after ⟨fun _ => 7, id⟩ Sample.bank 0 [Sample.createFund]) :=
    (Solvent.genesis Sample.supply_bank 0).run ⟨trivial, trivial⟩
  have hf := Sample.lookup_createFund (fun _ => 7)
  obtain ⟨f', hf', -, -, hwealth⟩ := share_price_never_falls hf hs (by decide) Sample.roundTrip
  have htotal : ((run shareStep
      (State.after ⟨fun _ => 7, id⟩ Sample.bank 0 [Sample.createFund])
      Sample.roundTrip).funds.lookup 7).map InsuranceFund.totalShare =
      some Sample.fund.totalShare := by decide +kernel
  have hsame : f'.totalShare = Sample.fund.totalShare := by
    rw [show (run shareStep
      (State.after ⟨fun _ => 7, id⟩ Sample.bank 0 [Sample.createFund])
      Sample.roundTrip).funds.lookup 7 = some f' from hf'] at htotal
    exact Option.some.inj htotal
  exact ⟨f', hf', hsame, hwealth Sample.alice Sample.roundTrip_isOf hsame⟩

namespace Sample

/-- A fund whose deposits are shares of the first fund. -/
def raidedMarket : MarketSpec := { fundMarket with quoteDenom := "share1" }

/-- The market that is launched on it. -/
def raidingMarket : MarketSpec := { market with ticker := "Xshare1" }

def raidBank : Bank := credit Sample.bank exchangeModule "factory/inj1a/usd" (10 ^ 15)

/-- Both funds are created, and a surplus of the market is paid into the second one. It is
    counted as shares of the first fund, so that the account pays its redemption with shares
    that the protocol owns. -/
def raid : List (Op LegacyDec) :=
  [createFund, .createInsuranceFund ⟨0, true, true⟩ ⟨alice, raidedMarket, ⟨"share1", 1⟩⟩,
    .moveCoinsIntoInsuranceFund true raidingMarket (10 ^ 15),
    .requestInsuranceFundRedemption true block alice (raidedMarket.marketID ⟨textValue, id⟩)
      ⟨"share2", 99 * 10 ^ 16⟩,
    .withdrawAllMaturedRedemptions { block with blockTime := 2 }]

/-- The shares are redeemed. -/
def redeemRaided : List (ShareOp LegacyDec) :=
  [.request true block alice (fundMarket.marketID ⟨textValue, id⟩) ⟨"share1", 9905 * 10 ^ 14⟩,
    .process block ⟨2, fundMarket.marketID ⟨textValue, id⟩, alice, 1,
      ⟨"share1", 9905 * 10 ^ 14⟩⟩]

end Sample

/-- After a payment in another denom, users redeem shares of the protocol: a fund with a
    balance of 100 is left with fewer shares than the protocol owns of it. -/
theorem protocol_shares_redeemed :
    ((State.after ⟨Sample.textValue, id⟩ Sample.raidBank 0 Sample.raid).funds.lookup
        (Sample.fundMarket.marketID ⟨Sample.textValue, id⟩)).map
          (fun f => (f.balance, f.totalShare)) = some (100, 10 ^ 18) ∧
    ((run shareStep (State.after ⟨Sample.textValue, id⟩ Sample.raidBank 0 Sample.raid)
        Sample.redeemRaided).funds.lookup
        (Sample.fundMarket.marketID ⟨Sample.textValue, id⟩)).map
          (fun f => (f.balance, f.totalShare)) = some (2, 95 * 10 ^ 14) ∧
    95 * 10 ^ 14 < insuranceFundProtocolOwnedLiquiditySupply := by
  refine ⟨?_, ?_, ?_⟩
  · decide +kernel
  · decide +kernel
  · decide

end Insurance
