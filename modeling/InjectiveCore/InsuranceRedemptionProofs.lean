import InjectiveCore.InsuranceSolvencyProofs

/-!
# Redemptions, and whole runs of the insurance module

A redemption takes locked shares out of the account and out of the supply, and coins out
of the account or into a voucher. If settling fails, the shares stay where they are, and
move from a pending to a failed schedule. `Sound.processRedemption` says that either way
nothing is left over or missing, `Sound.withdrawAllMaturedRedemptions` says it of the loop
over all matured schedules.

`Sound.step` collects what every operation does, and `solvency_kept_iff` is the result about
every run. `Sample` is a run in which the slack is not kept.
-/

namespace Insurance

open KeyedStore BalanceSheet Transition Vouchers DecArith

variable {D : Type} [DecArith D] {b b' : Bank} {s s' : State} {m : Hash} {f : InsuranceFund}

/-! ## Settling -/

theorem safeMul_some {x y z : ℤ} (h : safeMul x y = some z) : z = x * y := by
  rw [safeMul] at h
  split at h
  · exact (Option.some.inj h).symm
  · cases h

theorem truncateInt_redeemableBalance {marketBalance : D}
    (h : 0 ≤ redeemableBalance marketBalance f) :
    0 ≤ truncateInt (redeemableBalance marketBalance f) ∧
      truncateInt (redeemableBalance marketBalance f) ≤ f.balance := by
  have hle : redeemableBalance marketBalance f ≤ newDec f.balance := by
    rw [redeemableBalance]
    split
    · next hneg => exact add_le_of_nonpos_right hneg.le
    · exact le_rfl
  have hcut := ceilInt_le _ _ ((newDec_truncateInt_le h).trans hle)
  rw [ceilInt_newDec] at hcut
  exact ⟨truncateInt_nonneg h, hcut⟩

/-- A redemption is nothing, or the shares' part of a balance that is within the fund's. -/
theorem getRedemptionAmountFromShare_cases (marketBalance : D) (f : InsuranceFund) (n : ℕ) :
    getRedemptionAmountFromShare marketBalance f n = 0 ∨
      ∃ t, 0 ≤ t ∧ t ≤ f.balance ∧ f.totalShare ≠ 0 ∧
        getRedemptionAmountFromShare marketBalance f n = n * t / f.totalShare := by
  rw [getRedemptionAmountFromShare]
  split
  · exact .inl rfl
  next hfund =>
  split
  · exact .inl rfl
  next htotal =>
  split
  · exact .inl rfl
  next product hproduct =>
  obtain ⟨htrunc, hle⟩ := truncateInt_redeemableBalance (not_lt.mp hfund)
  refine .inr ⟨_, htrunc, hle, htotal, ?_⟩
  rw [safeMul_some hproduct]
  exact Int.tdiv_eq_ediv_of_nonneg (mul_nonneg (Int.natCast_nonneg n) htrunc)

theorem getRedemptionAmountFromShare_nonneg (marketBalance : D) (n : ℕ)
    (hshare : 0 ≤ f.totalShare) : 0 ≤ getRedemptionAmountFromShare marketBalance f n := by
  rcases getRedemptionAmountFromShare_cases marketBalance f n with h | ⟨t, ht, -, -, h⟩
  · exact h.ge
  · rw [h]
    exact Int.ediv_nonneg (mul_nonneg (Int.natCast_nonneg n) ht) hshare

/-- **ROUNDING** is down: a redemption is at most the fund's part of the shares. -/
theorem getRedemptionAmountFromShare_mul_le (marketBalance : D) (n : ℕ)
    (hbalance : 0 ≤ f.balance) :
    getRedemptionAmountFromShare marketBalance f n * f.totalShare ≤ n * f.balance := by
  have hn : (0 : ℤ) ≤ n := Int.natCast_nonneg n
  rcases getRedemptionAmountFromShare_cases marketBalance f n with h | ⟨t, -, hle, hne, h⟩
  · rw [h, zero_mul]
    exact mul_nonneg hn hbalance
  · rw [h]
    exact (Int.ediv_mul_le _ hne).trans (mul_le_mul_of_nonneg_left hle hn)

theorem getRedemptionAmountFromShare_le_balance (marketBalance : D) {n : ℕ}
    (hbalance : 0 ≤ f.balance) (hn : n ≤ f.totalShare) :
    getRedemptionAmountFromShare marketBalance f n ≤ f.balance := by
  rcases getRedemptionAmountFromShare_cases marketBalance f n with h | ⟨t, -, -, hne, -⟩
  · exact h.le.trans hbalance
  · have hpos : 0 < f.totalShare :=
      lt_of_le_of_ne ((Int.natCast_nonneg n).trans hn) (Ne.symm hne)
    refine le_of_mul_le_mul_right ?_ hpos
    calc getRedemptionAmountFromShare marketBalance f n * f.totalShare
        ≤ n * f.balance := getRedemptionAmountFromShare_mul_le marketBalance n hbalance
      _ ≤ f.totalShare * f.balance := mul_le_mul_of_nonneg_right hn hbalance
      _ = f.balance * f.totalShare := mul_comm _ _

theorem payRedemption_ok {payout : Delivery} {v v' : VoucherStore} {u : AccAddress} {d₀ : Denom}
    {x : ℤ} (h : payRedemption payout b v u d₀ x = .ok (b', v')) :
    (x ≤ 0 ∧ b' = b ∧ v' = v) ∨
      (0 < x ∧ v' = v ∧ ∃ dst, (dst = .address u ∨ dst = permissionsModule) ∧
        transfer b insuranceModule dst d₀ x.toNat = some b') ∨
      0 < x ∧ b' = b ∧ addVoucher v u ⟨d₀, x.toNat⟩ = .ok v' := by
  rw [payRedemption] at h
  split at h
  · next hx =>
    obtain ⟨rfl, rfl⟩ := Prod.mk.inj (Except.ok.inj h)
    exact .inl ⟨hx, rfl, rfl⟩
  next hx =>
  split at h
  · next b₁ hsend =>
    obtain ⟨rfl, rfl⟩ := Prod.mk.inj (Except.ok.inj h)
    exact .inr (.inl ⟨not_le.mp hx, rfl, Delivery.send_some hsend⟩)
  · split at h
    · next v₁ hv =>
      obtain ⟨rfl, rfl⟩ := Prod.mk.inj (Except.ok.inj h)
      exact .inr (.inr ⟨not_le.mp hx, rfl, hv⟩)
    · cases h

theorem payRedemption_moves {payout : Delivery} {v v' : VoucherStore} {u : AccAddress}
    {d₀ : Denom} {x : ℤ} (hx : 0 ≤ x) (h : payRedemption payout b v u d₀ x = .ok (b', v')) :
    (∀ d, supply b' d = supply b d) ∧
      ∀ d, (balance b' insuranceModule d : ℤ) - outstanding v' d =
        balance b insuranceModule d - outstanding v d - amountIn d₀ x d := by
  have hcast : ((x.toNat : ℕ) : ℤ) = x := Int.toNat_of_nonneg hx
  rcases payRedemption_ok h with ⟨hzero, rfl, rfl⟩ | ⟨-, rfl, dst, hdst, hsend⟩ | ⟨-, rfl, hv⟩
  · obtain rfl : x = 0 := le_antisymm hzero hx
    refine ⟨fun _ => rfl, ?_⟩
    intro d
    rw [amountIn_zero, sub_zero]
  · refine ⟨supply_transfer hsend, ?_⟩
    intro d
    have hne : dst ≠ insuranceModule := by
      rcases hdst with rfl | rfl
      · exact address_ne_insuranceModule u
      · decide
    rw [(transfer_moves_out hne hsend).held d, hcast]
    ring
  · refine ⟨fun _ => rfl, ?_⟩
    intro d
    rw [outstanding_addVoucher hv, Nat.cast_add, cast_inDenom, hcast]
    ring

/-- What settling does: shares of a fund that was refreshed are burned for nothing, others
    at the price of the fund. -/
theorem settleRedemption_ok {env : BlockEnv D} {r : RedemptionSchedule}
    (h : settleRedemption env f r s = .ok s') :
    (f.shareDenom ≠ r.redemptionAmount.denom ∧ ∃ bank,
        burnCoins s.bank r.redemptionAmount = .ok bank ∧ s' = { s with bank := bank }) ∨
      f.shareDenom = r.redemptionAmount.denom ∧ ∃ bank₁ bank₂ v,
        payRedemption (env.payout r.id) s.bank s.vouchers r.redeemer f.depositDenom
          (getRedemptionAmountFromShare (env.marketBalance r.marketId) f
            r.redemptionAmount.amount) = .ok (bank₁, v) ∧
        burnCoins bank₁ ⟨f.shareDenom, r.redemptionAmount.amount⟩ = .ok bank₂ ∧
        s' = { s with
          bank := bank₂
          vouchers := v
          funds := put r.marketId (some { f with
            totalShare := f.totalShare - r.redemptionAmount.amount
            balance := f.balance - getRedemptionAmountFromShare (env.marketBalance r.marketId) f
              r.redemptionAmount.amount }) s.funds } := by
  rw [settleRedemption] at h
  split at h
  · next hdenom =>
    obtain ⟨bank, hburn, h⟩ := exists_of_bind_eq_ok h
    exact .inl ⟨hdenom, bank, hburn, (Except.ok.inj h).symm⟩
  · next hdenom =>
    obtain ⟨⟨bank₁, v⟩, hpay, h⟩ := exists_of_bind_eq_ok h
    obtain ⟨⟨bank₂, fund⟩, hshares, h⟩ := exists_of_bind_eq_ok h
    obtain ⟨rfl, hburn⟩ := burnShareTokens_ok hshares
    exact .inr ⟨not_not.mp hdenom, bank₁, bank₂, v, hpay, hburn, (Except.ok.inj h).symm⟩

/-- **SETTLING** takes the shares of the schedule out of the account, and nothing else that
    is not owed. -/
theorem Sound.settleRedemption (hs : Sound s) {env : BlockEnv D} {r : RedemptionSchedule}
    (hf : s.funds.lookup r.marketId = some f)
    (hissued : Issued s.nextShareDenomId r.redemptionAmount.denom)
    (howner : ∀ m f, s.funds.lookup m = some f →
      f.shareDenom = r.redemptionAmount.denom → m = r.marketId)
    (h : settleRedemption env f r s = .ok s') :
    Sound s' ∧ ∀ d, slack s' d = slack s d -
      amountIn r.redemptionAmount.denom r.redemptionAmount.amount d := by
  rcases settleRedemption_ok h with ⟨hne, bank, hburn, rfl⟩ |
    ⟨hdenom, bank₁, bank₂, v, hpay, hburn, rfl⟩
  · obtain ⟨-, hmoves⟩ := burnCoins_moves hburn
    have hsupply : ∀ d, d ≠ r.redemptionAmount.denom → supply bank d = supply s.bank d := by
      intro d hd
      have h := hmoves.supply d
      simp only [amountIn_of_ne hd, neg_zero, add_zero] at h
      exact Nat.cast_inj.mp h
    constructor
    · refine hs.withBank s.vouchers ?_ ?_
      · intro m f' hf'
        refine hsupply _ ?_
        intro heq
        -- the schedule's denom would be the current one of its own fund
        obtain rfl := howner m f' hf' heq
        obtain rfl : f' = f := Option.some.inj (hf'.symm.trans hf)
        exact hne heq
      · exact fun i hi => hsupply _ (hissued.ne_of_le hi).symm
    · intro d
      simp only [slack, hmoves.held d]
      ring
  · have hshare : 0 ≤ f.totalShare := by
      rw [hs.shares _ f hf]
      exact Int.natCast_nonneg _
    have hredeem : 0 ≤ getRedemptionAmountFromShare (env.marketBalance r.marketId) f
        r.redemptionAmount.amount := getRedemptionAmountFromShare_nonneg _ _ hshare
    obtain ⟨hsupply, hheld⟩ := payRedemption_moves hredeem hpay
    obtain ⟨hburned, hmoves⟩ := burnCoins_moves hburn
    have hn : (r.redemptionAmount.amount : ℤ) ≤ f.totalShare := by
      rw [hs.shares _ f hf, ← hsupply]
      exact Nat.cast_le.mpr (hburned.trans (balance_le_supply bank₁ _ _))
    constructor
    · refine hs.putFund hf v rfl rfl (sub_nonneg.mpr
        (getRedemptionAmountFromShare_le_balance _ (hs.nonneg _ f hf) hn)) ?_
      intro d
      rw [hmoves.supply, hsupply, amountIn_sub, sub_sub_cancel_left]
    · intro d
      have hd := hheld d
      simp only [slack, hmoves.held d, funded_put hf, amountIn_sub, ← hdenom]
      linarith

/-! ## Processing -/

/-- **PROCESSING A SCHEDULE** that is stored leaves the slack, settled or not. -/
theorem Sound.processRedemption (hs : Sound s) {env : BlockEnv D} {r : RedemptionSchedule}
    (hr : s.schedules.lookup r.key = some r) (h : processRedemption env r s = .ok s') :
    Keeps s s' ∧ s'.schedules = put r.key none s.schedules := by
  rw [Insurance.processRedemption] at h
  split at h
  · cases h
  next f hf =>
  have hdeleted := hs.deleteRedemptionSchedule r
  have hlocked := locked_delete hr
  split at h
  · next s₁ hsettle =>
    obtain rfl : s₁ = s' := Except.ok.inj h
    obtain ⟨hsound, hslack⟩ := hdeleted.settleRedemption hf (hs.scheduled _ r hr)
      (fun m f' hf' => hs.owner _ r m f' hr hf') hsettle
    refine ⟨⟨hsound, ?_⟩, ?_⟩
    · intro d
      rw [hslack]
      simp only [slack, Insurance.deleteRedemptionSchedule, hlocked]
      ring
    · rcases settleRedemption_ok hsettle with ⟨-, bank, -, rfl⟩ | ⟨-, bank₁, bank₂, v, -, -, rfl⟩
      · rfl
      · rfl
  · obtain rfl := Except.ok.inj h
    refine ⟨⟨?_, ?_⟩, rfl⟩
    · refine { hdeleted with failed := ?_ }
      intro i hi
      have hlt : s.nextFailedRedemptionScheduleId + 1 ≤ i := hi
      rw [lookup_put, if_neg (by omega)]
      exact hs.failed i (Nat.le_of_succ_le hlt)
    · intro d
      have hfailed := locked_put_new (hs.failed _ (Nat.le_refl _)) r d
      simp only [slack, Insurance.deleteRedemptionSchedule, hlocked, hfailed]
      ring

theorem Sound.nodup_redemptionSchedules (hs : Sound s) :
    ((redemptionSchedules s).map RedemptionSchedule.key).Nodup := by
  have hperm := ((List.perm_insertionSort (fun a b : RedemptionSchedule =>
    a.claimableRedemptionTime < b.claimableRedemptionTime ∨
      a.claimableRedemptionTime = b.claimableRedemptionTime ∧ a.id ≤ b.id)
    (s.schedules.entries.map (fun e => e.2))).map RedemptionSchedule.key)
  rw [redemptionSchedules, hperm.nodup_iff, List.map_map]
  have hkeys : s.schedules.entries.map (RedemptionSchedule.key ∘ fun e => e.2) =
      s.schedules.entries.keys := by
    refine List.map_congr_left ?_
    intro e he
    exact ((hs.keyed e.1 e.2 (mem_entries_iff.mp he)).1).symm
  rw [hkeys]
  exact s.schedules.nodupKeys

theorem Keeps.trans {s₁ s₂ s₃ : State} (h : Keeps s₁ s₂) (h' : Keeps s₂ s₃) : Keeps s₁ s₃ :=
  ⟨h'.sound, fun d => (h'.slack d).trans (h.slack d)⟩

/-- The loop over schedules that are stored, by induction on those still to be processed:
    one that is processed does not touch the others. -/
theorem Sound.run_processRedemption (hs : Sound s) (env : BlockEnv D)
    {rest : List RedemptionSchedule} (hrest : ∀ r ∈ rest, s.schedules.lookup r.key = some r)
    (hnodup : (rest.map RedemptionSchedule.key).Nodup) :
    Keeps s (run (Insurance.processRedemption env) s rest) := by
  induction rest generalizing s with
  | nil => exact ⟨hs, fun _ => rfl⟩
  | cons r rest ih =>
    rw [List.map_cons, List.nodup_cons] at hnodup
    have htail := fun r' hr' => hrest r' (List.mem_cons_of_mem r hr')
    show Keeps s (run _ (attempt _ s r) rest)
    rw [attempt]
    split
    · next s₁ h =>
      obtain ⟨hkeeps, hschedules⟩ := hs.processRedemption (hrest r List.mem_cons_self) h
      refine hkeeps.trans (ih hkeeps.sound ?_ hnodup.2)
      intro r' hr'
      rw [hschedules, lookup_put, if_neg, htail r' hr']
      intro heq
      exact hnodup.1 (heq ▸ List.mem_map_of_mem hr')
    · exact ih hs htail hnodup.2

theorem Sound.withdrawAllMaturedRedemptions (hs : Sound s) (env : BlockEnv D) :
    Keeps s (withdrawAllMaturedRedemptions env s) := by
  refine hs.run_processRedemption env ?_ ?_
  · intro r hr
    exact hs.lookup_of_mem (List.mem_filter.mp hr).1
  · exact hs.nodup_redemptionSchedules.sublist (List.filter_sublist.map _)

/-! ## Requests -/

theorem Sound.setRedemptionSchedule_slack (hs : Sound s) {r : RedemptionSchedule}
    (hnew : ∀ k r', s.schedules.lookup k = some r' → r'.id ≠ r.id) (d : Denom) :
    slack (Insurance.setRedemptionSchedule r s) d = slack s d -
      amountIn r.redemptionAmount.denom r.redemptionAmount.amount d := by
  have hlocked := hs.locked_setRedemptionSchedule hnew d
  rw [slack, hlocked, slack]
  simp only [Insurance.setRedemptionSchedule]
  ring

/-- What scheduling a redemption does: the shares are locked under the schedule's key, with
    those of a schedule it is merged with. -/
theorem Sound.scheduleRedemption (hs : Sound s) {sender : AccAddress} {shares : Coin}
    {claimTime : ℤ} (hf : s.funds.lookup m = some f) (hdenom : shares.denom = f.shareDenom)
    {r : RedemptionSchedule} (h : scheduleRedemption s sender m shares claimTime = (r, s')) :
    Sound s' ∧ s'.schedules.lookup r.key = some r ∧
      ∀ d, slack s' d = slack s d - amountIn shares.denom shares.amount d := by
  rw [Insurance.scheduleRedemption] at h
  split at h
  · next existing hfind =>
    rw [Option.filter_eq_some_iff] at hfind
    obtain ⟨hfind, hbatch⟩ := hfind
    rw [beq_iff_eq] at hbatch
    have hexisting := hs.lookup_of_mem (List.mem_of_find?_eq_some hfind)
    have hdeleted := hs.deleteRedemptionSchedule existing
    obtain ⟨hr, hstate⟩ := Prod.mk.inj h
    rw [hr] at hstate
    subst hstate
    have hmarket : s.funds.lookup r.marketId = some f := by
      rw [← hr]
      exact hf
    -- without the schedule that is replaced, its id is free again
    have hnew : ∀ k r', (Insurance.deleteRedemptionSchedule existing s).schedules.lookup k =
        some r' → r'.id ≠ r.id := by
      intro k r' hr' hid
      obtain ⟨hk, hr'⟩ := lookup_put_none_cases hr'
      rw [← hr] at hid
      exact hk (hs.unique k r' _ existing hr' hexisting hid)
    refine ⟨?_, ?_, ?_⟩
    · refine hdeleted.setRedemptionSchedule hmarket ?_ ?_ hnew
      · rw [← hr]
        exact hdenom
      · rw [← hr]
        exact (hs.keyed _ _ hexisting).2
    · rw [Insurance.setRedemptionSchedule, lookup_put, if_pos rfl]
    · intro d
      have hlocked := locked_delete hexisting d
      rw [hdeleted.setRedemptionSchedule_slack hnew, slack, slack, ← hr]
      simp only [Insurance.deleteRedemptionSchedule, hlocked, hbatch, Nat.cast_add, amountIn_add]
      ring
  · obtain ⟨hr, hstate⟩ := Prod.mk.inj h
    rw [hr] at hstate
    subst hstate
    have hmarket : s.funds.lookup r.marketId = some f := by
      rw [← hr]
      exact hf
    have hnext : Sound { s with nextRedemptionScheduleId := s.nextRedemptionScheduleId + 1 } :=
      { hs with keyed := fun k r' hr' =>
          ⟨(hs.keyed k r' hr').1, Nat.lt_succ_of_lt (hs.keyed k r' hr').2⟩ }
    have hnew : ∀ k r', s.schedules.lookup k = some r' → r'.id ≠ r.id := by
      intro k r' hr' hid
      rw [← hr] at hid
      exact absurd (hs.keyed k r' hr').2 (by rw [hid]; exact lt_irrefl _)
    refine ⟨?_, ?_, ?_⟩
    · refine hnext.setRedemptionSchedule hmarket ?_ ?_ hnew
      · rw [← hr]
        exact hdenom
      · rw [← hr]
        exact Nat.lt_succ_self _
    · rw [Insurance.setRedemptionSchedule, lookup_put, if_pos rfl]
    · intro d
      rw [hnext.setRedemptionSchedule_slack hnew, ← hr]
      rfl

section Request

variable {allowed : Bool}
  {env : BlockEnv D}
  {sender : AccAddress}
  {shares : Coin}
  (h : requestInsuranceFundRedemption allowed env sender m shares s = .ok s')
include h

theorem requestInsuranceFundRedemption_ok :
    ∃ f bank r s₁, s.funds.lookup m = some f ∧ shares.denom = f.shareDenom ∧
      transfer s.bank (.address sender) insuranceModule shares.denom shares.amount = some bank ∧
      scheduleRedemption { s with bank := bank } sender m shares
        (env.blockTime + f.redemptionNoticePeriodDuration) = (r, s₁) ∧
      (processRedemption env r s₁ = .ok s' ∨ s₁ = s') := by
  rw [requestInsuranceFundRedemption] at h
  split at h
  · cases h
  next f hf =>
  split at h
  · cases h
  next hdenom =>
  obtain ⟨bank, hsend, h⟩ := exists_of_bind_eq_ok h
  refine ⟨f, bank, _, _, hf, not_not.mp hdenom, (sendCoinsFromAccountToModule_ok hsend).2, rfl, ?_⟩
  dsimp only at h
  split at h
  · exact .inl h
  · exact .inr (Except.ok.inj h)

theorem Sound.requestInsuranceFundRedemption (hs : Sound s) : Keeps s s' := by
  obtain ⟨f, bank, r, s₁, hf, hdenom, hsend, hschedule, h⟩ :=
    requestInsuranceFundRedemption_ok h
  have hbank := hs.withBank_of_supply s.vouchers (supply_transfer hsend)
  have hmoves := transfer_moves_in (address_ne_insuranceModule sender) hsend
  obtain ⟨hs₁, hr, hslack⟩ := hbank.scheduleRedemption hf hdenom hschedule
  have hkeeps : Keeps s s₁ := by
    refine ⟨hs₁, ?_⟩
    intro d
    rw [hslack]
    simp only [slack, hmoves.held d]
    ring
  rcases h with h | rfl
  · exact hkeeps.trans (hs₁.processRedemption hr h).1
  · exact hkeeps

end Request

/-! ## Runs -/

theorem Sound.claimVoucher (hs : Sound s) {allowed : Bool} {u : AccAddress} {d₀ : Denom}
    {bank : Bank} {v : VoucherStore}
    (h : Vouchers.claimVoucher "insurance" allowed s.bank s.vouchers u d₀ = .ok (bank, v)) :
    Keeps s { s with bank := bank, vouchers := v } := by
  obtain ⟨hsend, rfl⟩ := claimVoucher_spec h
  refine ⟨hs.withBank_of_supply _ (supply_transfer hsend), ?_⟩
  intro d
  have hheld := (transfer_moves_out (address_ne_insuranceModule u) hsend).held d
  have hput := outstanding_delete d₀ u s.vouchers d
  simp only [slack, hheld, ← hput, Nat.cast_add, cast_inDenom]
  ring

theorem Sound.send (hs : Sound s) {src dst : Account} {d₀ : Denom} {q : ℕ} {bank : Bank}
    (hsrc : src ≠ insuranceModule) (hdst : dst ≠ insuranceModule)
    (h : transfer s.bank src dst d₀ q = some bank) : Keeps s { s with bank := bank } := by
  refine ⟨hs.withBank_of_supply s.vouchers (supply_transfer h), ?_⟩
  intro d
  have hbal := balance_transfer h insuranceModule d
  rw [entry_of_ne hsrc.symm, entry_of_ne hdst.symm, Nat.add_zero, Nat.add_zero] at hbal
  simp only [slack, hbal]

/-- The payment of the exchange comes in the denom of the fund it is for. -/
def Matched (p : Platform) (s : State) : Op D → Prop
  | .moveCoinsIntoInsuranceFund _ market amount =>
    amount = 0 ∨ ∀ f, s.funds.lookup (market.marketID p) = some f →
      f.depositDenom = market.quoteDenom
  | _ => True

/-- **ONE OPERATION** keeps the invariant. It keeps the slack of every denom exactly when
    it is not a payment in a denom other than the fund's. -/
theorem Sound.step (hs : Sound s) {p : Platform} {op : Op D} (h : step p op s = .ok s') :
    Sound s' ∧ ((∀ d, slack s' d = slack s d) ↔ Matched p s op) := by
  have hkeeps : ∀ {P : Prop}, P → Keeps s s' →
      Sound s' ∧ ((∀ d, slack s' d = slack s d) ↔ P) :=
    fun hP hk => ⟨hk.sound, iff_of_true hk.slack hP⟩
  cases op with
  | createInsuranceFund env msg => exact hkeeps trivial (hs.createInsuranceFund h)
  | underwriteInsuranceFund env u m deposit =>
    exact hkeeps trivial (hs.underwriteInsuranceFund h)
  | requestInsuranceFundRedemption allowed env sender m shares =>
    exact hkeeps trivial (hs.requestInsuranceFundRedemption h)
  | withdrawAllMaturedRedemptions env =>
    obtain rfl := Except.ok.inj h
    exact hkeeps trivial (hs.withdrawAllMaturedRedemptions env)
  | withdrawFromInsuranceFund allowed m amount =>
    exact hkeeps trivial (hs.withdrawFromInsuranceFund h)
  | moveCoinsIntoInsuranceFund allowed market amount =>
    refine ⟨hs.moveCoinsIntoInsuranceFund h, ?_⟩
    obtain ⟨f, bank, hf, -, -⟩ := moveCoinsIntoInsuranceFund_ok h
    have hslack := slack_moveCoinsIntoInsuranceFund h hf
    constructor
    · intro hall
      by_cases hzero : amount = 0
      · exact .inl hzero
      · refine .inr ?_
        intro f' hf'
        obtain rfl : f = f' := Option.some.inj (hf.symm.trans hf')
        by_contra hne
        have hd := hslack f.depositDenom
        rw [hall, amountIn_self, amountIn_of_ne hne] at hd
        omega
    · intro hmatched d
      rw [hslack d]
      rcases hmatched with hzero | hdenom
      · rw [hzero, Nat.cast_zero, amountIn_zero, amountIn_zero, add_zero, sub_zero]
      · rw [hdenom f hf, add_sub_cancel_right]
  | claimVoucher allowed u d₀ =>
    rw [Insurance.step] at h
    split at h
    · next bank v hclaim =>
      obtain rfl := Except.ok.inj h
      exact hkeeps trivial (hs.claimVoucher hclaim)
    · cases h
  | send src dst coin =>
    rw [Insurance.step] at h
    split at h
    · cases h
    next hne =>
    split at h
    · cases h
    next bank hsend =>
    obtain rfl := Except.ok.inj h
    exact hkeeps trivial (hs.send (fun hh => hne (.inl hh)) (fun hh => hne (.inr hh)) hsend)

/-- The state after some operations. -/
def State.after (p : Platform) (bank : Bank) (duration : ℤ) (ops : List (Op D)) : State :=
  run (Insurance.step p) (State.genesis bank duration) ops

theorem Sound.after {bank : Bank} (h : ∀ i, supply bank (shareDenomFromId i) = 0)
    (p : Platform) (duration : ℤ) (ops : List (Op D)) :
    Sound (State.after p bank duration ops) :=
  run_invariant (fun _ _ _ hs hstep => (hs.step hstep).1) ops (Sound.genesis h duration)

/-- **SOLVENCY**: after any operations the total share of every fund is the supply of its
    share denom. The next operation that succeeds leaves the slack of every denom exactly
    when it is not a payment of the exchange in a denom other than the fund's. -/
theorem solvency_kept_iff (p : Platform) {bank : Bank}
    (hbank : ∀ i, supply bank (shareDenomFromId i) = 0) (duration : ℤ) (ops : List (Op D)) :
    (∀ m f, (State.after p bank duration ops).funds.lookup m = some f →
      f.totalShare = supply (State.after p bank duration ops).bank f.shareDenom) ∧
    ∀ (op : Op D) (s' : State), step p op (State.after p bank duration ops) = .ok s' →
      ((∀ d, slack s' d = slack (State.after p bank duration ops) d) ↔
        Matched p (State.after p bank duration ops) op) := by
  have hs := Sound.after hbank p duration ops
  exact ⟨hs.shares, fun op s' h => (hs.step h).2⟩

/-! ## Two markets with one id

The parts of the string that is hashed are not delimited. A fund for INJ can be created
whose id is that of a market with another quote denom: the end of the ticker and the
beginning of the oracle base take up the difference. -/

namespace Sample

def alice : AccAddress := ⟨List.replicate 20 1, by decide⟩

/-- What the fund is created for. -/
def fundMarket : MarketSpec :=
  { ticker := "X", quoteDenom := "inj", oracleBase := "factory/inj1a/usdBTC",
    oracleQuote := "USD", oracleType := .pyth, expiry := -1 }

/-- The market that is launched. -/
def market : MarketSpec :=
  { ticker := "Xinj", quoteDenom := "factory/inj1a/usd", oracleBase := "BTC",
    oracleQuote := "USD", oracleType := .pyth, expiry := -1 }

def bank : Bank :=
  credit (credit ∅ (.address alice) "inj" 1000) exchangeModule "factory/inj1a/usd" 7

def createFund : Op LegacyDec :=
  .createInsuranceFund ⟨0, true, true⟩ ⟨alice, fundMarket, ⟨"inj", 100⟩⟩

def fund : InsuranceFund :=
  { depositDenom := "inj", insurancePoolTokenDenom := "share1",
    redemptionNoticePeriodDuration := 0, balance := 100, totalShare := 10 ^ 18 }

section Hash

variable (keccak256Hash : String → Hash)

theorem marketID_ambiguous :
    market.marketID ⟨keccak256Hash, id⟩ = fundMarket.marketID ⟨keccak256Hash, id⟩ :=
  congrArg keccak256Hash rfl

theorem lookup_createFund :
    (State.after ⟨keccak256Hash, id⟩ bank 0 [createFund]).funds.lookup
      (market.marketID ⟨keccak256Hash, id⟩) = some fund := by
  have hfunds : (State.after ⟨keccak256Hash, id⟩ bank 0 [createFund]).funds =
      put (fundMarket.marketID ⟨keccak256Hash, id⟩) (some fund) ∅ := rfl
  rw [hfunds, marketID_ambiguous, lookup_put, if_pos rfl]

theorem payment_ok : ∃ s',
    moveCoinsIntoInsuranceFund ⟨keccak256Hash, id⟩ true market 5
      (State.after ⟨keccak256Hash, id⟩ bank 0 [createFund]) = .ok s' := by
  have hlookup := lookup_createFund keccak256Hash
  obtain ⟨bank', hsend⟩ : ∃ bank', sendCoinsFromModuleToModule true
      (State.after ⟨keccak256Hash, id⟩ bank 0 [createFund]).bank exchangeModule insuranceModule
      ⟨market.quoteDenom, 5⟩ = .ok bank' := ⟨_, rfl⟩
  rw [moveCoinsIntoInsuranceFund, hlookup, hsend]
  show ∃ s', depositIntoInsuranceFund (market.marketID ⟨keccak256Hash, id⟩) 5
    { State.after ⟨keccak256Hash, id⟩ bank 0 [createFund] with bank := bank' } = .ok s'
  simp only [depositIntoInsuranceFund, hlookup]
  exact ⟨_, rfl⟩

/-- The exchange pays for the market's fund in the market's denom, the fund is credited in
    INJ that is not there. -/
theorem payment_unbacked : ∃ s',
    step ⟨keccak256Hash, id⟩ (.moveCoinsIntoInsuranceFund true market 5 : Op LegacyDec)
        (State.after ⟨keccak256Hash, id⟩ bank 0 [createFund]) = .ok s' ∧
      slack s' "inj" = slack (State.after ⟨keccak256Hash, id⟩ bank 0 [createFund]) "inj" - 5 := by
  obtain ⟨s', hstep⟩ := payment_ok keccak256Hash
  refine ⟨s', hstep, ?_⟩
  rw [slack_moveCoinsIntoInsuranceFund hstep (lookup_createFund keccak256Hash)]
  have hquote : amountIn market.quoteDenom ((5 : ℕ) : ℤ) "inj" = 0 := by decide
  have hdeposit : amountIn fund.depositDenom ((5 : ℕ) : ℤ) "inj" = 5 := by decide
  rw [hquote, hdeposit, add_zero]

end Hash

/-- The text read as a number, in the place of the hash. -/
def textValue (text : String) : Hash :=
  BitVec.ofNat 256 (text.toList.foldl (fun n c => 256 * n + c.toNat) 0)

theorem payment_breaks_solvency : ∃ s',
    step ⟨textValue, id⟩ (.moveCoinsIntoInsuranceFund true market 5 : Op LegacyDec)
        (State.after ⟨textValue, id⟩ bank 0 [createFund]) = .ok s' ∧
      slack s' "inj" = slack (State.after ⟨textValue, id⟩ bank 0 [createFund]) "inj" - 5 :=
  payment_unbacked textValue

theorem supply_bank (i : ℕ) : supply bank (shareDenomFromId i) = 0 := by
  have hfirst : (shareDenomFromId i).toList.head? = some 's' := by
    rw [shareDenomFromId, String.toList_append]
    rfl
  have hne : ∀ d : Denom, d.toList.head? ≠ some 's' → shareDenomFromId i ≠ d := by
    intro d hd heq
    exact hd (heq ▸ hfirst)
  rw [bank, supply_credit, supply_credit, inDenom_of_ne (hne "inj" (by decide)),
    inDenom_of_ne (hne "factory/inj1a/usd" (by decide))]
  rfl

end Sample

/-- The payment is a step of a run. -/
theorem solvency_kept_iff_payment : (∀ i, supply Sample.bank (shareDenomFromId i) = 0) ∧
    ∃ s', step ⟨fun _ => 7, id⟩ (.moveCoinsIntoInsuranceFund true Sample.market 5 : Op LegacyDec)
        (State.after ⟨fun _ => 7, id⟩ Sample.bank 0 [Sample.createFund]) = .ok s' ∧
      ((∀ d, slack s' d =
          slack (State.after ⟨fun _ => 7, id⟩ Sample.bank 0 [Sample.createFund]) d) ↔
        Matched ⟨fun _ => 7, id⟩
          (State.after ⟨fun _ => 7, id⟩ Sample.bank 0 [Sample.createFund])
          (.moveCoinsIntoInsuranceFund true Sample.market 5 : Op LegacyDec)) := by
  obtain ⟨s', hstep⟩ := Sample.payment_ok (fun _ => 7)
  exact ⟨Sample.supply_bank, s', hstep,
    (solvency_kept_iff ⟨fun _ => 7, id⟩ Sample.supply_bank 0 [Sample.createFund]).2 _ s' hstep⟩

end Insurance
