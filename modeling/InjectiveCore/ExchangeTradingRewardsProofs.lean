import InjectiveCore.DecArithProofs
import InjectiveCore.KeyedStoreProofs
import InjectiveCore.TransitionProofs

/-!
# Trading rewards — payouts of a campaign pool

When a campaign has vested, its reward coins are moved out of the community pool
(`getAvailableRewardsToPayout`) and shared among the accounts in proportion to their points
(`distributeTradingRewardsForAllAccounts`). A share is a quotient that is rounded to 18
digits, possibly **up**, and then cut off to an integer.

- `reward_bounds`: a reward exceeds the exact share by at most half a digit, and never its
  ceiling. Capping a reward in INJ by the stake only lowers it (`accountReward_le`).
- `rewards_within_pool`: half a digit for each of fewer than `10 ^ 18` accounts is less than
  one coin, so together they are paid no more than was moved out.
-/

namespace ExchangeTradingRewards

open DecArith KeyedStore Transition

abbrev AccAddress := BitVec 160

structure Coin where
  denom : String
  amount : ℤ
  deriving DecidableEq

/-- `sdk.Coins`: one coin of a denom, no amount is negative. -/
structure Coins where
  coins : List Coin
  nodup : (coins.map (·.denom)).Nodup
  nonneg : ∀ c ∈ coins, 0 ≤ c.amount

/-- The community pool, `sdk.DecCoins`. -/
structure CommunityPool where
  amountOf : String → LegacyDec
  nonneg : ∀ denom, 0 ≤ amountOf denom

/-- `TradingRewardAccountPoints`. -/
structure TradingRewardAccountPoints where
  account : AccAddress
  points : LegacyDec

def injectiveCoin : String := "inj"

section CommunityPool

variable (communityPool : CommunityPool) (distributed : String → Bool)

/-- One coin of `getAvailableRewardsToPayout`. `distributed` is whether
    `DistributeFromFeePool` succeeds. -/
def moveReward (available : Store String ℤ) (rewardCoin : Coin) : Store String ℤ :=
  let amountInPool := communityPool.amountOf rewardCoin.denom
  let totalReward := truncateInt (min (newDec rewardCoin.amount) amountInPool)
  if distributed rewardCoin.denom then put rewardCoin.denom (some totalReward) available
  else available

/-- `getAvailableRewardsToPayout`: the coins moved out of the pool, for each denom. -/
def getAvailableRewardsToPayout (maxCampaignRewards : Coins) : Store String ℤ :=
  maxCampaignRewards.coins.foldl (moveReward communityPool distributed) ∅

end CommunityPool

/-- What the distribution reads besides the pool. -/
structure RewardEnv where
  injRewardStakedRequirementThreshold : ℤ
  calculateStakedAmountWithoutCache : AccAddress → ℤ

inductive RewardError where
  /-- The sign of a missing `math.Int` is taken, which panics. -/
  | nilInt
  deriving DecidableEq

section Distribution

variable (env : RewardEnv) (availableRewardsToPayout : Store String ℤ)

/-- The reward of an account in one denom. In INJ, what exceeds the threshold is capped by
    the stake. -/
def accountReward (accountPoints : TradingRewardAccountPoints) (totalPoints : LegacyDec)
    (denom : String) (availableRewardForDenom : ℤ) : ℤ :=
  let amount :=
    truncateInt (quo (mul accountPoints.points (newDec availableRewardForDenom)) totalPoints)
  let threshold := env.injRewardStakedRequirementThreshold
  if denom = injectiveCoin ∧ threshold < amount then
    max threshold (min amount (env.calculateStakedAmountWithoutCache accountPoints.account))
  else amount

/-- `distributeTradingRewardsForAccount`: the coins sent to one account. -/
def distributeTradingRewardsForAccount (accountPoints : TradingRewardAccountPoints)
    (totalPoints : LegacyDec) : List Coin → Except RewardError (List Coin)
  | [] => .ok []
  | coin :: rest =>
    match availableRewardsToPayout.lookup coin.denom with
    | none => .error .nilInt
    | some available => do
      let rewards ← distributeTradingRewardsForAccount accountPoints totalPoints rest
      .ok (if 0 < available then
        ⟨coin.denom, accountReward env accountPoints totalPoints coin.denom available⟩ :: rewards
        else rewards)

/-- The sum of `GetAllAccountCampaignTradingRewardPendingPointsWithTotalPointsForPool`. -/
def totalPoints (allAccountPoints : List TradingRewardAccountPoints) : LegacyDec :=
  (allAccountPoints.map (·.points)).sum

/-- `distributeTradingRewardsForAllAccounts`: the coins sent to every account. -/
def distributeTradingRewardsForAllAccounts (maxCampaignRewards : Coins)
    (allAccountPoints : List TradingRewardAccountPoints) : Except RewardError (List (List Coin)) :=
  if 0 < totalPoints allAccountPoints then
    allAccountPoints.mapM (fun accountPoints =>
      distributeTradingRewardsForAccount env availableRewardsToPayout accountPoints
        (totalPoints allAccountPoints) maxCampaignRewards.coins)
  else .ok []

end Distribution

/-- `Coins.AmountOf`. -/
def amountOf (coins : List Coin) (denom : String) : ℤ :=
  ((coins.filter (·.denom = denom)).map (·.amount)).sum

/-! ## One share -/

variable {env : RewardEnv} {a : TradingRewardAccountPoints} {total : LegacyDec} {available : ℤ}

/-- **ONE SHARE**: half a digit above the exact share at most, and not above its ceiling. -/
theorem reward_bounds (hpoints : 0 ≤ a.points) (htotal : 0 < total) (havailable : 0 ≤ available) :
    let reward := truncateInt (quo (mul a.points (newDec available)) total)
    reward * (2 * LegacyDec.precision * total.raw) ≤
        2 * LegacyDec.precision * (a.points.raw * available) + total.raw ∧
      reward ≤ ⌈(a.points.raw * available : ℚ) / total.raw⌉ := by
  intro reward
  have hp : 0 ≤ a.points.raw := hpoints
  have ht : 0 < total.raw := htotal
  have hP : (0 : ℤ) < LegacyDec.precision := by decide
  -- the quotient before its surplus digits are rounded off
  set q := (a.points.raw * available * LegacyDec.precision * LegacyDec.precision).tdiv total.raw
    with hq
  have hshare : 0 ≤ a.points.raw * available := mul_nonneg hp havailable
  have hmul : mul a.points (newDec available) = ⟨a.points.raw * available⟩ := by
    rw [mul_newDec]
    ext
    rw [LegacyDec.raw_zsmul, mul_comm]
  have hq0 : 0 ≤ q := Int.tdiv_nonneg (by positivity) ht.le
  have hround : 0 ≤ quo (mul a.points (newDec available)) total := by
    rw [LegacyDec.le_iff_raw, LegacyDec.raw_quo, hmul]
    exact HalfEven.chopAndRound_nonneg hq0 _
  have hcut : reward * LegacyDec.precision ≤ HalfEven.chopAndRound q LegacyDec.precision := by
    have hle := newDec_truncateInt_le hround
    rwa [LegacyDec.le_iff_raw, LegacyDec.raw_newDec, LegacyDec.raw_quo, congrArg LegacyDec.raw hmul]
      at hle
  have hqt : q * total.raw ≤
      a.points.raw * available * LegacyDec.precision * LegacyDec.precision := by
    rw [hq, Int.tdiv_eq_ediv_of_nonneg (by positivity)]
    exact Int.ediv_mul_le _ ht.ne'
  constructor
  · have hhalf := HalfEven.two_mul_chopAndRound_le hq0 LegacyDec.precision
    have hdigits : reward * (2 * LegacyDec.precision * LegacyDec.precision) ≤
        2 * q + LegacyDec.precision := by
      linarith [mul_le_mul_of_nonneg_right hcut hP.le]
    refine le_of_mul_le_mul_right ?_ hP
    nlinarith [mul_le_mul_of_nonneg_right hdigits ht.le]
  · refine Int.le_ceil_iff.mpr ?_
    by_contra hlt
    -- otherwise the share is at most the integer below the reward
    have hle : a.points.raw * available ≤ (reward - 1) * total.raw := by
      rw [not_lt, div_le_iff₀ (by exact_mod_cast ht)] at hlt
      exact_mod_cast hlt
    have hqle : q ≤ (reward - 1) * LegacyDec.precision * LegacyDec.precision := by
      refine le_of_mul_le_mul_right (hqt.trans ?_) ht
      nlinarith [mul_le_mul_of_nonneg_right hle (mul_pos hP hP).le]
    have hmono := HalfEven.chopAndRound_mono LegacyDec.precision hqle
    rw [HalfEven.chopAndRound_mul LegacyDec.precision_pos] at hmono
    linarith

theorem accountReward_le (denom : String) :
    accountReward env a total denom available ≤
      truncateInt (quo (mul a.points (newDec available)) total) := by
  rw [accountReward]
  split
  · next h => exact max_le h.2.le (min_le_left _ _)
  · exact le_refl _

/-! ## One account -/

/-- What an account is paid in a denom. -/
def payment (env : RewardEnv) (available : Store String ℤ) (total : LegacyDec) (denom : String)
    (a : TradingRewardAccountPoints) : ℤ :=
  if 0 < (available.lookup denom).getD 0 then
    accountReward env a total denom ((available.lookup denom).getD 0)
  else 0

variable {store : Store String ℤ} {denom : String}

theorem amountOf_cons (c : Coin) (cs : List Coin) :
    amountOf (c :: cs) denom = (if c.denom = denom then c.amount else 0) + amountOf cs denom := by
  by_cases h : c.denom = denom
  · rw [amountOf, List.filter_cons_of_pos (by simpa using h), List.map_cons, List.sum_cons,
      if_pos h]
    rfl
  · rw [amountOf, List.filter_cons_of_neg (by simpa using h), if_neg h, zero_add]
    rfl

/-- Every coin of a set is paid out once. -/
theorem amountOf_distributed {coins rewards : List Coin} (hnodup : (coins.map (·.denom)).Nodup)
    (h : distributeTradingRewardsForAccount env store a total coins = .ok rewards) :
    amountOf rewards denom =
      if denom ∈ coins.map (·.denom) then payment env store total denom a else 0 := by
  induction coins generalizing rewards with
  | nil =>
    cases h
    rfl
  | cons c cs ih =>
    rw [List.map_cons, List.nodup_cons] at hnodup
    rw [distributeTradingRewardsForAccount] at h
    split at h
    · cases h
    next x hx =>
    obtain ⟨rest, hrest, h⟩ := exists_of_bind_eq_ok h
    have hpaid : payment env store total c.denom a =
        if 0 < x then accountReward env a total c.denom x else 0 := by
      rw [payment, hx, Option.getD_some]
    have hhead : amountOf rewards denom =
        (if c.denom = denom then payment env store total c.denom a else 0) +
          amountOf rest denom := by
      rw [← Except.ok.inj h, hpaid]
      by_cases hpos : 0 < x
      · rw [if_pos hpos, if_pos hpos, amountOf_cons]
      · rw [if_neg hpos, if_neg hpos, ite_self, zero_add]
    rw [hhead, ih hnodup.2 hrest, List.map_cons]
    by_cases hdenom : c.denom = denom
    · subst hdenom
      rw [if_pos rfl, if_neg hnodup.1, if_pos List.mem_cons_self, add_zero]
    · rw [if_neg hdenom, zero_add]
      exact if_congr (List.mem_cons.trans (or_iff_right (Ne.symm hdenom))).symm rfl rfl

/-! ## The coins moved out -/

variable {communityPool : CommunityPool} {distributed : String → Bool}
  {maxCampaignRewards : Coins}

theorem available_nonneg {x : ℤ}
    (h : (getAvailableRewardsToPayout communityPool distributed maxCampaignRewards).lookup denom =
      some x) : 0 ≤ x := by
  refine List.foldlRecOn maxCampaignRewards.coins _
    (motive := fun m : Store String ℤ => ∀ d x, m.lookup d = some x → 0 ≤ x) ?_ ?_ denom x h
  · intro d x hx
    cases hx
  · intro m hm c hc
    rw [moveReward]
    split
    · refine forall_lookup_put hm ?_
      refine truncateInt_nonneg (le_min ?_ (communityPool.nonneg _))
      exact newDec_nonneg (maxCampaignRewards.nonneg c hc)
    · exact hm

/-! ## All accounts -/

section AllAccounts

variable {accounts : List TradingRewardAccountPoints}

/-- **ALL SHARES**: fewer than `10 ^ 18` half digits are less than one coin. -/
theorem sum_rewards_le (hlen : accounts.length < LegacyDec.precision)
    (hpoints : ∀ a ∈ accounts, 0 ≤ a.points) (htotal : 0 < totalPoints accounts)
    (havailable : 0 ≤ available) :
    (accounts.map fun a => accountReward env a (totalPoints accounts) denom available).sum ≤
      available := by
  have ht : 0 < (totalPoints accounts).raw := htotal
  have hP : (0 : ℤ) < LegacyDec.precision := by decide
  have hsum : (accounts.map fun a =>
        accountReward env a (totalPoints accounts) denom available *
          (2 * LegacyDec.precision * (totalPoints accounts).raw)).sum ≤
      (accounts.map fun a => 2 * LegacyDec.precision * (a.points.raw * available) +
        (totalPoints accounts).raw).sum := by
    refine List.sum_le_sum fun a ha => le_trans ?_
      (reward_bounds (hpoints a ha) htotal havailable).1
    exact mul_le_mul_of_nonneg_right (accountReward_le denom) (by positivity)
  have hraw : (accounts.map fun a => a.points.raw).sum = (totalPoints accounts).raw := by
    rw [totalPoints, LegacyDec.raw_sum, List.map_map]
    rfl
  rw [List.sum_map_mul_right, List.sum_map_add, List.sum_map_mul_left, List.sum_map_mul_right,
    hraw, List.map_const', List.sum_replicate, nsmul_eq_mul] at hsum
  have hlen' : (accounts.length : ℤ) < LegacyDec.precision := by exact_mod_cast hlen
  -- all terms have the total as a factor
  have hdigits : 2 * LegacyDec.precision *
      (accounts.map fun a => accountReward env a (totalPoints accounts) denom available).sum ≤
        2 * LegacyDec.precision * available + accounts.length := by
    refine le_of_mul_le_mul_right ?_ ht
    linarith
  nlinarith

/-- **THE POOL COVERS THE REWARDS**: in every denom the accounts are together paid no more than
    was moved out of the community pool, and none more than its share, rounded up. -/
theorem rewards_within_pool (communityPool : CommunityPool) (distributed : String → Bool)
    (maxCampaignRewards : Coins) (env : RewardEnv) (accounts : List TradingRewardAccountPoints)
    (hlen : accounts.length < 10 ^ 18) (hpoints : ∀ a ∈ accounts, 0 ≤ a.points)
    (htotal : 0 < totalPoints accounts) (available : Store String ℤ)
    (hmoved : getAvailableRewardsToPayout communityPool distributed maxCampaignRewards =
      available) :
    (∀ rewards denom, distributeTradingRewardsForAllAccounts env available maxCampaignRewards
        accounts = .ok rewards →
      (rewards.map (amountOf · denom)).sum ≤ (available.lookup denom).getD 0) ∧
    ∀ a ∈ accounts, ∀ rewards denom, distributeTradingRewardsForAccount env available a
        (totalPoints accounts) maxCampaignRewards.coins = .ok rewards →
      amountOf rewards denom ≤ ⌈(a.points.raw * ((available.lookup denom).getD 0 : ℤ) : ℚ) /
        (totalPoints accounts).raw⌉ := by
  have hnonneg : ∀ denom, 0 ≤ (available.lookup denom).getD 0 := by
    intro denom
    cases hx : available.lookup denom with
    | none => exact le_refl _
    | some x => exact available_nonneg (hmoved ▸ hx)
  constructor
  · intro rewards denom h
    rw [distributeTradingRewardsForAllAccounts, if_pos htotal] at h
    rw [map_eq_of_mapM_eq_ok (fun a r => amountOf_distributed maxCampaignRewards.nodup) h]
    split
    · simp only [payment]
      split
      · exact sum_rewards_le hlen hpoints htotal (hnonneg denom)
      · simpa using hnonneg denom
    · simpa using hnonneg denom
  · intro a ha rewards denom h
    rw [amountOf_distributed maxCampaignRewards.nodup h]
    have hceil : 0 ≤ ⌈(a.points.raw * ((available.lookup denom).getD 0 : ℤ) : ℚ) /
        (totalPoints accounts).raw⌉ := by
      have hp : 0 ≤ a.points.raw := hpoints a ha
      have ht : 0 < (totalPoints accounts).raw := htotal
      have hx := hnonneg denom
      refine Int.ceil_nonneg (div_nonneg ?_ ?_) <;> exact_mod_cast by positivity
    split
    · rw [payment]
      split
      · exact (accountReward_le denom).trans (reward_bounds (hpoints a ha) htotal (hnonneg denom)).2
      · exact hceil
    · exact hceil

/-- Two accounts share seven INJ: the second is owed four, its missing stake leaves it two. -/
theorem rewards_within_pool_sample :
    distributeTradingRewardsForAllAccounts ⟨2, fun _ => 0⟩
        (getAvailableRewardsToPayout ⟨fun _ => newDec 7, fun _ => by decide⟩ (fun _ => true)
          ⟨[⟨"inj", 10⟩], by decide, by decide⟩)
        ⟨[⟨"inj", 10⟩], by decide, by decide⟩ [⟨1, newDec 1⟩, ⟨2, newDec 2⟩] =
      .ok [[⟨"inj", 2⟩], [⟨"inj", 2⟩]] ∧
    ([[⟨"inj", 2⟩], [⟨"inj", 2⟩]].map (amountOf · "inj")).sum ≤ 7 := by
  have hrun : distributeTradingRewardsForAllAccounts ⟨2, fun _ => 0⟩
      (getAvailableRewardsToPayout ⟨fun _ => newDec 7, fun _ => by decide⟩ (fun _ => true)
        ⟨[⟨"inj", 10⟩], by decide, by decide⟩)
      ⟨[⟨"inj", 10⟩], by decide, by decide⟩ [⟨1, newDec 1⟩, ⟨2, newDec 2⟩] =
    .ok [[⟨"inj", 2⟩], [⟨"inj", 2⟩]] := by decide +kernel
  exact ⟨hrun, (rewards_within_pool _ _ _ _ _ (by decide) (by decide) (by decide) _ rfl).1 _ _ hrun⟩

end AllAccounts

end ExchangeTradingRewards
