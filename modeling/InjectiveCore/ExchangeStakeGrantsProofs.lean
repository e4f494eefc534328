import InjectiveCore.AuctionProofs

/-!
# Stake grants

A granter lends stake to grantees for their fee discounts. Three stores hold the amount
authorized for each pair, the total of each granter and the one grant each grantee uses. The
key of a pair is the bytes of the two addresses, without a length between them.

- `Accounted.authorizeStakeGrant`: an authorization keeps the totals exact, and passes a new
  amount on to the grant in use only if that is from the same granter, **if** granters have
  twenty bytes. The key of a granter with thirty-two is also that of another pair.
- `total_authorizeAll`: the total after a message is what was compared with the stake, **if**
  the grantees of the message are different accounts. The message is only checked for
  different spellings (`grants_not_accounted`).
-/

namespace ExchangeStakeGrants

open KeyedStore Transition Vouchers Auction

structure ActiveGrant where
  granter : AccAddress
  amount : ℤ

/-- `GetGrantAuthorizationKey`, behind the byte that all keys of the store start with. -/
def getGrantAuthorizationKey (granter grantee : AccAddress) : List UInt8 :=
  granter.bytes ++ grantee.bytes

structure Grants where
  authorizations : Store (List UInt8) ℤ
  totals : Store AccAddress ℤ
  activeGrants : Store AccAddress ActiveGrant

/-- Nothing is stored for an amount of zero. -/
def unlessZero {V : Type} (amount : ℤ) (v : V) : Option V := if amount = 0 then none else some v

structure GrantAuthorization where
  grantee : Bech32
  amount : ℤ

structure MsgAuthorizeStakeGrants where
  sender : Bech32
  grants : List GrantAuthorization

inductive GrantError where
  | invalidStakeGrant
  | insufficientStake
  deriving DecidableEq

namespace Grants

def empty : Grants := ⟨∅, ∅, ∅⟩

def getGrantAuthorization (s : Grants) (granter grantee : AccAddress) : ℤ :=
  (s.authorizations.lookup (getGrantAuthorizationKey granter grantee)).getD 0

def getTotalGrantAmount (s : Grants) (granter : AccAddress) : ℤ :=
  (s.totals.lookup granter).getD 0

def setActiveGrant (s : Grants) (grantee : AccAddress) (grant : ActiveGrant) : Grants :=
  { s with activeGrants := put grantee (unlessZero grant.amount grant) s.activeGrants }

/-- `AuthorizeStakeGrant`. -/
def authorizeStakeGrant (s : Grants) (granter grantee : AccAddress) (amount : ℤ) : Grants :=
  let totalGrantAmount :=
    s.getTotalGrantAmount granter - s.getGrantAuthorization granter grantee + amount
  let s' : Grants :=
    { s with
      totals := put granter (unlessZero totalGrantAmount totalGrantAmount) s.totals
      authorizations := put (getGrantAuthorizationKey granter grantee)
        (unlessZero amount amount) s.authorizations }
  match s.activeGrants.lookup grantee with
  | none => s'.setActiveGrant grantee ⟨granter, amount⟩
  | some activeGrant =>
    if activeGrant.granter = granter then s'.setActiveGrant grantee ⟨granter, amount⟩ else s'

/-- The second loop of `AuthorizeStakeGrants`. -/
def authorizeAll (s : Grants) (granter : AccAddress) (grants : List GrantAuthorization) :
    Grants :=
  grants.foldl (fun s grant => s.authorizeStakeGrant granter grant.grantee.address grant.amount) s

/-- The first loop of `AuthorizeStakeGrants`. -/
def grantAmountDelta (s : Grants) (granter : AccAddress) (grants : List GrantAuthorization) : ℤ :=
  (grants.map fun grant =>
    grant.amount - s.getGrantAuthorization granter grant.grantee.address).sum

end Grants

def maxTokenInt : ℤ := 10 ^ 26

/-- `ValidateBasic`: no spelling of a grantee comes twice. -/
def MsgAuthorizeStakeGrants.validateBasic (msg : MsgAuthorizeStakeGrants) : Bool :=
  decide (msg.grants.map (·.grantee)).Nodup &&
    msg.grants.all fun grant => decide (0 ≤ grant.amount ∧ grant.amount ≤ maxTokenInt)

/-- The two messages. -/
inductive Msg where
  | authorizeStakeGrants (msg : MsgAuthorizeStakeGrants)
  | activateStakeGrant (sender granter : Bech32)

/-- A message, with the stakes that `CalculateStakedAmountWithoutCache` finds. -/
structure Request where
  granterStake : AccAddress → ℤ
  msg : Msg

/-- `AuthorizeStakeGrants` and `ActivateStakeGrant`. -/
def step (r : Request) (s : Grants) : Except GrantError Grants :=
  match r.msg with
  | .authorizeStakeGrants msg =>
    let granter := msg.sender.address
    if !msg.validateBasic then .error .invalidStakeGrant
    else if r.granterStake granter <
        s.getTotalGrantAmount granter + s.grantAmountDelta granter msg.grants then
      .error .insufficientStake
    else .ok (s.authorizeAll granter msg.grants)
  | .activateStakeGrant sender granter =>
    if s.authorizations.lookup (getGrantAuthorizationKey granter.address sender.address) = none
    then .error .invalidStakeGrant
    else if r.granterStake granter.address < s.getTotalGrantAmount granter.address then
      .error .invalidStakeGrant
    else .ok (s.setActiveGrant sender.address
      ⟨granter.address, s.getGrantAuthorization granter.address sender.address⟩)

/-- Whose stake a message lends. -/
def Request.granter (r : Request) : AccAddress :=
  match r.msg with
  | .authorizeStakeGrants msg => msg.sender.address
  | .activateStakeGrant _ granter => granter.address

/-- An address of an ordinary key. -/
abbrev Short (a : AccAddress) : Prop := a.bytes.length = 20

/-- The amount of an authorization, if it is from the granter: `GetAllGrantAuthorizations`
    reads the granter off the first twenty bytes of the key. -/
def grantedBy (granter : AccAddress) (k : List UInt8) (amount : ℤ) : ℤ :=
  if k.take 20 = granter.bytes then amount else 0

/-- The totals are sums, and the grants in use are as authorized. -/
structure Accounted (s : Grants) : Prop where
  short : ∀ grantee grant, s.activeGrants.lookup grantee = some grant → Short grant.granter
  total : ∀ granter, s.getTotalGrantAmount granter = total (grantedBy granter) s.authorizations
  active : ∀ grantee grant, s.activeGrants.lookup grantee = some grant →
    s.getGrantAuthorization grant.granter grantee = grant.amount

/-! ## One authorization -/

theorem getD_unlessZero (amount : ℤ) : (unlessZero amount amount).getD 0 = amount := by
  rw [unlessZero]
  split
  · next h => exact h.symm
  · rfl

theorem eq_of_bytes {a b : AccAddress} (h : a.bytes = b.bytes) : a = b := by
  cases a
  cases b
  cases h
  rfl

/-- With granters of the same length, a key determines the pair. -/
theorem getGrantAuthorizationKey_inj {granter granter' grantee grantee' : AccAddress}
    (hlength : granter.bytes.length = granter'.bytes.length)
    (h : getGrantAuthorizationKey granter grantee = getGrantAuthorizationKey granter' grantee') :
    granter = granter' ∧ grantee = grantee' :=
  (List.append_inj h hlength).imp eq_of_bytes eq_of_bytes

theorem weight_grantedBy {granter : AccAddress} (hshort : Short granter)
    (granter' grantee : AccAddress) (x : Option ℤ) :
    weight (grantedBy granter') (getGrantAuthorizationKey granter grantee) x =
      if granter' = granter then x.getD 0 else 0 := by
  have hkey : (getGrantAuthorizationKey granter grantee).take 20 = granter'.bytes ↔
      granter' = granter := by
    rw [getGrantAuthorizationKey, List.take_left' hshort]
    exact ⟨fun h => eq_of_bytes h.symm, fun h => congrArg _ h.symm⟩
  cases x with
  | none => exact (ite_self 0).symm
  | some amount => exact if_congr hkey rfl rfl

section Authorize

variable {s : Grants} {granter grantee : AccAddress} {amount : ℤ}

theorem setActiveGrant_cases {grant grant' : ActiveGrant} {grantee' : AccAddress}
    (h : (s.setActiveGrant grantee grant).activeGrants.lookup grantee' = some grant') :
    grantee' = grantee ∧ grant' = grant ∨
      grantee' ≠ grantee ∧ s.activeGrants.lookup grantee' = some grant' := by
  rw [Grants.setActiveGrant, lookup_put, unlessZero] at h
  split at h
  · next heq =>
    split at h
    · cases h
    · exact .inl ⟨heq, (Option.some.inj h).symm⟩
  · next hne => exact .inr ⟨hne, h⟩

/-- What an authorization writes, and which grants are in use after it. -/
theorem authorizeStakeGrant_spec (s : Grants) (granter grantee : AccAddress) (amount : ℤ) :
    ∃ activeGrants total, s.authorizeStakeGrant granter grantee amount =
        ⟨put (getGrantAuthorizationKey granter grantee) (unlessZero amount amount)
            s.authorizations, put granter (unlessZero total total) s.totals, activeGrants⟩ ∧
      total = s.getTotalGrantAmount granter - s.getGrantAuthorization granter grantee + amount ∧
      ∀ grantee' grant, activeGrants.lookup grantee' = some grant →
        grantee' = grantee ∧ grant = ⟨granter, amount⟩ ∨
          s.activeGrants.lookup grantee' = some grant ∧
            (grant.granter, grantee') ≠ (granter, grantee) := by
  have hset : ∀ grantee' grant, (s.setActiveGrant grantee ⟨granter, amount⟩).activeGrants.lookup
      grantee' = some grant → grantee' = grantee ∧ grant = ⟨granter, amount⟩ ∨
        s.activeGrants.lookup grantee' = some grant ∧
          (grant.granter, grantee') ≠ (granter, grantee) := by
    intro grantee' grant h
    refine (setActiveGrant_cases h).imp_right ?_
    rintro ⟨hne, hold⟩
    exact ⟨hold, fun heq => hne (congrArg Prod.snd heq)⟩
  rw [Grants.authorizeStakeGrant]
  split
  · exact ⟨_, _, rfl, rfl, hset⟩
  next activeGrant hactive =>
  split
  · exact ⟨_, _, rfl, rfl, hset⟩
  next hother =>
  refine ⟨_, _, rfl, rfl, fun grantee' grant h => .inr ⟨h, fun heq => hother ?_⟩⟩
  obtain ⟨hgranter, rfl⟩ := Prod.mk.inj heq
  rw [← Option.some.inj (h.symm.trans hactive)]
  exact hgranter

theorem getGrantAuthorization_authorize (granter' grantee' : AccAddress) :
    (s.authorizeStakeGrant granter grantee amount).getGrantAuthorization granter' grantee' =
      if getGrantAuthorizationKey granter' grantee' = getGrantAuthorizationKey granter grantee
      then amount else s.getGrantAuthorization granter' grantee' := by
  obtain ⟨activeGrants, total, heq, -⟩ := authorizeStakeGrant_spec s granter grantee amount
  rw [heq, Grants.getGrantAuthorization, lookup_put]
  split
  · exact getD_unlessZero amount
  · rfl

theorem getTotalGrantAmount_authorize (granter' : AccAddress) :
    (s.authorizeStakeGrant granter grantee amount).getTotalGrantAmount granter' =
      s.getTotalGrantAmount granter' + if granter' = granter then
        amount - s.getGrantAuthorization granter grantee else 0 := by
  obtain ⟨activeGrants, total, heq, htotal, -⟩ := authorizeStakeGrant_spec s granter grantee amount
  rw [heq, Grants.getTotalGrantAmount, lookup_put]
  split
  · next hgranter =>
    rw [getD_unlessZero, htotal, hgranter]
    ring
  · exact (add_zero _).symm

/-- **ONE AUTHORIZATION** keeps the three stores in agreement. -/
theorem Accounted.authorizeStakeGrant (h : Accounted s) (hshort : Short granter)
    (grantee : AccAddress) (amount : ℤ) :
    Accounted (s.authorizeStakeGrant granter grantee amount) := by
  obtain ⟨activeGrants, total, heq, -, hactive⟩ := authorizeStakeGrant_spec s granter grantee amount
  refine ⟨?_, ?_, ?_⟩
  · intro grantee' grant hgrant
    rw [heq] at hgrant
    rcases hactive grantee' grant hgrant with ⟨-, rfl⟩ | ⟨hold, -⟩
    · exact hshort
    · exact h.short grantee' grant hold
  · intro granter'
    rw [getTotalGrantAmount_authorize, h.total, heq, total_put_sub, weight_grantedBy hshort,
      weight_grantedBy hshort, getD_unlessZero]
    refine congrArg _ ?_
    by_cases hg : granter' = granter
    · rw [if_pos hg, if_pos hg, if_pos hg]
      rfl
    · rw [if_neg hg, if_neg hg, if_neg hg, sub_zero]
  · intro grantee' grant hgrant
    rw [getGrantAuthorization_authorize]
    rw [heq] at hgrant
    rcases hactive grantee' grant hgrant with ⟨rfl, rfl⟩ | ⟨hold, hne⟩
    · exact if_pos rfl
    · rw [if_neg, h.active grantee' grant hold]
      intro hkey
      obtain ⟨hgranter, hgrantee⟩ := getGrantAuthorizationKey_inj
        ((h.short grantee' grant hold).trans hshort.symm) hkey
      exact hne (Prod.ext hgranter hgrantee)

/-! ## A message -/

variable {grants : List GrantAuthorization}

theorem Accounted.authorizeAll (h : Accounted s) (hshort : Short granter)
    (grants : List GrantAuthorization) : Accounted (s.authorizeAll granter grants) :=
  List.foldlRecOn grants _ h fun _ hs grant _ => hs.authorizeStakeGrant hshort _ grant.amount

/-- With different accounts, no authorization of the message overwrites another one. -/
theorem total_authorizeAll (hdistinct : (grants.map (·.grantee.address)).Nodup) (s : Grants) :
    (s.authorizeAll granter grants).getTotalGrantAmount granter =
      s.getTotalGrantAmount granter + s.grantAmountDelta granter grants := by
  induction grants generalizing s with
  | nil => exact (add_zero _).symm
  | cons grant grants ih =>
    rw [List.map_cons, List.nodup_cons] at hdistinct
    have hrest : (s.authorizeStakeGrant granter grant.grantee.address
        grant.amount).grantAmountDelta granter grants = s.grantAmountDelta granter grants := by
      refine congrArg List.sum (List.map_congr_left fun grant' hgrant' => ?_)
      rw [getGrantAuthorization_authorize, if_neg]
      intro heq
      exact hdistinct.1 (List.mem_map.mpr
        ⟨grant', hgrant', (getGrantAuthorizationKey_inj rfl heq).2⟩)
    refine (ih hdistinct.2 _).trans ?_
    rw [hrest, getTotalGrantAmount_authorize, if_pos rfl, Grants.grantAmountDelta,
      Grants.grantAmountDelta, List.map_cons, List.sum_cons]
    ring

end Authorize

theorem authorizeStakeGrants_ok {granterStake : AccAddress → ℤ} {msg : MsgAuthorizeStakeGrants}
    {s s' : Grants} (h : step ⟨granterStake, .authorizeStakeGrants msg⟩ s = .ok s') :
    s.getTotalGrantAmount msg.sender.address + s.grantAmountDelta msg.sender.address msg.grants ≤
        granterStake msg.sender.address ∧
      s' = s.authorizeAll msg.sender.address msg.grants := by
  rw [step] at h
  dsimp only at h
  split at h
  · cases h
  split at h
  · cases h
  next hstake => exact ⟨not_lt.mp hstake, (Except.ok.inj h).symm⟩

theorem Accounted.step {r : Request} {s s' : Grants} (hshort : Short r.granter)
    (h : Accounted s) (hs : step r s = .ok s') : Accounted s' := by
  obtain ⟨granterStake, msg | ⟨sender, granter⟩⟩ := r
  · rw [(authorizeStakeGrants_ok hs).2]
    exact h.authorizeAll hshort _
  · rw [ExchangeStakeGrants.step] at hs
    dsimp only at hs
    split at hs
    · cases hs
    split at hs
    · cases hs
    cases hs
    refine ⟨fun grantee grant hgrant => ?_, h.total, fun grantee grant hgrant => ?_⟩
    · rcases setActiveGrant_cases hgrant with ⟨-, rfl⟩ | ⟨-, hold⟩
      · exact hshort
      · exact h.short grantee grant hold
    · rcases setActiveGrant_cases hgrant with ⟨rfl, rfl⟩ | ⟨-, hold⟩
      · rfl
      · exact h.active grantee grant hold

/-- **STAKE GRANTS ARE ACCOUNTED**: after every run of messages whose granters have twenty
    bytes, the totals are the sums of the authorizations and the grants in use are as
    authorized. After any run, a further message that is accepted and names different accounts
    leaves its sender with a total covered by the stake. -/
theorem stake_grants_accounted (requests : List Request) :
    ((∀ r ∈ requests, Short r.granter) → Accounted (run step Grants.empty requests)) ∧
      ∀ granterStake msg s', (msg.grants.map (·.grantee.address)).Nodup →
        step ⟨granterStake, .authorizeStakeGrants msg⟩ (run step Grants.empty requests) = .ok s' →
        s'.getTotalGrantAmount msg.sender.address ≤ granterStake msg.sender.address := by
  constructor
  · intro hshort
    refine run_invariant_on (fun r hr _ _ => Accounted.step (hshort r hr)) ⟨?_, fun _ => rfl, ?_⟩
    · intro grantee grant h
      cases h
    · intro grantee grant h
      cases h
  · intro granterStake msg s' hdistinct hs
    obtain ⟨hstake, rfl⟩ := authorizeStakeGrants_ok hs
    rw [total_authorizeAll hdistinct]
    exact hstake

def sampleAccount (bytes : List UInt8) (h : 20 ≤ bytes.length) : Bech32 := ⟨⟨bytes, h⟩, false⟩

def alice : Bech32 := sampleAccount (List.replicate 20 4) (by decide)

def bob : Bech32 := sampleAccount (List.replicate 20 5) (by decide)

/-- A message of a granter with a stake of 100. -/
def sampleRequest (sender : Bech32) (grants : List (Bech32 × ℤ)) : Request :=
  ⟨fun _ => 100, .authorizeStakeGrants ⟨sender, grants.map fun g => ⟨g.1, g.2⟩⟩⟩

/-- After a grant of 100 to `bob`, `alice` splits it up, and is left with a total of 100. -/
theorem stake_grants_accounted_sample :
    Accounted (run step Grants.empty [sampleRequest alice [(bob, 100)]]) ∧
      ∃ s', step (sampleRequest alice [(bob, 40), (alice, 60)])
          (run step Grants.empty [sampleRequest alice [(bob, 100)]]) = .ok s' ∧
        s'.getTotalGrantAmount alice.address ≤ 100 := by
  refine ⟨(stake_grants_accounted _).1 (by decide), _, rfl, ?_⟩
  exact (stake_grants_accounted [sampleRequest alice [(bob, 100)]]).2 (fun _ => 100)
    ⟨alice, [⟨bob, 40⟩, ⟨alice, 60⟩]⟩ _ (by decide) rfl

/-- Two ways to lose the account. What `bob` was granted is taken off once for each spelling,
    and the total of `alice` ends at twice the stake. And a granter of thirty-two bytes writes
    over an authorization of `alice`, whose total is then no longer that of the key. -/
theorem grants_not_accounted :
    (∃ s', step (sampleRequest alice [(bob, 0), (⟨bob.address, true⟩, 200)])
        (run step Grants.empty [sampleRequest alice [(bob, 100)]]) = .ok s' ∧
      s'.getTotalGrantAmount alice.address = 200) ∧
    ∃ long far : Bech32,
      (run step Grants.empty [sampleRequest alice [(far, 10)],
          sampleRequest long [(bob, 20)]]).getGrantAuthorization alice.address far.address = 20 ∧
      (run step Grants.empty [sampleRequest alice [(far, 10)],
          sampleRequest long [(bob, 20)]]).getTotalGrantAmount alice.address = 10 := by
  refine ⟨⟨_, rfl, by decide +kernel⟩, sampleAccount (List.replicate 20 4 ++ List.replicate 12 3)
    (by decide), sampleAccount (List.replicate 12 3 ++ List.replicate 20 5) (by decide), ?_, ?_⟩
  · decide +kernel
  · decide +kernel

end ExchangeStakeGrants
