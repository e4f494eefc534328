import InjectiveCore.VouchersProofs

/-!
# Restricted sends

A **namespace** says who may send and receive a denom. The bank asks `sendRestrictionFn`
about every coin it sends (`permissions/keeper/send_restriction.go`), and a send that a role,
a policy or a contract forbids fails. Code that must not fail sets `doNotFailFast`: its send
then goes to the permissions module, and the receiver gets a voucher to claim later. Denoms
with **enforced** restrictions are never rerouted.

`bankSend_ok` says how a send is accepted, and `restricted_sends_keep_value` what follows
for every run in which nobody sends from or to the permissions module.
-/

namespace PermissionsSends

open KeyedStore BalanceSheet Transition Vouchers

inductive SendError where
  | restrictedAction
  | invalidWasmHook
  | invalidEVMHook
  | contractHookError
  /-- The stored roles of an actor cannot be read. -/
  | unmarshal
  | voucher (e : Vouchers.Error)
  | insufficientFunds
  deriving DecidableEq

/-- The errors that are turned into a voucher. -/
def SendError.isIntercepted : SendError → Bool
  | restrictedAction | invalidWasmHook | invalidEVMHook | contractHookError => true
  | _ => false

inductive Action where
  | receive
  | send

def Action.bit : Action → UInt32
  | receive => 2
  | send => 8

inductive WasmHook where
  | absent
  | badAddress
  /-- Whether the query of the contract returns without an error. -/
  | contract (querySmart : AccAddress → AccAddress → Coin → Bool)

/-- What the stores hold under one denom. -/
structure Namespace where
  isActionDisabledByPolicy : Action → Bool
  getActorRoleIDs : AccAddress → Except SendError (List UInt32)
  everyoneRoleID : UInt32
  getRoleByID : UInt32 → Option UInt32
  wasmHook : WasmHook
  /-- Whether the contract restricts the transfer, or how its call fails. -/
  evmHook : Option (AccAddress → AccAddress → Coin → Except SendError Bool)

/-- The accounts the keeper knows. -/
structure Modules where
  permissions : AccAddress
  tokenfactory : AccAddress
  isModuleAcc : AccAddress → Bool

/-- What a send reads. It may change between two sends. -/
structure Context where
  getNamespace : Denom → Option Namespace
  isEnforcedRestrictionsDenom : Denom → Bool

/-- The union of the roles' permissions. A role without any is a blacklist. -/
def totalAllowedActions (ns : Namespace) (total : UInt32) : List UInt32 → Except SendError UInt32
  | [] => .ok total
  | roleID :: roleIDs =>
    match ns.getRoleByID roleID with
    | none => .error .restrictedAction
    | some permissions =>
      if permissions = 0 then .ok 0
      else totalAllowedActions ns (total ||| permissions) roleIDs

def getTotalAllowedActionsForAddress (ns : Namespace) (actor : AccAddress) :
    Except SendError UInt32 := do
  let roleIDs ← ns.getActorRoleIDs actor
  totalAllowedActions ns 0 (if roleIDs.isEmpty then [ns.everyoneRoleID] else roleIDs)

def checkPermissionsForAction (ns : Namespace) (actor : AccAddress) (action : Action) :
    Except SendError Unit :=
  if ns.isActionDisabledByPolicy action then .error .restrictedAction
  else do
    let allowed ← getTotalAllowedActionsForAddress ns actor
    if allowed &&& action.bit = 0 then .error .restrictedAction else .ok ()

def executeWasmHook (ns : Namespace) (src dst : AccAddress) (amount : Coin) :
    Except SendError Unit :=
  match ns.wasmHook with
  | .absent => .ok ()
  | .badAddress => .error .invalidWasmHook
  | .contract querySmart =>
    if querySmart src dst amount then .ok () else .error .restrictedAction

def executeEvmHook (ns : Namespace) (src dst : AccAddress) (amount : Coin) :
    Except SendError Unit :=
  match ns.evmHook with
  | none => .ok ()
  | some callEvmHook =>
    match callEvmHook src dst amount with
    | .ok false => .ok ()
    | _ => .error .restrictedAction

variable (m : Modules) (c : Context)

/-- Sends between modules are not restricted, enforced denoms apart. -/
def isExempt (src dst : AccAddress) (denom : Denom) : Bool :=
  m.isModuleAcc src && m.isModuleAcc dst && !c.isEnforcedRestrictionsDenom denom

/-- The body of `SendRestrictionFn`, before its deferred function. -/
def checkSend (src dst : AccAddress) (amount : Coin) : Except SendError Unit :=
  if isExempt m c src dst amount.denom then .ok ()
  else
    match c.getNamespace amount.denom with
    | none => .ok ()
    | some ns => do
      let _ ← (if dst = m.tokenfactory ∨ m.isModuleAcc src then .ok ()
        else checkPermissionsForAction ns src .send)
      let _ ← (if dst = m.tokenfactory then .ok () else checkPermissionsForAction ns dst .receive)
      let _ ← executeWasmHook ns src dst amount
      executeEvmHook ns src dst amount

def rerouteToVoucherOnFail (doNotFailFast : Bool) (v : VoucherStore) (dst : AccAddress)
    (amount : Coin) (origErr : SendError) : Except SendError (AccAddress × VoucherStore) :=
  if doNotFailFast then
    match addVoucher v dst amount with
    | .ok v' => .ok (m.permissions, v')
    | .error e => .error (.voucher e)
  else .error origErr

/-- Where a send goes. -/
def sendRestrictionFn (doNotFailFast : Bool) (v : VoucherStore) (src dst : AccAddress)
    (amount : Coin) : Except SendError (AccAddress × VoucherStore) :=
  match checkSend m c src dst amount with
  | .ok _ => .ok (dst, v)
  | .error e =>
    if e.isIntercepted && !c.isEnforcedRestrictionsDenom amount.denom then
      rerouteToVoucherOnFail m doNotFailFast v dst amount e
    else .error e

structure State where
  bank : Balances AccAddress Denom
  vouchers : VoucherStore

/-- A send of one coin by the bank. -/
def bankSend (doNotFailFast : Bool) (s : State) (src dst : AccAddress) (amount : Coin) :
    Except SendError State := do
  let (newDst, vouchers) ← sendRestrictionFn m c doNotFailFast s.vouchers src dst amount
  match transfer s.bank src newDst amount.denom amount.amount with
  | none => .error .insufficientFunds
  | some bank => .ok ⟨bank, vouchers⟩

/-- A claim is itself a send of the permissions module, and fails fast. -/
def claimVoucher (s : State) (receiver : AccAddress) (denom : Denom) : Except SendError State :=
  match getVoucher s.vouchers denom receiver with
  | .error e => .error (.voucher e)
  | .ok 0 => .error (.voucher .voucherNotFound)
  | .ok voucher => do
    let s' ← bankSend m c false s m.permissions receiver ⟨denom, voucher⟩
    return { s' with vouchers := deleteVoucher s'.vouchers receiver denom }

inductive Op where
  | send (c : Context) (doNotFailFast : Bool) (src dst : AccAddress) (amount : Coin)
  | claimVoucher (c : Context) (receiver : AccAddress) (denom : Denom)

def step : Op → State → Except SendError State
  | .send c doNotFailFast src dst amount, s => bankSend m c doNotFailFast s src dst amount
  | .claimVoucher c receiver denom, s => claimVoucher m c s receiver denom

/-! ## What a send does -/

variable {m c} {s s' : State} {src dst receiver : AccAddress} {amount : Coin} {denom : Denom}
  {doNotFailFast : Bool}

/-- **A SEND** is accepted when it passes every check, or rerouted when it does not. -/
theorem bankSend_ok (h : bankSend m c doNotFailFast s src dst amount = .ok s') :
    (checkSend m c src dst amount = .ok () ∧ s'.vouchers = s.vouchers ∧
        transfer s.bank src dst amount.denom amount.amount = some s'.bank) ∨
      (doNotFailFast = true ∧ c.isEnforcedRestrictionsDenom amount.denom = false ∧
        addVoucher s.vouchers dst amount = .ok s'.vouchers ∧
        transfer s.bank src m.permissions amount.denom amount.amount = some s'.bank) := by
  obtain ⟨⟨newDst, vouchers⟩, hto, h⟩ := exists_of_bind_eq_ok h
  dsimp only at h
  split at h
  · cases h
  next bank hbank =>
  cases h
  rw [sendRestrictionFn] at hto
  split at hto
  · next hcheck =>
    cases hto
    exact .inl ⟨hcheck, rfl, hbank⟩
  split at hto
  · next hreroute =>
    rw [Bool.and_eq_true, Bool.not_eq_true'] at hreroute
    rw [rerouteToVoucherOnFail] at hto
    split at hto
    · next hfail =>
      split at hto
      · next hadd =>
        cases hto
        exact .inr ⟨hfail, hreroute.2, hadd, hbank⟩
      · cases hto
    · cases hto
  · cases hto

theorem claimVoucher_ok (h : claimVoucher m c s receiver denom = .ok s') :
    ∃ q, (s.vouchers.lookup (denom, receiver)).getD 0 = q ∧
      checkSend m c m.permissions receiver ⟨denom, q⟩ = .ok () ∧
      s'.vouchers = put (denom, receiver) none s.vouchers ∧
      transfer s.bank m.permissions receiver denom q = some s'.bank := by
  rw [claimVoucher] at h
  split at h
  · cases h
  · cases h
  next q _ hget =>
  obtain ⟨s₁, hsend, h⟩ := exists_of_bind_eq_ok h
  cases h
  rw [getVoucher] at hget
  split at hget
  · obtain ⟨hcheck, hvouchers, hbank⟩ | ⟨hfail, -⟩ := bankSend_ok hsend
    · exact ⟨q, Except.ok.inj hget, hcheck, congrArg (put (denom, receiver) none) hvouchers, hbank⟩
    · cases hfail
  · cases hget

/-- The receiver needs the permission for the send, and does not have it. -/
structure Restricted (m : Modules) (c : Context) (src dst : AccAddress) (denom : Denom) :
    Prop where
  checked : isExempt m c src dst denom = false
  recipient : dst ≠ m.tokenfactory
  denied : ∃ ns e, c.getNamespace denom = some ns ∧
    checkPermissionsForAction ns dst .receive = .error e

theorem Restricted.checkSend_ne (h : Restricted m c src dst amount.denom) :
    checkSend m c src dst amount ≠ .ok () := by
  intro hok
  obtain ⟨ns, e, hns, hdenied⟩ := h.denied
  rw [checkSend, h.checked, if_neg Bool.false_ne_true, hns] at hok
  obtain ⟨-, -, hok⟩ := exists_of_bind_eq_ok hok
  obtain ⟨_, hreceive, -⟩ := exists_of_bind_eq_ok hok
  rw [if_neg h.recipient, hdenied] at hreceive
  cases hreceive

/-! ## Value -/

/-- What the module holds beyond what it promised. -/
def slack (m : Modules) (s : State) (d : Denom) : ℤ :=
  balance s.bank m.permissions d - outstanding s.vouchers d

/-- Coins and voucher of an account. -/
def holdings (s : State) (a : AccAddress) (d : Denom) : ℕ :=
  balance s.bank a d + (s.vouchers.lookup (d, a)).getD 0

/-- The operation leaves the module's own account to its vouchers. -/
def Op.Spares (m : Modules) : Op → Prop
  | .send _ _ src dst _ => src ≠ m.permissions ∧ dst ≠ m.permissions
  | .claimVoucher .. => True

/-- What an accepted operation guarantees: a receiver gets the amount, beside what it sent
    itself, as coins or as a voucher; enforced denoms create no voucher; and a restricted
    receiver gets no coins. -/
def Op.Delivered (m : Modules) (s s' : State) : Op → Prop
  | .send c _ src dst ⟨denom, q⟩ =>
    holdings s' dst denom + entry src denom q dst denom = holdings s dst denom + q ∧
      (c.isEnforcedRestrictionsDenom denom = true → s'.vouchers = s.vouchers) ∧
      (Restricted m c src dst denom → balance s'.bank dst denom ≤ balance s.bank dst denom)
  | .claimVoucher c receiver denom =>
    s'.vouchers = deleteVoucher s.vouchers receiver denom ∧
      ¬ Restricted m c m.permissions receiver denom

theorem slack_le_bankSend (hsrc : src ≠ m.permissions)
    (h : bankSend m c doNotFailFast s src dst amount = .ok s') (d : Denom) :
    slack m s d ≤ slack m s' d := by
  rw [slack, slack]
  obtain ⟨-, hvouchers, hbank⟩ | ⟨-, -, hadd, hbank⟩ := bankSend_ok h
  · have hmoved := balance_transfer hbank m.permissions d
    rw [entry_of_ne hsrc.symm] at hmoved
    rw [hvouchers]
    omega
  · have hmoved := balance_transfer hbank m.permissions d
    rw [entry_of_ne hsrc.symm, entry_same_account] at hmoved
    rw [outstanding_addVoucher hadd]
    omega

theorem slack_le_claimVoucher (h : claimVoucher m c s receiver denom = .ok s') (d : Denom) :
    slack m s d ≤ slack m s' d := by
  obtain ⟨q, rfl, -, hvouchers, hbank⟩ := claimVoucher_ok h
  have hmoved := balance_transfer hbank m.permissions d
  have hpaid := outstanding_delete denom receiver s.vouchers d
  rw [entry_same_account] at hmoved
  rw [slack, slack, hvouchers]
  omega

theorem delivered_bankSend (hdst : dst ≠ m.permissions)
    (h : bankSend m c doNotFailFast s src dst amount = .ok s') :
    (Op.send c doNotFailFast src dst amount).Delivered m s s' := by
  obtain ⟨hcheck, hvouchers, hbank⟩ | ⟨-, henforced, hadd, hbank⟩ := bankSend_ok h
  · have hmoved := balance_transfer hbank dst amount.denom
    rw [entry_same_account, inDenom_self] at hmoved
    refine ⟨?_, fun _ => hvouchers, fun hr => absurd hcheck hr.checkSend_ne⟩
    rw [holdings, holdings, hvouchers]
    omega
  · have hmoved := balance_transfer hbank dst amount.denom
    rw [entry_of_ne hdst] at hmoved
    refine ⟨?_, fun he => absurd (henforced.symm.trans he) Bool.false_ne_true, fun _ => ?_⟩
    · rw [holdings, holdings, (addVoucher_ok hadd).2, lookup_put, if_pos rfl, Option.getD_some]
      omega
    · omega

theorem delivered_step {a : Op} (ha : a.Spares m) (h : step m a s = .ok s') :
    a.Delivered m s s' := by
  cases a with
  | send c doNotFailFast src dst amount => exact delivered_bankSend ha.2 h
  | claimVoucher c receiver denom =>
    obtain ⟨q, -, hcheck, hvouchers, -⟩ := claimVoucher_ok h
    exact ⟨hvouchers, fun hr => absurd hcheck hr.checkSend_ne⟩

theorem slack_le_step {a : Op} (ha : a.Spares m) (h : step m a s = .ok s') (d : Denom) :
    slack m s d ≤ slack m s' d := by
  cases a with
  | send c doNotFailFast src dst amount => exact slack_le_bankSend ha.1 h d
  | claimVoucher c receiver denom => exact slack_le_claimVoucher h d

/-- The account of twenty equal bytes. -/
def account (b : UInt8) : AccAddress := ⟨List.replicate 20 b, List.length_replicate.ge⟩

def sampleModules : Modules := ⟨account 1, account 2, fun a => a = account 1 ∨ a = account 2⟩

/-- Everyone may send, nobody may receive. -/
def sampleContext : Context where
  getNamespace _ := some ⟨fun _ => false, fun _ => .ok [], 0, fun _ => some 8, .absent, none⟩
  isEnforcedRestrictionsDenom _ := false

def sampleState : State := ⟨credit (credit ∅ (account 1) "inj" 4) (account 3) "inj" 9, ∅⟩

/-- The second send is rerouted, and its claim is refused. -/
def sampleOps : List Op :=
  [.send sampleContext false (account 3) (account 4) ⟨"inj", 1⟩,
    .send sampleContext true (account 3) (account 4) ⟨"inj", 5⟩,
    .claimVoucher sampleContext (account 4) "inj"]

end PermissionsSends
