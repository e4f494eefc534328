import InjectiveCore.BalanceSheetProofs
import InjectiveCore.TransitionProofs

/-!
# Vouchers

A module that owes coins it could not send keeps a **voucher**: an amount under a denom
and an address, which the owner claims later (`modules/common/vouchers/assistant.go`). The
coins stay in the module account meanwhile, so what matters about the store is how much of
each denom it promises (`outstanding`):

- `outstanding_addVoucher`: a failed send promises its coin;
- `claimVoucher_spec`: a claim sends what was promised, or changes nothing.

The key of a voucher is the denom, a delimiter and the bytes of the address.
`getAllVouchers` reads keys back as if every address had twenty bytes. An account of
another length makes it panic on the denom it reads (`decodeVoucher_spec`); it never
returns an amount under a wrong denom, because a denom does not contain the delimiter.
-/

namespace Vouchers

open KeyedStore BalanceSheet Transition

/-! ## Accounts, denoms and coins -/

abbrev Denom := String

/-- A Go string is its bytes. -/
def bytes (s : String) : List UInt8 := s.toUTF8.data.toList

/-- An account address. Keys and contracts have twenty bytes, accounts derived from a
    module or another chain have thirty-two. -/
structure AccAddress where
  bytes : List UInt8
  length_le : 20 ≤ bytes.length
  deriving DecidableEq

/-- Who holds coins: an address somebody signs for, or a module account. -/
inductive Account where
  | address (a : AccAddress)
  | moduleAccount (name : String)
  deriving DecidableEq

structure Coin where
  denom : Denom
  amount : ℕ
  deriving DecidableEq, Repr

abbrev Bank := Balances Account Denom

/-- `SendCoins` of one coin: hooks and send restrictions may refuse it. A coin of amount
    zero is dropped from the coins to send. -/
def sendCoins (allowed : Bool) (b : Bank) (src dst : Account) (c : Coin) : Option Bank :=
  if allowed then transfer b src dst c.denom c.amount else none

variable {b b' : Bank} {allowed : Bool} {src : Account} {c : Coin}

theorem sendCoins_some {dst : Account} (h : sendCoins allowed b src dst c = some b') :
    transfer b src dst c.denom c.amount = some b' := by
  rw [sendCoins] at h
  split at h
  · exact h
  · cases h

/-- Where sends to a restricted address are rerouted outside of messages. -/
def permissionsModule : Account := .moduleAccount "permissions"

/-- How a send to an address ends at the end of a block. -/
inductive Delivery where
  | refused
  | delivered
  | rerouted
  deriving DecidableEq, Repr

/-- A send from a module account that ends as given, if the module has the coins. -/
def Delivery.send (delivery : Delivery) (b : Bank) (src : Account) (receiver : AccAddress)
    (c : Coin) : Option Bank :=
  match delivery with
  | refused => none
  | delivered => transfer b src (.address receiver) c.denom c.amount
  | rerouted => transfer b src permissionsModule c.denom c.amount

variable {receiver : AccAddress}

theorem Delivery.send_some {delivery : Delivery} (h : delivery.send b src receiver c = some b') :
    ∃ dst, (dst = .address receiver ∨ dst = permissionsModule) ∧
      transfer b src dst c.denom c.amount = some b' := by
  cases delivery with
  | refused => cases h
  | delivered => exact ⟨_, .inl rfl, h⟩
  | rerouted => exact ⟨_, .inr rfl, h⟩

def isLetter (c : UInt8) : Bool := (65 ≤ c && c ≤ 90) || (97 ≤ c && c ≤ 122)

def isDenomChar (c : UInt8) : Bool :=
  isLetter c || (48 ≤ c && c ≤ 57) || c == 47 || c == 58 || c == 46 || c == 95 || c == 45

/-- `ValidateDenom`: `[a-zA-Z][a-zA-Z0-9/:._-]{2,127}`. -/
def validateDenom : List UInt8 → Bool
  | [] => false
  | c :: cs => isLetter c && (2 ≤ cs.length && cs.length ≤ 127) && cs.all isDenomChar

/-- What stands between the denom and the address in a key: `|`. -/
def delim : UInt8 := 124

theorem delim_notMem_of_validateDenom {d : List UInt8} (h : validateDenom d = true) :
    delim ∉ d := by
  cases d with
  | nil => exact List.not_mem_nil
  | cons c cs =>
    rw [validateDenom, Bool.and_eq_true, Bool.and_eq_true, List.all_eq_true] at h
    intro hmem
    rcases List.mem_cons.mp hmem with hc | hc
    · exact absurd (hc ▸ h.1.1) (by decide)
    · exact absurd (h.2 delim hc) (by decide)

theorem bytes_inj {s t : String} : bytes s = bytes t ↔ s = t := by
  constructor
  · intro h
    refine String.toByteArray_inj.mp ?_
    exact ByteArray.ext (Array.toList_inj.mp h)
  · exact congrArg bytes

/-! ## The store -/

inductive Error where
  | invalidDenom
  | voucherNotFound
  | sendFailed
  | keyTooShort
  /-- A panic of `NewCoin`. -/
  | invalidCoin
  deriving DecidableEq, Repr

/-- Amounts under a denom and an address. -/
abbrev VoucherStore := Store (Denom × AccAddress) ℕ

def getVoucher (v : VoucherStore) (denom : Denom) (addr : AccAddress) : Except Error ℕ :=
  if validateDenom (bytes denom) then .ok ((v.lookup (denom, addr)).getD 0)
  else .error .invalidDenom

/-- It replaces any existing voucher. -/
def setVoucher (v : VoucherStore) (addr : AccAddress) (voucher : Coin) : VoucherStore :=
  put (voucher.denom, addr) (some voucher.amount) v

def deleteVoucher (v : VoucherStore) (addr : AccAddress) (denom : Denom) : VoucherStore :=
  put (denom, addr) none v

def addVoucher (v : VoucherStore) (addr : AccAddress) (coin : Coin) :
    Except Error VoucherStore := do
  let existing ← getVoucher v coin.denom addr
  return setVoucher v addr ⟨coin.denom, existing + coin.amount⟩

/-- If the send fails the voucher is left for another try. -/
def claimVoucher (moduleName : String) (allowed : Bool) (b : Bank) (v : VoucherStore)
    (receiver : AccAddress) (denom : Denom) : Except Error (Bank × VoucherStore) := do
  let voucher ← getVoucher v denom receiver
  if voucher = 0 then .error .voucherNotFound
  else
    match sendCoins allowed b (.moduleAccount moduleName) (.address receiver)
      ⟨denom, voucher⟩ with
    | none => .error .sendFailed
    | some b' => .ok (b', deleteVoucher v receiver denom)

def voucherKey (denom : Denom) (addr : AccAddress) : List UInt8 :=
  bytes denom ++ delim :: addr.bytes

structure AddressVoucher where
  address : List UInt8
  denom : List UInt8
  amount : ℕ

/-- A key read back: the last twenty bytes are taken for the address, and what stands
    before them and the delimiter for the denom. `NewCoin` panics on an invalid denom. -/
def decodeVoucher (key : List UInt8) (amount : ℕ) : Except Error AddressVoucher :=
  if key.length ≤ 21 then .error .keyTooShort
  else if validateDenom (key.take (key.length - 21)) then
    .ok ⟨key.drop (key.length - 20), key.take (key.length - 21), amount⟩
  else .error .invalidCoin

def getAllVouchers (v : VoucherStore) : Except Error (List AddressVoucher) :=
  v.entries.mapM (fun e => decodeVoucher (voucherKey e.1.1 e.1.2) e.2)

/-- What is promised of a denom. -/
def outstanding (v : VoucherStore) (d : Denom) : ℕ :=
  total (fun k q => if k.1 = d then q else 0) v

/-! ## What is promised -/

theorem weight_outstanding (k : Denom × AccAddress) (x : Option ℕ) (d : Denom) :
    weight (fun (k : Denom × AccAddress) q => if k.1 = d then q else 0) k x =
      inDenom k.1 (x.getD 0) d := by
  cases x with
  | none => exact (ite_self 0).symm
  | some q => exact if_congr eq_comm rfl rfl

theorem outstanding_put (k : Denom × AccAddress) (x : Option ℕ) (v : VoucherStore) (d : Denom) :
    outstanding (put k x v) d + inDenom k.1 ((v.lookup k).getD 0) d =
      outstanding v d + inDenom k.1 (x.getD 0) d := by
  rw [outstanding, outstanding, total_put, total_eq_add_erase _ k v, weight_outstanding,
    weight_outstanding]
  omega

theorem outstanding_delete (denom : Denom) (addr : AccAddress) (v : VoucherStore) (d : Denom) :
    outstanding (put (denom, addr) none v) d + inDenom denom ((v.lookup (denom, addr)).getD 0) d =
      outstanding v d := by
  have hput := outstanding_put (denom, addr) none v d
  rw [Option.getD_none, inDenom_zero] at hput
  exact hput

variable {v v' : VoucherStore} {addr : AccAddress} {coin : Coin}

/-- What `addVoucher` does: the denom is valid, and the amount is added to the voucher. -/
theorem addVoucher_ok (h : addVoucher v addr coin = .ok v') :
    validateDenom (bytes coin.denom) = true ∧
      v' = put (coin.denom, addr)
        (some ((v.lookup (coin.denom, addr)).getD 0 + coin.amount)) v := by
  obtain ⟨existing, hget, h⟩ := exists_of_bind_eq_ok h
  rw [getVoucher] at hget
  split at hget
  · next hvalid =>
    refine ⟨hvalid, ?_⟩
    rw [← Except.ok.inj h, ← Except.ok.inj hget]
    rfl
  · cases hget

/-- **A FAILED SEND** promises its coin. -/
theorem outstanding_addVoucher (h : addVoucher v addr coin = .ok v') (d : Denom) :
    outstanding v' d = outstanding v d + inDenom coin.denom coin.amount d := by
  obtain ⟨-, rfl⟩ := addVoucher_ok h
  have hput := outstanding_put (coin.denom, addr)
    (some ((v.lookup (coin.denom, addr)).getD 0 + coin.amount)) v d
  rw [Option.getD_some, inDenom_add] at hput
  dsimp only at hput
  omega

theorem lookup_addVoucher (h : addVoucher v addr coin = .ok v') (k : Denom × AccAddress) :
    (v.lookup k).getD 0 ≤ (v'.lookup k).getD 0 := by
  obtain ⟨-, rfl⟩ := addVoucher_ok h
  rw [lookup_put]
  split
  · next hk =>
    rw [hk]
    exact Nat.le_add_right _ _
  · exact Nat.le_refl _

variable {denom : Denom}

/-- **A CLAIM** sends what was promised to its owner, and deletes the voucher. -/
theorem claimVoucher_spec {m : String}
    (h : claimVoucher m allowed b v receiver denom = .ok (b', v')) :
    transfer b (.moduleAccount m) (.address receiver) denom ((v.lookup (denom, receiver)).getD 0) =
        some b' ∧ v' = put (denom, receiver) none v := by
  obtain ⟨voucher, hget, h⟩ := exists_of_bind_eq_ok h
  rw [getVoucher] at hget
  split at hget
  · rw [Except.ok.inj hget]
    split at h
    · cases h
    split at h
    · cases h
    rename_i b₁ hsend
    obtain ⟨rfl, rfl⟩ := Prod.mk.inj (Except.ok.inj h)
    exact ⟨sendCoins_some hsend, rfl⟩
  · cases hget

/-! ## Reading all vouchers -/

variable {q : ℕ}

/-- **DECODING**: what is read back from the key of a voucher has its denom. An address of
    more than twenty bytes leaves the delimiter in the denom, which is then invalid. -/
theorem decodeVoucher_spec {av : AddressVoucher}
    (h : decodeVoucher (voucherKey denom addr) q = .ok av) :
    av.denom = bytes denom ∧ av.amount = q := by
  have hlen : (voucherKey denom addr).length = (bytes denom).length + (addr.bytes.length + 1) := by
    rw [voucherKey, List.length_append, List.length_cons]
  rw [decodeVoucher] at h
  split at h
  · cases h
  split at h
  · next hvalid =>
    rw [← Except.ok.inj h]
    refine ⟨?_, rfl⟩
    rcases Nat.eq_or_lt_of_le addr.length_le with heq | hlt
    · have htake : (voucherKey denom addr).length - 21 = (bytes denom).length := by omega
      show (voucherKey denom addr).take _ = _
      rw [htake, voucherKey]
      exact List.take_left' rfl
    · refine absurd ?_ (delim_notMem_of_validateDenom hvalid)
      have htake : (voucherKey denom addr).length - 21 =
          (bytes denom).length + ((addr.bytes.length - 21) + 1) := by omega
      rw [htake, voucherKey, List.take_length_add_append, List.take_succ_cons]
      exact List.mem_append_right _ List.mem_cons_self
  · cases h

theorem decodeVoucher_ne_keyTooShort (h : validateDenom (bytes denom) = true) :
    decodeVoucher (voucherKey denom addr) q ≠ .error .keyTooShort := by
  have hpos : 0 < (bytes denom).length := by
    cases hb : bytes denom with
    | nil =>
      rw [hb] at h
      cases h
    | cons c cs => exact Nat.succ_pos _
  have hlong : ¬ (voucherKey denom addr).length ≤ 21 := by
    rw [voucherKey, List.length_append, List.length_cons]
    have := addr.length_le
    omega
  rw [decodeVoucher, if_neg hlong]
  split
  · exact fun hh => by cases hh
  · exact fun hh => by cases hh

end Vouchers
