import InjectiveCore.BalanceSheetProofs
import InjectiveCore.TransitionProofs

/-!
# Token pairs — one denom for a contract

An ERC-20 contract that calls the bank precompile stands for a bank denom: that of its token
pair, or a denom of its own, `erc20:` and its address. Which one is looked up at every call,
and pairs come and go. A pair is stored twice, by denom and by contract.

`Exclusive` is kept by every request: the two stores are each other's inverse, and nothing is
left of a contract's own denom while it has a pair. When a contract is given for a pair, its
own denom is checked; one that is deployed for it has an address that was never used.
`one_denom_per_contract` says so for every run.
-/

namespace Erc20TokenPair

open KeyedStore BalanceSheet Transition

/-! ## The model -/

/-- A bank denom by its type, `GetDenomType`; addresses are spelled in one way only. -/
inductive Denom (A : Type) where
  | ibc (path : String)
  | erc20 (address : A)
  | tokenFactory (name : String)
  | peggy (contract : String)
  | unspecified (name : String)
  deriving DecidableEq

inductive Erc20Error where
  | tokenPairExists
  | unknownBankDenom
  | invalidTokenPair
  | existingERC20DenomSupply
  | invalidERC20Address
  | unauthorized
  | uploadERC20Contract
  | bank
  deriving DecidableEq, Repr

structure MsgCreateTokenPair (A : Type) where
  bankDenom : Denom A
  erc20Address : Option A

/-- What other modules answer to a `MsgCreateTokenPair`: of the contract, whether it has code,
    a metadata entry of its own denom and a symbol; whether the sender may use the denom, and
    whether its supply is fixed; and the address of a new contract. -/
structure CreateEnv (A : Type) where
  isContract : Bool
  hasMetadata : Bool
  hasSymbol : Bool
  isAdmin : Bool
  isFixedSupply : Bool
  deployed : Option A

/-- A call of the bank precompile. -/
inductive Call (A : Type) where
  | mint (actor : A) (amount : ℕ)
  | burn (actor : A) (amount : ℕ)
  | transfer (sender recipient : A) (amount : ℕ)

/-- The two stores and the bank. `used` are the addresses that called the precompile or were
    in a pair, `issued` the denoms of which a contract minted since its pair was stored. -/
structure State (A : Type) where
  byDenom : Store (Denom A) A
  byERC20 : Store A (Denom A)
  bank : Balances A (Denom A)
  used : List A
  issued : List (A × Denom A)

variable {A : Type} [DecidableEq A]

def State.empty : State A := ⟨∅, ∅, ∅, [], []⟩

def storeTokenPair (s : State A) (bankDenom : Denom A) (erc20Address : A) : State A :=
  { s with
    byDenom := put bankDenom (some erc20Address) s.byDenom
    byERC20 := put erc20Address (some bankDenom) s.byERC20
    used := erc20Address :: s.used
    issued := s.issued.filter (fun e => e.1 ≠ erc20Address) }

def validateErc20Address (env : CreateEnv A) (s : State A) (erc20Address : A) :
    Except Erc20Error Unit :=
  if !env.isContract then .error .invalidTokenPair
  else if supply s.bank (.erc20 erc20Address) ≠ 0 ∨ env.hasMetadata then
    .error .existingERC20DenomSupply
  else if !env.hasSymbol then .error .invalidERC20Address
  else .ok ()

/-- `DeploySmartContract`. The contract issues nothing in its constructor, and an address that
    was used before is refused. -/
def deploySmartContract (env : CreateEnv A) (s : State A) : Except Erc20Error A :=
  match env.deployed with
  | none => .error .uploadERC20Contract
  | some a => if a ∈ s.used then .error .uploadERC20Contract else .ok a

def createTokenPairTokenFactory (env : CreateEnv A) (s : State A) (pair : MsgCreateTokenPair A) :
    Except Erc20Error (State A) :=
  if !env.isAdmin then .error .unauthorized
  else
    match pair.erc20Address with
    | none => do return storeTokenPair s pair.bankDenom (← deploySmartContract env s)
    | some a =>
      if env.isFixedSupply then .error .invalidERC20Address
      else .ok (storeTokenPair s pair.bankDenom a)

/-- For a denom whose pair anybody may create, with a new contract only. -/
def createTokenPairDeployed (env : CreateEnv A) (s : State A) (pair : MsgCreateTokenPair A) :
    Except Erc20Error (State A) :=
  if pair.erc20Address.isSome then .error .invalidERC20Address
  else do return storeTokenPair s pair.bankDenom (← deploySmartContract env s)

def createTokenPairPeggy (env : CreateEnv A) (s : State A) (pair : MsgCreateTokenPair A) :
    Except Erc20Error (State A) := createTokenPairDeployed env s pair

def createTokenPairIBC (env : CreateEnv A) (s : State A) (pair : MsgCreateTokenPair A) :
    Except Erc20Error (State A) := createTokenPairDeployed env s pair

/-- `CreateTokenPair`; without an address the zero address is looked up. -/
def createTokenPair [Zero A] (env : CreateEnv A) (msg : MsgCreateTokenPair A) (s : State A) :
    Except Erc20Error (State A) :=
  if s.byDenom.lookup msg.bankDenom ≠ none then .error .tokenPairExists
  else if s.byERC20.lookup (msg.erc20Address.getD 0) ≠ none then .error .tokenPairExists
  else if supply s.bank msg.bankDenom = 0 then .error .unknownBankDenom
  else do
    msg.erc20Address.elim (.ok ()) (validateErc20Address env s)
    match msg.bankDenom with
    | .tokenFactory _ => createTokenPairTokenFactory env s msg
    | .peggy _ => createTokenPairPeggy env s msg
    | .ibc _ => createTokenPairIBC env s msg
    | .erc20 _ | .unspecified _ => .error .invalidTokenPair

def deleteTokenPair (isAuthority : Bool) (bankDenom : Denom A) (s : State A) :
    Except Erc20Error (State A) :=
  match s.byDenom.lookup bankDenom with
  | none => .error .unknownBankDenom
  | some a =>
    if !isAuthority then .error .unauthorized
    else .ok { s with byDenom := put bankDenom none s.byDenom, byERC20 := put a none s.byERC20 }

/-- `GetBankDenom`: what a contract stands for. -/
def State.getBankDenom (s : State A) (erc20Addr : A) : Denom A :=
  (s.byERC20.lookup erc20Addr).getD (.erc20 erc20Addr)

def totalSupply (s : State A) (token : A) : ℕ := supply s.bank (s.getBankDenom token)

def balanceOf (s : State A) (token account : A) : ℕ :=
  balance s.bank account (s.getBankDenom token)

/-- The denom that a contract mints and burns: `MintERC20` and `BurnERC20` take that of the
    caller, token factory messages that of the pair. -/
def mintedDenom (s : State A) (erc20Addr : A) : Option (Denom A) :=
  match s.getBankDenom erc20Addr with
  | .erc20 _ => some (.erc20 erc20Addr)
  | .tokenFactory name => some (.tokenFactory name)
  | .peggy _ | .ibc _ | .unspecified _ => none

/-- A call of the precompile by a contract: `mintBurn` and `transfer`. -/
def call (erc20Addr : A) (s : State A) : Call A → Option (State A)
  | .mint actor amount => do
    let denom ← mintedDenom s erc20Addr
    return { s with
      bank := credit s.bank actor denom amount
      issued := (erc20Addr, denom) :: s.issued }
  | .burn actor amount => do
    let denom ← mintedDenom s erc20Addr
    return { s with bank := ← debit s.bank actor denom amount }
  | .transfer sender recipient amount => do
    return { s with bank := ← transfer s.bank sender recipient (s.getBankDenom erc20Addr) amount }

/-- Requests, and what others do with the bank: only this module mints `erc20:` denoms. For
    a call, `isAllowed` are the checks of the precompile and of the modules it calls. -/
inductive Op (A : Type) where
  | createTokenPair (env : CreateEnv A) (msg : MsgCreateTokenPair A)
  | deleteTokenPair (isAuthority : Bool) (bankDenom : Denom A)
  | call (isAllowed : Bool) (erc20Addr : A) (c : Call A)
  | mintCoins (account : A) (denom : Denom A) (amount : ℕ)
  | burnCoins (account : A) (denom : Denom A) (amount : ℕ)
  | sendCoins (sender recipient : A) (denom : Denom A) (amount : ℕ)

def State.withBank (s : State A) (bank : Option (Balances A (Denom A))) :
    Except Erc20Error (State A) :=
  bank.elim (.error .bank) (fun bank => .ok { s with bank := bank })

def step [Zero A] : Op A → State A → Except Erc20Error (State A)
  | .createTokenPair env msg, s => createTokenPair env msg s
  | .deleteTokenPair isAuthority bankDenom, s => deleteTokenPair isAuthority bankDenom s
  | .call isAllowed a c, s =>
    match call a s c with
    | none => .error .bank
    | some s' => if isAllowed then .ok { s' with used := a :: s'.used } else .error .bank
  | .mintCoins account denom amount, s =>
    match denom with
    | .erc20 _ => .error .bank
    | _ => .ok { s with bank := credit s.bank account denom amount }
  | .burnCoins account denom amount, s => s.withBank (debit s.bank account denom amount)
  | .sendCoins sender recipient denom amount, s =>
    s.withBank (transfer s.bank sender recipient denom amount)

/-! ## The invariant -/

/-- What every request keeps. -/
structure Exclusive (s : State A) : Prop where
  inverse : ∀ d a, s.byDenom.lookup d = some a ↔ s.byERC20.lookup a = some d
  foreign : ∀ a d, s.byERC20.lookup a = some d → ∀ a', d ≠ .erc20 a'
  retired : ∀ a d, s.byERC20.lookup a = some d → supply s.bank (.erc20 a) = 0
  unused : ∀ a, a ∉ s.used → supply s.bank (.erc20 a) = 0 ∧ s.byERC20.lookup a = none
  issued : ∀ a d, s.byERC20.lookup a = some d → ∀ d', (a, d') ∈ s.issued → d' = d

variable {s s' : State A}

theorem empty_exclusive : Exclusive (State.empty : State A) where
  inverse _ _ := iff_of_false (fun h => by cases h) (fun h => by cases h)
  foreign _ _ h := by cases h
  retired _ _ h := by cases h
  unused _ _ := ⟨rfl, rfl⟩
  issued _ _ h := by cases h

/-- Coins may come and go, but no contract's own denom may grow. -/
theorem Exclusive.withBank (h : Exclusive s) {bank : Balances A (Denom A)}
    (hle : ∀ a, supply bank (.erc20 a) ≤ supply s.bank (.erc20 a)) :
    Exclusive { s with bank := bank } :=
  { h with
    retired a d hd := Nat.eq_zero_of_le_zero ((hle a).trans (h.retired a d hd).le)
    unused a ha :=
      ⟨Nat.eq_zero_of_le_zero ((hle a).trans (h.unused a ha).1.le), (h.unused a ha).2⟩ }

theorem Exclusive.use (h : Exclusive s) (a : A) : Exclusive { s with used := a :: s.used } :=
  { h with unused := fun a' ha' => h.unused a' (fun hmem => ha' (List.mem_cons_of_mem a hmem)) }

variable {d : Denom A} {a : A}

/-- **A NEW PAIR** of a denom and a contract that have none, the contract with nothing of its
    own denom. -/
theorem Exclusive.storeTokenPair (h : Exclusive s) (hdenom : s.byDenom.lookup d = none)
    (hcontract : s.byERC20.lookup a = none) (hown : supply s.bank (.erc20 a) = 0)
    (hforeign : ∀ a', d ≠ .erc20 a') : Exclusive (storeTokenPair s d a) where
  inverse := by
    intro d' a'
    show (put d (some a) s.byDenom).lookup d' = _ ↔ (put a (some d) s.byERC20).lookup a' = _
    rw [lookup_put, lookup_put]
    by_cases hd : d' = d
    · subst hd
      by_cases ha : a' = a
      · rw [if_pos rfl, if_pos ha, ha]
        exact iff_of_true rfl rfl
      · rw [if_pos rfl, if_neg ha, ← h.inverse, hdenom]
        exact iff_of_false (fun heq => ha (Option.some.inj heq).symm) (Option.some_ne_none _).symm
    · by_cases ha : a' = a
      · subst ha
        rw [if_neg hd, if_pos rfl, h.inverse, hcontract]
        exact iff_of_false (Option.some_ne_none _).symm (fun heq => hd (Option.some.inj heq).symm)
      · rw [if_neg hd, if_neg ha]
        exact h.inverse d' a'
  foreign := forall_lookup_put h.foreign hforeign
  retired := forall_lookup_put h.retired hown
  unused a' ha' := by
    obtain ⟨hne, hmem⟩ := not_or.mp (fun h => ha' (List.mem_cons.mpr h))
    exact ⟨(h.unused a' hmem).1, (lookup_put_of_ne hne _ _).trans (h.unused a' hmem).2⟩
  issued := by
    intro a' d' hd' x hx
    obtain ⟨hmem, hne⟩ := List.mem_filter.mp hx
    rw [decide_eq_true_eq] at hne
    exact h.issued a' d' ((lookup_put_of_ne hne _ _).symm.trans hd') x hmem

theorem Exclusive.deleteTokenPair (h : Exclusive s) (hd : s.byDenom.lookup d = some a) :
    Exclusive { s with byDenom := put d none s.byDenom, byERC20 := put a none s.byERC20 } where
  inverse := by
    intro d' a'
    show (put d none s.byDenom).lookup d' = _ ↔ (put a none s.byERC20).lookup a' = _
    have hcontract := (h.inverse d a).mp hd
    constructor
    · intro hd'
      obtain ⟨hne, hd'⟩ := lookup_put_none_cases hd'
      refine (lookup_put_of_ne ?_ _ _).trans ((h.inverse d' a').mp hd')
      rintro rfl
      exact hne (Option.some.inj (((h.inverse d' a').mp hd').symm.trans hcontract))
    · intro ha'
      obtain ⟨hne, ha'⟩ := lookup_put_none_cases ha'
      refine (lookup_put_of_ne ?_ _ _).trans ((h.inverse d' a').mpr ha')
      rintro rfl
      exact hne (Option.some.inj (((h.inverse d' a').mpr ha').symm.trans hd))
  foreign := forall_lookup_delete h.foreign
  retired := forall_lookup_delete h.retired
  unused a' ha' := by
    refine ⟨(h.unused a' ha').1, ?_⟩
    rw [lookup_put, (h.unused a' ha').2, ite_self]
  issued := forall_lookup_delete h.issued

theorem Exclusive.deployed {env : CreateEnv A} (h : Exclusive s)
    (hdenom : s.byDenom.lookup d = none) (hforeign : ∀ a', d ≠ .erc20 a')
    (hok : (do return Erc20TokenPair.storeTokenPair s d (← deploySmartContract env s)) = .ok s') :
    Exclusive s' := by
  obtain ⟨a, hdeploy, hok⟩ := exists_of_bind_eq_ok hok
  cases hok
  rw [deploySmartContract] at hdeploy
  split at hdeploy
  · cases hdeploy
  split at hdeploy
  · cases hdeploy
  rename_i hunused
  cases hdeploy
  exact h.storeTokenPair hdenom (h.unused a hunused).2 (h.unused a hunused).1 hforeign

theorem Exclusive.createTokenPair [Zero A] (h : Exclusive s) {env : CreateEnv A}
    {msg : MsgCreateTokenPair A} (hok : createTokenPair env msg s = .ok s') : Exclusive s' := by
  obtain ⟨d, given⟩ := msg
  rw [Erc20TokenPair.createTokenPair] at hok
  split at hok
  · cases hok
  rename_i hdenom
  rw [not_not] at hdenom
  split at hok
  · cases hok
  rename_i hcontract
  rw [not_not] at hcontract
  split at hok
  · cases hok
  obtain ⟨_, hvalid, hok⟩ := exists_of_bind_eq_ok hok
  cases d with
  | tokenFactory name =>
    have hforeign : ∀ a' : A, Denom.tokenFactory name ≠ .erc20 a' := fun a' heq => by cases heq
    dsimp only at hok
    rw [createTokenPairTokenFactory] at hok
    split at hok
    · cases hok
    cases given with
    | none => exact h.deployed hdenom hforeign hok
    | some a =>
      dsimp only at hok
      split at hok
      · cases hok
      cases hok
      change validateErc20Address env s a = .ok _ at hvalid
      rw [validateErc20Address] at hvalid
      split at hvalid
      · cases hvalid
      split at hvalid
      · cases hvalid
      rename_i hown
      exact h.storeTokenPair hdenom hcontract (not_not.mp (not_or.mp hown).1) hforeign
  | peggy _ | ibc _ =>
    change createTokenPairDeployed env s _ = _ at hok
    rw [createTokenPairDeployed] at hok
    split at hok
    · cases hok
    exact h.deployed hdenom (fun a' heq => by cases heq) hok
  | erc20 _ | unspecified _ => cases hok

/-- What a contract mints is of its own denom if it has no pair, else of the pair's. -/
theorem mintedDenom_some (h : Exclusive s) (hd : mintedDenom s a = some d) :
    s.byERC20.lookup a = none ∧ d = .erc20 a ∨
      s.byERC20.lookup a = some d ∧ ∀ a', d ≠ .erc20 a' := by
  rw [mintedDenom, State.getBankDenom] at hd
  cases hpair : s.byERC20.lookup a with
  | none =>
    rw [hpair] at hd
    exact .inl ⟨rfl, (Option.some.inj hd).symm⟩
  | some d' =>
    have hforeign := h.foreign a d' hpair
    rw [hpair] at hd
    cases d' with
    | erc20 a' => exact absurd rfl (hforeign a')
    | tokenFactory name =>
      cases hd
      exact .inr ⟨rfl, hforeign⟩
    | peggy _ | ibc _ | unspecified _ => cases hd

theorem Exclusive.mint (h : Exclusive s) (hd : mintedDenom s a = some d) (actor : A)
    (amount : ℕ) : Exclusive { s with
      bank := credit s.bank actor d amount, used := a :: s.used,
      issued := (a, d) :: s.issued } := by
  have hminted := mintedDenom_some h hd
  -- only a contract without a pair mints its own denom
  have hother : ∀ a', a' ≠ a ∨ s.byERC20.lookup a' ≠ none →
      supply (credit s.bank actor d amount) (.erc20 a') = supply s.bank (.erc20 a') := by
    intro a' ha'
    rw [supply_credit, inDenom_of_ne, Nat.add_zero]
    rintro rfl
    rcases hminted with ⟨hnone, heq⟩ | ⟨-, hne⟩
    · cases heq
      exact ha'.elim (fun hne => hne rfl) (fun hne => hne hnone)
    · exact hne a' rfl
  refine { h with retired := ?_, unused := ?_, issued := ?_ }
  · intro a' d' hd'
    rw [hother a' (.inr (hd' ▸ Option.some_ne_none d'))]
    exact h.retired a' d' hd'
  · intro a' ha'
    obtain ⟨hne, hmem⟩ := not_or.mp (fun h => ha' (List.mem_cons.mpr h))
    exact ⟨(hother a' (.inl hne)).trans (h.unused a' hmem).1, (h.unused a' hmem).2⟩
  · intro a' d' hd' x hx
    rcases List.mem_cons.mp hx with heq | hmem
    · cases heq
      rcases hminted with ⟨hnone, -⟩ | ⟨hpair, -⟩
      · rw [hnone] at hd'
        cases hd'
      · exact Option.some.inj (hpair.symm.trans hd')
    · exact h.issued a' d' hd' x hmem

/-- **A CALL** of the precompile. -/
theorem Exclusive.call (h : Exclusive s) {c : Call A} (hcall : call a s c = some s') :
    Exclusive { s' with used := a :: s'.used } := by
  cases c with
  | mint actor amount =>
    obtain ⟨d, hd, hs'⟩ := Option.bind_eq_some_iff.mp hcall
    cases hs'
    exact h.mint hd actor amount
  | burn actor amount =>
    obtain ⟨d, -, hs'⟩ := Option.bind_eq_some_iff.mp hcall
    obtain ⟨b, hb, hs'⟩ := Option.bind_eq_some_iff.mp hs'
    cases hs'
    refine (h.withBank (fun a' => ?_)).use a
    rw [← supply_debit hb]
    exact Nat.le_add_right _ _
  | transfer sender recipient amount =>
    obtain ⟨b, hb, hs'⟩ := Option.bind_eq_some_iff.mp hcall
    cases hs'
    exact (h.withBank (fun a' => (supply_transfer hb _).le)).use a

theorem Exclusive.step [Zero A] (h : Exclusive s) {op : Op A} (hok : step op s = .ok s') :
    Exclusive s' := by
  have hbank : ∀ {x : Option (Balances A (Denom A))}, s.withBank x = .ok s' →
      (∀ b, x = some b → ∀ a, supply b (.erc20 a) ≤ supply s.bank (.erc20 a)) → Exclusive s' := by
    intro x hx hle
    cases x with
    | none => cases hx
    | some b =>
      cases hx
      exact h.withBank (hle b rfl)
  cases op with
  | createTokenPair env msg => exact h.createTokenPair hok
  | deleteTokenPair isAuthority bankDenom =>
    change Erc20TokenPair.deleteTokenPair isAuthority bankDenom s = _ at hok
    rw [Erc20TokenPair.deleteTokenPair] at hok
    split at hok
    · cases hok
    rename_i a hd
    split at hok
    · cases hok
    cases hok
    exact h.deleteTokenPair hd
  | call isAllowed a c =>
    rw [Erc20TokenPair.step] at hok
    split at hok
    · cases hok
    rename_i s₁ hcall
    split at hok
    · cases hok
      exact h.call hcall
    · cases hok
  | mintCoins account denom amount =>
    cases denom with
    | erc20 a => cases hok
    | _ =>
      cases hok
      refine h.withBank (fun a => ?_)
      rw [supply_credit, inDenom_of_ne (fun heq => by cases heq), Nat.add_zero]
  | burnCoins account denom amount =>
    refine hbank hok (fun b hb a => ?_)
    rw [← supply_debit hb]
    exact Nat.le_add_right _ _
  | sendCoins sender recipient denom amount =>
    exact hbank hok (fun b hb a => (supply_transfer hb _).le)

/-- What a contract stands for. -/
structure OneDenom (s : State A) : Prop where
  /-- The stores are inverse partial bijections. -/
  inverse : ∀ d a, s.byDenom.lookup d = some a ↔ s.byERC20.lookup a = some d
  /-- Nothing is left of the own denom of a contract in a pair. -/
  retired : ∀ a d, s.byERC20.lookup a = some d → supply s.bank (.erc20 a) = 0
  /-- What it issued since is of the pair's denom. -/
  issued : ∀ a d, s.byERC20.lookup a = some d → ∀ d', (a, d') ∈ s.issued → d' = d
  /-- What the precompile reports covers both denoms. -/
  covered : ∀ a d, s.byERC20.lookup a = some d →
    totalSupply s a = supply s.bank d + supply s.bank (.erc20 a) ∧
      ∀ account, balanceOf s a account =
        balance s.bank account d + balance s.bank account (.erc20 a)

/-- **ONE DENOM FOR A CONTRACT**: after any requests, an ERC-20 contract with a token pair
    stands for the denom of the pair and for nothing else. -/
theorem one_denom_per_contract [Zero A] (ops : List (Op A)) :
    OneDenom (run step State.empty ops) := by
  have h : Exclusive (run step State.empty ops) :=
    run_invariant (fun _ _ _ hs hok => hs.step hok) ops empty_exclusive
  refine ⟨h.inverse, h.retired, h.issued, ?_⟩
  intro a d hd
  have hown := h.retired a d hd
  have hdenom : (run step State.empty ops).getBankDenom a = d := by
    rw [State.getBankDenom, hd]
    rfl
  rw [totalSupply, hdenom, hown]
  refine ⟨rfl, ?_⟩
  intro account
  have hle := balance_le_supply (run step State.empty ops).bank account (.erc20 a)
  rw [balanceOf, hdenom, Nat.eq_zero_of_le_zero (hle.trans hown.le)]
  rfl

end Erc20TokenPair
