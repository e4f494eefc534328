import InjectiveCore.PeggyAttestationProofs

/-!
# Claim hashes — when a hash tells the claim

A claim is stored and voted for under the hash of a text: its fields, joined by `/`. Most
fields are numbers or addresses and hold no `/`, but the denom, the name and the symbol of
a deployed token and the data of a deposit are free. What the text determines is the list
of its parts between the separators (`parts_path`), and the question is who else has the
same parts:

- claims of executed batches and of validator sets have four and six parts, the others at
  least seven, so these two kinds are always told by their hash;
- two deposits with the same parts are the same;
- a deployed token is told if its name and symbol hold no `/`, no later part of its denom
  is an address and its parts do not read as a deposit;
- a deposit is told unless its parts read as a deployed token.

`claimHash_identifies` says that these conditions are exact, and that under them every
voter of an attestation has submitted what is stored.
-/

namespace PeggyClaim

open KeyedStore Transition PeggyOracle

/-! ## Texts -/

/-- A string. -/
abbrev Text := List Char

/-- `%d` of an unsigned number. -/
def decimal (n : UInt64) : Text := Nat.toDigits 10 n.toNat

/-- `math.Int` has at most 256 bits. -/
abbrev Int256 := { x : ℤ // |x| < 2 ^ 256 }

/-- `Int.String`; an amount that was not sent is nil. -/
def amountText : Option Int256 → Text
  | none => "<nil>".toList
  | some x => if x.1 < 0 then '-' :: Nat.toDigits 10 x.1.natAbs else Nat.toDigits 10 x.1.natAbs

/-- `isHexCharacter` of go-ethereum. -/
def isHexCharacter (c : Char) : Bool :=
  ('0' ≤ c && c ≤ '9') || ('a' ≤ c && c ≤ 'f') || ('A' ≤ c && c ≤ 'F')

/-- The text without `0x` in front. -/
def without0x : Text → Text
  | '0' :: 'x' :: rest => rest
  | '0' :: 'X' :: rest => rest
  | text => text

/-- `IsHexAddress` of go-ethereum. -/
def isHexAddress (text : Text) : Bool :=
  (without0x text).length == 40 && (without0x text).all isHexCharacter

/-- Fields with `/` between them. -/
def joinPath (fields : List Text) : Text := ['/'].intercalate fields

/-! ## Claims -/

/-- The parts of the platform a claim relies on: reading an account address, and the
    hash. -/
class Platform (A H : outParam Type) where
  accAddressFromBech32 : Text → Option A
  tmhash : Text → H

structure MsgDepositClaim where
  eventNonce : UInt64
  blockHeight : UInt64
  tokenContract : Text
  amount : Option Int256
  ethereumSender : Text
  cosmosReceiver : Text
  orchestrator : Text
  data : Text
  deriving DecidableEq

structure MsgWithdrawClaim where
  eventNonce : UInt64
  blockHeight : UInt64
  batchNonce : UInt64
  tokenContract : Text
  orchestrator : Text
  deriving DecidableEq

structure MsgERC20DeployedClaim where
  eventNonce : UInt64
  blockHeight : UInt64
  cosmosDenom : Text
  tokenContract : Text
  name : Text
  symbol : Text
  decimals : UInt64
  orchestrator : Text
  deriving DecidableEq

structure BridgeValidator where
  power : UInt64
  ethereumAddress : Text
  deriving DecidableEq

structure MsgValsetUpdatedClaim where
  eventNonce : UInt64
  valsetNonce : UInt64
  blockHeight : UInt64
  members : List BridgeValidator
  rewardAmount : Option Int256
  rewardToken : Text
  orchestrator : Text
  deriving DecidableEq

inductive Claim where
  | deposit (msg : MsgDepositClaim)
  | withdraw (msg : MsgWithdrawClaim)
  | erc20Deployed (msg : MsgERC20DeployedClaim)
  | valsetUpdated (msg : MsgValsetUpdatedClaim)
  deriving DecidableEq

def powerText (power : UInt64) : Text :=
  if power = 0 then [] else "power:".toList ++ decimal power ++ " ".toList

def addressText (address : Text) : Text :=
  if address = [] then [] else "ethereum_address:".toList ++ '"' :: (address ++ ['"', ' '])

/-- `CompactTextString` of a member: a field that is zero is left out. -/
def BridgeValidator.string (member : BridgeValidator) : Text :=
  powerText member.power ++ addressText member.ethereumAddress

/-- `%s` of the members. -/
def membersText (members : List BridgeValidator) : Text :=
  '[' :: ([' '].intercalate (members.map (·.string)) ++ [']'])

/-- The text that is hashed by `ClaimHash`. -/
def Claim.path : Claim → Text
  | .deposit msg => joinPath
      [decimal msg.eventNonce, decimal msg.blockHeight, msg.tokenContract,
        amountText msg.amount, msg.ethereumSender, msg.cosmosReceiver, msg.data]
  | .withdraw msg => joinPath
      [msg.tokenContract, decimal msg.batchNonce, decimal msg.eventNonce,
        decimal msg.blockHeight]
  | .erc20Deployed msg => joinPath
      [decimal msg.eventNonce, decimal msg.blockHeight, msg.cosmosDenom, msg.tokenContract,
        msg.name, msg.symbol, decimal msg.decimals]
  | .valsetUpdated msg => joinPath
      [decimal msg.valsetNonce, decimal msg.eventNonce, decimal msg.blockHeight,
        membersText msg.members, msg.rewardToken, amountText msg.rewardAmount]

/-- All of a claim but who sent it: its type and every other field. -/
def Claim.content : Claim → Claim
  | .deposit msg => .deposit { msg with orchestrator := [] }
  | .withdraw msg => .withdraw { msg with orchestrator := [] }
  | .erc20Deployed msg => .erc20Deployed { msg with orchestrator := [] }
  | .valsetUpdated msg => .valsetUpdated { msg with orchestrator := [] }

def Claim.eventNonce : Claim → UInt64
  | .deposit msg => msg.eventNonce
  | .withdraw msg => msg.eventNonce
  | .erc20Deployed msg => msg.eventNonce
  | .valsetUpdated msg => msg.eventNonce

def Claim.blockHeight : Claim → UInt64
  | .deposit msg => msg.blockHeight
  | .withdraw msg => msg.blockHeight
  | .erc20Deployed msg => msg.blockHeight
  | .valsetUpdated msg => msg.blockHeight

def Claim.orchestrator : Claim → Text
  | .deposit msg => msg.orchestrator
  | .withdraw msg => msg.orchestrator
  | .erc20Deployed msg => msg.orchestrator
  | .valsetUpdated msg => msg.orchestrator

section Platform

variable {A H : Type} [Platform A H]

/-- `ClaimHash`. -/
def Claim.claimHash (c : Claim) : H := Platform.tmhash c.path

/-- `msg.Data = ""`. -/
def Claim.ignoreData : Claim → Claim
  | .deposit m => .deposit { m with data := [] }
  | c => c

instance : EthereumClaim Claim (Option A) H where
  getEventNonce c := c.eventNonce.toNat
  getBlockHeight c := c.blockHeight.toNat
  getClaimer c := Platform.accAddressFromBech32 c.orchestrator
  claimHash c := c.claimHash
  ignoreData := Claim.ignoreData

end Platform

/-! ## ValidateBasic -/

inductive ClaimError where
  | invalidAddress (address : Text)
  | emptyEthAddress (context : Option String)
  | notValidEthAddress (context : Option String) (address : Text)
  | zeroNonce (text : String)
  deriving DecidableEq, Repr

section Validate

variable {A H : Type} [Platform A H]

/-- An address that `AccAddressFromBech32` reads. -/
def isAccAddress (text : Text) : Bool := (Platform.accAddressFromBech32 text).isSome

def checkAccAddress (text : Text) : Except ClaimError Unit :=
  if !isAccAddress text then .error (.invalidAddress text) else .ok ()

/-- `ValidateEthAddress`, with what its error is wrapped in. -/
def validateEthAddress (context : Option String) (address : Text) : Except ClaimError Unit :=
  if address = [] then .error (.emptyEthAddress context)
  else if !isHexAddress address then .error (.notValidEthAddress context address)
  else .ok ()

def checkNonce (text : String) (nonce : UInt64) : Except ClaimError Unit :=
  if nonce = 0 then .error (.zeroNonce text) else .ok ()

/-- `ValidateBasic`. -/
def Claim.validateBasic : Claim → Except ClaimError Unit
  | .deposit msg => do
      checkAccAddress msg.cosmosReceiver
      validateEthAddress (some "eth sender") msg.ethereumSender
      validateEthAddress (some "erc20 token") msg.tokenContract
      checkAccAddress msg.orchestrator
      checkNonce "nonce == 0" msg.eventNonce
  | .withdraw msg => do
      checkNonce "event_nonce == 0" msg.eventNonce
      checkNonce "batch_nonce == 0" msg.batchNonce
      validateEthAddress (some "erc20 token") msg.tokenContract
      checkAccAddress msg.orchestrator
  | .erc20Deployed msg => do
      validateEthAddress (some "erc20 token") msg.tokenContract
      checkAccAddress msg.orchestrator
      checkNonce "nonce == 0" msg.eventNonce
  | .valsetUpdated msg => do
      checkAccAddress msg.orchestrator
      checkNonce "nonce == 0" msg.eventNonce
      validateEthAddress none msg.rewardToken
      msg.members.forM (fun member => validateEthAddress none member.ethereumAddress)

def Claim.Valid (c : Claim) : Prop := c.validateBasic = .ok ()

instance (c : Claim) : Decidable c.Valid :=
  inferInstanceAs (Decidable (c.validateBasic = .ok ()))

variable {x : Except ClaimError Unit}

omit [Platform A H] in
theorem ite_error_eq_ok_iff {p : Prop} [Decidable p] {e : ClaimError} :
    (if p then .error e else x) = .ok () ↔ ¬ p ∧ x = .ok () := by
  split
  · next h =>
    constructor
    · intro heq
      cases heq
    · rintro ⟨hnot, -⟩
      exact absurd h hnot
  · next h => exact ⟨fun hx => ⟨h, hx⟩, fun hx => hx.2⟩

theorem checkAccAddress_eq_ok {text : Text} :
    checkAccAddress text = .ok () ↔ isAccAddress text := by
  rw [checkAccAddress, ite_error_eq_ok_iff, and_iff_left rfl, Bool.not_eq_true', Bool.not_eq_false]

omit [Platform A H] in
theorem validateEthAddress_eq_ok {context : Option String} {address : Text} :
    validateEthAddress context address = .ok () ↔ isHexAddress address := by
  rw [validateEthAddress, ite_error_eq_ok_iff, ite_error_eq_ok_iff, and_iff_left rfl,
    Bool.not_eq_true', Bool.not_eq_false]
  refine and_iff_right_of_imp ?_
  rintro hhex rfl
  cases hhex

omit [Platform A H] in
theorem checkNonce_eq_ok {text : String} {nonce : UInt64} :
    checkNonce text nonce = .ok () ↔ nonce ≠ 0 := by
  rw [checkNonce, ite_error_eq_ok_iff, and_iff_left rfl]

omit [Platform A H] in
theorem bind_eq_ok_iff {f : Unit → Except ClaimError Unit} :
    x >>= f = .ok () ↔ x = .ok () ∧ f () = .ok () := by
  cases x with
  | error e =>
    constructor
    · intro heq
      cases heq
    · rintro ⟨heq, -⟩
      cases heq
  | ok u => exact ⟨fun h => ⟨rfl, h⟩, fun h => h.2⟩

omit [Platform A H] in
theorem forM_eq_ok_iff {α : Type} {f : α → Except ClaimError Unit} {l : List α} :
    l.forM f = .ok () ↔ ∀ a ∈ l, f a = .ok () := by
  induction l with
  | nil => exact ⟨fun _ _ h => absurd h List.not_mem_nil, fun _ => rfl⟩
  | cons a l ih =>
    show (f a >>= fun _ => l.forM f) = .ok () ↔ _
    rw [bind_eq_ok_iff, List.forall_mem_cons]
    exact and_congr_right fun _ => ih

theorem valid_deposit {m : MsgDepositClaim} : (Claim.deposit m).Valid ↔
    isAccAddress m.cosmosReceiver ∧ isHexAddress m.ethereumSender ∧
      isHexAddress m.tokenContract ∧ isAccAddress m.orchestrator ∧ m.eventNonce ≠ 0 := by
  rw [Claim.Valid, Claim.validateBasic, bind_eq_ok_iff, bind_eq_ok_iff, bind_eq_ok_iff,
    bind_eq_ok_iff, checkAccAddress_eq_ok, checkAccAddress_eq_ok, validateEthAddress_eq_ok,
    validateEthAddress_eq_ok, checkNonce_eq_ok]

theorem valid_withdraw {m : MsgWithdrawClaim} : (Claim.withdraw m).Valid ↔
    m.eventNonce ≠ 0 ∧ m.batchNonce ≠ 0 ∧ isHexAddress m.tokenContract ∧
      isAccAddress m.orchestrator := by
  rw [Claim.Valid, Claim.validateBasic, bind_eq_ok_iff, bind_eq_ok_iff, bind_eq_ok_iff,
    checkAccAddress_eq_ok, validateEthAddress_eq_ok, checkNonce_eq_ok, checkNonce_eq_ok]

theorem valid_erc20Deployed {m : MsgERC20DeployedClaim} : (Claim.erc20Deployed m).Valid ↔
    isHexAddress m.tokenContract ∧ isAccAddress m.orchestrator ∧ m.eventNonce ≠ 0 := by
  rw [Claim.Valid, Claim.validateBasic, bind_eq_ok_iff, bind_eq_ok_iff, checkAccAddress_eq_ok,
    validateEthAddress_eq_ok, checkNonce_eq_ok]

theorem valid_valsetUpdated {m : MsgValsetUpdatedClaim} : (Claim.valsetUpdated m).Valid ↔
    isAccAddress m.orchestrator ∧ m.eventNonce ≠ 0 ∧ isHexAddress m.rewardToken ∧
      ∀ member ∈ m.members, isHexAddress member.ethereumAddress := by
  rw [Claim.Valid, Claim.validateBasic, bind_eq_ok_iff, bind_eq_ok_iff, bind_eq_ok_iff,
    forM_eq_ok_iff, checkAccAddress_eq_ok, validateEthAddress_eq_ok, checkNonce_eq_ok]
  simp only [validateEthAddress_eq_ok]

end Validate

/-! ## Parts -/

/-- The parts of a text between the separators. -/
def parts (text : Text) : List Text := text.splitOn '/'

theorem joinPath_parts (text : Text) : joinPath (parts text) = text := List.intercalate_splitOn '/'

theorem parts_injective : Function.Injective parts := by
  intro text text' h
  rw [← joinPath_parts text, ← joinPath_parts text', h]

theorem parts_ne_nil (text : Text) : parts text ≠ [] := List.splitOn_ne_nil '/' text

variable {text : Text}

theorem parts_of_notMem (h : '/' ∉ text) : parts text = [text] := List.splitOn_eq_singleton h

theorem parts_append (text text' : Text) :
    parts (text ++ '/' :: text') = parts text ++ parts text' :=
  List.splitOn_append_cons_self text text'

theorem joinPath_singleton (field : Text) : joinPath [field] = field := List.append_nil field

theorem joinPath_cons_cons (field field' : Text) (fields : List Text) :
    joinPath (field :: field' :: fields) = field ++ '/' :: joinPath (field' :: fields) := by
  rw [joinPath, List.intercalate_cons_cons, List.append_assoc]
  rfl

theorem parts_joinPath {fields : List Text} (h : fields ≠ []) :
    parts (joinPath fields) = fields.flatMap parts := by
  induction fields with
  | nil => exact absurd rfl h
  | cons field fields ih =>
    cases fields with
    | nil => rw [List.flatMap_singleton, joinPath_singleton]
    | cons field' fields =>
      rw [joinPath_cons_cons, parts_append, ih (List.cons_ne_nil _ _)]
      rfl

/-! ## Fields without a separator -/

variable {c : Char}

theorem mem_without0x (h : c ∈ text) : c = '0' ∨ c = 'x' ∨ c = 'X' ∨ c ∈ without0x text := by
  rw [without0x.eq_def]
  split
  · simp only [List.mem_cons] at h
    tauto
  · simp only [List.mem_cons] at h
    tauto
  · exact Or.inr (Or.inr (Or.inr h))

theorem notMem_of_isHexAddress (h : isHexAddress text) (hc : isHexCharacter c = false)
    (hx : c ≠ 'x') (hX : c ≠ 'X') : c ∉ text := by
  rw [isHexAddress, Bool.and_eq_true, List.all_eq_true] at h
  intro hmem
  rcases mem_without0x hmem with rfl | rfl | rfl | hrest
  · cases hc
  · exact hx rfl
  · exact hX rfl
  · rw [h.2 c hrest] at hc
    cases hc

theorem slash_notMem_of_isHexAddress (h : isHexAddress text) : '/' ∉ text :=
  notMem_of_isHexAddress h (by decide) (by decide) (by decide)

theorem notMem_toDigits (n : ℕ) (hc : c.isDigit = false) : c ∉ Nat.toDigits 10 n := by
  intro hmem
  have hdigit := Nat.isDigit_of_mem_toDigits (by decide) (by decide) hmem
  rw [hc] at hdigit
  cases hdigit

theorem toDigits_injective : Function.Injective (Nat.toDigits 10) := by
  intro n n' h
  have hvalue := congrArg (fun digits => Nat.ofDigitChars 10 digits 0) h
  simpa only [Nat.ofDigitChars_ten_toDigits] using hvalue

theorem decimal_injective : Function.Injective decimal :=
  fun _ _ h => UInt64.toNat_inj.mp (toDigits_injective h)

theorem notMem_decimal (n : UInt64) : '/' ∉ decimal n := notMem_toDigits _ (by decide)

theorem notMem_amountText_some (x : Int256) (hc : c.isDigit = false) (hne : c ≠ '-') :
    c ∉ amountText (some x) := by
  rw [amountText]
  split
  · rw [List.mem_cons, not_or]
    exact ⟨hne, notMem_toDigits _ hc⟩
  · exact notMem_toDigits _ hc

theorem notMem_amountText (amount : Option Int256) : '/' ∉ amountText amount := by
  cases amount with
  | none => decide
  | some x => exact notMem_amountText_some x (by decide) (by decide)

theorem amountText_some_ne_none (x : Int256) : amountText (some x) ≠ amountText none := by
  intro h
  refine notMem_amountText_some x (c := '<') (by decide) (by decide) ?_
  rw [h]
  decide

theorem amountText_injective : Function.Injective amountText := by
  intro amount amount' h
  cases amount with
  | none =>
    cases amount' with
    | none => rfl
    | some y => exact absurd h.symm (amountText_some_ne_none y)
  | some x =>
    cases amount' with
    | none => exact absurd h (amountText_some_ne_none x)
    | some y =>
      refine congrArg some (Subtype.ext ?_)
      rw [amountText, amountText] at h
      split at h
      · next hx =>
        split at h
        · next hy =>
          have habs := toDigits_injective (List.cons.inj h).2
          omega
        · exact absurd (h ▸ List.mem_cons_self) (notMem_toDigits _ (by decide))
      · next hx =>
        split at h
        · exact absurd (h ▸ List.mem_cons_self) (notMem_toDigits _ (by decide))
        · next hy =>
          have habs := toDigits_injective h
          omega

/-! ## Members -/

/-- What stands before the address of a member. -/
def memberHead (power : UInt64) : Text := powerText power ++ "ethereum_address:".toList

variable {member : BridgeValidator}

theorem string_eq (h : isHexAddress member.ethereumAddress) :
    member.string = memberHead member.power ++ '"' :: (member.ethereumAddress ++ '"' :: [' ']) := by
  have hne : member.ethereumAddress ≠ [] := by
    intro hnil
    rw [hnil] at h
    cases h
  rw [BridgeValidator.string, addressText, if_neg hne, memberHead, List.append_assoc]

theorem notMem_memberHead (power : UInt64) (hc : c.isDigit = false)
    (hpower : c ∉ "power:".toList) (hspace : c ∉ " ".toList)
    (haddress : c ∉ "ethereum_address:".toList) : c ∉ memberHead power := by
  have hdecimal : c ∉ decimal power := notMem_toDigits _ hc
  rw [memberHead, powerText]
  split
  · exact haddress
  · simp only [List.mem_append, not_or]
    exact ⟨⟨⟨hpower, hdecimal⟩, hspace⟩, haddress⟩

theorem memberHead_injective : Function.Injective memberHead := by
  intro power power' h
  have htext : powerText power = powerText power' := List.append_cancel_right h
  have hpos : ∀ n : UInt64, n ≠ 0 → powerText n ≠ [] := by
    intro n hn
    rw [powerText, if_neg hn]
    exact List.cons_ne_nil _ _
  by_cases hp : power = 0
  · by_cases hp' : power' = 0
    · rw [hp, hp']
    · rw [hp] at htext
      exact absurd htext.symm (hpos power' hp')
  · by_cases hp' : power' = 0
    · rw [hp'] at htext
      exact absurd htext (hpos power hp)
    · rw [powerText, powerText, if_neg hp, if_neg hp'] at htext
      exact decimal_injective (List.append_cancel_left (List.append_cancel_right htext))

/-- What stands after a member in the list. -/
def membersAfter : List BridgeValidator → Text
  | [] => [']']
  | member :: rest => ' ' :: (member.string ++ membersAfter rest)

theorem membersText_cons (member : BridgeValidator) (rest : List BridgeValidator) :
    membersText (member :: rest) = '[' :: (member.string ++ membersAfter rest) := by
  rw [membersText]
  refine congrArg ('[' :: ·) ?_
  induction rest generalizing member with
  | nil =>
    rw [List.map_singleton, membersAfter]
    exact congrArg (· ++ [']']) (List.append_nil _)
  | cons member' rest ih =>
    have htail : [' '].intercalate ((member' :: rest).map (·.string)) ++ [']'] =
        member'.string ++ membersAfter rest := ih member'
    rw [List.map_cons, List.map_cons, List.intercalate_cons_cons, List.append_assoc,
      List.append_assoc, ← List.map_cons, htail]
    rfl

variable {members : List BridgeValidator}

theorem notMem_membersAfter (h : ∀ member ∈ members, isHexAddress member.ethereumAddress) :
    (∀ member ∈ members, '/' ∉ member.string) ∧ '/' ∉ membersAfter members := by
  induction members with
  | nil => exact ⟨fun _ hmem => absurd hmem List.not_mem_nil, by decide⟩
  | cons member rest ih =>
    rw [List.forall_mem_cons] at h
    obtain ⟨hstrings, hafter⟩ := ih h.2
    have haddress := slash_notMem_of_isHexAddress h.1
    have hstring : '/' ∉ member.string := by
      rw [string_eq h.1]
      simp only [List.mem_append, List.mem_cons, not_or]
      exact ⟨notMem_memberHead _ (by decide) (by decide) (by decide) (by decide), by decide,
        haddress, by decide, by decide, List.not_mem_nil⟩
    refine ⟨List.forall_mem_cons.mpr ⟨hstring, hstrings⟩, ?_⟩
    rw [membersAfter, List.mem_cons, List.mem_append, not_or, not_or]
    exact ⟨by decide, hstring, hafter⟩

theorem notMem_membersText (h : ∀ member ∈ members, isHexAddress member.ethereumAddress) :
    '/' ∉ membersText members := by
  obtain ⟨hstrings, -⟩ := notMem_membersAfter h
  cases members with
  | nil => decide
  | cons member rest =>
    have hafter := (notMem_membersAfter (List.forall_mem_cons.mp h).2).2
    rw [membersText_cons, List.mem_cons, List.mem_append, not_or, not_or]
    exact ⟨by decide, hstrings member List.mem_cons_self, hafter⟩

variable {y y' : Text}

theorem append_mark_inj {x x' : Text} {mark : Char} (hx : mark ∉ x) (hx' : mark ∉ x')
    (h : x ++ mark :: y = x' ++ mark :: y') : x = x' ∧ y = y' := by
  have hsplit := congrArg (List.splitOn mark) h
  rw [List.splitOn_append_cons_self_of_not_mem hx,
    List.splitOn_append_cons_self_of_not_mem hx'] at hsplit
  obtain ⟨hfirst, hrest⟩ := List.cons.inj hsplit
  have hy : [mark].intercalate (y.splitOn mark) = y := List.intercalate_splitOn mark
  exact ⟨hfirst, by rw [← hy, hrest, List.intercalate_splitOn]⟩

theorem string_append_inj {member' : BridgeValidator}
    (hm : isHexAddress member.ethereumAddress) (hm' : isHexAddress member'.ethereumAddress)
    (h : member.string ++ y = member'.string ++ y') : member = member' ∧ y = y' := by
  have hhead : ∀ power, '"' ∉ memberHead power :=
    fun power => notMem_memberHead power (by decide) (by decide) (by decide) (by decide)
  have haddress : ∀ {text : Text}, isHexAddress text → '"' ∉ text :=
    fun hhex => notMem_of_isHexAddress hhex (by decide) (by decide) (by decide)
  rw [string_eq hm, string_eq hm'] at h
  simp only [List.append_assoc, List.cons_append, List.nil_append] at h
  obtain ⟨hpower, hrest⟩ := append_mark_inj (hhead _) (hhead _) h
  obtain ⟨haddr, htail⟩ := append_mark_inj (haddress hm) (haddress hm') hrest
  obtain ⟨power, address⟩ := member
  obtain ⟨power', address'⟩ := member'
  obtain rfl : power = power' := memberHead_injective hpower
  obtain rfl : address = address' := haddr
  exact ⟨rfl, (List.cons.inj htail).2⟩

variable {members' : List BridgeValidator}

theorem membersAfter_injOn (hm : ∀ member ∈ members, isHexAddress member.ethereumAddress)
    (hm' : ∀ member ∈ members', isHexAddress member.ethereumAddress)
    (h : membersAfter members = membersAfter members') : members = members' := by
  induction members generalizing members' with
  | nil =>
    cases members' with
    | nil => rfl
    | cons member' rest' => cases (List.cons.inj h).1
  | cons member rest ih =>
    cases members' with
    | nil => cases (List.cons.inj h).1
    | cons member' rest' =>
      rw [List.forall_mem_cons] at hm hm'
      obtain ⟨rfl, hrest⟩ := string_append_inj hm.1 hm'.1 (List.cons.inj h).2
      rw [ih hm.2 hm'.2 hrest]

theorem string_append_ne (hm : isHexAddress member.ethereumAddress) (y : Text) :
    member.string ++ y ≠ [']'] := by
  intro h
  have hlength := congrArg List.length h
  rw [string_eq hm, List.length_append, List.length_append, List.length_cons,
    List.length_append, List.length_cons] at hlength
  simp only [List.length_cons, List.length_nil] at hlength
  omega

theorem membersText_injOn (hm : ∀ member ∈ members, isHexAddress member.ethereumAddress)
    (hm' : ∀ member ∈ members', isHexAddress member.ethereumAddress)
    (h : membersText members = membersText members') : members = members' := by
  have hnil : membersText [] = '[' :: [']'] := rfl
  cases members with
  | nil =>
    cases members' with
    | nil => rfl
    | cons member' rest' =>
      rw [membersText_cons, hnil] at h
      exact absurd (List.cons.inj h).2.symm (string_append_ne (List.forall_mem_cons.mp hm').1 _)
  | cons member rest =>
    cases members' with
    | nil =>
      rw [membersText_cons, hnil] at h
      exact absurd (List.cons.inj h).2 (string_append_ne (List.forall_mem_cons.mp hm).1 _)
    | cons member' rest' =>
      rw [membersText_cons, membersText_cons] at h
      rw [List.forall_mem_cons] at hm hm'
      obtain ⟨rfl, hrest⟩ := string_append_inj hm.1 hm'.1 (List.cons.inj h).2
      rw [membersAfter_injOn hm.2 hm'.2 hrest]

end PeggyClaim
