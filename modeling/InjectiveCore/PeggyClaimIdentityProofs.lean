import InjectiveCore.PeggyClaimHashProofs

/-!
# Which claims their hash identifies

Two claims have the same hash if and only if they have the same parts. Claims of one kind
with fixed fields in fixed places are equal then. What is left are the two kinds with free
texts, and there the parts of one claim can be read in another way, as another deployed
token or as a claim of the other kind. `Claim.Unambiguous` rules these readings out, and
nothing else: where it fails, the other claim is written down (`identified_iff`).

Votes are counted under the hash. `VotersAgree` is what this means for attestations, in
runs where every claim is unambiguous. `DepositClaim` drops data that is not a message
before the claim is hashed, so voters agree on the claim without such data.
-/

namespace PeggyClaim

open KeyedStore Transition PeggyOracle

section Conditions

variable {A H : Type} [Platform A H]

/-- A number as `%d` writes it. -/
def IsUint64 (text : Text) : Prop := ∃ n : UInt64, text = decimal n

/-- The last part of a text. -/
def lastPart (text : Text) : Text := (parts text).getLast (parts_ne_nil text)

/-- The data does not end like the decimals of a token. -/
def MsgDepositClaim.Unambiguous (m : MsgDepositClaim) : Prop :=
  ¬ (IsUint64 (lastPart m.data) ∧ ('/' ∈ m.data ∨ isHexAddress (amountText m.amount)))

/-- The name and the symbol have no separator, no later part of the denom is an address, and
    the fields are not those of a deposit. -/
structure MsgERC20DeployedClaim.Unambiguous (m : MsgERC20DeployedClaim) : Prop where
  name : '/' ∉ m.name
  symbol : '/' ∉ m.symbol
  denom : ∀ part ∈ (parts m.cosmosDenom).tail, ¬ isHexAddress part
  notDeposit : ∀ amount, m.tokenContract = amountText amount → isHexAddress m.cosmosDenom →
    isHexAddress m.name → ¬ isAccAddress m.symbol
  notSplitDeposit : ∀ token amount, m.cosmosDenom = token ++ '/' :: amountText amount →
    isHexAddress token → ¬ isAccAddress m.name

/-- No valid claim with other contents has the same text. -/
def Claim.Unambiguous : Claim → Prop
  | .deposit m => m.Unambiguous
  | .withdraw _ => True
  | .erc20Deployed m => m.Unambiguous
  | .valsetUpdated _ => True

/-- Whoever has the hash of the claim has its contents. -/
def Claim.Identified (c : Claim) : Prop :=
  ∀ c' : Claim, c'.Valid → c'.claimHash = c.claimHash → c'.content = c.content

end Conditions

section Identity

variable {A H : Type} [Platform A H] (hacc : ∀ text : Text, isAccAddress text → '/' ∉ text)

/-! ## The parts of a claim -/

/-- What a deployed token has after the nonce and the height. -/
def MsgERC20DeployedClaim.fields (m : MsgERC20DeployedClaim) : List Text :=
  parts m.cosmosDenom ++
    m.tokenContract :: (parts m.name ++ (parts m.symbol ++ [decimal m.decimals]))

/-- What a deposit has after the nonce and the height. -/
def MsgDepositClaim.fields (m : MsgDepositClaim) : List Text :=
  m.tokenContract :: amountText m.amount :: m.ethereumSender :: m.cosmosReceiver :: parts m.data

include hacc in
theorem parts_deposit {m : MsgDepositClaim} (h : (Claim.deposit m).Valid) :
    parts (Claim.deposit m).path = decimal m.eventNonce :: decimal m.blockHeight :: m.fields := by
  obtain ⟨hreceiver, hsender, htoken, -, -⟩ := valid_deposit.mp h
  rw [Claim.path, parts_joinPath (List.cons_ne_nil _ _)]
  simp only [List.flatMap_cons, List.flatMap_nil, parts_of_notMem (notMem_decimal _),
    parts_of_notMem (slash_notMem_of_isHexAddress htoken),
    parts_of_notMem (slash_notMem_of_isHexAddress hsender),
    parts_of_notMem (notMem_amountText _), parts_of_notMem (hacc _ hreceiver),
    List.append_nil]
  rfl

theorem parts_withdraw {m : MsgWithdrawClaim} (h : (Claim.withdraw m).Valid) :
    parts (Claim.withdraw m).path =
      [m.tokenContract, decimal m.batchNonce, decimal m.eventNonce, decimal m.blockHeight] := by
  obtain ⟨-, -, htoken, -⟩ := valid_withdraw.mp h
  rw [Claim.path, parts_joinPath (List.cons_ne_nil _ _)]
  simp only [List.flatMap_cons, List.flatMap_nil, parts_of_notMem (notMem_decimal _),
    parts_of_notMem (slash_notMem_of_isHexAddress htoken), List.append_nil]
  rfl

variable {m : MsgERC20DeployedClaim}

theorem parts_erc20Deployed (h : (Claim.erc20Deployed m).Valid) :
    parts (Claim.erc20Deployed m).path =
      decimal m.eventNonce :: decimal m.blockHeight :: m.fields := by
  obtain ⟨htoken, -, -⟩ := valid_erc20Deployed.mp h
  rw [Claim.path, parts_joinPath (List.cons_ne_nil _ _)]
  simp only [List.flatMap_cons, List.flatMap_nil, parts_of_notMem (notMem_decimal _),
    parts_of_notMem (slash_notMem_of_isHexAddress htoken), List.append_nil]
  rfl

theorem parts_valsetUpdated {m : MsgValsetUpdatedClaim} (h : (Claim.valsetUpdated m).Valid) :
    parts (Claim.valsetUpdated m).path =
      [decimal m.valsetNonce, decimal m.eventNonce, decimal m.blockHeight,
        membersText m.members, m.rewardToken, amountText m.rewardAmount] := by
  obtain ⟨-, -, htoken, hmembers⟩ := valid_valsetUpdated.mp h
  rw [Claim.path, parts_joinPath (List.cons_ne_nil _ _)]
  simp only [List.flatMap_cons, List.flatMap_nil, parts_of_notMem (notMem_decimal _),
    parts_of_notMem (slash_notMem_of_isHexAddress htoken),
    parts_of_notMem (notMem_membersText hmembers), parts_of_notMem (notMem_amountText _),
    List.append_nil]
  rfl

omit [Platform A H] in
theorem parts_length_pos (text : Text) : 1 ≤ (parts text).length :=
  List.length_pos_iff.mpr (parts_ne_nil text)

omit [Platform A H] in
theorem MsgERC20DeployedClaim.fields_length (m : MsgERC20DeployedClaim) : m.fields.length =
    (parts m.cosmosDenom).length + (parts m.name).length + (parts m.symbol).length + 2 := by
  rw [fields, List.length_append, List.length_cons, List.length_append, List.length_append,
    List.length_singleton]
  omega

omit [Platform A H] in
theorem MsgDepositClaim.fields_length (m : MsgDepositClaim) :
    m.fields.length = (parts m.data).length + 4 := rfl

/-! ## Claims of one kind -/

include hacc in
theorem deposit_content {m m' : MsgDepositClaim} (h : (Claim.deposit m).Valid)
    (h' : (Claim.deposit m').Valid)
    (hparts : parts (Claim.deposit m').path = parts (Claim.deposit m).path) :
    (Claim.deposit m').content = (Claim.deposit m).content := by
  rw [parts_deposit hacc h, parts_deposit hacc h', MsgDepositClaim.fields,
    MsgDepositClaim.fields] at hparts
  obtain ⟨en, bh, token, amount, sender, receiver, orch, data⟩ := m
  obtain ⟨en', bh', token', amount', sender', receiver', orch', data'⟩ := m'
  simp only [List.cons.injEq, decimal_injective.eq_iff, amountText_injective.eq_iff,
    parts_injective.eq_iff] at hparts
  obtain ⟨rfl, rfl, rfl, rfl, rfl, rfl, rfl⟩ := hparts
  rfl

theorem withdraw_content {m m' : MsgWithdrawClaim} (h : (Claim.withdraw m).Valid)
    (h' : (Claim.withdraw m').Valid)
    (hparts : parts (Claim.withdraw m').path = parts (Claim.withdraw m).path) :
    (Claim.withdraw m').content = (Claim.withdraw m).content := by
  rw [parts_withdraw h, parts_withdraw h'] at hparts
  obtain ⟨en, bh, bn, token, orch⟩ := m
  obtain ⟨en', bh', bn', token', orch'⟩ := m'
  simp only [List.cons.injEq, decimal_injective.eq_iff, and_true] at hparts
  obtain ⟨rfl, rfl, rfl, rfl⟩ := hparts
  rfl

theorem valsetUpdated_content {m m' : MsgValsetUpdatedClaim} (h : (Claim.valsetUpdated m).Valid)
    (h' : (Claim.valsetUpdated m').Valid)
    (hparts : parts (Claim.valsetUpdated m').path = parts (Claim.valsetUpdated m).path) :
    (Claim.valsetUpdated m').content = (Claim.valsetUpdated m).content := by
  rw [parts_valsetUpdated h, parts_valsetUpdated h'] at hparts
  have hmembers := (valid_valsetUpdated.mp h).2.2.2
  have hmembers' := (valid_valsetUpdated.mp h').2.2.2
  obtain ⟨en, vn, bh, members, amount, token, orch⟩ := m
  obtain ⟨en', vn', bh', members', amount', token', orch'⟩ := m'
  simp only [List.cons.injEq, decimal_injective.eq_iff, amountText_injective.eq_iff,
    and_true] at hparts
  obtain ⟨rfl, rfl, rfl, htext, rfl, rfl⟩ := hparts
  obtain rfl := membersText_injOn hmembers' hmembers htext
  rfl

variable {text : Text}

omit [Platform A H] in
theorem text_eq_of_parts {text' : Text} (h : '/' ∉ text) (hparts : parts text' = [text]) :
    text' = text := by
  rw [← parts_of_notMem h] at hparts
  exact parts_injective hparts

omit [Platform A H] in
theorem parts_eq_of_three {name symbol x y z d : Text}
    (h : parts name ++ (parts symbol ++ [d]) = [x, y, z]) :
    parts name = [x] ∧ parts symbol = [y] ∧ d = z := by
  have hname := parts_length_pos name
  have hsymbol := parts_length_pos symbol
  have hlength := congrArg List.length h
  rw [List.length_append, List.length_append, List.length_singleton] at hlength
  change _ = 3 at hlength
  obtain ⟨a, ha⟩ := List.length_eq_one_iff.mp (show (parts name).length = 1 by omega)
  obtain ⟨b, hb⟩ := List.length_eq_one_iff.mp (show (parts symbol).length = 1 by omega)
  rw [ha, hb] at h ⊢
  simp only [List.cons_append, List.nil_append, List.cons.injEq, and_true] at h ⊢
  exact h

omit [Platform A H] in
theorem mem_tail_of_append {l as : List Text} (hl : l ≠ []) {a : Text} (ha : a ∈ as) :
    a ∈ (l ++ as).tail := by
  rw [List.tail_append_of_ne_nil hl]
  exact List.mem_append_right _ ha

theorem erc20Deployed_content {m' : MsgERC20DeployedClaim} (h : (Claim.erc20Deployed m).Valid)
    (hu : m.Unambiguous) (h' : (Claim.erc20Deployed m').Valid)
    (hparts : parts (Claim.erc20Deployed m').path = parts (Claim.erc20Deployed m).path) :
    (Claim.erc20Deployed m').content = (Claim.erc20Deployed m).content := by
  have htoken' := (valid_erc20Deployed.mp h').1
  rw [parts_erc20Deployed h, parts_erc20Deployed h'] at hparts
  simp only [List.cons.injEq, decimal_injective.eq_iff] at hparts
  obtain ⟨hnonce, hheight, hfields⟩ := hparts
  have hlength := congrArg List.length hfields
  rw [MsgERC20DeployedClaim.fields_length, MsgERC20DeployedClaim.fields_length,
    parts_of_notMem hu.name, parts_of_notMem hu.symbol] at hlength
  rw [MsgERC20DeployedClaim.fields, MsgERC20DeployedClaim.fields, parts_of_notMem hu.name,
    parts_of_notMem hu.symbol] at hfields
  have hname := parts_length_pos m'.name
  have hsymbol := parts_length_pos m'.symbol
  -- the denom of the other one is not longer, since a name and a symbol must follow
  obtain ⟨as, hdenom, htail⟩ : ∃ as, parts m.cosmosDenom = parts m'.cosmosDenom ++ as ∧
      m'.tokenContract :: (parts m'.name ++ (parts m'.symbol ++ [decimal m'.decimals])) =
        as ++ [m.tokenContract, m.name, m.symbol, decimal m.decimals] := by
    rcases List.append_eq_append_iff.mp hfields with has | ⟨bs, hdenom, htail⟩
    · exact has
    · rw [hdenom, List.length_append] at hlength
      change _ = _ + 1 + 1 + 2 at hlength
      obtain rfl : bs = [] := List.length_eq_zero_iff.mp (by omega)
      exact ⟨[], by rw [hdenom, List.append_nil, List.append_nil], htail.symm⟩
  cases as with
  | nil =>
    rw [List.nil_append, List.cons.injEq] at htail
    obtain ⟨hn, hs, hd⟩ := parts_eq_of_three htail.2
    have hdenom := parts_injective (hdenom.trans (List.append_nil _))
    obtain ⟨en, bh, denom, token, name, symbol, decimals, orch⟩ := m
    obtain ⟨en', bh', denom', token', name', symbol', decimals', orch'⟩ := m'
    obtain rfl : en' = en := hnonce
    obtain rfl : bh' = bh := hheight
    obtain rfl : denom = denom' := hdenom
    obtain rfl : token' = token := htail.1
    obtain rfl : name' = name := text_eq_of_parts hu.name hn
    obtain rfl : symbol' = symbol := text_eq_of_parts hu.symbol hs
    obtain rfl : decimals' = decimals := decimal_injective hd
    rfl
  | cons a as =>
    -- the other token would be a later part of the denom
    rw [List.cons_append, List.cons.injEq] at htail
    refine absurd (htail.1 ▸ htoken') (hu.denom a ?_)
    rw [hdenom]
    exact mem_tail_of_append (parts_ne_nil _) List.mem_cons_self

/-! ## A deposit and a deployed token -/

omit [Platform A H] in
theorem parts_eq_append_lastPart (text : Text) :
    parts text = (parts text).dropLast ++ [lastPart text] :=
  (List.dropLast_append_getLast (parts_ne_nil text)).symm

omit [Platform A H] in
theorem MsgERC20DeployedClaim.fields_eq (m : MsgERC20DeployedClaim) : m.fields =
    (parts m.cosmosDenom ++ m.tokenContract :: (parts m.name ++ parts m.symbol)) ++
      [decimal m.decimals] := by
  simp only [fields, List.append_assoc, List.cons_append]

omit [Platform A H] in
theorem MsgDepositClaim.fields_eq (m : MsgDepositClaim) : m.fields =
    (m.tokenContract :: amountText m.amount :: m.ethereumSender :: m.cosmosReceiver ::
      (parts m.data).dropLast) ++ [lastPart m.data] := by
  rw [fields, parts_eq_append_lastPart]
  simp only [List.cons_append, List.dropLast_concat]

variable {d : MsgDepositClaim}

include hacc in
theorem erc20Deployed_ne_deposit (h : (Claim.erc20Deployed m).Valid) (hu : m.Unambiguous)
    (hd : (Claim.deposit d).Valid) :
    parts (Claim.deposit d).path ≠ parts (Claim.erc20Deployed m).path := by
  intro hparts
  obtain ⟨hreceiver, hsender, htoken, -, -⟩ := valid_deposit.mp hd
  rw [parts_erc20Deployed h, parts_deposit hacc hd] at hparts
  have hfields := (List.cons.inj (List.cons.inj hparts).2).2
  rw [MsgERC20DeployedClaim.fields, MsgDepositClaim.fields, parts_of_notMem hu.name,
    parts_of_notMem hu.symbol] at hfields
  have hdenom := hu.denom
  have hjoin := joinPath_parts m.cosmosDenom
  -- the sender is a later part of the denom unless the denom has one or two parts
  rcases hp : parts m.cosmosDenom with _ | ⟨p, _ | ⟨q, _ | ⟨r, rest⟩⟩⟩
  · exact parts_ne_nil _ hp
  · rw [hp, joinPath_singleton] at hjoin
    rw [hp] at hfields
    simp only [List.cons_append, List.nil_append, List.cons.injEq] at hfields
    obtain ⟨rfl, htok, hname, hsymbol, -⟩ := hfields
    exact hu.notDeposit d.amount htok.symm (hjoin ▸ htoken) (hname ▸ hsender) (hsymbol ▸ hreceiver)
  · rw [hp, joinPath_cons_cons, joinPath_singleton] at hjoin
    rw [hp] at hfields
    simp only [List.cons_append, List.nil_append, List.cons.injEq] at hfields
    obtain ⟨rfl, rfl, -, hname, -⟩ := hfields
    exact hu.notSplitDeposit _ _ hjoin.symm htoken (hname ▸ hreceiver)
  · rw [hp] at hfields hdenom
    simp only [List.cons_append, List.cons.injEq] at hfields
    obtain ⟨-, -, rfl, -⟩ := hfields
    exact hdenom _ (List.mem_cons_of_mem _ List.mem_cons_self) hsender

include hacc in
theorem deposit_ne_erc20Deployed (h : (Claim.deposit d).Valid) (hu : d.Unambiguous)
    (hm : (Claim.erc20Deployed m).Valid) :
    parts (Claim.erc20Deployed m).path ≠ parts (Claim.deposit d).path := by
  intro hparts
  have htoken := (valid_erc20Deployed.mp hm).1
  rw [parts_erc20Deployed hm, parts_deposit hacc h] at hparts
  have hfields := (List.cons.inj (List.cons.inj hparts).2).2
  -- the last part is the decimals
  have hlast : lastPart d.data = decimal m.decimals := by
    rw [MsgERC20DeployedClaim.fields_eq, MsgDepositClaim.fields_eq] at hfields
    have hlasts := (List.append_inj' hfields rfl).2
    exact (List.cons.inj hlasts).1.symm
  have hnot : '/' ∉ d.data ∧ ¬ isHexAddress (amountText d.amount) := by
    rw [← not_or]
    exact fun hor => hu ⟨⟨m.decimals, hlast⟩, hor⟩
  -- so every text is one part, and the amount stands where the token should
  have hlength := congrArg List.length hfields
  rw [MsgERC20DeployedClaim.fields_length, MsgDepositClaim.fields_length,
    parts_of_notMem hnot.1, List.length_singleton] at hlength
  have hdenom := parts_length_pos m.cosmosDenom
  have hname := parts_length_pos m.name
  have hsymbol := parts_length_pos m.symbol
  obtain ⟨p, hp⟩ := List.length_eq_one_iff.mp (show (parts m.cosmosDenom).length = 1 by omega)
  rw [MsgERC20DeployedClaim.fields, MsgDepositClaim.fields, hp, List.cons_append,
    List.nil_append] at hfields
  have htok := (List.cons.inj (List.cons.inj hfields).2).1
  exact hnot.2 (htok ▸ htoken)

/-! ## Unambiguous claims are identified -/

/-- How many parts the texts of a kind have. -/
def Claim.HasLength : Claim → ℕ → Prop
  | .deposit _, n => 7 ≤ n
  | .withdraw _, n => n = 4
  | .erc20Deployed _, n => 7 ≤ n
  | .valsetUpdated _, n => n = 6

variable {c : Claim}

include hacc in
theorem hasLength_parts (h : c.Valid) : c.HasLength (parts c.path).length := by
  cases c with
  | deposit m =>
    have hdata := parts_length_pos m.data
    rw [parts_deposit hacc h, List.length_cons, List.length_cons, MsgDepositClaim.fields_length]
    show 7 ≤ _
    omega
  | withdraw m =>
    rw [parts_withdraw h]
    rfl
  | erc20Deployed m =>
    have hdenom := parts_length_pos m.cosmosDenom
    have hname := parts_length_pos m.name
    have hsymbol := parts_length_pos m.symbol
    rw [parts_erc20Deployed h, List.length_cons, List.length_cons,
      MsgERC20DeployedClaim.fields_length]
    show 7 ≤ _
    omega
  | valsetUpdated m =>
    rw [parts_valsetUpdated h]
    rfl

include hacc in
/-- **READING**: the text of an unambiguous claim is the text of no other contents. -/
theorem content_of_path {c' : Claim} (h : c.Valid) (hu : c.Unambiguous) (h' : c'.Valid)
    (hpath : c'.path = c.path) : c'.content = c.content := by
  have hparts := congrArg parts hpath
  have hlength := hasLength_parts hacc h
  have hlength' := hasLength_parts hacc h'
  rw [hpath] at hlength'
  generalize (parts c.path).length = n at hlength hlength'
  cases c with
  | deposit m =>
    cases c' with
    | deposit m' => exact deposit_content hacc h h' hparts
    | erc20Deployed m' => exact absurd hparts (deposit_ne_erc20Deployed hacc h hu h')
    | withdraw m' | valsetUpdated m' => simp only [Claim.HasLength] at hlength hlength'; omega
  | withdraw m =>
    cases c' with
    | withdraw m' => exact withdraw_content h h' hparts
    | deposit m' | erc20Deployed m' | valsetUpdated m' =>
      simp only [Claim.HasLength] at hlength hlength'
      omega
  | erc20Deployed m =>
    cases c' with
    | deposit m' => exact absurd hparts (erc20Deployed_ne_deposit hacc h hu h')
    | erc20Deployed m' => exact erc20Deployed_content h hu h' hparts
    | withdraw m' | valsetUpdated m' => simp only [Claim.HasLength] at hlength hlength'; omega
  | valsetUpdated m =>
    cases c' with
    | valsetUpdated m' => exact valsetUpdated_content h h' hparts
    | deposit m' | withdraw m' | erc20Deployed m' =>
      simp only [Claim.HasLength] at hlength hlength'
      omega

/-! ## Ambiguous claims have a double -/

/-- Another valid claim with the same text and other contents. -/
def Claim.Double (c c' : Claim) : Prop := c'.Valid ∧ c'.path = c.path ∧ c'.content ≠ c.content

omit [Platform A H] in
theorem exists_append_lastPart (h : '/' ∈ text) : ∃ x, text = x ++ '/' :: lastPart text := by
  obtain ⟨as, bs, hrev, hnot⟩ := List.eq_append_cons_of_mem (List.mem_reverse.mpr h)
  have htext : text = bs.reverse ++ '/' :: as.reverse := by
    rw [← List.reverse_reverse text, hrev, List.reverse_append, List.reverse_cons,
      List.append_assoc]
    rfl
  have hlast : as.reverse ∈ (parts text).getLast? := by
    rw [htext, parts_append, parts_of_notMem (fun hmem => hnot (List.mem_reverse.mp hmem)),
      List.getLast?_append]
    rfl
  refine ⟨bs.reverse, ?_⟩
  have heq : lastPart text = as.reverse := by
    rw [List.getLast?_eq_getLast_of_ne_nil (parts_ne_nil text)] at hlast
    exact Option.some.inj hlast
  rw [heq]
  exact htext

omit [Platform A H] in
theorem lastPart_of_notMem (h : '/' ∉ text) : lastPart text = text := by
  have hparts := parts_eq_append_lastPart text
  rw [parts_of_notMem h] at hparts
  exact (List.cons.inj hparts).1.symm

omit [Platform A H] in
theorem ne_append_cons (x y : Text) (c : Char) : x ≠ x ++ c :: y := by
  intro h
  exact List.cons_ne_nil c y (List.self_eq_append_right.mp h)

theorem deposit_double (h : (Claim.deposit d).Valid) (hu : ¬ d.Unambiguous) :
    ∃ c', (Claim.deposit d).Double c' := by
  obtain ⟨-, hsender, -, horch, hnonce⟩ := valid_deposit.mp h
  obtain ⟨⟨n, hn⟩, hor⟩ := not_not.mp hu
  by_cases hslash : '/' ∈ d.data
  · obtain ⟨x, hx⟩ := exists_append_lastPart hslash
    rw [hn] at hx
    refine ⟨.erc20Deployed ⟨d.eventNonce, d.blockHeight,
      d.tokenContract ++ '/' :: amountText d.amount, d.ethereumSender, d.cosmosReceiver, x, n,
      d.orchestrator⟩, valid_erc20Deployed.mpr ⟨hsender, horch, hnonce⟩, ?_, ?_⟩
    · simp only [Claim.path, hx, joinPath_cons_cons, joinPath_singleton, List.append_assoc,
        List.cons_append]
    · intro heq
      cases heq
  · have hamount := hor.resolve_left hslash
    rw [lastPart_of_notMem hslash] at hn
    refine ⟨.erc20Deployed ⟨d.eventNonce, d.blockHeight, d.tokenContract, amountText d.amount,
      d.ethereumSender, d.cosmosReceiver, n, d.orchestrator⟩,
      valid_erc20Deployed.mpr ⟨hamount, horch, hnonce⟩, ?_, ?_⟩
    · simp only [Claim.path, hn]
    · intro heq
      cases heq

omit [Platform A H] in
theorem joinPath_append {l l' : List Text} (hl : l ≠ []) (hl' : l' ≠ []) :
    joinPath (l ++ l') = joinPath l ++ '/' :: joinPath l' := by
  induction l with
  | nil => exact absurd rfl hl
  | cons x l ih =>
    cases l with
    | nil =>
      obtain ⟨y, l', rfl⟩ := List.exists_cons_of_ne_nil hl'
      rw [List.cons_append, List.nil_append, joinPath_cons_cons, joinPath_singleton]
    | cons y l =>
      rw [List.cons_append, List.cons_append, joinPath_cons_cons, joinPath_cons_cons,
        ← List.cons_append, ih (List.cons_ne_nil _ _), List.append_assoc, List.cons_append]

section Deployed

variable {m : MsgERC20DeployedClaim} (h : (Claim.erc20Deployed m).Valid)

include h

/-- The separator between the name and the symbol moved. -/
theorem respelled_double {x y : Text} (hjoin : x ++ '/' :: y = m.name ++ '/' :: m.symbol)
    (hne : x ≠ m.name) : ∃ c', (Claim.erc20Deployed m).Double c' := by
  refine ⟨.erc20Deployed { m with name := x, symbol := y },
    valid_erc20Deployed.mpr (valid_erc20Deployed.mp h), ?_, ?_⟩
  · have hrest := congrArg (· ++ '/' :: decimal m.decimals) hjoin
    simp only [List.append_assoc, List.cons_append] at hrest
    simp only [Claim.path, joinPath_cons_cons, joinPath_singleton, hrest]
  · intro heq
    exact hne (congrArg MsgERC20DeployedClaim.name (Claim.erc20Deployed.inj heq))

theorem name_double (hname : '/' ∈ m.name) : ∃ c', (Claim.erc20Deployed m).Double c' := by
  obtain ⟨x, y, hxy⟩ := List.append_of_mem hname
  refine respelled_double h (x := x) (y := y ++ '/' :: m.symbol) ?_ ?_
  · rw [hxy, List.append_assoc, List.cons_append]
  · rw [hxy]
    exact ne_append_cons x y '/'

theorem symbol_double (hsymbol : '/' ∈ m.symbol) : ∃ c', (Claim.erc20Deployed m).Double c' := by
  obtain ⟨x, y, hxy⟩ := List.append_of_mem hsymbol
  refine respelled_double h (x := m.name ++ '/' :: x) (y := y) ?_ (ne_append_cons _ x '/').symm
  rw [hxy, List.append_assoc, List.cons_append]

theorem denom_double {part : Text} (hpart : part ∈ (parts m.cosmosDenom).tail)
    (hhex : isHexAddress part) : ∃ c', (Claim.erc20Deployed m).Double c' := by
  obtain ⟨-, horch, hnonce⟩ := valid_erc20Deployed.mp h
  obtain ⟨l, l', hl⟩ := List.append_of_mem hpart
  obtain ⟨q, rest, hq⟩ := List.exists_cons_of_ne_nil (parts_ne_nil m.cosmosDenom)
  rw [hq, List.tail_cons] at hl
  have hdenom := joinPath_parts m.cosmosDenom
  rw [hq, hl, ← List.cons_append,
    joinPath_append (List.cons_ne_nil _ _) (List.cons_ne_nil _ _)] at hdenom
  -- what follows the part, and the contract after it, is read as the name
  obtain ⟨name, hname⟩ : ∃ name, ∀ tail, part ++ '/' :: (name ++ tail) =
      joinPath (part :: l') ++ '/' :: (m.tokenContract ++ tail) := by
    cases l' with
    | nil => exact ⟨m.tokenContract, fun tail => by rw [joinPath_singleton]⟩
    | cons r rs =>
      refine ⟨joinPath (r :: rs) ++ '/' :: m.tokenContract, fun tail => ?_⟩
      simp only [joinPath_cons_cons, List.append_assoc, List.cons_append]
  refine ⟨.erc20Deployed { m with
    cosmosDenom := joinPath (q :: l), tokenContract := part, name := name,
    symbol := m.name ++ '/' :: m.symbol },
    valid_erc20Deployed.mpr ⟨hhex, horch, hnonce⟩, ?_, ?_⟩
  · simp only [Claim.path, ← hdenom, joinPath_cons_cons, joinPath_singleton,
      List.append_assoc, List.cons_append, hname]
  · intro heq
    have hx := congrArg MsgERC20DeployedClaim.cosmosDenom (Claim.erc20Deployed.inj heq)
    exact ne_append_cons _ _ '/' (hx.trans hdenom.symm)

theorem erc20Deployed_double (hu : ¬ m.Unambiguous) : ∃ c', (Claim.erc20Deployed m).Double c' := by
  obtain ⟨htoken, horch, hnonce⟩ := valid_erc20Deployed.mp h
  by_contra hno
  refine hu ⟨fun hname => hno (name_double h hname), fun hsymbol => hno (symbol_double h hsymbol),
    fun part hpart hhex => hno (denom_double h hpart hhex), ?_, ?_⟩
  · intro amount htok hdenom hname hsymbol
    refine hno ⟨.deposit ⟨m.eventNonce, m.blockHeight, m.cosmosDenom, amount, m.name, m.symbol,
      m.orchestrator, decimal m.decimals⟩,
      valid_deposit.mpr ⟨hsymbol, hname, hdenom, horch, hnonce⟩, ?_, ?_⟩
    · simp only [Claim.path, htok]
    · intro heq
      cases heq
  · intro token amount hdenom htok hname
    refine hno ⟨.deposit ⟨m.eventNonce, m.blockHeight, token, amount, m.tokenContract, m.name,
      m.orchestrator, m.symbol ++ '/' :: decimal m.decimals⟩,
      valid_deposit.mpr ⟨hname, htoken, htok, horch, hnonce⟩, ?_, ?_⟩
    · simp only [Claim.path, hdenom, joinPath_cons_cons, joinPath_singleton, List.append_assoc,
        List.cons_append]
    · intro heq
      cases heq

end Deployed

theorem Claim.exists_double (h : c.Valid) (hu : ¬ c.Unambiguous) : ∃ c', c.Double c' := by
  cases c with
  | deposit d => exact deposit_double h hu
  | withdraw m => exact absurd trivial hu
  | erc20Deployed m => exact erc20Deployed_double h hu
  | valsetUpdated m => exact absurd trivial hu

include hacc in
/-- **IDENTITY**: a valid claim is identified by its hash if and only if it is
    unambiguous. -/
theorem identified_iff (htmhash : Function.Injective (Platform.tmhash : Text → H))
    (h : c.Valid) : c.Identified ↔ c.Unambiguous := by
  constructor
  · intro hidentified
    by_contra hu
    obtain ⟨c', hvalid, hpath, hne⟩ := Claim.exists_double h hu
    exact hne (hidentified c' hvalid (congrArg Platform.tmhash hpath))
  · intro hu c' hvalid hhash
    exact content_of_path hacc h hu hvalid (htmhash hhash)

/-! ## Voters -/

variable {V : Type} [DecidableEq V] [LinearOrder H]

variable {requests : List (Env Claim (Option A) V × Op Claim V)}

/-- A message of the validator was accepted, and what the handler made of it has the contents
    of the claim. -/
def Submitted (requests : List (Env Claim (Option A) V × Op Claim V)) (s : State Claim H V)
    (v : V) (claim : Claim) : Prop :=
  ∃ x ∈ requests, ∃ msg, x.2 = .handleClaim msg ∧ (v, State.handled x.1 msg) ∈ s.submitted ∧
    (State.handled x.1 msg).content = claim.content

/-- The voters of an attestation submitted what is stored, and those counted for a claim
    that was applied submitted that claim. -/
structure VotersAgree (requests : List (Env Claim (Option A) V × Op Claim V))
    (s : State Claim H V) : Prop where
  stored : ∀ k att, s.attestations.lookup k = some att → ∀ v ∈ att.votes,
    Submitted requests s v att.claim
  applied : ∀ p ∈ s.processed, ∀ v ∈ p.counted.map Prod.fst, Submitted requests s v p.claim

omit [DecidableEq V] [LinearOrder H] in
theorem valid_handled (env : Env Claim (Option A) V) (h : c.Valid) :
    (State.handled env c).Valid := by
  rw [State.handled]
  split
  · exact h
  · cases c with
    | deposit m => exact valid_deposit.mpr (valid_deposit.mp h)
    | withdraw m => exact h
    | erc20Deployed m => exact h
    | valsetUpdated m => exact h

include hacc in
theorem votersAgree_of_sound (htmhash : Function.Injective (Platform.tmhash : Text → H))
    {s : State Claim H V} {start : ℕ} (h : s.Sound start)
    (hsubmitted : ∀ y ∈ s.submitted, ∃ x ∈ requests, ∃ msg, x.2 = .handleClaim msg ∧
      y.2 = State.handled x.1 msg)
    (hrequests : ∀ x ∈ requests, ∀ msg, x.2 = .handleClaim msg →
      msg.Valid ∧ (State.handled x.1 msg).Unambiguous) : VotersAgree requests s := by
  have hagree : ∀ v c claim, (v, c) ∈ s.submitted → s.Claimed claim →
      keyOf c = keyOf claim → Submitted requests s v claim := by
    rintro v c claim hc ⟨u, hclaim⟩ hkey
    obtain ⟨x, hx, msg, hmsg, rfl⟩ := hsubmitted _ hc
    obtain ⟨x', hx', msg', hmsg', rfl⟩ := hsubmitted _ hclaim
    obtain ⟨hvalid', hunambiguous⟩ := hrequests x' hx' msg' hmsg'
    refine ⟨x, hx, msg, hmsg, hc, content_of_path hacc (valid_handled x'.1 hvalid') hunambiguous
      (valid_handled x.1 (hrequests x hx msg hmsg).1) (htmhash ?_)⟩
    exact congrArg AttestationKey.claimHash hkey
  constructor
  · intro k att hlookup v hv
    obtain ⟨-, hatt, hclaim⟩ := h.stored k att hlookup
    obtain ⟨c, hc, hkey⟩ := hatt.submitted v hv
    exact hagree v c att.claim hc hclaim hkey
  · intro p hp v hv
    obtain ⟨hclaim, hvoters⟩ := h.credited p hp
    obtain ⟨c, hc, hkey⟩ := hvoters v hv
    exact hagree v c p.claim hc hclaim hkey

include hacc in
/-- **CLAIM HASHES**: a valid claim is identified by its hash if and only if it is
    unambiguous. In a run of valid claims that are unambiguous as the handler leaves them, every
    vote is for what is stored and applied. -/
theorem claimHash_identifies (htmhash : Function.Injective (Platform.tmhash : Text → H)) :
    (∀ c : Claim, c.Valid → (c.Identified ↔ c.Unambiguous)) ∧
      ∀ (nonce height : ℕ) (lastEvents : Store V LastClaimEvent)
        (requests : List (Env Claim (Option A) V × Op Claim V)),
        (∀ x ∈ requests, ∀ c, x.2 = .handleClaim c →
          c.Valid ∧ (State.handled x.1 c).Unambiguous) →
        VotersAgree requests
          (run State.step (State.genesis nonce height lastEvents) requests) := by
  refine ⟨fun c hc => identified_iff hacc htmhash hc, ?_⟩
  intro nonce height lastEvents requests hrequests
  exact votersAgree_of_sound hacc htmhash (State.run_sound nonce height lastEvents requests)
    (State.run_submitted nonce height lastEvents requests) hrequests

end Identity

/-! ## Two deployed tokens -/

/-- A platform where the hash is the text itself. -/
@[reducible] def samplePlatform : Platform Text Text where
  accAddressFromBech32 text := if text.contains '/' then none else some text
  tmhash := id

def deployedToken (name symbol : Text) : Claim :=
  .erc20Deployed ⟨1, 1, "inj".toList, List.replicate 40 '0', name, symbol, 18,
    "orchestrator".toList⟩

/-- One hash for two deployed tokens. -/
theorem claimHash_collides :
    @Claim.Valid _ _ samplePlatform (deployedToken ['A', '/', 'B'] ['C']) ∧
      @Claim.Valid _ _ samplePlatform (deployedToken ['A'] ['B', '/', 'C']) ∧
      @Claim.claimHash _ _ samplePlatform (deployedToken ['A', '/', 'B'] ['C']) =
        @Claim.claimHash _ _ samplePlatform (deployedToken ['A'] ['B', '/', 'C']) ∧
      (deployedToken ['A', '/', 'B'] ['C']).content ≠
        (deployedToken ['A'] ['B', '/', 'C']).content := by
  decide

theorem samplePlatform_acc (text : Text) (h : @isAccAddress _ _ samplePlatform text) :
    '/' ∉ text := by
  intro hmem
  have hnone : samplePlatform.accAddressFromBech32 text = none :=
    if_pos (List.contains_iff_mem.mpr hmem)
  change (samplePlatform.accAddressFromBech32 text).isSome = true at h
  rw [hnone] at h
  cases h

theorem deployedToken_unambiguous :
    @Claim.Unambiguous _ _ samplePlatform (deployedToken ['A'] ['B']) := by
  let platform := samplePlatform
  refine MsgERC20DeployedClaim.Unambiguous.mk (by decide) (by decide) ?_ ?_ ?_
  · intro part hpart
    change part ∈ (parts "inj".toList).tail at hpart
    rw [parts_of_notMem (by decide)] at hpart
    cases hpart
  · intro amount _ hdenom
    revert hdenom
    decide
  · intro token amount hdenom
    have hmem : '/' ∈ "inj".toList := by
      change "inj".toList = _ at hdenom
      rw [hdenom]
      exact List.mem_append_right _ List.mem_cons_self
    exact absurd hmem (by decide)

/-- A token with plain names is identified, one with a separator in its name is not. -/
theorem claimHash_identifies_deployedToken :
    @Claim.Identified _ _ samplePlatform (deployedToken ['A'] ['B']) ∧
      ¬ @Claim.Identified _ _ samplePlatform (deployedToken ['A', '/', 'B'] ['C']) := by
  let platform := samplePlatform
  have hiff := (claimHash_identifies (V := ℕ) samplePlatform_acc Function.injective_id).1
  refine ⟨(hiff _ (by decide)).mpr deployedToken_unambiguous, ?_⟩
  intro hidentified
  have hunambiguous := (hiff _ (by decide)).mp hidentified
  have hname := MsgERC20DeployedClaim.Unambiguous.name hunambiguous
  revert hname
  decide

end PeggyClaim
