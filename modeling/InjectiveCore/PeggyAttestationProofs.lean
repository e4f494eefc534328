import InjectiveCore.KeyedStoreProofs
import InjectiveCore.TransitionProofs

/-!
# Attestations — events are applied once and in order

Validators report the events of the contract one by one, each at their own pace. A report
is a vote for an attestation, which is stored under the event nonce and the hash of the
claim. Several attestations may compete for a nonce, and one that was pruned may come back
by a late vote. At the end of a block the votes are counted, for the next nonce only.

Two facts about an attestation carry everything (`Attested`):

- its voters have reported up to its nonce, so none of them can vote for it again;
- if it is observed then its nonce is not above the last observed one, so it is never
  counted again.

They hold of all stored attestations, and also of those read at the beginning of a tally
while the nonce moves on (`Attested.mono`). Reports and hooks only raise what a validator
has reported. `ResetPeggyModuleState` lowers it, but deletes every attestation.
-/

namespace PeggyOracle

open KeyedStore Transition

/-! ## Claims and attestations -/

/-- What the keeper reads of a claim. -/
class EthereumClaim (C : Type) (O H : outParam Type) where
  getEventNonce : C → ℕ
  getBlockHeight : C → ℕ
  getClaimer : C → O
  claimHash : C → H
  /-- The claim of a deposit without its data, other claims as they are. -/
  ignoreData : C → C

/-- `GetAttestationKey`. -/
structure AttestationKey (H : Type) where
  eventNonce : ℕ
  claimHash : H
  deriving DecidableEq, Repr

structure Attestation (C V : Type) where
  observed : Bool
  votes : List V
  height : ℕ
  claim : C
  deriving DecidableEq, Repr

structure LastClaimEvent where
  ethereumEventNonce : ℕ
  ethereumEventHeight : ℕ
  deriving DecidableEq, Repr

/-- A call of `processAttestation`: the claim, the voters counted with their powers, and
    the total power at the time. -/
structure Processed (C V : Type) where
  claim : C
  counted : List (V × ℕ)
  totalPower : ℕ
  deriving DecidableEq, Repr

/-- What the staking module and the delegate keys say, whether the data of a deposit is a
    message of its sender, and which claims make the handler panic. -/
structure Env (C O V : Type) where
  blockHeight : ℕ
  validateClaimData : C → Bool
  getOrchestratorValidator : O → Option V
  isBonded : V → Bool
  validators : List V
  getLastTotalPower : ℕ
  getLastValidatorPower : V → ℕ
  handlerPanics : C → Bool

/-- The stores of the oracle. `submitted` and `processed` are the votes that were accepted, for
    the claim as it is stored, and the claims that were applied, in order. Nonces and heights
    are `uint64` in the source: a nonce grows by one per event of the contract, and they do not
    wrap. -/
structure State (C H V : Type) where
  attestations : Store (AttestationKey H) (Attestation C V)
  lastObservedEventNonce : ℕ
  lastObservedEthereumBlockHeight : ℕ
  lastEventByValidator : Store V LastClaimEvent
  submitted : List (V × C)
  processed : List (Processed C V)

inductive OracleError where
  | unknownValidator
  | notInActiveSet
  | panicNoValidator
  | nonContiguousEventNonce
  | futureEventNonce
  | panicOutOfOrder
  | panicObserved
  | panicHandler
  deriving DecidableEq, Repr

/-- `MaxFutureClaims`. -/
def maxFutureClaims : ℕ := 10

/-- `getRequiredPower`. -/
def getRequiredPower (totalPower : ℕ) : ℕ := totalPower * 66 / 100

section Model

variable {C O H V : Type} [DecidableEq V] [LinearOrder H] [EthereumClaim C O H]

open EthereumClaim

/-- The key of a claim. -/
def keyOf (claim : C) : AttestationKey H := ⟨getEventNonce claim, claimHash claim⟩

namespace State

/-- `GetLastEventByValidator`. -/
def getLastEventByValidator (s : State C H V) (validator : V) : LastClaimEvent :=
  (s.lastEventByValidator.lookup validator).getD ⟨0, 0⟩

/-- `setLastEventByValidator`. -/
def setLastEventByValidator (s : State C H V) (validator : V) (nonce blockHeight : ℕ) :
    State C H V :=
  { s with
    lastEventByValidator := put validator (some ⟨nonce, blockHeight⟩) s.lastEventByValidator }

/-- `SetAttestation`. -/
def setAttestation (s : State C H V) (key : AttestationKey H) (att : Attestation C V) :
    State C H V :=
  { s with attestations := put key (some att) s.attestations }

/-- `DeleteAttestation`: the key is that of the stored claim. -/
def deleteAttestation (s : State C H V) (att : Attestation C V) : State C H V :=
  { s with attestations := put (keyOf att.claim) none s.attestations }

/-- `Attest`. -/
def attest (env : Env C O V) (s : State C H V) (claim : C) :
    Except OracleError (State C H V) :=
  match env.getOrchestratorValidator (getClaimer claim) with
  | none => .error .panicNoValidator
  | some valAddr =>
    if getEventNonce claim ≠ (s.getLastEventByValidator valAddr).ethereumEventNonce + 1 then
      .error .nonContiguousEventNonce
    else if s.lastObservedEventNonce + maxFutureClaims < getEventNonce claim then
      .error .futureEventNonce
    else
      let att := (s.attestations.lookup (keyOf claim)).getD ⟨false, [], env.blockHeight, claim⟩
      let s := s.setAttestation (keyOf claim) { att with votes := att.votes ++ [valAddr] }
      let s := s.setLastEventByValidator valAddr (getEventNonce claim) (getBlockHeight claim)
      .ok { s with submitted := s.submitted ++ [(valAddr, claim)] }

/-- What `DepositClaim` makes of its message before it is hashed and stored. -/
def handled (env : Env C O V) (claim : C) : C :=
  if env.validateClaimData claim then claim else ignoreData claim

/-- What the four claim messages have in common: the orchestrator is that of a bonded
    validator. -/
def handleClaim (env : Env C O V) (s : State C H V) (claim : C) :
    Except OracleError (State C H V) :=
  match env.getOrchestratorValidator (getClaimer claim) with
  | none => .error .unknownValidator
  | some validator =>
    if !env.isBonded validator then .error .notInActiveSet else s.attest env (handled env claim)

/-- `AfterValidatorBonded`. -/
def afterValidatorBonded (s : State C H V) (validator : V) : State C H V :=
  let ev := s.getLastEventByValidator validator
  if ¬ (ev.ethereumEventHeight = 0 ∧ ev.ethereumEventNonce = 0) then s
  else if s.lastObservedEventNonce = 0 then s
  else
    s.setLastEventByValidator validator s.lastObservedEventNonce
      s.lastObservedEthereumBlockHeight

/-! ## The end of a block -/

/-- `IterateAttestations`, in the order of the keys. -/
def iterateAttestations (s : State C H V) : List (Attestation C V) :=
  (s.attestations.entries.map (·.2)).insertionSort (fun att att' =>
    getEventNonce att.claim < getEventNonce att'.claim ∨
      getEventNonce att.claim = getEventNonce att'.claim ∧
        claimHash att.claim ≤ claimHash att'.claim)

/-- The keys of `GetAttestationMapping`, sorted. -/
def sortedNonces (attmap : List (Attestation C V)) : List ℕ :=
  (attmap.map (fun att => getEventNonce att.claim)).dedup.insertionSort (· ≤ ·)

/-- The two nested loops over `GetAttestationMapping`. -/
def byNonce (attmap : List (Attestation C V)) : List (ℕ × Attestation C V) :=
  (sortedNonces attmap).flatMap (fun nonce =>
    (attmap.filter (fun att => getEventNonce att.claim = nonce)).map (fun att => (nonce, att)))

/-- The votes of `TryAttestation`, up to the one that reaches the required power. -/
def countVotes (env : Env C O V) (requiredPower : ℕ) :
    List V → ℕ → List (V × ℕ) → Option (List (V × ℕ))
  | [], _, _ => none
  | validator :: rest, attestationPower, counted =>
    let validatorPower := env.getLastValidatorPower validator
    let attestationPower := attestationPower + validatorPower
    let counted := counted ++ [(validator, validatorPower)]
    if requiredPower ≤ attestationPower then some counted
    else countVotes env requiredPower rest attestationPower counted

/-- `processAttestation`. -/
def processAttestation (env : Env C O V) (s : State C H V) (claim : C)
    (counted : List (V × ℕ)) : Except OracleError (State C H V) :=
  if env.handlerPanics claim then .error .panicHandler
  else .ok { s with processed := s.processed ++ [⟨claim, counted, env.getLastTotalPower⟩] }

/-- `TryAttestation`. -/
def tryAttestation (env : Env C O V) (s : State C H V) (att : Attestation C V) :
    Except OracleError (State C H V) :=
  if att.observed then .error .panicObserved
  else
    match countVotes env (getRequiredPower env.getLastTotalPower) att.votes 0 [] with
    | none => .ok s
    | some counted =>
      if getEventNonce att.claim ≠ s.lastObservedEventNonce + 1 then .error .panicOutOfOrder
      else
        let s := { s with
          lastObservedEventNonce := getEventNonce att.claim
          lastObservedEthereumBlockHeight := getBlockHeight att.claim }
        let s := s.setAttestation (keyOf att.claim) { att with observed := true }
        s.processAttestation env att.claim counted

/-- The loop of `attestationTally`. -/
def tallyLoop (env : Env C O V) :
    List (ℕ × Attestation C V) → State C H V → Except OracleError (State C H V)
  | [], s => .ok s
  | (nonce, att) :: rest, s =>
    if nonce = s.lastObservedEventNonce + 1 then
      match s.tryAttestation env att with
      | .error e => .error e
      | .ok s => tallyLoop env rest s
    else tallyLoop env rest s

/-- `attestationTally`. -/
def attestationTally (env : Env C O V) (s : State C H V) :
    Except OracleError (State C H V) :=
  tallyLoop env (byNonce s.iterateAttestations) s

/-- A loop of deletions. -/
def deleteAll (xs : List (ℕ × Attestation C V)) (s : State C H V) : State C H V :=
  xs.foldl (fun s x => s.deleteAttestation x.2) s

/-- `pruneAttestations`: what is before the last observed nonce is deleted. -/
def pruneAttestations (s : State C H V) : State C H V :=
  deleteAll ((byNonce s.iterateAttestations).filter (·.1 < s.lastObservedEventNonce)) s

/-- `EndBlocker`, as far as it is about attestations. -/
def endBlocker (env : Env C O V) (s : State C H V) : Except OracleError (State C H V) :=
  match s.attestationTally env with
  | .error e => .error e
  | .ok s => .ok s.pruneAttestations

/-! ## Reset -/

/-- `updateValidatorsClaims` of `ResetPeggyModuleState`. -/
def updateValidatorsClaims (env : Env C O V) (height : ℕ) (s : State C H V) (v : V) :
    State C H V :=
  if env.isBonded v then s.setLastEventByValidator v s.lastObservedEventNonce height
  else s.setLastEventByValidator v 0 0

/-- `ResetPeggyModuleState`, as far as it is about attestations. -/
def resetPeggyModuleState (env : Env C O V) (s : State C H V)
    (bridgeContractStartHeight : ℕ) : State C H V :=
  let s := env.validators.foldl (updateValidatorsClaims env bridgeContractStartHeight) s
  deleteAll (byNonce s.iterateAttestations) s

/-! ## Runs -/

/-- No attestations yet; `nonce` is the nonce the oracle starts from. -/
def genesis (nonce height : ℕ) (lastEvents : Store V LastClaimEvent) : State C H V :=
  ⟨∅, nonce, height, lastEvents, [], []⟩

end State

/-- What reaches the oracle. -/
inductive Op (C V : Type) where
  | handleClaim (claim : C)
  | afterValidatorBonded (validator : V)
  | endBlocker
  | resetPeggyModuleState (bridgeContractStartHeight : ℕ)

namespace State

/-- A request in its environment. -/
def step : Env C O V × Op C V → State C H V → Except OracleError (State C H V)
  | (env, .handleClaim claim), s => s.handleClaim env claim
  | (_, .afterValidatorBonded validator), s => .ok (s.afterValidatorBonded validator)
  | (env, .endBlocker), s => s.endBlocker env
  | (env, .resetPeggyModuleState height), s => .ok (s.resetPeggyModuleState env height)

end State

end Model

/-! ## What holds of an attestation -/

section Proofs

variable {C O H V : Type} [DecidableEq V] [EthereumClaim C O H]

open EthereumClaim

namespace State

/-- An attestation, seen from the state. -/
structure Attested (s : State C H V) (att : Attestation C V) : Prop where
  nodup : att.votes.Nodup
  voted : ∀ v ∈ att.votes,
    getEventNonce att.claim ≤ (s.getLastEventByValidator v).ethereumEventNonce
  near : getEventNonce att.claim ≤ s.lastObservedEventNonce + maxFutureClaims
  observed : att.observed = true → getEventNonce att.claim ≤ s.lastObservedEventNonce
  submitted : ∀ v ∈ att.votes, ∃ c, (v, c) ∈ s.submitted ∧ keyOf c = keyOf att.claim

variable {s : State C H V}

theorem Attested.mono {s' : State C H V} {att : Attestation C V} (h : s.Attested att)
    (hlast : s.lastObservedEventNonce ≤ s'.lastObservedEventNonce)
    (hevents : ∀ v, (s.getLastEventByValidator v).ethereumEventNonce ≤
      (s'.getLastEventByValidator v).ethereumEventNonce)
    (hsubmitted : s.submitted ⊆ s'.submitted) : s'.Attested att where
  nodup := h.nodup
  voted v hv := (h.voted v hv).trans (hevents v)
  near := h.near.trans (Nat.add_le_add_right hlast _)
  observed hobs := (h.observed hobs).trans hlast
  submitted v hv := by
    obtain ⟨c, hc, hkey⟩ := h.submitted v hv
    exact ⟨c, hsubmitted hc, hkey⟩

theorem getLastEventByValidator_set (s : State C H V) (v v' : V) (nonce height : ℕ) :
    (s.setLastEventByValidator v nonce height).getLastEventByValidator v' =
      if v' = v then ⟨nonce, height⟩ else s.getLastEventByValidator v' := by
  show ((put v _ s.lastEventByValidator).lookup v').getD _ = _
  rw [lookup_put]
  split
  · rfl
  · rfl

theorem getLastEventByValidator_le_set {v : V} {nonce : ℕ}
    (hle : (s.getLastEventByValidator v).ethereumEventNonce ≤ nonce) (height : ℕ) (v' : V) :
    (s.getLastEventByValidator v').ethereumEventNonce ≤
      ((s.setLastEventByValidator v nonce height).getLastEventByValidator
        v').ethereumEventNonce := by
  rw [getLastEventByValidator_set]
  split
  · next heq =>
    rw [heq]
    exact hle
  · exact le_rfl

end State

/-- The voters are counted once each, and have the power that is required. -/
structure Processed.Backed (p : Processed C V) : Prop where
  power : getRequiredPower p.totalPower ≤ (p.counted.map Prod.snd).sum
  distinct : (p.counted.map Prod.fst).Nodup

variable [LinearOrder H]

namespace State

/-- A claim that somebody submitted. -/
def Claimed (s : State C H V) (claim : C) : Prop := ∃ v, (v, claim) ∈ s.submitted

/-- What holds along a run from the nonce `start`. -/
structure Sound (start : ℕ) (s : State C H V) : Prop where
  stored : ∀ k att, s.attestations.lookup k = some att →
    keyOf att.claim = k ∧ s.Attested att ∧ s.Claimed att.claim
  inOrder : s.processed.map (fun p => getEventNonce p.claim) =
    List.range' (start + 1) s.processed.length
  last : s.lastObservedEventNonce = start + s.processed.length
  backed : ∀ p ∈ s.processed, p.Backed
  credited : ∀ p ∈ s.processed, s.Claimed p.claim ∧ ∀ v ∈ p.counted.map Prod.fst,
    ∃ c, (v, c) ∈ s.submitted ∧ keyOf c = keyOf p.claim

theorem genesis_sound (nonce height : ℕ) (lastEvents : Store V LastClaimEvent) :
    Sound nonce (genesis nonce height lastEvents : State C H V) where
  stored _ _ h := by cases h
  inOrder := rfl
  last := rfl
  backed _ h := by cases h
  credited _ h := by cases h

section Steps

variable {start : ℕ} {s s' : State C H V}

/-! ## Votes and hooks -/

/-- The attestation a claim votes for, before the vote. -/
def target (s : State C H V) (height : ℕ) (claim : C) : Attestation C V :=
  (s.attestations.lookup (keyOf claim)).getD ⟨false, [], height, claim⟩

/-- A vote. -/
def voted (s : State C H V) (v : V) (claim : C) (att : Attestation C V) : State C H V :=
  { s.setLastEventByValidator v (getEventNonce claim) (getBlockHeight claim) with
    attestations := put (keyOf claim) (some { att with votes := att.votes ++ [v] })
      s.attestations
    submitted := s.submitted ++ [(v, claim)] }

variable {env : Env C O V} {claim : C}

theorem handleClaim_ok (h : s.handleClaim env claim = .ok s') :
    ∃ v, getEventNonce (handled env claim) =
        (s.getLastEventByValidator v).ethereumEventNonce + 1 ∧
      getEventNonce (handled env claim) ≤ s.lastObservedEventNonce + maxFutureClaims ∧
      s' = s.voted v (handled env claim) (s.target env.blockHeight (handled env claim)) := by
  rw [handleClaim] at h
  split at h
  · cases h
  split at h
  · cases h
  rw [attest] at h
  split at h
  · cases h
  rename_i v _
  split at h
  · cases h
  rename_i hnext
  split at h
  · cases h
  rename_i hfuture
  cases h
  exact ⟨v, not_not.mp hnext, not_lt.mp hfuture, rfl⟩

theorem Sound.target (h : s.Sound start)
    (hnear : getEventNonce claim ≤ s.lastObservedEventNonce + maxFutureClaims) (height : ℕ) :
    keyOf (s.target height claim).claim = keyOf claim ∧ s.Attested (s.target height claim) ∧
      ((s.target height claim).claim = claim ∨ s.Claimed (s.target height claim).claim) := by
  rw [State.target]
  cases hatt : s.attestations.lookup (keyOf claim) with
  | none =>
    refine ⟨rfl, ⟨List.nodup_nil, ?_, hnear, ?_, ?_⟩, Or.inl rfl⟩
    · intro v hv
      cases hv
    · intro hobs
      cases hobs
    · intro v hv
      cases hv
  | some att =>
    obtain ⟨hkey, hattested, hclaimed⟩ := h.stored _ att hatt
    exact ⟨hkey, hattested, Or.inr hclaimed⟩

variable {att : Attestation C V}

/-- **A VOTE** is the first of its validator for the attestation. -/
theorem Sound.voted (h : s.Sound start) {v : V} (hkey : keyOf att.claim = keyOf claim)
    (hatt : s.Attested att) (hclaim : att.claim = claim ∨ s.Claimed att.claim)
    (hnext : getEventNonce claim = (s.getLastEventByValidator v).ethereumEventNonce + 1) :
    (s.voted v claim att).Sound start := by
  have hsubmitted : s.submitted ⊆ (s.voted v claim att).submitted := List.subset_append_left _ _
  have hnew : (v, claim) ∈ (s.voted v claim att).submitted :=
    List.mem_append_right _ (List.mem_singleton_self _)
  have hclaimed : ∀ c, s.Claimed c → (s.voted v claim att).Claimed c :=
    fun _ ⟨u, hu⟩ => ⟨u, hsubmitted hu⟩
  have hmono : ∀ att', s.Attested att' → (s.voted v claim att).Attested att' := by
    intro att' hatt'
    refine hatt'.mono le_rfl ?_ hsubmitted
    exact getLastEventByValidator_le_set (hnext ▸ Nat.le_succ _) _
  have hnonce : getEventNonce att.claim = getEventNonce claim :=
    congrArg AttestationKey.eventNonce hkey
  have hold := hmono att hatt
  refine ⟨?_, h.inOrder, h.last, h.backed, ?_⟩
  · intro k att' hlookup
    change (put (keyOf claim) _ s.attestations).lookup k = _ at hlookup
    rw [lookup_put] at hlookup
    split at hlookup
    · next heq =>
      cases hlookup
      refine ⟨hkey.trans heq.symm, ⟨?_, ?_, hold.near, hold.observed, ?_⟩, ?_⟩
      · -- a validator that had voted here would have reported this nonce already
        show (att.votes ++ [v]).Nodup
        rw [List.nodup_append]
        refine ⟨hatt.nodup, List.nodup_singleton v, ?_⟩
        rintro u hu w hw rfl
        have hle := hatt.voted u hu
        rw [List.mem_singleton.mp hw, hnonce, hnext] at hle
        exact absurd hle (Nat.not_succ_le_self _)
      · refine List.forall_mem_append.mpr ⟨hold.voted, List.forall_mem_singleton.mpr ?_⟩
        show getEventNonce att.claim ≤ _
        rw [hnonce]
        exact (congrArg LastClaimEvent.ethereumEventNonce
          ((getLastEventByValidator_set s v v _ _).trans (if_pos rfl))).ge
      · exact List.forall_mem_append.mpr ⟨hold.submitted,
          List.forall_mem_singleton.mpr ⟨claim, hnew, hkey.symm⟩⟩
      · rcases hclaim with rfl | hclaim
        · exact ⟨v, hnew⟩
        · exact hclaimed _ hclaim
    · obtain ⟨hkey', hatt', hclaim'⟩ := h.stored k att' hlookup
      exact ⟨hkey', hmono att' hatt', hclaimed _ hclaim'⟩
  · intro p hp
    obtain ⟨hclaim', hvoters⟩ := h.credited p hp
    refine ⟨hclaimed _ hclaim', ?_⟩
    intro u hu
    obtain ⟨c, hc, hkey'⟩ := hvoters u hu
    exact ⟨c, hsubmitted hc, hkey'⟩

theorem Sound.afterValidatorBonded (h : s.Sound start) (v : V) :
    (s.afterValidatorBonded v).Sound start := by
  rw [State.afterValidatorBonded]
  split
  · exact h
  · next hfirst =>
    split
    · exact h
    · refine { h with stored := ?_ }
      intro k att hlookup
      obtain ⟨hkey, hatt, hclaim⟩ := h.stored k att hlookup
      refine ⟨hkey, hatt.mono le_rfl ?_ (List.Subset.refl _), hclaim⟩
      refine getLastEventByValidator_le_set ?_ _
      rw [(not_not.mp hfirst).2]
      exact Nat.zero_le _

/-! ## Counting the votes -/

variable {counted : List (V × ℕ)} {requiredPower : ℕ} {votes : List V}

omit [DecidableEq V] in
theorem countVotes_eq_some {power : ℕ} {counted' : List (V × ℕ)}
    (h : countVotes env requiredPower votes power counted = some counted') :
    ∃ voters, voters <+: votes ∧
      counted' = counted ++ voters.map (fun v => (v, env.getLastValidatorPower v)) ∧
      requiredPower ≤ power + (voters.map env.getLastValidatorPower).sum := by
  induction votes generalizing power counted with
  | nil => cases h
  | cons v votes ih =>
    rw [countVotes] at h
    split at h
    · next hle =>
      cases h
      refine ⟨[v], ⟨votes, rfl⟩, rfl, ?_⟩
      rw [List.map_singleton, List.sum_singleton]
      exact hle
    · obtain ⟨voters, hfront, rfl, hle⟩ := ih h
      refine ⟨v :: voters, List.cons_prefix_cons.mpr ⟨rfl, hfront⟩, ?_, ?_⟩
      · rw [List.append_assoc]
        rfl
      · rw [List.map_cons, List.sum_cons, ← Nat.add_assoc]
        exact hle

omit [DecidableEq V] in
theorem countVotes_spec (h : countVotes env requiredPower votes 0 [] = some counted) :
    counted.map Prod.fst <+: votes ∧ requiredPower ≤ (counted.map Prod.snd).sum := by
  obtain ⟨voters, hfront, rfl, hle⟩ := countVotes_eq_some h
  rw [Nat.zero_add] at hle
  have hsnd : (voters.map (fun v => (v, env.getLastValidatorPower v))).map Prod.snd =
      voters.map env.getLastValidatorPower := List.map_map
  have hfst : (voters.map (fun v => (v, env.getLastValidatorPower v))).map Prod.fst = voters :=
    List.map_map.trans (List.map_id voters)
  rw [List.nil_append, hfst, hsnd]
  exact ⟨hfront, hle⟩

/-- An attestation becomes observed and its claim is applied. -/
def observe (s : State C H V) (env : Env C O V) (att : Attestation C V)
    (counted : List (V × ℕ)) : State C H V :=
  { s with
    attestations := put (keyOf att.claim) (some { att with observed := true }) s.attestations
    lastObservedEventNonce := getEventNonce att.claim
    lastObservedEthereumBlockHeight := getBlockHeight att.claim
    processed := s.processed ++ [⟨att.claim, counted, env.getLastTotalPower⟩] }

/-- An attestation for the next nonce is not observed yet, and trying it does not panic
    unless the handler does. -/
theorem tryAttestation_cases (env : Env C O V) (hatt : s.Attested att)
    (hnext : getEventNonce att.claim = s.lastObservedEventNonce + 1) :
    s.tryAttestation env att = .ok s ∨ s.tryAttestation env att = .error .panicHandler ∨
      ∃ counted, countVotes env (getRequiredPower env.getLastTotalPower) att.votes 0 [] =
        some counted ∧ s.tryAttestation env att = .ok (s.observe env att counted) := by
  have hobs : ¬ att.observed = true := by
    intro hobs
    have hle := hatt.observed hobs
    rw [hnext] at hle
    exact absurd hle (Nat.not_succ_le_self _)
  rw [tryAttestation, if_neg hobs]
  split
  · exact Or.inl rfl
  · next counted hcount =>
    rw [if_neg (not_not.mpr hnext)]
    dsimp only [processAttestation]
    split
    · exact Or.inr (Or.inl rfl)
    · exact Or.inr (Or.inr ⟨counted, hcount, rfl⟩)

/-- **THE NEXT EVENT** is applied. -/
theorem Sound.observe (h : s.Sound start) (env : Env C O V) (hatt : s.Attested att)
    (hclaim : s.Claimed att.claim)
    (hnext : getEventNonce att.claim = s.lastObservedEventNonce + 1)
    (hcount : countVotes env (getRequiredPower env.getLastTotalPower) att.votes 0 [] =
      some counted) : (s.observe env att counted).Sound start := by
  have hle : s.lastObservedEventNonce ≤ getEventNonce att.claim := by
    rw [hnext]
    exact Nat.le_succ _
  have hmono : ∀ att', s.Attested att' → (s.observe env att counted).Attested att' :=
    fun att' hatt' => hatt'.mono hle (fun _ => le_rfl) (List.Subset.refl _)
  have hlength : (s.observe env att counted).processed.length = s.processed.length + 1 :=
    List.length_append
  obtain ⟨hfront, hpower⟩ := countVotes_spec hcount
  refine ⟨?_, ?_, ?_, ?_, ?_⟩
  · intro k att' hlookup
    change (put (keyOf att.claim) _ s.attestations).lookup k = _ at hlookup
    rw [lookup_put] at hlookup
    split at hlookup
    · next heq =>
      cases hlookup
      have hold := hmono att hatt
      exact ⟨heq.symm, ⟨hold.nodup, hold.voted, hold.near, fun _ => le_rfl, hold.submitted⟩, hclaim⟩
    · obtain ⟨hkey', hatt', hclaim'⟩ := h.stored k att' hlookup
      exact ⟨hkey', hmono att' hatt', hclaim'⟩
  · rw [hlength, List.range'_1_concat]
    show List.map _ (s.processed ++ [_]) = _
    rw [List.map_append, h.inOrder, List.map_singleton, hnext, h.last]
    congr 2
    omega
  · rw [hlength]
    show getEventNonce att.claim = _
    rw [hnext, h.last, Nat.add_assoc]
  · exact List.forall_mem_append.mpr ⟨h.backed,
      List.forall_mem_singleton.mpr ⟨hpower, hatt.nodup.sublist hfront.sublist⟩⟩
  · exact List.forall_mem_append.mpr ⟨h.credited,
      List.forall_mem_singleton.mpr ⟨hclaim, fun v hv => hatt.submitted v (hfront.subset hv)⟩⟩

/-! ## The end of a block -/

omit [DecidableEq V] in
theorem mem_iterateAttestations :
    att ∈ s.iterateAttestations ↔ ∃ k, s.attestations.lookup k = some att := by
  rw [iterateAttestations, (List.perm_insertionSort _ _).mem_iff, List.mem_map]
  constructor
  · rintro ⟨⟨k, att'⟩, he, rfl⟩
    exact ⟨k, mem_entries_iff.mp he⟩
  · rintro ⟨k, hk⟩
    exact ⟨⟨k, att⟩, mem_entries_iff.mpr hk, rfl⟩

omit [DecidableEq V] [LinearOrder H] in
theorem mem_byNonce {attmap : List (Attestation C V)} {nonce : ℕ} :
    (nonce, att) ∈ byNonce attmap ↔ att ∈ attmap ∧ nonce = getEventNonce att.claim := by
  rw [byNonce, List.mem_flatMap]
  constructor
  · rintro ⟨n, -, hmem⟩
    obtain ⟨att', hatt', heq⟩ := List.mem_map.mp hmem
    cases heq
    obtain ⟨hin, hnonce⟩ := List.mem_filter.mp hatt'
    exact ⟨hin, (of_decide_eq_true hnonce).symm⟩
  · rintro ⟨hin, rfl⟩
    refine ⟨getEventNonce att.claim, ?_, ?_⟩
    · rw [sortedNonces, (List.perm_insertionSort _ _).mem_iff, List.mem_dedup]
      exact List.mem_map_of_mem hin
    · exact List.mem_map_of_mem (List.mem_filter.mpr ⟨hin, decide_eq_true rfl⟩)

variable {xs : List (ℕ × Attestation C V)}

/-- **A TALLY**: the attestations read at its beginning stay as they were, so each one that
    is tried is not observed and has the next nonce. -/
theorem Sound.tallyLoop (h : s.Sound start) (env : Env C O V)
    (hxs : ∀ x ∈ xs, x.1 = getEventNonce x.2.claim ∧ s.Attested x.2 ∧ s.Claimed x.2.claim) :
    (∃ s', State.tallyLoop env xs s = .ok s' ∧ s'.Sound start) ∨
      State.tallyLoop env xs s = .error .panicHandler := by
  induction xs generalizing s with
  | nil => exact Or.inl ⟨s, rfl, h⟩
  | cons x xs ih =>
    obtain ⟨nonce, att⟩ := x
    obtain ⟨hnonce, hatt, hclaim⟩ := hxs _ List.mem_cons_self
    have hrest := fun x hx => hxs x (List.mem_cons_of_mem _ hx)
    rw [State.tallyLoop]
    split
    · next hnext =>
      change nonce = getEventNonce att.claim at hnonce
      rw [hnonce] at hnext
      rcases tryAttestation_cases env hatt hnext with hsame | hpanic | ⟨counted, hcount, hok⟩
      · rw [hsame]
        exact ih h hrest
      · rw [hpanic]
        exact Or.inr rfl
      · rw [hok]
        refine ih (h.observe env hatt hclaim hnext hcount) ?_
        intro x hx
        obtain ⟨hnonce', hatt', hclaim'⟩ := hrest x hx
        refine ⟨hnonce', hatt'.mono ?_ (fun _ => le_rfl) (List.Subset.refl _), hclaim'⟩
        show _ ≤ getEventNonce att.claim
        rw [hnext]
        exact Nat.le_succ _
    · exact ih h hrest

omit [DecidableEq V] in
theorem deleteAll_eq (xs : List (ℕ × Attestation C V)) (s : State C H V) :
    deleteAll xs s = { s with
      attestations := putAll (xs.map (fun x => keyOf x.2.claim)) none s.attestations } := by
  induction xs generalizing s with
  | nil => rfl
  | cons x xs ih => exact ih _

variable {k : AttestationKey H}

omit [DecidableEq V] in
/-- What is left after a loop of deletions was there before, and not among the deleted. -/
theorem lookup_deleteAll (h : (deleteAll xs s).attestations.lookup k = some att) :
    s.attestations.lookup k = some att ∧ ∀ x ∈ xs, keyOf x.2.claim ≠ k := by
  rw [deleteAll_eq] at h
  change (putAll _ none s.attestations).lookup k = _ at h
  rw [lookup_putAll] at h
  split at h
  · cases h
  rename_i hnot
  refine ⟨h, ?_⟩
  rintro x hx rfl
  exact hnot (List.mem_map_of_mem (f := fun x : ℕ × Attestation C V => keyOf x.2.claim) hx)

theorem Sound.deleteAll (h : s.Sound start) (xs : List (ℕ × Attestation C V)) :
    (State.deleteAll xs s).Sound start := by
  have hstored : ∀ k att, (State.deleteAll xs s).attestations.lookup k = some att →
      keyOf att.claim = k ∧ s.Attested att ∧ s.Claimed att.claim :=
    fun k att hlookup => h.stored k att (lookup_deleteAll hlookup).1
  rw [deleteAll_eq] at hstored ⊢
  refine { h with stored := ?_ }
  intro k att hlookup
  obtain ⟨hkey, hatt, hclaim⟩ := hstored k att hlookup
  exact ⟨hkey, hatt.mono le_rfl (fun _ => le_rfl) (List.Subset.refl _), hclaim⟩

theorem Sound.le_of_pruned (h : s.Sound start)
    (hlookup : s.pruneAttestations.attestations.lookup k = some att) :
    s.lastObservedEventNonce ≤ k.eventNonce ∧
      k.eventNonce ≤ s.lastObservedEventNonce + maxFutureClaims := by
  obtain ⟨hold, hnot⟩ := lookup_deleteAll hlookup
  obtain ⟨rfl, hatt, -⟩ := h.stored k att hold
  refine ⟨?_, hatt.near⟩
  by_contra hlt
  refine hnot (getEventNonce att.claim, att) (List.mem_filter.mpr ⟨?_, ?_⟩) rfl
  · exact mem_byNonce.mpr ⟨mem_iterateAttestations.mpr ⟨_, hold⟩, rfl⟩
  · exact decide_eq_true (not_le.mp hlt)

/-- **THE END OF A BLOCK**. -/
theorem Sound.endBlocker (h : s.Sound start) (env : Env C O V) :
    (∃ s', s.endBlocker env = .ok s' ∧ s'.Sound start ∧
      ∀ k att, s'.attestations.lookup k = some att →
        s'.lastObservedEventNonce ≤ k.eventNonce ∧
          k.eventNonce ≤ s'.lastObservedEventNonce + maxFutureClaims) ∨
      s.endBlocker env = .error .panicHandler := by
  have hxs : ∀ x ∈ byNonce s.iterateAttestations,
      x.1 = getEventNonce x.2.claim ∧ s.Attested x.2 ∧ s.Claimed x.2.claim := by
    rintro ⟨nonce, att⟩ hx
    obtain ⟨hatt, hnonce⟩ := mem_byNonce.mp hx
    obtain ⟨k, hk⟩ := mem_iterateAttestations.mp hatt
    exact ⟨hnonce, (h.stored k att hk).2⟩
  rw [State.endBlocker, attestationTally]
  rcases h.tallyLoop env hxs with ⟨s₁, hok, hs₁⟩ | hpanic
  · rw [hok]
    refine Or.inl ⟨_, rfl, hs₁.deleteAll _, ?_⟩
    intro k att hlookup
    have hbounds := hs₁.le_of_pruned hlookup
    rw [pruneAttestations, deleteAll_eq]
    exact hbounds
  · rw [hpanic]
    exact Or.inr rfl

/-! ## Reset -/

omit [LinearOrder H] [EthereumClaim C O H] in
theorem foldl_updateValidatorsClaims (env : Env C O V) (height : ℕ) (vs : List V)
    (s : State C H V) : ∃ lastEvents,
      vs.foldl (updateValidatorsClaims env height) s =
        { s with lastEventByValidator := lastEvents } := by
  induction vs generalizing s with
  | nil => exact ⟨_, rfl⟩
  | cons v vs ih =>
    obtain ⟨lastEvents, heq⟩ := ih (updateValidatorsClaims env height s v)
    refine ⟨lastEvents, ?_⟩
    rw [List.foldl_cons, heq, updateValidatorsClaims]
    split
    · rfl
    · rfl

/-- **A RESET** leaves no attestation. -/
theorem Sound.resetPeggyModuleState (h : s.Sound start) (env : Env C O V) (height : ℕ) :
    (s.resetPeggyModuleState env height).Sound start := by
  rw [State.resetPeggyModuleState]
  obtain ⟨lastEvents, heq⟩ := foldl_updateValidatorsClaims env height env.validators s
  rw [heq]
  have hnone : ∀ k att, (State.deleteAll (byNonce (iterateAttestations
      { s with lastEventByValidator := lastEvents }))
      { s with lastEventByValidator := lastEvents }).attestations.lookup k ≠ some att := by
    intro k att hlookup
    obtain ⟨hold, hnot⟩ := lookup_deleteAll hlookup
    refine hnot (getEventNonce att.claim, att) ?_ (h.stored k att hold).1
    exact mem_byNonce.mpr ⟨mem_iterateAttestations.mpr ⟨k, hold⟩, rfl⟩
  rw [deleteAll_eq] at hnone ⊢
  exact { h with stored := fun k att hlookup => absurd hlookup (hnone k att) }

/-! ## Runs -/

variable {x : Env C O V × Op C V}

/-- **ONE REQUEST**. -/
theorem Sound.step (h : s.Sound start) (hstep : State.step x s = .ok s') : s'.Sound start := by
  obtain ⟨env, op⟩ := x
  cases op with
  | handleClaim claim =>
    obtain ⟨v, hnext, hnear, rfl⟩ := handleClaim_ok hstep
    obtain ⟨hkey, hatt, hclaim⟩ := h.target hnear env.blockHeight
    exact h.voted hkey hatt hclaim hnext
  | afterValidatorBonded v =>
    cases hstep
    exact h.afterValidatorBonded v
  | endBlocker =>
    change s.endBlocker env = _ at hstep
    rcases h.endBlocker env with ⟨s₁, hok, hs₁, -⟩ | hpanic
    · rw [hok] at hstep
      cases hstep
      exact hs₁
    · rw [hpanic] at hstep
      cases hstep
  | resetPeggyModuleState height =>
    cases hstep
    exact h.resetPeggyModuleState env height

/-! ## What is submitted -/

omit [DecidableEq V] in
theorem tryAttestation_submitted (h : s.tryAttestation env att = .ok s') :
    s'.submitted = s.submitted := by
  rw [tryAttestation] at h
  split at h
  · cases h
  split at h
  · cases h
    rfl
  · split at h
    · cases h
    dsimp only [processAttestation] at h
    split at h
    · cases h
    · cases h
      rfl

omit [DecidableEq V] in
theorem tallyLoop_submitted (h : State.tallyLoop env xs s = .ok s') :
    s'.submitted = s.submitted := by
  induction xs generalizing s with
  | nil =>
    cases h
    rfl
  | cons x xs ih =>
    rw [State.tallyLoop] at h
    split at h
    · split at h
      · cases h
      · next s₁ hok => exact (ih h).trans (tryAttestation_submitted hok)
    · exact ih h

theorem step_submitted (h : State.step x s = .ok s') :
    s'.submitted = s.submitted ∨
      ∃ v claim, x.2 = .handleClaim claim ∧
        s'.submitted = s.submitted ++ [(v, handled x.1 claim)] := by
  obtain ⟨env, op⟩ := x
  cases op with
  | handleClaim claim =>
    obtain ⟨v, -, -, rfl⟩ := handleClaim_ok h
    exact Or.inr ⟨v, claim, rfl, rfl⟩
  | afterValidatorBonded v =>
    cases h
    rw [State.afterValidatorBonded]
    split
    · exact Or.inl rfl
    · split
      · exact Or.inl rfl
      · exact Or.inl rfl
  | endBlocker =>
    change s.endBlocker env = _ at h
    rw [State.endBlocker] at h
    split at h
    · cases h
    rename_i s₁ hok
    cases h
    have hsame : s₁.submitted = s.submitted := tallyLoop_submitted hok
    rw [pruneAttestations, deleteAll_eq]
    exact Or.inl hsame
  | resetPeggyModuleState height =>
    cases h
    obtain ⟨lastEvents, heq⟩ := foldl_updateValidatorsClaims env height env.validators s
    rw [State.resetPeggyModuleState, heq, deleteAll_eq]
    exact Or.inl rfl

end Steps

/-- Every vote goes back to a message of the run. -/
theorem run_submitted (nonce height : ℕ) (lastEvents : Store V LastClaimEvent)
    (requests : List (Env C O V × Op C V)) :
    ∀ y ∈ (run step (genesis nonce height lastEvents : State C H V) requests).submitted,
      ∃ x ∈ requests, ∃ claim, x.2 = .handleClaim claim ∧ y.2 = handled x.1 claim := by
  have hstep : ∀ x ∈ requests, ∀ s s' : State C H V,
      (∀ y ∈ s.submitted, ∃ x ∈ requests, ∃ claim, x.2 = .handleClaim claim ∧
        y.2 = handled x.1 claim) → State.step x s = .ok s' →
      ∀ y ∈ s'.submitted, ∃ x ∈ requests, ∃ claim, x.2 = .handleClaim claim ∧
        y.2 = handled x.1 claim := by
    intro x hx s s' hs hstep y hy
    rcases step_submitted hstep with hsame | ⟨v, claim, hclaim, happend⟩
    · exact hs y (hsame ▸ hy)
    · rw [happend, List.mem_append, List.mem_singleton] at hy
      rcases hy with hold | rfl
      · exact hs y hold
      · exact ⟨x, hx, claim, hclaim, rfl⟩
  refine run_invariant_on hstep ?_
  intro y hy
  cases hy

theorem run_sound (nonce height : ℕ) (lastEvents : Store V LastClaimEvent)
    (requests : List (Env C O V × Op C V)) :
    (run step (genesis nonce height lastEvents : State C H V) requests).Sound nonce :=
  run_invariant (fun _ _ _ h hstep => h.step hstep) requests (genesis_sound nonce height lastEvents)

/-- The nonces that were applied are those after `start`, one by one, up to the last
    observed one. Each was backed by distinct voters with the required power. At the end of
    a block the attestations left are at most `MaxFutureClaims` ahead, and of the panics
    only one of the handler can happen there. -/
structure ExactlyOnce (start : ℕ) (s : State C H V) : Prop where
  inOrder : s.processed.map (fun p => getEventNonce p.claim) =
    List.range' (start + 1) s.processed.length
  last : s.lastObservedEventNonce = start + s.processed.length
  once : (s.processed.map (fun p => getEventNonce p.claim)).Nodup
  votes : ∀ k att, s.attestations.lookup k = some att → att.votes.Nodup
  distinct : ∀ p ∈ s.processed, (p.counted.map Prod.fst).Nodup
  power : ∀ p ∈ s.processed, 66 * p.totalPower / 100 ≤ (p.counted.map Prod.snd).sum
  bounded : ∀ env s', s.endBlocker env = .ok s' → ∀ k att,
    s'.attestations.lookup k = some att → s'.lastObservedEventNonce ≤ k.eventNonce ∧
      k.eventNonce ≤ s'.lastObservedEventNonce + maxFutureClaims
  panics : ∀ env, s.endBlocker env ≠ .error .panicOutOfOrder ∧
    s.endBlocker env ≠ .error .panicObserved

/-- **ONCE AND IN ORDER**, along every run. -/
theorem events_exactly_once (nonce height : ℕ) (lastEvents : Store V LastClaimEvent)
    (requests : List (Env C O V × Op C V)) :
    (run step (genesis nonce height lastEvents : State C H V) requests).ExactlyOnce nonce := by
  have h : (run step (genesis nonce height lastEvents : State C H V) requests).Sound nonce :=
    run_sound nonce height lastEvents requests
  refine ⟨h.inOrder, h.last, ?_, ?_, fun p hp => (h.backed p hp).distinct, ?_, ?_, ?_⟩
  · rw [h.inOrder]
    exact List.nodup_range'
  · intro k att hlookup
    exact (h.stored k att hlookup).2.1.nodup
  · intro p hp
    rw [Nat.mul_comm]
    exact (h.backed p hp).power
  · intro env s' hok
    rcases h.endBlocker env with ⟨s₁, hok₁, -, hbounds⟩ | hpanic
    · rw [hok] at hok₁
      cases hok₁
      exact hbounds
    · rw [hok] at hpanic
      cases hpanic
  · intro env
    rcases h.endBlocker env with ⟨s₁, hok, -⟩ | hpanic
    · rw [hok]
      constructor
      · intro heq
        cases heq
      · intro heq
        cases heq
    · rw [hpanic]
      constructor
      · intro heq
        cases heq
      · intro heq
        cases heq

end State

end Proofs

end PeggyOracle
