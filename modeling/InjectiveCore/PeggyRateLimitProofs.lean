import InjectiveCore.PeggyPoolProofs

/-!
# The net outflow of a token

A token with a rate limit has a record of what came in and what went out in every block,
and its **net outflow**, which the limit is checked against. The end of a block adds the
records of the block to the net outflow, and the beginning of a block takes out those that
have left the window (`abci.go`). A limit can be removed and created again at any time
between; the records of a token without a limit are taken out a hundred at a time.

The **drift** of a token is what its net outflow has more than its records say. Whatever
deletes records leaves the drift as it was, and what a block records is in the net outflow
at its end. `net_outflow_exact` is about every chain of blocks.
-/

namespace PeggyRateLimit

open KeyedStore Transition PeggyPool

/-! ## Records -/

/-- Amounts under a token and the height of a block. -/
abbrev Records := Store (EthAddress × ℕ) ℤ

namespace Records

/-- `GetInflowByBlock` and `GetOutflowByBlock`. -/
def byBlock (r : Records) (token : EthAddress) (blockNum : ℕ) : ℤ :=
  (r.lookup (token, blockNum)).getD 0

/-- `SetInflowByBlock` and `SetOutflowByBlock`: an amount of zero is deleted. -/
def setByBlock (r : Records) (token : EthAddress) (blockNum : ℕ) (amount : ℤ) : Records :=
  put (token, blockNum) (if amount = 0 then none else some amount) r

/-- The blocks of a token in the order of `iterateFlowRecordStore`. -/
def blocks (r : Records) (token : EthAddress) : List ℕ :=
  ((r.keys.filter (fun k => k.1 = token)).map (·.2)).insertionSort (· ≤ ·)

def collectOldBlockKeys (r : Records) (token : EthAddress) (endBlock : ℕ) : List ℕ :=
  (r.blocks token).takeWhile (· < endBlock)

/-- What some records of a token add up to. -/
def amount (r : Records) (token : EthAddress) (blockNums : List ℕ) : ℤ :=
  (blockNums.map (r.byBlock token)).sum

def delete (r : Records) (token : EthAddress) (blockNums : List ℕ) : Records :=
  putAll (blockNums.map (Prod.mk token)) none r

/-- What all records of a token add up to. -/
def recorded (r : Records) (token : EthAddress) : ℤ :=
  total (fun k amount => if k.1 = token then amount else 0) r

variable {r : Records} {token : EthAddress}

theorem nodup_blocks (r : Records) (token : EthAddress) : (r.blocks token).Nodup := by
  rw [blocks, (List.perm_insertionSort _ _).nodup_iff]
  refine List.Nodup.map_on ?_ (r.keys_nodup.filter _)
  intro k hk k' hk' heq
  have htoken := (List.mem_filter.mp hk).2
  have htoken' := (List.mem_filter.mp hk').2
  rw [decide_eq_true_iff] at htoken htoken'
  exact Prod.ext (htoken.trans htoken'.symm) heq

variable {n : ℕ} {x : ℤ}

theorem mem_blocks (h : r.lookup (token, n) = some x) : n ∈ r.blocks token := by
  rw [blocks, List.mem_insertionSort]
  exact List.mem_map.mpr ⟨(token, n), List.mem_filter.mpr ⟨mem_keys_iff.mpr ⟨x, h⟩, by simp⟩, rfl⟩

/-- The scan meets old blocks first, so it collects them all. -/
theorem mem_collectOldBlockKeys {endBlock : ℕ} (hn : n ∈ r.blocks token) (hold : n < endBlock) :
    n ∈ r.collectOldBlockKeys token endBlock := by
  have hsorted : (r.blocks token).Pairwise (· ≤ ·) := List.pairwise_insertionSort _ _
  rw [collectOldBlockKeys]
  generalize r.blocks token = ns at hn hsorted
  induction ns with
  | nil => cases hn
  | cons m ns ih =>
    rw [List.pairwise_cons] at hsorted
    have hm : m < endBlock := by
      rcases List.mem_cons.mp hn with rfl | hmem
      · exact hold
      · exact (hsorted.1 _ hmem).trans_lt hold
    rw [List.takeWhile_cons_of_pos (by simpa using hm), List.mem_cons]
    exact (List.mem_cons.mp hn).imp_right (fun hmem => ih hmem hsorted.2)

theorem weight_recorded (r : Records) (token t : EthAddress) (n : ℕ) :
    weight (fun (k : EthAddress × ℕ) x => if k.1 = t then x else 0) (token, n)
      (r.lookup (token, n)) = if token = t then r.byBlock token n else 0 := by
  rw [byBlock]
  cases r.lookup (token, n) with
  | none => exact (ite_self 0).symm
  | some x => rfl

variable {ns : List ℕ}

/-- **DELETING** records takes out what they held. -/
theorem recorded_delete (r : Records) (hnodup : ns.Nodup) (t : EthAddress) :
    (r.delete token ns).recorded t =
      r.recorded t - if token = t then r.amount token ns else 0 := by
  have hkeys : (ns.map (Prod.mk token)).Nodup := hnodup.map (fun _ _ heq => congrArg Prod.snd heq)
  have hsum := total_putAll_none (fun (k : EthAddress × ℕ) x => if k.1 = t then x else (0 : ℤ))
    hkeys r
  have hweights : ((ns.map (Prod.mk token)).map (fun k => weight (fun (k : EthAddress × ℕ) x =>
      if k.1 = t then x else (0 : ℤ)) k (r.lookup k))).sum =
      if token = t then r.amount token ns else 0 := by
    rw [List.map_map]
    refine (congrArg List.sum (List.map_congr_left
      (fun n _ => weight_recorded r token t n))).trans ?_
    split
    · rfl
    · simp
  rw [hweights] at hsum
  rw [delete, recorded, recorded, hsum, add_sub_cancel_left]

/-- **WRITING** a record replaces what its block held. -/
theorem recorded_setByBlock (r : Records) (token : EthAddress) (n : ℕ) (x : ℤ) (t : EthAddress) :
    (r.setByBlock token n x).recorded t =
      r.recorded t + if token = t then x - r.byBlock token n else 0 := by
  rw [recorded, recorded, setByBlock, total_put, total_eq_add_erase _ (token, n) r, weight_recorded]
  by_cases hx : x = 0 <;> by_cases ht : token = t <;> simp [hx, ht]; ring

theorem byBlock_setByBlock (r : Records) (token : EthAddress) (n : ℕ) (x : ℤ) (t : EthAddress) :
    (r.setByBlock token n x).byBlock t n = if token = t then x else r.byBlock t n := by
  rw [byBlock, setByBlock, lookup_put]
  by_cases ht : token = t
  · rw [if_pos (by rw [ht]), if_pos ht]
    split
    · next hx => exact hx.symm
    · rfl
  · rw [if_neg (fun heq => ht (congrArg Prod.fst heq).symm), if_neg ht]
    rfl

theorem lookup_delete {k : EthAddress × ℕ} (h : (r.delete token ns).lookup k = some x) :
    k ∉ ns.map (Prod.mk token) ∧ r.lookup k = some x := by
  rw [delete, lookup_putAll] at h
  split at h
  · cases h
  · next hk => exact ⟨hk, h⟩

end Records

/-! ## The keeper -/

inductive Direction where
  | inflow
  | outflow
  deriving DecidableEq, Repr

/-- How the net outflow counts a flow. -/
def Direction.sign : Direction → ℤ
  | inflow => -1
  | outflow => 1

/-- `RateLimit`, what the flow records depend on. -/
structure RateLimit where
  rateLimitWindow : ℕ
  deriving DecidableEq, Repr

/-- The stores, and the height of the last block. -/
structure State where
  height : ℕ
  rateLimits : Store EthAddress RateLimit
  netOutflows : Store EthAddress ℤ
  flows : Direction → Records

namespace State

def genesis (height : ℕ) : State := ⟨height, ∅, ∅, fun _ => ∅⟩

def getNetOutflow (s : State) (token : EthAddress) : ℤ := (s.netOutflows.lookup token).getD 0

def setNetOutflow (s : State) (token : EthAddress) (amount : ℤ) : State :=
  { s with netOutflows := put token (some amount) s.netOutflows }

def setFlows (s : State) (dir : Direction) (r : Records) : State :=
  { s with flows := Function.update s.flows dir r }

/-- `TrackTokenInflow` and `TrackTokenOutflow`: nothing is recorded without a limit. -/
def trackTokenFlow (dir : Direction) (s : State) (token : EthAddress) (amount : ℕ) : State :=
  if s.rateLimits.lookup token = none then s
  else s.setFlows dir ((s.flows dir).setByBlock token s.height
    ((s.flows dir).byBlock token s.height + amount))

def trackTokenInflow : State → EthAddress → ℕ → State := trackTokenFlow .inflow

def trackTokenOutflow : State → EthAddress → ℕ → State := trackTokenFlow .outflow

/-- `GetOutdatedInflow` and `GetOutdatedOutflow`. -/
def getOutdated (dir : Direction) (s : State) (token : EthAddress) (endBlock : ℕ) : ℤ :=
  (s.flows dir).amount token ((s.flows dir).collectOldBlockKeys token endBlock)

/-- `PruneOldInflows` and `PruneOldOutflows`. -/
def pruneOld (dir : Direction) (s : State) (token : EthAddress) (endBlock : ℕ) : State :=
  s.setFlows dir ((s.flows dir).delete token ((s.flows dir).collectOldBlockKeys token endBlock))

def maxRecordsToPrune : ℕ := 100

/-- `PruneInflowForNonExistentRateLimitToken` and `PruneOutflowForNonExistingRateLimitToken`:
    what went out is subtracted, what came in is added again. -/
def pruneForNonExistentRateLimitToken (dir : Direction) (s : State) (token : EthAddress) :
    State :=
  let blockNums := ((s.flows dir).blocks token).take maxRecordsToPrune
  (s.setFlows dir ((s.flows dir).delete token blockNums)).setNetOutflow token
    (s.getNetOutflow token - dir.sign * (s.flows dir).amount token blockNums)

/-- One pass of `excludeRateLimitTransfers` over the limits. -/
def excludeOutdated (s : State) (token : EthAddress) (rateLimit : RateLimit) : State :=
  if s.height ≤ rateLimit.rateLimitWindow then s
  else
    let endBlock := s.height - rateLimit.rateLimitWindow + 1
    let netOutflowToRemove := s.getOutdated .outflow token endBlock -
      s.getOutdated .inflow token endBlock
    let newNetOutflow := s.getNetOutflow token - netOutflowToRemove
    pruneOld .outflow (pruneOld .inflow (s.setNetOutflow token newNetOutflow) token endBlock)
      token endBlock

def getNonExistentRateLimitTokenAddresses (s : State) : List EthAddress :=
  s.netOutflows.keys.filter (fun token => s.rateLimits.lookup token = none)

def excludeRateLimitTransfers (s : State) : State :=
  let s := s.rateLimits.entries.foldl (fun s e => s.excludeOutdated e.1 e.2) s
  s.getNonExistentRateLimitTokenAddresses.foldl (fun s token =>
    pruneForNonExistentRateLimitToken .outflow
      (pruneForNonExistentRateLimitToken .inflow s token) token) s

/-- One pass of `includeRateLimitTransfers`. -/
def includeBlock (s : State) (token : EthAddress) : State :=
  s.setNetOutflow token (s.getNetOutflow token +
    ((s.flows .outflow).byBlock token s.height - (s.flows .inflow).byBlock token s.height))

def includeRateLimitTransfers (s : State) : State := s.rateLimits.keys.foldl includeBlock s

/-! ## Blocks -/

/-- Messages, from the authority or an admin or not, and with an oracle price that is valid
    or not. -/
inductive Msg where
  | createRateLimit (isAuthority validPrice : Bool) (token : EthAddress) (window : ℕ)
  | updateRateLimit (isAuthority validPrice : Bool) (token : EthAddress) (newWindow : ℕ)
  | removeRateLimit (isAuthority : Bool) (token : EthAddress)

inductive Error where
  | invalidSigner
  | duplicate
  | unknown
  | invalidPrice
  deriving DecidableEq, Repr

def deliver : Msg → State → Except Error State
  | .createRateLimit isAuthority validPrice token window, s =>
    if !isAuthority then .error .invalidSigner
    else if s.rateLimits.lookup token ≠ none then .error .duplicate
    else if !validPrice then .error .invalidPrice
    else .ok { s with rateLimits := put token (some ⟨window⟩) s.rateLimits }
  | .updateRateLimit isAuthority validPrice token newWindow, s =>
    if !isAuthority then .error .invalidSigner
    else if s.rateLimits.lookup token = none then .error .unknown
    else if !validPrice then .error .invalidPrice
    else .ok { s with rateLimits := put token (some ⟨newWindow⟩) s.rateLimits }
  | .removeRateLimit isAuthority token, s =>
    if !isAuthority then .error .invalidSigner
    else .ok { s with rateLimits := put token none s.rateLimits }

/-- What the tally of attestations observes: deposits and executed batches. -/
inductive Observed where
  | deposit (token : EthAddress) (amount : ℕ)
  | batchExecuted (token : EthAddress) (totalAmountWithdrawn : ℕ)

def observe (s : State) : Observed → State
  | .deposit token amount => s.trackTokenInflow token amount
  | .batchExecuted token amount => s.trackTokenOutflow token amount

structure Block where
  msgs : List Msg
  observed : List Observed

def beginBlocker (s : State) : State :=
  { s with height := s.height + 1 }.excludeRateLimitTransfers

def endBlocker (s : State) (observed : List Observed) : State :=
  (observed.foldl observe s).includeRateLimitTransfers

def runBlock (s : State) (b : Block) : State :=
  (run deliver s.beginBlocker b.msgs).endBlocker b.observed

/-- The state after some blocks of a chain. -/
def after (height : ℕ) (blocks : List Block) : State := blocks.foldl runBlock (genesis height)

/-! ## Drift -/

/-- What the net outflow has more than the records say. -/
def drift (s : State) (token : EthAddress) : ℤ :=
  s.getNetOutflow token -
    ((s.flows .outflow).recorded token - (s.flows .inflow).recorded token)

/-- The net outflow of every token is what its records say. -/
def Exact (s : State) : Prop := ∀ token, s.getNetOutflow token =
  (s.flows .outflow).recorded token - (s.flows .inflow).recorded token

variable {s s' : State} {token : EthAddress}

theorem exact_iff : s.Exact ↔ ∀ token, s.drift token = 0 :=
  forall_congr' (fun _ => sub_eq_zero.symm)

theorem getNetOutflow_setNetOutflow (s : State) (token : EthAddress) (x : ℤ) (t : EthAddress) :
    (s.setNetOutflow token x).getNetOutflow t = if token = t then x else s.getNetOutflow t := by
  rw [getNetOutflow, setNetOutflow, lookup_put]
  by_cases ht : token = t
  · rw [if_pos ht.symm, if_pos ht]
    rfl
  · rw [if_neg (Ne.symm ht), if_neg ht]
    rfl

theorem drift_setNetOutflow (s : State) (token : EthAddress) (x : ℤ) (t : EthAddress) :
    (s.setNetOutflow token x).drift t =
      s.drift t + if token = t then x - s.getNetOutflow token else 0 := by
  rw [drift, drift, getNetOutflow_setNetOutflow]
  show _ - ((s.flows .outflow).recorded t - (s.flows .inflow).recorded t) = _
  by_cases ht : token = t
  · rw [if_pos ht, if_pos ht, ht]
    ring
  · rw [if_neg ht, if_neg ht, add_zero]

theorem flows_setFlows (s : State) (dir : Direction) (r : Records) (dir' : Direction) :
    (s.setFlows dir r).flows dir' = if dir' = dir then r else s.flows dir' :=
  Function.update_apply _ _ _ _

theorem drift_setFlows (s : State) (dir : Direction) (r : Records) (t : EthAddress) :
    (s.setFlows dir r).drift t =
      s.drift t - dir.sign * (r.recorded t - (s.flows dir).recorded t) := by
  cases dir with
  | inflow =>
    show s.getNetOutflow t - ((s.flows .outflow).recorded t - r.recorded t) = _
    rw [drift, Direction.sign]
    ring
  | outflow =>
    show s.getNetOutflow t - (r.recorded t - (s.flows .inflow).recorded t) = _
    rw [drift, Direction.sign]
    ring

variable {ns : List ℕ}

theorem drift_delete (s : State) (dir : Direction) (hnodup : ns.Nodup) (t : EthAddress) :
    (s.setFlows dir ((s.flows dir).delete token ns)).drift t =
      s.drift t + if token = t then dir.sign * (s.flows dir).amount token ns else 0 := by
  rw [drift_setFlows, Records.recorded_delete _ hnodup]
  split <;> ring

theorem drift_pruneOld (dir : Direction) (s : State) (endBlock : ℕ) (t : EthAddress) :
    (pruneOld dir s token endBlock).drift t =
      s.drift t + if token = t then dir.sign * s.getOutdated dir token endBlock else 0 :=
  drift_delete s dir (((s.flows dir).nodup_blocks token).sublist (List.takeWhile_sublist _)) t

/-! ## Passes that delete -/

/-- A pass that only deletes records, and leaves every drift. -/
structure Prunes (s s' : State) : Prop where
  height : s'.height = s.height
  rateLimits : s'.rateLimits = s.rateLimits
  drift : ∀ token, s'.drift token = s.drift token
  flows : ∀ dir k x, (s'.flows dir).lookup k = some x → (s.flows dir).lookup k = some x

theorem Prunes.refl (s : State) : Prunes s s := ⟨rfl, rfl, fun _ => rfl, fun _ _ _ h => h⟩

theorem Prunes.trans {s'' : State} (h : Prunes s s') (h' : Prunes s' s'') : Prunes s s'' :=
  ⟨h'.height.trans h.height, h'.rateLimits.trans h.rateLimits,
    fun t => (h'.drift t).trans (h.drift t), fun dir k x hk => h.flows dir k x (h'.flows dir k x hk)⟩

variable {x : ℤ}

theorem lookup_setFlows_delete {dir dir' : Direction} {k : EthAddress × ℕ}
    (h : ((s.setFlows dir ((s.flows dir).delete token ns)).flows dir').lookup k = some x) :
    (s.flows dir').lookup k = some x := by
  rw [flows_setFlows] at h
  split at h
  · next hdir => exact hdir ▸ (Records.lookup_delete h).2
  · exact h

theorem excludeOutdated_prunes (s : State) (token : EthAddress) (rateLimit : RateLimit) :
    Prunes s (s.excludeOutdated token rateLimit) := by
  rw [excludeOutdated]
  split
  · exact .refl s
  · refine ⟨rfl, rfl, ?_, fun dir k x h => ?_⟩
    · intro t
      rw [drift_pruneOld, drift_pruneOld, drift_setNetOutflow]
      split
      · show _ + _ + -1 * s.getOutdated .inflow token _ + 1 * s.getOutdated .outflow token _ = _
        ring
      · ring
    · have h₁ := lookup_setFlows_delete h
      exact lookup_setFlows_delete (s := s.setNetOutflow token _) h₁

theorem pruneForNonExistentRateLimitToken_prunes (dir : Direction) (s : State)
    (token : EthAddress) : Prunes s (pruneForNonExistentRateLimitToken dir s token) := by
  refine ⟨rfl, rfl, ?_, fun dir' k x h => lookup_setFlows_delete (s := s) h⟩
  intro t
  have hnodup := ((s.flows dir).nodup_blocks token).sublist (List.take_sublist maxRecordsToPrune _)
  rw [pruneForNonExistentRateLimitToken, drift_setNetOutflow, drift_delete s dir hnodup]
  split
  · show _ + (_ - s.getNetOutflow token) = _
    ring
  · ring

/-- A loop of passes. -/
theorem foldl_prunes {ι : Type} {f : State → ι → State} (hf : ∀ s i, Prunes s (f s i))
    (items : List ι) (s : State) : Prunes s (items.foldl f s) := by
  induction items generalizing s with
  | nil => exact .refl s
  | cons i items ih => exact (hf s i).trans (ih _)

variable {n : ℕ}

/-- After its own pass a token has no record before its window. -/
theorem excludeOutdated_recent {rateLimit : RateLimit} (dir : Direction)
    (hwindow : rateLimit.rateLimitWindow < s.height)
    (h : ((s.excludeOutdated token rateLimit).flows dir).lookup (token, n) = some x) :
    s.height - rateLimit.rateLimitWindow + 1 ≤ n := by
  rw [excludeOutdated, if_neg (not_le.mpr hwindow)] at h
  have hdeleted : ((s.flows dir).delete token ((s.flows dir).collectOldBlockKeys token
      (s.height - rateLimit.rateLimitWindow + 1))).lookup (token, n) = some x := by
    cases dir <;> exact h
  obtain ⟨hkept, hx⟩ := Records.lookup_delete hdeleted
  by_contra hold
  exact hkept (List.mem_map_of_mem
    (Records.mem_collectOldBlockKeys (Records.mem_blocks hx) (not_le.mp hold)))

theorem foldl_recent {items : List (Sigma fun _ : EthAddress => RateLimit)}
    {e : Sigma fun _ : EthAddress => RateLimit} (he : e ∈ items) (dir : Direction)
    (hwindow : e.2.rateLimitWindow < s.height)
    (hn : ((items.foldl (fun s e => s.excludeOutdated e.1 e.2) s).flows dir).lookup (e.1, n) =
      some x) : s.height - e.2.rateLimitWindow + 1 ≤ n := by
  induction items generalizing s with
  | nil => cases he
  | cons i items ih =>
    rcases List.mem_cons.mp he with rfl | he
    · -- the passes behind its own only delete
      have hrest := foldl_prunes (fun s e => excludeOutdated_prunes s e.1 e.2) items
        (s.excludeOutdated e.1 e.2)
      exact excludeOutdated_recent dir hwindow (hrest.flows dir _ _ hn)
    · rw [← (excludeOutdated_prunes s i.1 i.2).height] at hwindow ⊢
      exact ih he hwindow hn

/-- No token with a limit has a record that has left its window. -/
def Recent (s : State) : Prop :=
  ∀ token rateLimit, s.rateLimits.lookup token = some rateLimit →
    rateLimit.rateLimitWindow < s.height → ∀ dir n x,
      (s.flows dir).lookup (token, n) = some x → s.height - rateLimit.rateLimitWindow + 1 ≤ n

/-- **THE BEGINNING OF A BLOCK** deletes what has left the windows, and nothing else. -/
theorem beginBlocker_prunes (s : State) :
    Prunes { s with height := s.height + 1 } s.beginBlocker ∧ s.beginBlocker.Recent := by
  have hfirst := foldl_prunes (fun s e => excludeOutdated_prunes s e.1 e.2) s.rateLimits.entries
    { s with height := s.height + 1 }
  have hsecond := foldl_prunes (fun s t =>
    (pruneForNonExistentRateLimitToken_prunes .inflow s t).trans
      (pruneForNonExistentRateLimitToken_prunes .outflow _ t))
    (getNonExistentRateLimitTokenAddresses (s.rateLimits.entries.foldl
      (fun s e => s.excludeOutdated e.1 e.2) { s with height := s.height + 1 }))
    (s.rateLimits.entries.foldl (fun s e => s.excludeOutdated e.1 e.2)
      { s with height := s.height + 1 })
  have hprunes := hfirst.trans hsecond
  refine ⟨hprunes, ?_⟩
  intro token rateLimit hlimit hwindow dir n x hn
  have hentry : (⟨token, rateLimit⟩ : Sigma fun _ : EthAddress => RateLimit) ∈
      s.rateLimits.entries := mem_entries_iff.mpr (hprunes.rateLimits ▸ hlimit)
  rw [show s.beginBlocker.height = s.height + 1 from hprunes.height] at hwindow ⊢
  exact foldl_recent hentry dir hwindow (hsecond.flows dir _ _ hn)

/-! ## The end of a block -/

/-- Within a block: only its own records are not in the net outflow, and there are none for
    tokens without a limit, nor of later blocks. -/
structure Open (s : State) : Prop where
  drift : ∀ token, s.drift token =
    (s.flows .inflow).byBlock token s.height - (s.flows .outflow).byBlock token s.height
  unlimited : ∀ dir token, s.rateLimits.lookup token = none →
    (s.flows dir).byBlock token s.height = 0
  past : ∀ dir token n x, (s.flows dir).lookup (token, n) = some x → n ≤ s.height

theorem Open.trackTokenFlow (h : s.Open) (dir : Direction) (token : EthAddress) (amount : ℕ) :
    (trackTokenFlow dir s token amount).Open := by
  rw [State.trackTokenFlow]
  split
  · exact h
  next hlimit =>
  have hflows : ∀ dir' t, ((s.setFlows dir ((s.flows dir).setByBlock token s.height
      ((s.flows dir).byBlock token s.height + amount))).flows dir').byBlock t s.height =
      (s.flows dir').byBlock t s.height + if dir' = dir ∧ token = t then (amount : ℤ) else 0 := by
    intro dir' t
    rw [flows_setFlows]
    by_cases hdir : dir' = dir
    · by_cases ht : token = t
      · rw [if_pos hdir, Records.byBlock_setByBlock, if_pos ht, if_pos ⟨hdir, ht⟩, ht, hdir]
      · rw [if_pos hdir, Records.byBlock_setByBlock, if_neg ht, if_neg (fun hh => ht hh.2),
          add_zero, hdir]
    · rw [if_neg hdir, if_neg (fun hh => hdir hh.1), add_zero]
  refine ⟨?_, ?_, ?_⟩
  · intro t
    refine Eq.trans ?_ (congrArg₂ (· - ·) (hflows .inflow t) (hflows .outflow t)).symm
    rw [drift_setFlows, h.drift t, Records.recorded_setByBlock]
    by_cases ht : token = t
    · cases dir <;> simp [Direction.sign, ht] <;> ring
    · simp [ht]
  · intro dir' t ht
    have hne : token ≠ t := fun heq => hlimit (heq ▸ ht)
    exact (hflows dir' t).trans (by rw [h.unlimited dir' t ht, if_neg (fun hh => hne hh.2)]; rfl)
  · intro dir' t n x hx
    rw [flows_setFlows] at hx
    split at hx
    · rw [Records.setByBlock, lookup_put] at hx
      split at hx
      · next heq => exact (congrArg Prod.snd heq).le
      · exact h.past dir t n x hx
    · exact h.past dir' t n x hx

theorem Open.observe (h : s.Open) (o : Observed) : (s.observe o).Open := by
  cases o with
  | deposit token amount => exact h.trackTokenFlow .inflow token amount
  | batchExecuted token amount => exact h.trackTokenFlow .outflow token amount

/-- The loop over the limits adds the block once for every token that has one. -/
theorem drift_foldl_includeBlock {tokens : List EthAddress} (hnodup : tokens.Nodup) (s : State)
    (t : EthAddress) : (tokens.foldl includeBlock s).height = s.height ∧
      (tokens.foldl includeBlock s).flows = s.flows ∧
      (tokens.foldl includeBlock s).drift t = s.drift t + if t ∈ tokens then
        (s.flows .outflow).byBlock t s.height - (s.flows .inflow).byBlock t s.height else 0 := by
  induction tokens generalizing s with
  | nil => exact ⟨rfl, rfl, (add_zero _).symm⟩
  | cons token tokens ih =>
    rw [List.nodup_cons] at hnodup
    obtain ⟨hheight, hflows, hdrift⟩ := ih hnodup.2 (s.includeBlock token)
    refine ⟨hheight, hflows, ?_⟩
    rw [List.foldl_cons, hdrift, includeBlock, drift_setNetOutflow]
    show _ + _ + (if t ∈ tokens then (s.flows .outflow).byBlock t s.height -
      (s.flows .inflow).byBlock t s.height else 0) = _
    by_cases ht : token = t
    · subst ht
      rw [if_pos rfl, if_neg hnodup.1, if_pos List.mem_cons_self]
      ring
    · rw [if_neg ht, add_zero]
      exact congrArg _ (if_congr (by rw [List.mem_cons, or_iff_right (Ne.symm ht)]) rfl rfl)

/-- **THE END OF A BLOCK** leaves no drift. -/
theorem Open.includeRateLimitTransfers (h : s.Open) : s.includeRateLimitTransfers.Exact ∧
    ∀ dir token n x, (s.includeRateLimitTransfers.flows dir).lookup (token, n) = some x →
      n ≤ s.includeRateLimitTransfers.height := by
  have hloop := drift_foldl_includeBlock s.rateLimits.keys_nodup s
  constructor
  · refine exact_iff.mpr ?_
    intro t
    rw [State.includeRateLimitTransfers, (hloop t).2.2, h.drift t]
    by_cases ht : t ∈ s.rateLimits.keys
    · rw [if_pos ht]
      ring
    · have hnone : s.rateLimits.lookup t = none :=
        Option.eq_none_iff_forall_ne_some.mpr (fun x hx => ht (mem_keys_iff.mpr ⟨x, hx⟩))
      rw [if_neg ht, h.unlimited .inflow t hnone, h.unlimited .outflow t hnone, sub_zero, add_zero]
  · intro dir token n x hx
    rw [State.includeRateLimitTransfers, (hloop token).2.1] at hx
    rw [State.includeRateLimitTransfers, (hloop token).1]
    exact h.past dir token n x hx

/-- What holds between blocks. -/
structure Closed (s : State) : Prop where
  exact : s.Exact
  past : ∀ dir token n x, (s.flows dir).lookup (token, n) = some x → n ≤ s.height

/-- What holds in a block up to its end: nothing is recorded yet. -/
structure Begun (s : State) : Prop where
  exact : s.Exact
  empty : ∀ dir token n x, (s.flows dir).lookup (token, n) = some x → n < s.height

theorem Begun.byBlock_eq_zero (h : s.Begun) (dir : Direction) (token : EthAddress) :
    (s.flows dir).byBlock token s.height = 0 := by
  have hnone : (s.flows dir).lookup (token, s.height) = none :=
    Option.eq_none_iff_forall_ne_some.mpr (fun x hx => lt_irrefl _ (h.empty dir token _ x hx))
  rw [Records.byBlock, hnone, Option.getD_none]

theorem Closed.beginBlocker (h : s.Closed) : s.beginBlocker.Begun := by
  have hprunes := (beginBlocker_prunes s).1
  refine ⟨exact_iff.mpr ?_, ?_⟩
  · intro t
    rw [hprunes.drift]
    exact exact_iff.mp h.exact t
  · intro dir token n x hx
    rw [hprunes.height]
    exact Nat.lt_succ_of_le (h.past dir token n x (hprunes.flows dir _ x hx))

theorem deliver_ok {msg : Msg} (h : deliver msg s = .ok s') :
    ∃ rateLimits, s' = { s with rateLimits := rateLimits } := by
  cases msg <;> simp only [deliver] at h <;> split_ifs at h <;>
    exact ⟨_, (Except.ok.inj h).symm⟩

/-- Messages change the limits only. -/
theorem Begun.messages (h : s.Begun) (msgs : List Msg) : (run deliver s msgs).Begun := by
  refine run_invariant ?_ msgs h
  intro msg s s' hs hok
  obtain ⟨rateLimits, rfl⟩ := deliver_ok hok
  exact ⟨hs.exact, hs.empty⟩

theorem Begun.endBlocker (h : s.Begun) (observed : List Observed) :
    (s.endBlocker observed).Closed := by
  have hopen : s.Open :=
    { drift := fun t => by
        rw [h.byBlock_eq_zero, h.byBlock_eq_zero, sub_zero, exact_iff.mp h.exact t]
      unlimited := fun dir token _ => h.byBlock_eq_zero dir token
      past := fun dir token n x hx => (h.empty dir token n x hx).le }
  obtain ⟨hexact, hpast⟩ := (List.foldlRecOn observed State.observe (motive := State.Open) hopen
    (fun _ hs o _ => hs.observe o)).includeRateLimitTransfers
  exact ⟨hexact, hpast⟩

theorem after_closed (height : ℕ) (blocks : List Block) : (after height blocks).Closed :=
  List.foldlRecOn blocks State.runBlock (motive := State.Closed)
    ⟨fun _ => rfl, fun _ _ _ _ h => by cases h⟩
    (fun _ hs b _ => (hs.beginBlocker.messages b.msgs).endBlocker b.observed)

/-- **THE NET OUTFLOW IS EXACT** at the end of every block, and after any messages at the
    beginning of the next one, which leaves no record before the window of a limit. -/
theorem net_outflow_exact (height : ℕ) (blocks : List Block) (msgs : List Msg) :
    (after height blocks).Exact ∧ (after height blocks).beginBlocker.Recent ∧
      (run deliver (after height blocks).beginBlocker msgs).Exact := by
  have h := after_closed height blocks
  exact ⟨h.exact, (beginBlocker_prunes _).2, (h.beginBlocker.messages msgs).exact⟩

end State

end PeggyRateLimit
