import InjectiveCore.PeggyAttestationProofs
import InjectiveCore.PriorityCancelProofs

/-!
# The orchestrator's oracle

The oracle of an orchestrator reads the events of the bridge contract from Ethereum and
claims them on Injective, in runs that start at the last recorded block. A run looks at a
window of blocks that have enough confirmations. It asks for the four kinds of events, drops
those that are claimed, sorts the rest, and sends up to twenty claims. Queries and
submissions fail at any point and are tried again; a window that cannot be read shrinks to
one block.

A claim that was broadcast without an error has only passed `CheckTx`: it may be lost, or be
included later. What protects the order of claims is that every message is simulated before
it is sent, and Injective refuses a claim that does not follow the last accepted one.

Whatever fails or is lost, the recorded block never passes an event that is not claimed, claims
are sent one by one in the order of nonces, and none before its confirmations
(`oracle_skips_no_event`).
-/

namespace PeggoOracle

open PeggyOracle (LastClaimEvent)

/-! ## Ethereum -/

inductive EventKind where
  | deposit
  | withdrawal
  | valsetUpdate
  | erc20Deployment
  deriving DecidableEq, Repr

/-- The events of the contract, without reorganisations: those with the nonces from 1 to
    `count`. None is older than the contract. -/
structure History where
  count : ℕ
  kind : ℕ → EventKind
  height : ℕ → ℕ
  height_mono : Monotone height
  bridgeContractStartHeight : ℕ
  start_le : bridgeContractStartHeight ≤ height 1

/-- The nonces of the events of one kind in a range of blocks. -/
def History.getEvents (H : History) (startBlock endBlock : ℕ) (kind : EventKind) : List ℕ :=
  (List.range' 1 H.count).filter (fun nonce =>
    H.kind nonce = kind ∧ startBlock ≤ H.height nonce ∧ H.height nonce ≤ endBlock)

/-- The events of all kinds in a range of blocks, in the order of the queries. -/
def History.scanEthEvents (H : History) (startBlock endBlock : ℕ) : List ℕ :=
  [.deposit, .withdrawal, .valsetUpdate, .erc20Deployment].flatMap
    (H.getEvents startBlock endBlock)

/-! ## The oracle -/

def ethBlockConfirmationDelay : ℕ := 12

def defaultBlocksToSearch : ℕ := 100

def maxAmountOfEventsToRelayAtOnce : ℕ := 20

/-- A claim that was sent: its nonce, that of the last claim accepted before, and the latest
    height that was read in the run. -/
structure SentClaim where
  nonce : ℕ
  lastNonce : ℕ
  latestHeight : ℕ
  deriving DecidableEq, Repr

/-- The oracle, the validator's last claim on Injective, and the claims sent so far. -/
structure State where
  lastRecordedEthEventHeight : ℕ
  queryRange : ℕ
  lastClaim : LastClaimEvent
  sent : List SentClaim
  deriving DecidableEq, Repr

/-- The nonce of the last claim that was accepted. -/
def State.claimed (s : State) : ℕ := s.lastClaim.ethereumEventNonce

/-- How one attempt to read the events ends. -/
inductive Scan where
  | depositsFail
  | othersFail
  | succeeds
  deriving DecidableEq, Repr

/-- How a submission ends. One that returns an error may have been accepted, and one that
    returns none may be lost after `CheckTx`. -/
inductive Submission where
  | accepted
  | failed
  | acceptedWithError
  | lost
  deriving DecidableEq, Repr

/-- One attempt to send the claims: whether the last claim can be read, how the submission of
    each nonce ends, and before which of them a claim is included that seemed lost. -/
structure Attempt where
  lastClaim : Bool
  submission : ℕ → Submission
  included : ℕ → Bool

/-- What other nodes answer during a run; `none` is a failure after all attempts. -/
structure Env where
  included : Bool
  bonded : Option Bool
  latestHeight : Option ℕ
  scans : List Scan
  lastClaim : Bool
  attempts : List Attempt

def filterEvents (events : List ℕ) (nonce : ℕ) : List ℕ := events.filter (nonce < ·)

def State.resetQueryRange (s : State) : State :=
  let range := if s.queryRange < defaultBlocksToSearch then s.queryRange * 2 else s.queryRange
  { s with queryRange := min range defaultBlocksToSearch }

variable (H : History)

/-- `getEthEvents`: the events and the end of the range that was read in the end. A failure
    of the first query shrinks the range. -/
def getEthEvents (startBlock : ℕ) :
    List Scan → ℕ → State → Option (List ℕ × ℕ) × State
  | [], _, s => (none, s)
  | .succeeds :: _, endBlock, s =>
    (some (H.scanEthEvents startBlock endBlock, endBlock), s)
  | .othersFail :: scans, endBlock, s => getEthEvents startBlock scans endBlock s
  | .depositsFail :: scans, _, s =>
    getEthEvents startBlock scans (startBlock + 1) { s with queryRange := 1 }

/-- A claim that was sent earlier is accepted, if it is the next one. -/
def State.includeNext (included : Bool) (s : State) : State :=
  if included ∧ ∃ c ∈ s.sent, c.nonce = s.claimed + 1 then
    { s with lastClaim := ⟨s.claimed + 1, H.height (s.claimed + 1)⟩ }
  else s

/-- `sendEthEventClaim`, and whether it returned no error. The simulation in `buildSignedTx`
    refuses all claims but the next one, and nothing is sent then. -/
def sendEthEventClaim (latestHeight : ℕ) (submission : Submission) (nonce : ℕ) (s : State) :
    Bool × State :=
  if nonce ≠ s.claimed + 1 then (false, s)
  else
    let s' := { s with sent := s.sent ++ [⟨nonce, s.claimed, latestHeight⟩] }
    match submission with
    | .accepted => (true, { s' with lastClaim := ⟨nonce, H.height nonce⟩ })
    | .acceptedWithError => (false, { s' with lastClaim := ⟨nonce, H.height nonce⟩ })
    | .lost => (true, s')
    | .failed => (false, s')

/-- The loop over the claims, up to the first error. -/
def sendClaims (latestHeight : ℕ) (a : Attempt) : List ℕ → State → Bool × State
  | [], s => (true, s)
  | nonce :: events, s =>
    let r := sendEthEventClaim H latestHeight (a.submission nonce) nonce
      (s.includeNext H (a.included nonce))
    if r.1 then sendClaims latestHeight a events r.2 else r

/-- `sendNewEventClaims`: every attempt leaves out what has been accepted by then. -/
def sendNewEventClaims (latestHeight : ℕ) (events : List ℕ) :
    List Attempt → State → Bool × State
  | [], s => (false, s)
  | a :: attempts, s =>
    if a.lastClaim then
      let r := sendClaims H latestHeight a (filterEvents events s.claimed) s
      if r.1 then r else sendNewEventClaims latestHeight events attempts r.2
    else sendNewEventClaims latestHeight events attempts s

/-- The part of a run that follows the queries. -/
def claimEvents (attempts : List Attempt) (latestHeight endBlock : ℕ) (events : List ℕ)
    (s : State) : State :=
  let newEvents := (filterEvents events s.claimed).insertionSort (· ≤ ·)
  match newEvents.take maxAmountOfEventsToRelayAtOnce with
  | [] => { s with lastRecordedEthEventHeight := endBlock }.resetQueryRange
  | first :: rest =>
    if first ≠ s.claimed + 1 then
      { s with lastRecordedEthEventHeight := s.lastClaim.ethereumEventHeight }
    else
      let r := sendNewEventClaims H latestHeight (first :: rest) attempts s
      if r.1 then
        { r.2 with
          lastRecordedEthEventHeight := H.height (rest.getLastD first) }.resetQueryRange
      else r.2

/-- `observeEthEvents`. -/
def observeEthEvents (s₀ : State) (env : Env) : State :=
  let s := s₀.includeNext H env.included
  match env.bonded, env.latestHeight with
  | some true, some latestHeight =>
    if latestHeight ≤ ethBlockConfirmationDelay then s
    else if latestHeight - ethBlockConfirmationDelay ≤ s.lastRecordedEthEventHeight then s
    else
      match getEthEvents H s.lastRecordedEthEventHeight env.scans
          (min (latestHeight - ethBlockConfirmationDelay)
            (s.lastRecordedEthEventHeight + s.queryRange)) s with
      | (none, s') => s'
      | (some (events, endBlock), s') =>
        if env.lastClaim then claimEvents H env.attempts latestHeight endBlock events s'
        else s'
  | _, _ => s

/-- `startValidatorMode` for a validator whose last claim was for event `n`, or who has not
    claimed any. The height is 0 if the last claim cannot be read. -/
def startValidatorMode (n : ℕ) (claimRead : Bool) : State :=
  let claim : LastClaimEvent := ⟨n, if n = 0 then 0 else H.height n⟩
  let lastObservedEthBlock := if claimRead then claim.ethereumEventHeight else 0
  { lastRecordedEthEventHeight :=
      if lastObservedEthBlock = 0 then H.bridgeContractStartHeight else lastObservedEthBlock
    queryRange := defaultBlocksToSearch
    lastClaim := claim
    sent := [] }

/-! ## New events -/

variable {H} {startBlock endBlock latestHeight n : ℕ} {s : State}

/-- **NEW EVENTS** are those after the last claim up to the end of the range, when it starts
    before all of them. -/
theorem newEvents_eq (hstart : n + 1 ≤ H.count → startBlock ≤ H.height (n + 1)) :
    (filterEvents (H.scanEthEvents startBlock endBlock) n).insertionSort (· ≤ ·) =
      (List.range' (n + 1) (H.count - n)).takeWhile (H.height · ≤ endBlock) := by
  have hperm := List.perm_insertionSort (· ≤ ·)
    (filterEvents (H.scanEthEvents startBlock endBlock) n)
  have hnodup : (filterEvents (H.scanEthEvents startBlock endBlock) n).Nodup := by
    refine List.Nodup.filter _ (List.nodup_flatMap.mpr ⟨?_, ?_⟩)
    · exact fun kind _ => List.Nodup.filter _ List.nodup_range'
    · have hkinds : [EventKind.deposit, .withdrawal, .valsetUpdate, .erc20Deployment].Pairwise
          (· ≠ ·) := by decide
      refine hkinds.imp ?_
      intro kind kind' hne i hi hi'
      simp only [History.getEvents, List.mem_filter, decide_eq_true_eq] at hi hi'
      exact hne (hi.2.1.symm.trans hi'.2.1)
  rw [PriorityCancel.takeWhile_eq_filter (List.Pairwise.imp ?_ List.pairwise_lt_range')]
  · refine List.Pairwise.eq_of_mem_iff
      (((List.pairwise_insertionSort (· ≤ ·) _).and (hperm.nodup_iff.mpr hnodup)).imp
        (fun h => lt_of_le_of_ne h.1 h.2)) (List.Pairwise.filter _ List.pairwise_lt_range') ?_
    intro i
    rw [hperm.mem_iff, filterEvents, List.mem_filter, History.scanEthEvents, List.mem_flatMap]
    simp only [History.getEvents, List.mem_filter, List.mem_range'_1, decide_eq_true_eq]
    constructor
    · rintro ⟨⟨kind, -, hi, -, -, hend⟩, hn⟩
      exact ⟨by omega, hend⟩
    · -- events after the last claim are not before the range
      rintro ⟨hi, hend⟩
      refine ⟨⟨H.kind i, ?_, by omega, rfl, ?_, hend⟩, hi.1⟩
      · cases H.kind i <;> decide
      · exact (hstart (by omega)).trans (H.height_mono hi.1)
  · intro i j hlt hend
    rw [decide_eq_true_eq] at hend ⊢
    exact (H.height_mono hlt.le).trans hend

/-! ## A run -/

/-- What holds between the runs: the recorded block is not after the first event that is not
    claimed, and every claim was sent in order and after its confirmations. -/
structure Sound (H : History) (s : State) : Prop where
  recorded : s.claimed + 1 ≤ H.count → s.lastRecordedEthEventHeight ≤ H.height (s.claimed + 1)
  ordered : ∀ c ∈ s.sent, c.nonce = c.lastNonce + 1
  confirmed : ∀ c ∈ s.sent, H.height c.nonce + ethBlockConfirmationDelay ≤ c.latestHeight

/-- Reading the events changes at most the length of the range. -/
theorem getEthEvents_spec (scans : List Scan) (s : State) {bound : ℕ}
    (hstart : startBlock + 1 ≤ bound) (hend : endBlock ≤ bound) :
    ∃ range, ∃ found : Option ℕ, (∀ last ∈ found, last ≤ bound) ∧
      getEthEvents H startBlock scans endBlock s =
        (found.map (fun last => (H.scanEthEvents startBlock last, last)),
          { s with queryRange := range }) := by
  induction scans generalizing s endBlock with
  | nil => exact ⟨s.queryRange, none, fun _ h => (Option.not_mem_none _ h).elim, rfl⟩
  | cons scan scans ih =>
    cases scan with
    | depositsFail => exact ih { s with queryRange := 1 } hstart
    | othersFail => exact ih s hend
    | succeeds =>
      exact ⟨s.queryRange, some endBlock, fun _ h => (Option.mem_some.mp h) ▸ hend, rfl⟩

/-- What sending some claims leaves: none of them is beyond the next one to claim, if there
    was no error. The last of them can be that one, when it was lost. -/
structure Sent (H : History) (events : List ℕ) (s : State) (r : Bool × State) : Prop where
  sound : Sound H r.2
  onwards : s.claimed ≤ r.2.claimed
  all : r.1 = true → ∀ nonce ∈ events, nonce ≤ r.2.claimed + 1

/-- Accepting the next claim keeps the oracle sound: later events are not in earlier blocks. -/
theorem Sound.accept (h : Sound H s) :
    Sound H { s with lastClaim := ⟨s.claimed + 1, H.height (s.claimed + 1)⟩ } := by
  refine ⟨fun hcount => ?_, h.ordered, h.confirmed⟩
  exact (h.recorded (Nat.le_of_succ_le hcount)).trans (H.height_mono (Nat.le_succ _))

theorem Sound.includeNext (h : Sound H s) (included : Bool) :
    Sound H (s.includeNext H included) ∧ s.claimed ≤ (s.includeNext H included).claimed := by
  rw [State.includeNext]
  split
  · exact ⟨h.accept, Nat.le_succ _⟩
  · exact ⟨h, le_rfl⟩

theorem sendEthEventClaim_sent (h : Sound H s) (submission : Submission)
    (hconfirmed : H.height n + ethBlockConfirmationDelay ≤ latestHeight) :
    Sent H [n] s (sendEthEventClaim H latestHeight submission n s) := by
  rw [sendEthEventClaim]
  split
  · exact ⟨h, le_rfl, fun hok => by cases hok⟩
  next hnext =>
  rw [not_not] at hnext
  subst hnext
  have hsent : Sound H { s with sent := s.sent ++ [⟨s.claimed + 1, s.claimed, latestHeight⟩] } :=
    ⟨h.recorded, List.forall_mem_append.mpr ⟨h.ordered, List.forall_mem_singleton.mpr rfl⟩,
      List.forall_mem_append.mpr ⟨h.confirmed, List.forall_mem_singleton.mpr hconfirmed⟩⟩
  cases submission with
  | accepted =>
    exact ⟨hsent.accept, Nat.le_succ _, fun _ => List.forall_mem_singleton.mpr (Nat.le_succ _)⟩
  | acceptedWithError => exact ⟨hsent.accept, Nat.le_succ _, fun hok => by cases hok⟩
  | lost => exact ⟨hsent, le_rfl, fun _ => List.forall_mem_singleton.mpr le_rfl⟩
  | failed => exact ⟨hsent, le_rfl, fun hok => by cases hok⟩

theorem sendClaims_sent (a : Attempt) {events : List ℕ} (h : Sound H s)
    (hconfirmed : ∀ i ∈ events, H.height i + ethBlockConfirmationDelay ≤ latestHeight) :
    Sent H events s (sendClaims H latestHeight a events s) := by
  induction events generalizing s with
  | nil => exact ⟨h, le_rfl, fun _ => List.forall_mem_nil _⟩
  | cons nonce events ih =>
    obtain ⟨hfirst, hrest⟩ := List.forall_mem_cons.mp hconfirmed
    obtain ⟨hincluded, hle⟩ := h.includeNext (a.included nonce)
    have hone := sendEthEventClaim_sent hincluded (a.submission nonce) hfirst
    rw [sendClaims]
    split
    · rename_i hok
      -- a lost claim makes the simulation of the next one fail, unless it is included by then
      have htail := ih hone.sound hrest
      refine ⟨htail.sound, (hle.trans hone.onwards).trans htail.onwards, fun hall => ?_⟩
      refine List.forall_mem_cons.mpr ⟨?_, htail.all hall⟩
      exact (hone.all hok nonce List.mem_cons_self).trans (Nat.succ_le_succ htail.onwards)
    · rename_i hok
      exact ⟨hone.sound, hle.trans hone.onwards, fun hall => absurd hall hok⟩

/-- **SENDING** with any number of attempts. -/
theorem sendNewEventClaims_sent (attempts : List Attempt) {events : List ℕ} (h : Sound H s)
    (hconfirmed : ∀ i ∈ events, H.height i + ethBlockConfirmationDelay ≤ latestHeight) :
    Sent H events s (sendNewEventClaims H latestHeight events attempts s) := by
  induction attempts generalizing s with
  | nil => exact ⟨h, le_rfl, fun hok => by cases hok⟩
  | cons a attempts ih =>
    rw [sendNewEventClaims]
    split
    · have hsent := sendClaims_sent a h
        (fun i hi => hconfirmed i (List.mem_of_mem_filter (p := (s.claimed < ·)) hi))
      dsimp only
      split
      · refine ⟨hsent.sound, hsent.onwards, fun hok nonce hnonce => ?_⟩
        by_cases hnew : s.claimed < nonce
        · exact hsent.all hok nonce (List.mem_filter.mpr ⟨hnonce, decide_eq_true hnew⟩)
        · exact ((not_lt.mp hnew).trans hsent.onwards).trans (Nat.le_succ _)
      · have hrest := ih hsent.sound
        exact ⟨hrest.sound, hsent.onwards.trans hrest.onwards, hrest.all⟩
    · exact ih h

/-- Recording a block that is not after the first unclaimed event. -/
theorem Sound.record (h : Sound H s) {height : ℕ}
    (hheight : s.claimed + 1 ≤ H.count → height ≤ H.height (s.claimed + 1)) :
    Sound H { s with lastRecordedEthEventHeight := height }.resetQueryRange :=
  ⟨hheight, h.ordered, h.confirmed⟩

/-- The gap after the last claim, for which a run goes back, does not occur. -/
theorem claimEvents_sound (h : Sound H s) (attempts : List Attempt)
    (hstart : s.claimed + 1 ≤ H.count → startBlock ≤ H.height (s.claimed + 1))
    (hend : endBlock + ethBlockConfirmationDelay ≤ latestHeight) :
    Sound H (claimEvents H attempts latestHeight endBlock
      (H.scanEthEvents startBlock endBlock) s) := by
  rw [claimEvents, newEvents_eq hstart]
  set events := (List.range' (s.claimed + 1) (H.count - s.claimed)).takeWhile
    (H.height · ≤ endBlock) with hevents
  have hconfirmed : ∀ i ∈ events.take maxAmountOfEventsToRelayAtOnce,
      H.height i + ethBlockConfirmationDelay ≤ latestHeight := by
    intro i hi
    have hle := List.mem_takeWhile_imp (List.mem_of_mem_take hi)
    exact (Nat.add_le_add_right (of_decide_eq_true hle) _).trans hend
  have hnone : events = [] → s.claimed + 1 ≤ H.count → endBlock < H.height (s.claimed + 1) := by
    intro hnil hcount
    by_contra hle
    rw [hevents, ← Nat.succ_pred_eq_of_pos (Nat.sub_pos_of_lt hcount), List.range'_succ,
      List.takeWhile_cons, if_pos (decide_eq_true (not_lt.mp hle))] at hnil
    cases hnil
  split
  · rename_i hnil
    have hempty : events = [] := (List.take_eq_nil_iff.mp hnil).resolve_left (by decide)
    exact h.record (fun hcount => (hnone hempty hcount).le)
  · rename_i first rest hcons
    have hfirst : first = s.claimed + 1 := by
      have hprefix : first :: rest <+: List.range' (s.claimed + 1) (H.count - s.claimed) :=
        hcons ▸ ( List.take_prefix _ events).trans ( List.takeWhile_prefix _)
      cases hcount : H.count - s.claimed with
      | zero => rw [hcount] at hprefix; cases List.prefix_nil.mp hprefix
      | succ k =>
        rw [hcount, List.range'_succ] at hprefix
        exact (List.cons_prefix_cons.mp hprefix).1
    rw [if_neg (not_not.mpr hfirst)]
    have hsent := sendNewEventClaims_sent attempts h (hcons ▸ hconfirmed)
    dsimp only
    split
    · rename_i hok
      refine hsent.sound.record fun _ => H.height_mono ?_
      exact hsent.all hok _ List.getLastD_mem_cons
    · exact hsent.sound

/-- **A RUN** keeps the oracle sound. -/
theorem observeEthEvents_sound (h : Sound H s) (env : Env) :
    Sound H (observeEthEvents H s env) := by
  replace h := (h.includeNext env.included).1
  rw [observeEthEvents]
  generalize s.includeNext H env.included = s at h ⊢
  split
  · rename_i latestHeight _ _
    split
    · exact h
    split
    · exact h
    -- a range that was cut to one block has its confirmations as well
    obtain ⟨range, found, hbound, heq⟩ := getEthEvents_spec env.scans s
      (show s.lastRecordedEthEventHeight + 1 ≤ latestHeight - ethBlockConfirmationDelay by omega)
      (min_le_left _ (s.lastRecordedEthEventHeight + s.queryRange))
    rw [heq]
    have hrange : Sound H { s with queryRange := range } := ⟨h.recorded, h.ordered, h.confirmed⟩
    cases found with
    | none => exact hrange
    | some last =>
      dsimp only [Option.map_some]
      split
      · have hlast := hbound last rfl
        exact claimEvents_sound hrange env.attempts h.recorded (by omega)
      · exact hrange
  · exact h

theorem startValidatorMode_sound (n : ℕ) (claimRead : Bool) :
    Sound H (startValidatorMode H n claimRead) := by
  have hobserved : (if claimRead then if n = 0 then 0 else H.height n else 0) ≤
      H.height (n + 1) := by
    split_ifs
    · exact Nat.zero_le _
    · exact H.height_mono (Nat.le_succ n)
    · exact Nat.zero_le _
  refine ⟨fun _ => ?_, List.forall_mem_nil _, List.forall_mem_nil _⟩
  rw [startValidatorMode]
  dsimp only [State.claimed]
  generalize (if claimRead = true then _ else 0) = observed at hobserved ⊢
  split
  · exact H.start_le.trans (H.height_mono (Nat.succ_le_succ (Nat.zero_le n)))
  · exact hobserved

/-- **THE ORACLE SKIPS NO EVENT AND CLAIMS NONE EARLY**: after any runs, whatever fails in
    them. -/
theorem oracle_skips_no_event (H : History) (n : ℕ) (claimRead : Bool) (envs : List Env) :
    Sound H (envs.foldl (observeEthEvents H) (startValidatorMode H n claimRead)) :=
  List.foldlRecOn envs _ (startValidatorMode_sound n claimRead)
    (fun _ h env _ => observeEthEvents_sound h env)

end PeggoOracle
