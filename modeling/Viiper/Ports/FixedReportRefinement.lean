import Viiper.Ports.FixedReportSpec
import Viiper.Ports.FixedReportHistory

/-!
# The scheduler refines its history

`abs` forgets everything about a scheduler except the account of ordinals, and
`observe` reads one call as an observation of that account.  Between faults and
retirements every call is one `Move` of the account, so the laws of
`FixedReportHistory` are laws of the scheduler.
-/

namespace Viiper.Ports.FixedReportScheduler

open Verified Go Run List FixedReportHistory RingBuffer

variable {E T : Type*} {c : Config E T} {s s' : Scheduler E T} {a : ActiveClaim T}

/-! ## The account of a scheduler -/

/-- The claim in flight as the account sees it. -/
def ActiveClaim.account {T : Type*} (a : ActiveClaim T) : InFlight :=
  ⟨a.claimSource, a.claimed.ordinal, a.claimed.ordered,
    a.claimRequiresOrderedRecovery, a.claimedData⟩

/-- The retry slot as the account sees it. -/
def Retry.account {T : Type*} (r : Retry T) : Deferred :=
  ⟨r.entry.ordinal, r.entry.ordered, r.data⟩

/-- The account of a scheduler. -/
def abs (s : Scheduler E T) : History where
  claim := s.claim.map ActiveClaim.account
  retry := s.retry.map Retry.account
  journal := s.journaled.map (·.ordinal)
  latest := s.latest.map (·.ordinal)
  presented := s.last.ordinal
  presentedData := s.lastData
  next := s.nextOrdinal

def PublishDisposition.boundary : PublishDisposition → Option Bool
  | .acceptedContinuous => some false
  | .acceptedOrdered => some true
  | .acceptedResynchronization => some false
  | _ => none

theorem boundary_eq_none {d : PublishDisposition} (hd : d.accepted = false) :
    d.boundary = none ∧ d ≠ .acceptedOrdered := by
  cases d <;> first | exact ⟨rfl, nofun⟩ | exact absurd hd (by decide)

/-- What holds of a scheduler which was never disturbed. -/
structure Undisturbed (c : Config E T) (s : Scheduler E T) : Prop where
  size_pos : 0 < c.reportSize
  generation_ne : s.generation ≠ 0
  neutral : s.mandatoryNeutral = none
  synchronized : s.resynchronizationNeeded = false
  journal_wf : s.journal.WF fixedReportTransitionCapacity
  journal_ordered : ∀ e ∈ s.journaled, e.ordered
  latest_plain : ∀ e, s.latest = some e → e.ordered = false
  claim_source : ∀ a, s.claim = some a → a.claimSource ≠ .mandatoryNeutral
  retry_free : ∀ a, s.claim = some a → s.retry = none

/-! ## Publication -/

theorem journaled_pushJournal (e : Entry T)
    (hroom : s.journal.count < fixedReportTransitionCapacity) :
    (pushJournal s e).journaled = s.journaled ++ [e] :=
  window_push _ _ hroom

attribute [local simp] abs

theorem Bookkept.abs_eq (h : Bookkept s s') : abs s' = abs s := by
  obtain ⟨a, i, r, o, rfl⟩ := h
  rfl

theorem Undisturbed.bookkept (hu : Undisturbed c s) (h : Bookkept s s') : Undisturbed c s' := by
  obtain ⟨a, i, r, o, rfl⟩ := h
  exact { hu with }

theorem abs_pushJournal (e : Entry T) (hroom : s.journal.count < fixedReportTransitionCapacity) :
    abs (pushJournal s e) = { abs s with journal := (abs s).journal ++ [e.ordinal] } := by
  have hjournal := journaled_pushJournal e hroom
  unfold abs
  rw [hjournal, map_append]
  rfl

theorem Undisturbed.pushJournal (hu : Undisturbed c s) {e : Entry T} (he : e.ordered)
    (hroom : s.journal.count < fixedReportTransitionCapacity) :
    Undisturbed c (pushJournal s e) := by
  refine { hu with journal_wf := hu.journal_wf.push hroom e, journal_ordered := ?_ }
  intro x hx
  rw [journaled_pushJournal e hroom, mem_append, mem_singleton] at hx
  rcases hx with hx | rfl
  · exact hu.journal_ordered x hx
  · exact he

theorem ActiveClaim.account_require {T : Type*} (a : ActiveClaim T) :
    a.require.account = a.account.require := by
  unfold ActiveClaim.require InFlight.require
  exact apply_ite ActiveClaim.account ..

theorem ActiveClaim.require_source {T : Type*} (a : ActiveClaim T) :
    a.require.claimSource = a.claimSource := by
  unfold ActiveClaim.require
  split <;> rfl

theorem ActiveClaim.require_token {T : Type*} (a : ActiveClaim T) :
    a.require.claimToken = a.claimToken := by
  unfold ActiveClaim.require
  split <;> rfl

/-- The dependency mark leaves every claim where it was. -/
theorem requireOrderedRecovery_claim (ha : (requireOrderedRecovery s).claim = some a) :
    ∃ b, s.claim = some b ∧ a.claimSource = b.claimSource ∧ b.claimToken = a.claimToken := by
  unfold requireOrderedRecovery at ha
  cases hlatest : s.latest with
  | some latest =>
    simp only [hlatest] at ha
    exact ⟨a, ha, rfl, rfl⟩
  | none =>
    simp only [hlatest] at ha
    obtain ⟨b, hb, rfl⟩ := Option.map_eq_some_iff.1 ha
    exact ⟨b, hb, b.require_source, b.require_token.symm⟩

/-- The dependency mark in the account. -/
theorem abs_requireOrderedRecovery (s : Scheduler E T) : abs (requireOrderedRecovery s) =
      { abs s with claim := (abs s).requireClaim } := by
  refine History.ext ?_ rfl rfl rfl rfl rfl rfl
  unfold requireOrderedRecovery History.requireClaim abs
  cases s.latest with
  | some latest => rfl
  | none =>
    cases s.claim with
    | none => rfl
    | some a => exact congrArg some a.account_require

/-- The journal has room for the latest state and one more. -/
def HasRoom (s : Scheduler E T) : Prop :=
  s.journal.count + s.latest.toList.length < fixedReportTransitionCapacity

/-- Promotion moves the latest ordinal behind the journal. -/
theorem abs_promoteLatest (hroom : HasRoom s) : abs (promoteLatest s) =
      { abs s with
        journal := (abs s).journal ++ (abs s).latest.toList
        latest := none } := by
  unfold promoteLatest
  split
  next latest hlatest =>
      have hlast : (abs s).latest.toList = [latest.ordinal] := by
        simp [hlatest]
      have hpush := journaled_pushJournal (s := s) { latest with ordered := true }
        (Nat.lt_of_le_of_lt (Nat.le_add_right _ _) hroom)
      refine History.ext rfl rfl ?_ rfl rfl rfl rfl
      rw [hlast]
      exact (congrArg (map (·.ordinal)) hpush).trans map_append
  · next hlatest => simp [hlatest]

theorem promoteLatest_count (s : Scheduler E T) : (promoteLatest s).journal.count =
      s.journal.count + s.latest.toList.length := by
  unfold promoteLatest
  split
  · next latest hlatest => rw [hlatest]; rfl
  · next hlatest => rw [hlatest]; rfl

theorem Undisturbed.promoteLatest (hu : Undisturbed c s) (hroom : HasRoom s) :
    Undisturbed c (promoteLatest s) := by
  unfold FixedReportScheduler.promoteLatest
  split
  next latest _ =>
      have hpush := hu.pushJournal (e := { latest with ordered := true }) rfl
        (Nat.lt_of_le_of_lt (Nat.le_add_right _ _) hroom)
      exact { hpush with latest_plain := fun _ he => by cases he }
  · exact hu

/-- A boundary in the account: the claim is marked, the latest slot is promoted,
and the boundary is journaled behind it. -/
theorem abs_acceptPublication_ordered (state : T) (receivedAt : Time) (hroom : HasRoom s) :
    abs (acceptPublication s state receivedAt true) =
      { abs s with
        claim := (abs s).requireClaim
        journal := (abs s).journal ++ (abs s).latest.toList ++ [(abs s).next + 1]
        latest := none
        next := (abs s).next + 1 } := by
  -- The three writes of the ordered branch, in the order of the source.
  let s₁ : Scheduler E T := (newEntry s state receivedAt true).1
  let s₂ := requireOrderedRecovery s₁
  let s₃ := FixedReportScheduler.promoteLatest s₂
  have hroom₃ : s₃.journal.count < fixedReportTransitionCapacity := by
    rw [promoteLatest_count]
    exact hroom
  have h₂ : abs s₂ = { abs s₁ with claim := (abs s₁).requireClaim } :=
    abs_requireOrderedRecovery s₁
  have h₃ := abs_promoteLatest (s := s₂) hroom
  have h₄ := abs_pushJournal (newEntry s state receivedAt true).2 hroom₃
  rw [h₃, h₂] at h₄
  exact h₄

theorem Undisturbed.acceptPublication_ordered (hu : Undisturbed c s) (state : T) (receivedAt : Time)
    (hroom : HasRoom s) :
    Undisturbed c (acceptPublication s state receivedAt true) := by
  let s₁ : Scheduler E T := (newEntry s state receivedAt true).1
  have h₂ : Undisturbed c (requireOrderedRecovery s₁) := by
    refine { hu with claim_source := ?_, retry_free := ?_ }
    · intro a ha
      obtain ⟨b, hb, hsource, -⟩ := requireOrderedRecovery_claim ha
      rw [hsource]
      exact hu.claim_source b hb
    · intro a ha
      obtain ⟨b, hb, -⟩ := requireOrderedRecovery_claim ha
      exact hu.retry_free b hb
  have h₃ := h₂.promoteLatest hroom
  have h₄ := h₃.pushJournal (e := (newEntry s state receivedAt true).2) rfl
    (by rw [promoteLatest_count]; exact hroom)
  exact { h₄ with }

/-! ## Resolution and resynchronization -/

theorem commitClaim_refines (hu : Undisturbed c s) (hclaim : s.claim = some a) :
    Undisturbed c (clearClaim (commitClaim s a)) ∧
      Move (abs s) { committed := some (a.claimSource, a.claimed.ordinal) }
        (abs (clearClaim (commitClaim s a))) := by
  unfold commitClaim
  rw [if_neg (hu.claim_source a hclaim)]
  refine ⟨{ hu with
    claim_source := fun _ ha => by cases ha
    retry_free := fun _ ha => by cases ha }, ?_⟩
  exact .commit (abs s) a.account (by simp [hclaim])

/-- A deferral in the account: kept as ordered work, kept as continuous work, or
given up. -/
theorem deferClaim_refines (hu : Undisturbed c s) (hclaim : s.claim = some a) :
    Undisturbed c (clearClaim (deferClaim s a)) ∧ Move (abs s)
        { dropped :=
            if (clearClaim (deferClaim s a)).retry.isNone then
              some (a.claimSource, a.claimed.ordinal)
            else none }
        (abs (clearClaim (deferClaim s a))) := by
  have habs : (abs s).claim = some a.account := by simp [hclaim]
  unfold deferClaim
  rw [if_neg (hu.claim_source a hclaim)]
  by_cases hkeep : a.claimed.ordered ∨ a.claimRequiresOrderedRecovery
  · rw [if_pos hkeep]
    refine ⟨{ hu with
      claim_source := fun _ ha => by cases ha
      retry_free := fun _ ha => by cases ha }, ?_⟩
    exact .deferOrdered (abs s) a.account habs hkeep
  rw [if_neg hkeep]
  have hplain : a.claimed.ordered = false := by
    simpa using fun h => hkeep (.inl h)
  have hfree : a.claimRequiresOrderedRecovery = false := by
    simpa using fun h => hkeep (.inr h)
  by_cases hnewest : a.claimSource ≠ .idle ∧ s.retry.isNone ∧
      s.journal.count = 0 ∧ s.latest.isNone
  · rw [if_pos hnewest]
    refine ⟨{ hu with
      claim_source := fun _ ha => by cases ha
      retry_free := fun _ ha => by cases ha }, ?_⟩
    have hmove := Move.deferContinuous (abs s) a.account habs hnewest.1 hplain hfree
    rw [← hplain] at hmove
    exact hmove
  · rw [if_neg hnewest]
    refine ⟨{ hu with
      claim_source := fun _ ha => by cases ha
      retry_free := fun _ ha => by cases ha }, ?_⟩
    have hretry := hu.retry_free a hclaim
    rw [if_pos (by simp [clearClaim, hretry])]
    refine .drop (abs s) a.account habs hplain hfree ?_
    by_contra hnone
    simp only [not_or, not_not] at hnone
    obtain ⟨hsource, -, hjournal, hlatest⟩ := hnone
    refine hnewest ⟨hsource, by simp [hretry], ?_, ?_⟩
    · have hlength : (abs s).journal.length = s.journal.count := by
        simp [Scheduler.journaled]
      rw [← hlength, hjournal]
      rfl
    · simpa using hlatest

theorem issueClaim_valid (hsize : 0 < c.reportSize) (hgen : s.generation ≠ 0) (source : ClaimSource)
    (entry : Entry T) (data : Bytes) (selectedAt : Time) :
    (issueClaim c s source entry data selectedAt).2.1.valid := by
  have htoken := bump_ne_zero s.nextToken
  simp [issueClaim, Claim.valid, htoken, hgen, hsize]

variable [Inhabited T]

/-- The ordinal a call accepted, and whether as a boundary. -/
def publishedBy (c : Config E T) (e : SchedulerEvent E T) : Option (Nat × Bool) :=
  (publicationDisposition c e.pre e.op).bind fun d =>
    d.boundary.map fun ordered => (e.post.nextOrdinal, ordered)

/-- The continuous ordinal a boundary promoted ahead of itself. -/
def promotedBy (c : Config E T) (e : SchedulerEvent E T) : Option Nat :=
  (publicationDisposition c e.pre e.op).bind fun d =>
    if d = .acceptedOrdered then e.pre.latest.map (·.ordinal) else none

/-- The ordinal and the bytes of a valid claim a call returned. -/
def claimedBy (e : SchedulerEvent E T) : Option (Nat × Bytes) :=
  match e.out with
  | .claim claim data =>
    if claim.valid then e.post.claim.map fun a => (a.claimed.ordinal, data)
    else none
  | _ => none

def committedBy (e : SchedulerEvent E T) : Option (ClaimSource × Nat) :=
  match e.op, e.out with
  | .resolve _ .commit _ _, .answer true =>
    e.pre.claim.map fun a => (a.claimSource, a.claimed.ordinal)
  | _, _ => none

/-- The source and ordinal of the claim a deferral did not keep. -/
def droppedBy (e : SchedulerEvent E T) : Option (ClaimSource × Nat) :=
  match e.op, e.out with
  | .resolve _ .defer _ _, .answer true =>
    if e.post.retry.isNone then
      e.pre.claim.map fun a => (a.claimSource, a.claimed.ordinal)
    else none
  | _, _ => none

/-- What one call shows of the account. -/
def observe (c : Config E T) (e : SchedulerEvent E T) : Observation where
  published := publishedBy c e
  promoted := promotedBy c e
  claimed := claimedBy e
  committed := committedBy e
  dropped := droppedBy e

/-! ## The journal -/

theorem journaled_popJournal (hwf : s.journal.WF fixedReportTransitionCapacity)
    (hpos : 0 < s.journal.count) : s.journaled = s.journal.front :: (popJournal s).journaled := by
  have hcons := window_eq_cons s.journal hpos hwf.head_lt
  have hclear := window_pop_clearFront s.journal default hwf
  unfold Scheduler.journaled popJournal
  rw [hcons, ← hclear]

theorem popJournal_wf (hwf : s.journal.WF fixedReportTransitionCapacity) :
    (popJournal s).journal.WF fixedReportTransitionCapacity :=
  RingBuffer.WF.pop ⟨hwf.head_lt, hwf.count_le⟩

theorem popJournal_count (hwf : s.journal.WF fixedReportTransitionCapacity)
    (hpos : 0 < s.journal.count) :
    (popJournal s).journal.count < fixedReportTransitionCapacity := by
  have hle := hwf.count_le
  show s.journal.count - 1 < fixedReportTransitionCapacity
  omega

/-- A failed encode puts the popped entry back in front. -/
theorem journaled_restoreJournal (hwf : s.journal.WF fixedReportTransitionCapacity)
    (hpos : 0 < s.journal.count) (encoder : E) (entry : Entry T) :
    (restoreJournal { popJournal s with encoder := encoder } entry).journaled =
      entry :: (popJournal s).journaled :=
  window_unpop _ _ (popJournal_count hwf hpos)

/-! ## One call is one move -/

theorem observe_publication {op : Op T} {out : Out T} {d : PublishDisposition}
    (hd : publicationDisposition c s op = some d) (hout : out.Plain) :
    observe c ⟨s, op, out, s'⟩ =
      { published := d.boundary.map fun ordered => (s'.nextOrdinal, ordered)
        promoted := if d = .acceptedOrdered then s.latest.map (·.ordinal) else none } := by
  have hclaimed : claimedBy ⟨s, op, out, s'⟩ = none := by
    cases out with
    | claim claim data => exact absurd rfl (hout claim data)
    | _ => rfl
  cases op with
  | resolve => cases hd
  | _ => simp [observe, publishedBy, promotedBy, hd, hclaimed, committedBy, droppedBy]

theorem Silent.observe {op : Op T} {out : Out T} (h : Silent c s op out) (s' : Scheduler E T) :
    observe c ⟨s, op, out, s'⟩ = {} := by
  have hpublished : publishedBy c ⟨s, op, out, s'⟩ = none ∧
      promotedBy c ⟨s, op, out, s'⟩ = none := by
    cases hd : publicationDisposition c s op with
    | none => simp [publishedBy, promotedBy, hd]
    | some d =>
      obtain ⟨hnone, hne⟩ := boundary_eq_none (h.publishes d hd)
      simp [publishedBy, promotedBy, hd, hnone, hne]
  have hclaimed : claimedBy ⟨s, op, out, s'⟩ = none := by
    cases out with
    | claim claim data => simp [claimedBy, h.claims claim data rfl]
    | _ => rfl
  have hresolved : committedBy ⟨s, op, out, s'⟩ = none ∧ droppedBy ⟨s, op, out, s'⟩ = none := by
    cases op with
    | resolve claim outcome =>
      rw [h.resolves _ _ _ _ rfl]
      cases outcome <;> exact ⟨rfl, rfl⟩
    | _ => exact ⟨rfl, rfl⟩
  simp [FixedReportScheduler.observe, hpublished, hclaimed, hresolved]

/-- A failed encode leaves the account as it was. -/
theorem select_failed_refines (hu : Undisturbed c s) (hselect : SelectEffect c s (.failed s')) :
    Undisturbed c s' ∧ abs s' = abs s := by
  cases hselect with
  | neutralFailed neutral encoder hneutral hdata =>
    cases hu.neutral.symm.trans hneutral
  | journalFailed encoder state hneutral hretry hjournal =>
    have hcons := journaled_popJournal hu.journal_wf hjournal
    have hwf := popJournal_wf hu.journal_wf
    have hroom := popJournal_count hu.journal_wf hjournal
    have hrestored := journaled_restoreJournal hu.journal_wf hjournal encoder
    refine ⟨{ hu with
      journal_wf := hwf.unpop hroom _, journal_ordered := ?_ }, ?_⟩
    · intro e he
      rw [hrestored, mem_cons] at he
      rcases he with rfl | he
      · exact hu.journal_ordered s.journal.front (hcons ▸ mem_cons_self)
      · exact hu.journal_ordered e (hcons ▸ mem_cons_of_mem _ he)
    · refine History.ext rfl rfl ?_ rfl rfl rfl rfl
      show map _ (restoreJournal _ _).journaled = map _ s.journaled
      rw [hrestored, hcons]
      rfl
  | latestFailed latest encoder state hneutral hretry hjournal hlatest =>
    refine ⟨{ hu with latest_plain := ?_ }, ?_⟩
    · intro e he
      cases he
      exact hu.latest_plain latest hlatest
    · refine History.ext rfl rfl rfl ?_ rfl rfl rfl
      show some latest.ordinal = s.latest.map _
      rw [hlatest]
      rfl

/-- A successful selection is one of the four claims of the account. -/
theorem select_chosen_refines (hu : Undisturbed c s) (hidle : s.claim = none)
    {source : ClaimSource} {entry : Entry T} {data : Bytes}
    (hselect : SelectEffect c s (.chosen s' source entry data)) (selectedAt : Time) :
    Undisturbed c (issueClaim c s' source entry data selectedAt).1 ∧
      Move (abs s) { claimed := some (entry.ordinal, data) }
        (abs (issueClaim c s' source entry data selectedAt).1) := by
  have hclaim : (abs s).claim = none := by simp [hidle]
  cases hselect with
  | neutralRepeated _ _ hneutral | neutralEncoded _ _ _ _ hneutral =>
    cases hu.neutral.symm.trans hneutral
  | retry retry hneutral hretry =>
    refine ⟨{ hu with
      claim_source := fun a ha => by cases ha; exact nofun
      retry_free := fun _ _ => rfl }, ?_⟩
    exact .claimRetry (abs s) retry.account hclaim (by simp [hretry])
  | journal encoder state data hneutral hretry hjournal =>
    have hcons := journaled_popJournal hu.journal_wf hjournal
    have hfront : s.journal.front.ordered :=
      hu.journal_ordered _ (hcons ▸ mem_cons_self)
    refine ⟨{ hu with
      journal_wf := popJournal_wf hu.journal_wf
      journal_ordered := fun e he => hu.journal_ordered e (hcons ▸ mem_cons_of_mem _ he)
      claim_source := fun a ha => by cases ha; exact nofun
      retry_free := fun _ _ => hretry }, ?_⟩
    have hmove := Move.claimJournal (abs s) s.journal.front.ordinal
      ((popJournal s).journaled.map Entry.ordinal) data hclaim
      (by simp [hretry])
      (congrArg (map Entry.ordinal) hcons)
    rw [← hfront] at hmove
    exact hmove
  | latest latest encoder state data hneutral hretry hjournal hlatest =>
    refine ⟨{ hu with
      latest_plain := fun _ he => by cases he
      claim_source := fun a ha => by cases ha; exact nofun
      retry_free := fun _ _ => hretry }, ?_⟩
    have hplain := hu.latest_plain latest hlatest
    obtain ⟨state₀, receivedAt, ordinal, producer, ordered⟩ := latest
    obtain rfl : ordered = false := hplain
    exact .claimLatest (abs s) ordinal data hclaim (by simp [hretry])
      (congrArg (map Entry.ordinal) (window_eq_nil _ hjournal))
      (by simp [hlatest])
  | idle hneutral hretry hjournal hlatest =>
    refine ⟨{ hu with
      claim_source := fun a ha => by cases ha; exact nofun
      retry_free := fun _ _ => hretry }, ?_⟩
    exact .claimIdle (abs s) hclaim (by simp [hretry])
      (congrArg (map Entry.ordinal) (window_eq_nil _ hjournal))
      (by simp [hlatest])

/-- **An undisturbed call is one move of the account.** -/
theorem CallEffect.refines {op : Op T} {r : Scheduler E T × Out T} (hu : Undisturbed c s)
    (h : CallEffect c s op r none) :
    Undisturbed c r.1 ∧ Move (abs s) (observe c ⟨s, op, r.2, r.1⟩) (abs r.1) := by
  cases h with
  | kept hsame hsilent =>
    rw [hsilent.observe, hsame.abs_eq]
    exact ⟨hu.bookkept hsame, .silent _⟩
  | @continuous _ _ s' _ _ _ hsame hopen hout hd =>
    rw [observe_publication hd hout, ← hsame.abs_eq]
    refine ⟨{ hu.bookkept hsame with latest_plain := ?_ }, .continuous (abs s')⟩
    rintro _ ⟨⟩
    rfl
  | @ordered _ _ s' _ state receivedAt hsame hopen hout hd hroom =>
    have hlatest : s.latest = s'.latest := by
      obtain ⟨_, _, _, _, rfl⟩ := hsame
      rfl
    have habs := abs_acceptPublication_ordered state receivedAt hroom
    have hnext : (acceptPublication s' state receivedAt true).nextOrdinal = (abs s').next + 1 :=
      congrArg History.next habs
    refine ⟨(hu.bookkept hsame).acceptPublication_ordered _ _ hroom, ?_⟩
    rw [observe_publication hd hout, habs, ← hsame.abs_eq, if_pos rfl, hlatest, hnext]
    exact .boundary (abs s')
  | resynchronized hsame hneutral hneeded =>
    cases hu.synchronized.symm.trans hneeded
  | failed hidle hstale hselect =>
    cases hstale
    obtain ⟨hu', habs⟩ := select_failed_refines hu hselect
    rw [habs]
    exact ⟨hu', .silent _⟩
  | @issued _ selectedAt now _ s' _ source entry data hidle hstale hselect =>
    cases hstale
    obtain ⟨hu', hmove⟩ := select_chosen_refines hu hidle hselect (orNow selectedAt now)
    have hgen : s'.generation ≠ 0 := hu'.generation_ne
    refine ⟨hu', ?_⟩
    unfold observe claimedBy
    dsimp only
    rw [if_pos (issueClaim_valid hu.size_pos hgen source entry data _)]
    exact hmove
  | @admitted _ _ _ at_ a hclaim =>
    refine ⟨{ hu with
      claim_source := fun b hb => by cases hb; exact hu.claim_source a hclaim
      retry_free := fun _ _ => hu.retry_free a hclaim }, ?_⟩
    -- Validation is not part of the account.
    have habs : abs { s with claim := some (a.validate at_) } = abs s := by
      refine History.ext ?_ rfl rfl rfl rfl rfl rfl
      show some (a.validate at_).account = s.claim.map _
      rw [hclaim]
      rfl
    rw [habs]
    exact .silent _
  | @committed claim completedAt now s' a hclaim hsame =>
    obtain ⟨hu', hmove⟩ := commitClaim_refines (hu.bookkept hsame) (hsame.claim_eq.trans hclaim)
    rw [hsame.abs_eq] at hmove
    refine ⟨hu', ?_⟩
    have hobs : observe c ⟨s, .resolve claim .commit completedAt now, .answer true,
        clearClaim (commitClaim s' a)⟩ =
        { committed := some (a.claimSource, a.claimed.ordinal) } := by
      simp [observe, publishedBy, promotedBy, publicationDisposition, claimedBy, committedBy,
        droppedBy, hclaim]
    rw [hobs]
    exact hmove
  | @deferred claim completedAt now s' a hclaim hsame =>
    obtain ⟨hu', hmove⟩ := deferClaim_refines (hu.bookkept hsame) (hsame.claim_eq.trans hclaim)
    rw [hsame.abs_eq] at hmove
    refine ⟨hu', ?_⟩
    have hobs : observe c ⟨s, .resolve claim .defer completedAt now, .answer true,
        clearClaim (deferClaim s' a)⟩ =
        { dropped := if (clearClaim (deferClaim s' a)).retry.isNone then
            some (a.claimSource, a.claimed.ordinal) else none } := by
      simp [observe, publishedBy, promotedBy, publicationDisposition, claimedBy, committedBy,
        droppedBy, hclaim]
    rw [hobs]
    exact hmove

theorem step_refines (hu : Undisturbed c s) (op : Op T) (hquiet : disturbance c s op = none) :
    Undisturbed c (step c s op).1 ∧
      Move (abs s) (observe c (event (step c) s op)) (abs (step c s op).1) :=
  CallEffect.refines hu (hquiet ▸ step_effect c s op)

/-! ## Undisturbed runs -/

/-- A new scheduler, from any of the three constructors. -/
def New (c : Config E T) (s : Scheduler E T) : Prop :=
  ∃ reportSize neutral encode encoder transition maximumOrderedAge faultOnOverflow createdAt now,
    newFixedReportScheduler reportSize neutral encode encoder transition
      maximumOrderedAge faultOnOverflow createdAt now = .ok (c, s)

theorem New.undisturbed (h : New c s) : Undisturbed c s ∧ abs s = History.fresh s.lastData := by
  obtain ⟨reportSize, neutral, encode, encoder, transition, age, overflow,
    createdAt, now, hnew⟩ := h
  unfold newFixedReportScheduler at hnew
  by_cases hsize : reportSize < 1 ∨ reportSize > fixedReportMaximumSize
  · cases (if_pos hsize).symm.trans hnew
  rw [if_neg hsize] at hnew
  cases encode with
  | none => cases hnew
  | some encode =>
    dsimp only at hnew
    split at hnew
    · cases hnew
    cases hnew
    refine ⟨⟨?_, ?_, rfl, rfl, ⟨Nat.zero_lt_succ 63, Nat.zero_le _⟩, ?_,
      fun _ he => (by cases he), fun _ ha => (by cases ha),
      fun _ ha => by cases ha⟩, rfl⟩
    · show 0 < reportSize.toNat
      omega
    · show (1 : UInt64) ≠ 0
      decide
    · intro e he
      cases he

/-- The history of a run, as its calls show it. -/
def shown (c : Config E T) (evs : List (SchedulerEvent E T)) : List Observation :=
  evs.map (observe c)

/-- No call of the run disturbs the history. -/
def Quiet (c : Config E T) (_ : List (SchedulerEvent E T)) (s : Scheduler E T) (op : Op T) : Prop :=
  disturbance c s op = none

instance (c : Config E T) (evs : List (SchedulerEvent E T))
    (s : Scheduler E T) (op : Op T) : Decidable (Quiet c evs s op) :=
  inferInstanceAs (Decidable (_ = none))

/-- **Refinement of runs.**  An undisturbed run whose calls satisfy `guard`
shows a labelled run of the account in which `ok` holds of every move. -/
theorem undisturbed_run (hnew : New c s)
    {guard : List (SchedulerEvent E T) → Scheduler E T → Op T → Prop}
    (ok : List Observation → Observation → Prop)
    (hguard : ∀ evs t op, Undisturbed c t → guard evs t op →
      Quiet c evs t op ∧ ok (shown c evs) (observe c (event (step c) t op)))
    {ops : List (Op T)} (hrun : Allowed (step c) guard [] s ops) :
    Undisturbed c (final (step c) s ops) ∧ LabelledRun ok Move (History.fresh s.lastData)
        (shown c (trace (step c) s ops)) (abs (final (step c) s ops)) := by
  obtain ⟨hu, habs⟩ := hnew.undisturbed
  rw [← habs]
  refine labelledRun_of_steps (I := Undisturbed c) ?_ hu hrun
  intro evs t op hu hg
  obtain ⟨hquiet, hok⟩ := hguard evs t op hu hg
  obtain ⟨hu', hmove⟩ := step_refines hu op hquiet
  exact ⟨hu', hok, hmove⟩

end Viiper.Ports.FixedReportScheduler
