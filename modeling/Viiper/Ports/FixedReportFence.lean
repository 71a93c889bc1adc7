import Viiper.Ports.FixedReportCounters
import Viiper.Ports.FixedReportLaws

/-!
# The fence behind a fault or a producer retirement

A history fault and a producer retirement purge the scheduler in the same way:
a new producer epoch, no history, no claim, and one mandatory neutral ahead of
the successor.  This file follows every later call.

`Fence` says that the mandatory neutral is still owed, or that it was committed
and a resynchronization is awaited.  No call but an accepted resynchronization
or a retirement leaves it, and every claim inside it carries the bytes of the
neutral.
-/

namespace Viiper.Ports.FixedReportScheduler

open Verified Go Run

variable {E T : Type*}

/-! ## The fence -/

/-- Where the fence stands: the mandatory neutral is owed, with `data` once it
is encoded; or it was committed and a resynchronization is awaited. -/
inductive FencePhase (c : Config E T) (s : Scheduler E T) : Option Bytes → Bool → Prop
  | owing (neutral : MandatoryNeutral T) (data : Option Bytes)
      (hneutral : s.mandatoryNeutral = some neutral)
      (hdata : neutral.data = data)
      (hstate : neutral.entry.state = c.neutral)
      (hclaim : ∀ a, s.claim = some a → a.claimSource = .mandatoryNeutral ∧
        data = some a.claimedData) :
      FencePhase c s data false
  | awaiting (data : Bytes) (hneutral : s.mandatoryNeutral = none)
      (hneeded : s.resynchronizationNeeded)
      (hshown : s.lastData = data)
      (hclaim : ∀ a, s.claim = some a → a.claimSource = .idle ∧
        a.claimedData = data ∧ a.claimed.ordered = false ∧
        a.claimRequiresOrderedRecovery = false) :
      FencePhase c s (some data) true

/-- No producer history, and one of the two phases. -/
structure Fence (c : Config E T) (at_ : Time) (data : Option Bytes)
    (done : Bool) (s : Scheduler E T) : Prop where
  minimum : s.minimumResynchronizationAt = at_
  retry : s.retry = none
  journal : s.journal.count = 0
  latest : s.latest = none
  encoded : ∀ d, data = some d → ∃ encoder, d = (c.encode encoder c.neutral).data
  phase : FencePhase c s data done

variable {e : SchedulerEvent E T} {c : Config E T} {at_ : Time} {data : Option Bytes}
  {s s' : Scheduler E T} {op : Op T} {a : ActiveClaim T} {done : Bool}

theorem FencePhase.bookkept (h : FencePhase c s data done)
    (hsame : Bookkept s s') : FencePhase c s' data done := by
  obtain ⟨_, _, _, _, rfl⟩ := hsame
  cases h with
  | owing neutral _ hneutral hdata hstate hclaim =>
    exact .owing neutral _ hneutral hdata hstate hclaim
  | awaiting bytes hneutral hneeded hshown hclaim =>
    exact .awaiting bytes hneutral hneeded hshown hclaim

section Fence

variable (hf : Fence c at_ data done s)

include hf

theorem Fence.bookkept (hsame : Bookkept s s') : Fence c at_ data done s' := by
  have hphase := hf.phase.bookkept hsame
  obtain ⟨_, _, _, _, rfl⟩ := hsame
  exact ⟨hf.minimum, hf.retry, hf.journal, hf.latest, hf.encoded, hphase⟩

/-- Behind the fence no publication passes. -/
theorem Fence.not_publishable {lease : ProducerLease} : ¬Publishable s lease := by
  intro hopen
  cases hf.phase with
  | owing neutral _ hneutral hdata hstate hclaim =>
    cases hopen.neutral.symm.trans hneutral
  | awaiting bytes hneutral hneeded hshown hclaim =>
    cases hopen.synchronized.symm.trans hneeded

/-- Behind the fence there is no producer work to be stale. -/
theorem Fence.no_producer_entry : nextProducerEntry s = none := by
  simp [nextProducerEntry, hf.retry, hf.journal, hf.latest]

/-- Behind the fence no claim is an ordering dependency. -/
theorem Fence.not_stale_claim (ha : s.claim = some a)
    (boundary : Time) : claimOrderedAgeExceeded c a boundary = false := by
  unfold claimOrderedAgeExceeded
  cases hf.phase with
  | owing neutral _ hneutral hdata hstate hclaim =>
    rw [if_pos (.inr (.inl (hclaim a ha).1))]
  | awaiting bytes hneutral hneeded hshown hclaim =>
    obtain ⟨-, -, hplain, hfree⟩ := hclaim a ha
    rw [if_pos (.inr (.inr ⟨hplain, hfree⟩))]

theorem Fence.not_faulted {boundary : Time} (hcause : (∃ lease, Publishable s lease) ∨
      ∃ a, s.claim = some a ∧ claimOrderedAgeExceeded c a boundary) : False := by
  rcases hcause with ⟨lease, hopen⟩ | ⟨a, hclaim, hstale⟩
  · exact hf.not_publishable hopen
  · rw [hf.not_stale_claim hclaim] at hstale
    cases hstale

theorem Fence.after_commit (hclaim : s.claim = some a) :
    (a.claimSource = .mandatoryNeutral ∧ Fence c at_ data true (clearClaim (commitClaim s a))) ∨
      (done ∧ Fence c at_ data true (clearClaim (commitClaim s a))) := by
  unfold commitClaim
  cases hf.phase with
  | owing neutral _ hneutral hdata hstate hold =>
    obtain ⟨hsource, rfl⟩ := hold a hclaim
    refine .inl ⟨hsource, ?_⟩
    simp only [hsource, if_true]
    exact ⟨hf.minimum, hf.retry, hf.journal, hf.latest, hf.encoded,
      .awaiting _ rfl rfl rfl fun b hb => by cases hb⟩
  | awaiting bytes hneutral hneeded hshown hold =>
    obtain ⟨hsource, hbytes, -⟩ := hold a hclaim
    refine .inr ⟨rfl, ?_⟩
    have hne : ¬a.claimSource = .mandatoryNeutral := by
      rw [hsource]
      decide
    simp only [hne, if_false]
    exact ⟨hf.minimum, hf.retry, hf.journal, hf.latest, hf.encoded,
      .awaiting _ hneutral hneeded hbytes fun b hb => by cases hb⟩

theorem Fence.after_defer (hclaim : s.claim = some a) :
    Fence c at_ data done (clearClaim (deferClaim s a)) := by
  -- Neither a neutral nor an idle claim goes to the retry slot.
  have hstay : deferClaim s a = s := by
    unfold deferClaim
    cases hf.phase with
    | owing neutral _ hneutral hdata hstate hold =>
      rw [if_pos (hold a hclaim).1]
    | awaiting bytes hneutral hneeded hshown hold =>
      obtain ⟨hsource, -, hplain, hfree⟩ := hold a hclaim
      simp [hsource, hplain, hfree]
  rw [hstay]
  refine ⟨hf.minimum, hf.retry, hf.journal, hf.latest, hf.encoded, ?_⟩
  cases hf.phase with
  | owing neutral _ hneutral hdata hstate hold =>
    exact .owing neutral _ hneutral hdata hstate fun b hb => by cases hb
  | awaiting bytes hneutral hneeded hshown hold =>
    exact .awaiting bytes hneutral hneeded hshown fun b hb => by cases hb

end Fence

/-- The bytes of a valid claim a call returned. -/
def bytesIssuedBy (e : SchedulerEvent E T) : Option Bytes :=
  match e.out with
  | .claim claim data => if claim.valid then some data else none
  | _ => none

/-- A valid claim a call returned is the one it issued. -/
theorem bytesIssuedBy_eq {claim : Claim} {bytes d : Bytes}
    (hd : bytesIssuedBy ⟨s, op, .claim claim bytes, s'⟩ = some d) : bytes = d := by
  unfold bytesIssuedBy at hd
  dsimp only at hd
  split at hd
  · exact Option.some.inj hd
  · cases hd

theorem Out.Plain.bytes {out : Out T} (h : out.Plain) : bytesIssuedBy ⟨s, op, out, s'⟩ = none := by
  cases out with
  | claim claim data => exact absurd rfl (h claim data)
  | _ => rfl

/-- The fence after a call: bytes once encoded stay, every valid claim shows
them, and only a commit of the mandatory neutral ends the first phase. -/
structure FenceAfter (c : Config E T) (at_ : Time) (data : Option Bytes)
    (done : Bool) (e : SchedulerEvent E T) : Prop where
  fence : ∃ data' done', Fence c at_ data' done' e.post ∧ (∀ d, data = some d → data' = some d) ∧
    (∀ d, bytesIssuedBy e = some d → data' = some d) ∧
    (done' → done ∨ ∃ n, committedBy e = some (.mandatoryNeutral, n))

theorem Fence.unchanged (hf : Fence c at_ data done s) (hsame : Bookkept s e.post)
    (hbytes : bytesIssuedBy e = none) : FenceAfter c at_ data done e := by
  refine ⟨data, done, hf.bookkept hsame, fun d hd => hd, fun d hd => ?_, fun hd => .inl hd⟩
  cases hbytes.symm.trans hd

/-- A call which ends in a purged scheduler. -/
theorem FenceAfter.purged (hf : Fence c at_ none false e.post)
    (hbytes : bytesIssuedBy e = none) : FenceAfter c at_ none false e := by
  refine ⟨none, false, hf, fun _ hd => hd, fun d hd => ?_, fun hd => .inl hd⟩
  cases hbytes.symm.trans hd

/-- The fence, together with what the calls since the purge have shown. -/
def FencedSince (c : Config E T) (at_ : Time)
    (evs : List (SchedulerEvent E T)) (s : Scheduler E T) : Prop :=
  ∃ data done, Fence c at_ data done s ∧
    (∀ e ∈ evs, ∀ d, bytesIssuedBy e = some d → data = some d) ∧
    (done → ∃ e ∈ evs, ∃ n, committedBy e = some (.mandatoryNeutral, n))

/-- One more call behind the fence. -/
theorem FencedSince.snoc (evs : List (SchedulerEvent E T))
    (hbytes : ∀ e ∈ evs, ∀ d, bytesIssuedBy e = some d → data = some d)
    (hdone : done → ∃ e ∈ evs, ∃ n, committedBy e = some (.mandatoryNeutral, n))
    (hafter : FenceAfter c at_ data done e) : FencedSince c at_ (evs ++ [e]) e.post := by
  obtain ⟨data', done', hf, hkeep, hissued, hcommit⟩ := hafter.fence
  refine ⟨data', done', hf, fun e' he' d hd => ?_, fun hd => ?_⟩
  · rcases List.mem_append.1 he' with he' | he'
    · exact hkeep d (hbytes e' he' d hd)
    · rw [List.mem_singleton.1 he'] at hd
      exact hissued d hd
  · rcases hcommit hd with hd | ⟨n, hn⟩
    · obtain ⟨e', he', n, hn⟩ := hdone hd
      exact ⟨e', List.mem_append_left _ he', n, hn⟩
    · exact ⟨e, List.mem_append_right _ (List.mem_singleton.2 rfl), n, hn⟩

variable [Inhabited T]

/-! ## Calls behind the fence -/

/-- A retirement of a producer or of the generation. -/
def Disturbance.retires : Option Disturbance → Bool
  | some (.producerRetired _) => true
  | some .generationRetired => true
  | _ => false

/-- The call is an accepted publication or resynchronization. -/
def accepts (c : Config E T) (s : Scheduler E T) (op : Op T) : Bool :=
  match publicationDisposition c s op with
  | some d => d.accepted
  | none => false

theorem Silent.bytes {out : Out T} (h : Silent c s op out) :
    bytesIssuedBy ⟨s, op, out, s'⟩ = none := by
  cases out with
  | claim claim data => simp [bytesIssuedBy, h.claims claim data rfl]
  | _ => rfl

/-- A failed encode behind the fence only moves the encoder. -/
theorem Fence.select_failed (hf : Fence c at_ data done s)
    (hselect : SelectEffect c s (.failed s')) : Fence c at_ data done s' := by
  cases hselect with
  | neutralFailed neutral encoder hneutral hdata =>
    refine ⟨hf.minimum, hf.retry, hf.journal, hf.latest, hf.encoded, ?_⟩
    cases hf.phase with
    | owing neutral' _ hneutral' hdata' hstate hclaim =>
      exact .owing neutral' _ hneutral' hdata' hstate hclaim
    | awaiting _ hnone => cases hnone.symm.trans hneutral
  | journalFailed encoder state hneutral hretry hjournal =>
    exact absurd hf.journal (Nat.ne_of_gt hjournal)
  | latestFailed latest encoder state hneutral hretry hjournal hlatest =>
    cases hf.latest.symm.trans hlatest

theorem Fence.select_chosen (hf : Fence c at_ data done s)
    {source : ClaimSource} {entry : Entry T} {bytes : Bytes}
    (hselect : SelectEffect c s (.chosen s' source entry bytes)) (selectedAt : Time) :
    (∀ d, data = some d → bytes = d) ∧ Fence c at_ (some bytes) done
        (issueClaim c s' source entry bytes selectedAt).1 := by
  cases hselect with
  | neutralRepeated neutral bytes hneutral hdata =>
    cases hf.phase with
    | owing neutral' _ hneutral' hdata' hstate hclaim =>
      obtain rfl := Option.mem_unique hneutral hneutral'
      rw [← hdata', hdata]
      refine ⟨fun d hd => Option.some.inj hd, hf.minimum, hf.retry,
        hf.journal, hf.latest, fun d hd => hf.encoded d ?_, ?_⟩
      · rw [← hdata', hdata]
        exact hd
      · refine .owing neutral _ hneutral hdata hstate fun a ha => ?_
        cases ha
        exact ⟨rfl, rfl⟩
    | awaiting _ hnone => cases hnone.symm.trans hneutral
  | neutralEncoded neutral encoder state bytes hneutral hdata hencode =>
    cases hf.phase with
    | owing neutral' _ hneutral' hdata' hstate hclaim =>
      obtain rfl := Option.mem_unique hneutral hneutral'
      rw [← hdata', hdata]
      refine ⟨fun d hd => (by cases hd), hf.minimum, hf.retry, hf.journal,
        hf.latest, fun d hd => ?_, ?_⟩
      · cases hd
        exact ⟨s.encoder, by rw [hencode, hstate]⟩
      · refine .owing { neutral with data := some bytes } _ rfl rfl hstate fun a ha => ?_
        cases ha
        exact ⟨rfl, rfl⟩
    | awaiting _ hnone => cases hnone.symm.trans hneutral
  | retry retry hneutral hretry => cases hf.retry.symm.trans hretry
  | journal encoder state bytes hneutral hretry hjournal =>
    exact absurd hf.journal (Nat.ne_of_gt hjournal)
  | latest latest encoder state bytes hneutral hretry hjournal hlatest =>
    cases hf.latest.symm.trans hlatest
  | idle hneutral hretry hjournal hlatest =>
    cases hf.phase with
    | owing _ _ hsome => cases hneutral.symm.trans hsome
    | awaiting bytes hnone hneeded hshown hclaim =>
      subst hshown
      refine ⟨fun d hd => Option.some.inj hd, hf.minimum, hf.retry,
        hf.journal, hf.latest, hf.encoded, ?_⟩
      refine .awaiting _ hnone hneeded rfl fun a ha => ?_
      cases ha
      exact ⟨rfl, rfl, rfl, rfl⟩

/-- **The fence holds after every call** which retires nothing and is not an
accepted publication. -/
theorem Fence.after_call {r : Scheduler E T × Out T} {d : Option Disturbance}
    (hf : Fence c at_ data done s) (h : CallEffect c s op r d)
    (hkeep : Disturbance.retires d = false) (hreject : accepts c s op = false) :
    FenceAfter c at_ data done ⟨s, op, r.2, r.1⟩ := by
  -- Behind the fence the selection-time check never faults.
  have hfresh : ∀ {s₁ at_ now d}, StaleEffect c s at_ now s₁ d → s₁ = s := by
    intro s₁ at_ now d hstale
    cases hstale with
    | fresh => rfl
    | faulted s' hsame hneutral hage hpending => exact absurd hf.no_producer_entry hpending
  cases h with
  | kept hsame hsilent => exact hf.unchanged hsame hsilent.bytes
  | faulted hsame hout hcause => exact (hf.not_faulted hcause).elim
  | producerRetired | generationRetired => cases hkeep
  | continuous _ hopen | ordered _ hopen => exact absurd hopen hf.not_publishable
  | resynchronized hsame hneutral hneeded htime hd =>
    simp [accepts, hd, PublishDisposition.accepted] at hreject
  | failed hidle hstale hselect =>
    obtain rfl := hfresh hstale
    exact ⟨data, done, hf.select_failed hselect, fun d hd => hd, by rintro _ ⟨⟩, .inl⟩
  | @issued _ selectedAt now _ _ _ _ _ bytes hidle hstale hselect =>
    obtain rfl := hfresh hstale
    obtain ⟨hsame, hfence⟩ := hf.select_chosen hselect (orNow selectedAt now)
    refine ⟨some bytes, done, hfence, fun d hd => ?_, fun d hd => ?_, .inl⟩
    · rw [hsame d hd]
    · rw [bytesIssuedBy_eq hd]
  | @admitted _ _ _ _ a hclaim =>
    refine ⟨data, done, { hf with phase := ?_ }, fun d hd => hd, by rintro _ ⟨⟩, .inl⟩
    cases hf.phase with
    | owing neutral _ hneutral hdata hstate hold =>
      refine .owing neutral _ hneutral hdata hstate ?_
      rintro _ ⟨⟩
      exact hold a hclaim
    | awaiting bytes hneutral hneeded hshown hold =>
      refine .awaiting bytes hneutral hneeded hshown ?_
      rintro _ ⟨⟩
      exact hold a hclaim
  | @committed claim completedAt now s' a hclaim hsame =>
    have hcommitted : committedBy ⟨s, .resolve claim .commit completedAt now,
        .answer true, clearClaim (commitClaim s' a)⟩ =
        some (a.claimSource, a.claimed.ordinal) := by
      simp [committedBy, hclaim]
    rcases (hf.bookkept hsame).after_commit (hsame.claim_eq.trans hclaim) with
      ⟨hsource, hfence⟩ | ⟨hdone, hfence⟩
    · refine ⟨data, true, hfence, fun d hd => hd, by rintro _ ⟨⟩,
        fun _ => .inr ⟨a.claimed.ordinal, ?_⟩⟩
      rw [hcommitted, hsource]
    · exact ⟨data, true, hfence, fun d hd => hd, by rintro _ ⟨⟩, fun _ => .inl hdone⟩
  | deferred hclaim hsame =>
    have hfence := (hf.bookkept hsame).after_defer (hsame.claim_eq.trans hclaim)
    exact ⟨data, done, hfence, fun d hd => hd, by rintro _ ⟨⟩, .inl⟩

/-! ## The fence over runs -/

/-- The time of a purge: the fault, or the producer retirement. -/
def Disturbance.purgeTime : Option Disturbance → Option Time
  | some (.fault faultAt) => some faultAt
  | some (.producerRetired retiredAt) => some retiredAt
  | _ => none

theorem purgeHistory_fence (c : Config E T) (s : Scheduler E T) (boundary : Time) :
    Fence c boundary none false (purgeHistory c s boundary) :=
  ⟨rfl, rfl, rfl, rfl, fun _ hd => (by cases hd), .owing _ _ rfl rfl rfl fun _ ha => by cases ha⟩

/-- **A fault or a producer retirement raises the fence.**  When the fault
strikes inside a claim, the claim it returns is already behind the fence. -/
theorem fence_raised
    {r : Scheduler E T × Out T} {d : Option Disturbance} (h : CallEffect c s op r d)
    (hpurge : Disturbance.purgeTime d = some at_) :
    FenceAfter c at_ none false ⟨s, op, r.2, r.1⟩ := by
  have hfence : ∀ {s₁ at' now}, StaleEffect c s at' now s₁ d → Fence c at_ none false s₁ := by
    intro s₁ at' now hstale
    cases hstale with
    | fresh => cases hpurge
    | faulted s' =>
      cases hpurge
      exact purgeHistory_fence c _ _
  cases h with
  | faulted hsame hout =>
    cases hpurge
    exact .purged (purgeHistory_fence c _ _) hout.bytes
  | producerRetired hsame =>
    cases hpurge
    exact .purged (purgeHistory_fence c _ _) rfl
  | failed hidle hstale hselect => exact .purged ((hfence hstale).select_failed hselect) rfl
  | @issued _ selectedAt now _ _ _ _ _ bytes hidle hstale hselect =>
    obtain ⟨-, hissued⟩ := (hfence hstale).select_chosen hselect (orNow selectedAt now)
    exact ⟨some bytes, false, hissued, nofun, fun d hd => by rw [bytesIssuedBy_eq hd], .inl⟩
  | _ => cases hpurge

/-- The call retires nothing and accepts no producer state. -/
def BehindFence (c : Config E T) (_ : List (SchedulerEvent E T))
    (s : Scheduler E T) (op : Op T) : Prop :=
  Disturbance.retires (disturbance c s op) = false ∧ accepts c s op = false

instance (c : Config E T) (evs : List (SchedulerEvent E T))
    (s : Scheduler E T) (op : Op T) : Decidable (BehindFence c evs s op) :=
  inferInstanceAs (Decidable (_ ∧ _))

/-- **The fence holds in every state** until a producer state is accepted or
something is retired. -/
theorem fenced_run
    (hpurge : Disturbance.purgeTime (disturbance c s op) = some at_) {after : List (Op T)}
    (hrun : Allowed (step c) (BehindFence c) [event (step c) s op] (step c s op).1 after) :
    FencedSince c at_ (trace (step c) s (op :: after)) (final (step c) s (op :: after)) := by
  have hstart : FencedSince c at_ [event (step c) s op] (step c s op).1 :=
    FencedSince.snoc [] (fun e he => (by cases he)) (fun hd => (by cases hd))
      (fence_raised (step_effect c s op) hpurge)
  refine history_from (P := FencedSince c at_) ?_ hstart after hrun
  rintro evs t op' ⟨data, done, hf, hbytes, hdone⟩ hbehind
  exact FencedSince.snoc evs hbytes hdone (hf.after_call (step_effect c t op') hbehind.1 hbehind.2)

/-- Behind the fence only a resynchronization is accepted: after the neutral
was committed, and not before the purge. -/
theorem FencedSince.first_accepted {evs : List (SchedulerEvent E T)} (hf : FencedSince c at_ evs s)
    {next : Op T} (haccept : accepts c s next) :
    ∃ lease state receivedAt now,
      next = .resynchronize lease state receivedAt now ∧
      at_ ≤ orNow receivedAt now ∧
      ∃ e ∈ evs, ∃ n, committedBy e = some (.mandatoryNeutral, n) := by
  obtain ⟨data, done, hf, -, hdone⟩ := hf
  have hcall := step_effect c s next
  generalize step c s next = r at hcall
  generalize disturbance c s next = d at hcall
  cases hcall with
  | kept hsame hsilent =>
    unfold accepts at haccept
    split at haccept
    next d hd =>
      cases (hsilent.publishes d hd).symm.trans haccept
    · cases haccept
  | faulted hsame hout hcause => exact (hf.not_faulted hcause).elim
  | generationRetired hsame hout hd => simp [accepts, hd] at haccept
  | continuous _ hopen | ordered _ hopen => exact absurd hopen hf.not_publishable
  | resynchronized hsame hneutral hneeded htime =>
    refine ⟨_, _, _, _, rfl, hf.minimum ▸ htime, hdone ?_⟩
    cases hf.phase with
    | owing _ _ hsome => cases hneutral.symm.trans hsome
    | awaiting => rfl
  | _ => cases haccept

/-- **Fault and producer-retirement fence.**  After a call which faults the
history or retires the producer at `at_`:

* every lease and every claim issued before it is refused by every later
  publication, resynchronization, admission and resolution, as long as the
  counters do not wrap;
* until the next accepted producer state or the next retirement, every valid
  claim carries one encoding of the neutral state, and the first producer state
  accepted is a resynchronization, received no earlier than `at_`, after a claim
  of the mandatory neutral was committed. -/
theorem purged_history_stays_fenced (c : Config E T) (s : Scheduler E T) (before : List (Op T))
    (op : Op T) (at_ : Time)
    (hpurge : Disturbance.purgeTime (disturbance c (final (step c) s before) op) = some at_) :
    (∀ after stale, Allowed (step c) (Unwrapped c) [] s (before ++ op :: after) →
      PresentsIssued (trace (step c) s before) stale →
        Refused (step c (final (step c) s (before ++ op :: after)) stale).2) ∧
    ∀ after, Allowed (step c) (BehindFence c) [event (step c) (final (step c) s before) op]
        (final (step c) s (before ++ [op])) after →
      (∃ encoder, ∀ e ∈ trace (step c) (final (step c) s before) (op :: after),
        ∀ d, bytesIssuedBy e = some d → d = (c.encode encoder c.neutral).data) ∧
      ∀ next, accepts c (final (step c) s (before ++ op :: after)) next →
        ∃ lease state receivedAt now,
          next = .resynchronize lease state receivedAt now ∧
          at_ ≤ orNow receivedAt now ∧
          ∃ e ∈ trace (step c) (final (step c) s before) (op :: after),
            ∃ n, committedBy e = some (.mandatoryNeutral, n) := by
  constructor
  · intro after stale hrun hstale
    obtain ⟨hbefore, hrest⟩ := allowed_append.1 hrun
    -- What was issued before the purge is bounded by the counters at it.
    have hissued : Issued (trace (step c) s before) (final (step c) s before) :=
      history_induction ⟨fun e he => (by cases he), fun e he => (by cases he)⟩
        (fun evs t op hi hw => hi.after hw) before hbefore
    have hd : (disturbance c (final (step c) s before) op).isSome := by
      cases hcase : disturbance c (final (step c) s before) op with
      | none => rw [hcase] at hpurge; cases hpurge
      | some d => rfl
    have houtdated := outdated_of_disturbance hd hrest.1
    have hlater := history_from (P := fun _ t => Outdated (final (step c) s before).producer
        (final (step c) s before).nextToken t)
      (fun evs t op ho hw => ho.after hw) houtdated after hrest.2
    rw [final_append]
    exact Outdated.refuses hlater hissued.lease hissued.claim hstale
  · intro after hrun
    rw [final_snoc] at hrun
    have hfenced := fenced_run hpurge hrun
    rw [final_append]
    refine ⟨?_, fun next haccept => hfenced.first_accepted haccept⟩
    obtain ⟨data, done, hf, hbytes, -⟩ := hfenced
    cases data with
    | none =>
      refine ⟨(final (step c) s before).encoder, fun e he d hd => ?_⟩
      cases hbytes e he d hd
    | some bytes =>
      obtain ⟨encoder, hencoder⟩ := hf.encoded bytes rfl
      refine ⟨encoder, fun e he d hd => ?_⟩
      rw [← Option.some.inj (hbytes e he d hd)]
      exact hencoder

/-- A producer publishes, its report is claimed, and the producer is retired at
time 100. -/
def retireRun : List (Op Nat) :=
  [.producerLease, .publish 1 5 5, .claim 1 6 6]

theorem retireRun_fenced : ∃ (c : Config Unit Nat) (s : Scheduler Unit Nat), New c s ∧
      Refused (step c (final (step c) s (retireRun ++ [.retireProducerLease ⟨1⟩ 100 100]))
        (.publishWithLease ⟨1⟩ 3 130 130)).2 ∧
      ∃ lease state receivedAt now, Op.resynchronize ⟨2⟩ 7 120 120 =
          Op.resynchronize lease state receivedAt now ∧
        100 ≤ orNow receivedAt now ∧
        ∃ e ∈ trace (step c) (final (step c) s retireRun)
          [.retireProducerLease ⟨1⟩ 100 100, .claim 1 110 110,
            .resolve (nthClaim 2) .commit 111 111],
          ∃ n, committedBy e = some (.mandatoryNeutral, n) :=
  ⟨_, _, ⟨1, 0, some byteEncode, (), some decadeChange, 0, true, 1, 1, rfl⟩,
    (purged_history_stays_fenced _ _ retireRun
      (.retireProducerLease ⟨1⟩ 100 100) 100 (by decide)).1 [] _ (by decide)
      (.publish _ (List.Mem.head _) ⟨1⟩ rfl 3 130 130),
    ((purged_history_stays_fenced _ _ retireRun
      (.retireProducerLease ⟨1⟩ 100 100) 100 (by decide)).2
      [.claim 1 110 110, .resolve (nthClaim 2) .commit 111 111]
      (by decide)).2 _ (by decide)⟩

/-- A second producer retirement, at an earlier time, while the neutral of the
first is pending. -/
def retireTwiceRun : List (Op Nat) :=
  [.retireProducerLease ⟨1⟩ 100 100, .retireProducerLease ⟨2⟩ 50 50,
    .claim 1 55 55, .resolve (nthClaim 1) .commit 56 56]

/-- **A later retirement restarts the fence.**  No generation is retired, the
first purge is at time 100, and the first producer state accepted after it is a
resynchronization received at time 60. -/
theorem second_retirement_restarts_fence : ∃ (c : Config Unit Nat)
    (s : Scheduler Unit Nat), New c s ∧ (∀ e ∈ trace (step c) s retireTwiceRun,
        disturbance c e.pre e.op ≠ some .generationRetired ∧ accepts c e.pre e.op = false) ∧
      disturbance c s (.retireProducerLease ⟨1⟩ 100 100) = some (.producerRetired 100) ∧
      (step c (final (step c) s retireTwiceRun) (.resynchronize ⟨3⟩ 7 60 60)).2 =
          .disposition .acceptedResynchronization :=
  ⟨_, _, ⟨1, 0, some byteEncode, (), some decadeChange, 0, true, 1, 1, rfl⟩,
    by decide, by decide, by decide⟩

end Viiper.Ports.FixedReportScheduler
