import Viiper.Ports.FixedReportCounters
import Viiper.Ports.FixedReportLaws

/-!
# Claims of the fixed-report scheduler

Three contracts of a claim, over runs with any faults and retirements: a claim in
flight can always be resolved, an idle claim repeats what was committed last, and an
ordered claim is admitted and committed within the age limit.  They rest on one
invariant.  Every pending entry was made in the current producer epoch, and as long as
nothing was committed in the current generation there is work ahead of an idle claim.
-/

namespace Viiper.Ports.FixedReportScheduler

open Verified Go Run

variable {E T : Type*}

/-- The claim can be resolved: it is of the current epoch and generation. -/
structure Live (producer generation : UInt64) (neutral : Bool) (a : ActiveClaim T) : Prop where
  producer : a.claimed.producer = producer
  generation : a.claimGeneration = generation
  token : a.claimToken ≠ 0
  ordered : a.claimSource = .journal → a.claimed.ordered
  neutral : a.claimSource = .mandatoryNeutral → neutral
  recovers : a.claimRequiresOrderedRecovery → a.claimSource = .latest

theorem Live.require {producer generation : UInt64} {neutral : Bool} {a : ActiveClaim T}
    (h : Live producer generation neutral a) : Live producer generation neutral a.require := by
  unfold ActiveClaim.require
  split
  next hlatest => exact { h with recovers := fun _ => hlatest.1 }
  · exact h

/-- What holds in every reachable state; `shown` are the bytes committed last in the
current generation. -/
structure Sound (shown : Option Bytes) (s : Scheduler E T) : Prop where
  generation : s.generation ≠ 0
  journal : s.journal.WF fixedReportTransitionCapacity
  journaled : ∀ e ∈ s.journaled, e.producer = s.producer ∧ e.ordered
  latest : ∀ e, s.latest = some e → e.producer = s.producer
  retry : ∀ r, s.retry = some r → r.entry.producer = s.producer
  neutral : ∀ n, s.mandatoryNeutral = some n → n.entry.producer = s.producer
  last : s.mandatoryNeutral = none → s.last.producer = s.producer
  claim : ∀ a, s.claim = some a → Live s.producer s.generation s.mandatoryNeutral.isSome a
  lastData : ∀ d, shown = some d → s.lastData = d
  backed : shown = none → hasPendingInputPresentation s ∨
    ∃ a, s.claim = some a ∧ a.claimSource ≠ .idle

variable {s s' : Scheduler E T} {shown : Option Bytes} {a : ActiveClaim T}

namespace Sound

variable (h : Sound shown s)

include h

theorem bookkept (hsame : Bookkept s s') : Sound shown s' := by
  obtain ⟨_, _, _, _, rfl⟩ := hsame
  exact { h with }

theorem push {e : Entry T} (he : e.producer = s.producer ∧ e.ordered)
    (hroom : s.journal.count < fixedReportTransitionCapacity) : Sound shown (pushJournal s e) where
  __ := h
  journal := h.journal.push hroom e
  journaled x hx := by
    rw [journaled_pushJournal e hroom, List.mem_append, List.mem_singleton] at hx
    rcases hx with hx | rfl
    · exact h.journaled x hx
    · exact he
  backed _ := .inl (by simp [hasPendingInputPresentation, pushJournal, RingBuffer.push])

theorem accept_continuous (state : T) (receivedAt : Time) :
    Sound shown (acceptPublication s state receivedAt false) where
  __ := h
  latest := by rintro _ ⟨⟩; rfl
  backed _ := .inl (by simp [hasPendingInputPresentation, acceptPublication, replaceLatest])

/-- The three writes of the ordered branch, in the order of the source. -/
theorem accept_ordered (state : T) (receivedAt : Time)
    (hroom : s.journal.count + s.latest.toList.length < fixedReportTransitionCapacity) :
    Sound shown (acceptPublication s state receivedAt true) := by
  let s₁ : Scheduler E T := requireOrderedRecovery (newEntry s state receivedAt true).1
  have h₁ : Sound shown s₁ := by
    cases hlatest : s.latest with
    | some latest => exact { h with
        claim := fun a ha =>
          h.claim a (by simpa [s₁, requireOrderedRecovery, newEntry, hlatest] using ha)
        backed := fun _ => .inl (by simp [s₁, hasPendingInputPresentation, requireOrderedRecovery,
          newEntry, hlatest]) }
    | none =>
      have hclaim : s₁.claim = s.claim.map ActiveClaim.require := by
        simp [s₁, requireOrderedRecovery, newEntry, hlatest]
      refine { h with claim := fun a ha => ?_, backed := fun hs => (h.backed hs).imp id ?_ }
      · rw [hclaim, Option.map_eq_some_iff] at ha
        obtain ⟨b, hb, rfl⟩ := ha
        exact (h.claim b hb).require
      · rintro ⟨a, ha, hsource⟩
        exact ⟨a.require, by rw [hclaim, ha]; rfl, by rwa [a.require_source]⟩
  have h₂ : Sound shown (promoteLatest s₁) ∧ (promoteLatest s₁).producer = s.producer := by
    unfold promoteLatest
    split
    next latest hlatest =>
      have hpush := h₁.push (e := { latest with ordered := true }) ⟨h.latest latest hlatest, rfl⟩
        (Nat.lt_of_le_of_lt (Nat.le_add_right _ _) hroom)
      exact ⟨{ hpush with
        latest := nofun
        backed := fun _ => .inl (by
          simp [hasPendingInputPresentation, pushJournal, RingBuffer.push]) }, rfl⟩
    · exact ⟨h₁, rfl⟩
  have h₃ := h₂.1.push (e := (newEntry s state receivedAt true).2) ⟨h₂.2.symm, rfl⟩
    (by rw [promoteLatest_count]; exact hroom)
  exact { h₃ with }

theorem commit (ha : s.claim = some a) :
    Sound (some a.claimedData) (clearClaim (commitClaim s a)) := by
  have hp := (h.claim a ha).producer
  unfold commitClaim
  split
  · exact { h with
      neutral := nofun, last := fun _ => hp, claim := nofun
      lastData := by rintro _ ⟨⟩; rfl
      backed := nofun }
  · exact { h with
      last := fun _ => hp, claim := nofun
      lastData := by rintro _ ⟨⟩; rfl
      backed := nofun }

/-- A deferred claim is kept unless it was idle or newer work is pending. -/
theorem defer (ha : s.claim = some a) : Sound shown (clearClaim (deferClaim s a)) := by
  have hlive := h.claim a ha
  have hkept : ∀ e : Entry T, e.producer = a.claimed.producer →
      Sound shown (clearClaim { s with retry := some ⟨e, a.claimedData⟩ }) := fun e he => { h with
    retry := by rintro _ ⟨⟩; exact he.trans hlive.producer
    claim := by rintro _ ⟨⟩
    backed := fun _ => .inl (by simp [hasPendingInputPresentation, clearClaim]) }
  have hdropped (hpending : a.claimSource ≠ .idle → hasPendingInputPresentation s) :
      Sound shown (clearClaim s) := { h with
    claim := by rintro _ ⟨⟩
    backed := fun hs => by
      rcases h.backed hs with hp | ⟨b, hb, hsource⟩
      · exact .inl hp
      · obtain rfl := Option.mem_unique ha hb
        exact .inl (hpending hsource) }
  unfold deferClaim
  split
  next hneutral =>
    exact hdropped fun _ => by simp [hasPendingInputPresentation, hlive.neutral hneutral]
  split
  · exact hkept _ rfl
  split
  · exact hkept _ rfl
  next hnewer =>
    refine hdropped fun hsource => ?_
    by_contra hnone
    simp [hasPendingInputPresentation] at hnone
    exact hnewer ⟨hsource, by simp [hnone], by omega, by simp [hnone]⟩

end Sound

variable [Inhabited T] {c : Config E T}

/-- The bytes committed last in the current generation, after one more call. -/
def presents (c : Config E T) (shown : Option Bytes) (e : SchedulerEvent E T) : Option Bytes :=
  match disturbance c e.pre e.op, e.op, e.out with
  | some .generationRetired, _, _ => none
  | none, .resolve _ .commit _ _, .answer true => e.pre.claim.map (·.claimedData)
  | _, _, _ => shown

theorem StaleEffect.ne_retired {at_ now : Time} {d : Option Disturbance}
    (h : StaleEffect c s at_ now s' d) : d ≠ some .generationRetired := by
  cases h <;> nofun

namespace Sound

theorem retire (c : Config E T) (s : Scheduler E T) (current : T) (retiredAt now : Time) :
    Sound none (retireCurrentGenerationWithBaseline c s current retiredAt now) where
  generation := bump_ne_zero _
  journal := ⟨Nat.zero_lt_succ 63, Nat.zero_le _⟩
  journaled := nofun
  latest := by rintro _ ⟨⟩; rfl
  retry := nofun
  neutral := nofun
  last _ := rfl
  claim := nofun
  lastData := nofun
  backed _ := .inl rfl

variable (h : Sound shown s)

include h

theorem purge (boundary : Time) : Sound shown (purgeHistory c s boundary) where
  generation := h.generation
  journal := ⟨Nat.zero_lt_succ 63, Nat.zero_le _⟩
  journaled := nofun
  latest := nofun
  retry := nofun
  neutral := by rintro _ ⟨⟩; rfl
  last := nofun
  claim := nofun
  lastData := h.lastData
  backed _ := .inl rfl

theorem fault (reason : FaultReason) (at_ now : Time) :
    Sound shown (enterHistoryFault c s reason at_ now) :=
  { h.purge (c := c) (orNow at_ now) with }

/-- A failed encode puts the entry back where it was. -/
theorem select_failed (hselect : SelectEffect c s (.failed s')) : Sound shown s' := by
  cases hselect with
  | neutralFailed => exact { h with }
  | latestFailed latest encoder state hneutral hretry hjournal hlatest =>
    exact { h with
      latest := by rintro _ ⟨⟩; exact h.latest latest hlatest
      backed := fun _ => .inl (by simp [hasPendingInputPresentation]) }
  | journalFailed encoder state hneutral hretry hjournal =>
    have hcons := journaled_popJournal h.journal hjournal
    have hroom := popJournal_count h.journal hjournal
    refine { h with
      journal := (popJournal_wf h.journal).unpop hroom _
      journaled := fun e he => ?_
      backed := fun _ => .inl (by
        simp [hasPendingInputPresentation, restoreJournal, RingBuffer.unpop]) }
    rw [journaled_restoreJournal h.journal hjournal, List.mem_cons] at he
    rcases he with rfl | he
    · exact h.journaled s.journal.front (hcons ▸ List.mem_cons_self)
    · exact h.journaled e (hcons ▸ List.mem_cons_of_mem _ he)

/-- A claim just issued is live; an idle one repeats what is presented. -/
theorem select_chosen (hidle : s.claim = none) {source : ClaimSource}
    {entry : Entry T} {data : Bytes} (hselect : SelectEffect c s (.chosen s' source entry data))
    (at_ : Time) :
    Sound shown (issueClaim c s' source entry data at_).1 ∧
      (source = .idle → shown = some data) := by
  have htoken := bump_ne_zero s'.nextToken
  have hissued (hp : entry.producer = s'.producer) (hj : source = .journal → entry.ordered)
      (hn : source = .mandatoryNeutral → s'.mandatoryNeutral.isSome) :
      ∀ a, (issueClaim c s' source entry data at_).1.claim = some a →
        Live s'.producer s'.generation s'.mandatoryNeutral.isSome a := by
    rintro _ ⟨⟩
    exact ⟨hp, rfl, htoken, hj, hn, nofun⟩
  cases hselect with
  | neutralRepeated neutral data hneutral hdata =>
    exact ⟨{ h with
      claim := hissued (h.neutral _ hneutral) nofun fun _ => by rw [hneutral]; rfl
      backed := fun _ => .inr ⟨_, rfl, nofun⟩ }, nofun⟩
  | neutralEncoded neutral encoder state data hneutral hdata hencode =>
    exact ⟨{ h with
      neutral := by rintro _ ⟨⟩; exact h.neutral neutral hneutral
      last := nofun
      claim := hissued (h.neutral neutral hneutral) nofun fun _ => rfl
      backed := fun _ => .inr ⟨_, rfl, nofun⟩ }, nofun⟩
  | retry retry hneutral hretry =>
    exact ⟨{ h with
      retry := nofun
      claim := hissued (h.retry _ hretry) nofun nofun
      backed := fun _ => .inr ⟨_, rfl, nofun⟩ }, nofun⟩
  | journal encoder state data hneutral hretry hjournal =>
    have hcons := journaled_popJournal h.journal hjournal
    have hfront := h.journaled s.journal.front (hcons ▸ List.mem_cons_self)
    exact ⟨{ h with
      journal := popJournal_wf h.journal
      journaled := fun e he => h.journaled e (hcons ▸ List.mem_cons_of_mem _ he)
      claim := hissued hfront.1 (fun _ => hfront.2) nofun
      backed := fun _ => .inr ⟨_, rfl, nofun⟩ }, nofun⟩
  | latest latest encoder state data hneutral hretry hjournal hlatest =>
    exact ⟨{ h with
      latest := nofun
      claim := hissued (h.latest latest hlatest) nofun nofun
      backed := fun _ => .inr ⟨_, rfl, nofun⟩ }, nofun⟩
  | idle hneutral hretry hjournal hlatest =>
    -- Nothing is pending, so something was committed in this generation.
    obtain ⟨d, rfl⟩ : ∃ d, shown = some d := by
      rw [← Option.ne_none_iff_exists']
      intro hnone
      simpa [hasPendingInputPresentation, hneutral, hretry, hjournal, hlatest, hidle]
        using h.backed hnone
    refine ⟨{ h with claim := hissued (h.last hneutral) nofun nofun, backed := nofun }, fun _ => ?_⟩
    rw [h.lastData d rfl]

theorem stale {at_ now : Time} {d : Option Disturbance} (hidle : s.claim = none)
    (hstale : StaleEffect c s at_ now s' d) : Sound shown s' ∧ s'.claim = none := by
  cases hstale with
  | fresh => exact ⟨h, hidle⟩
  | faulted s₁ hsame hneutral hage hpending => exact ⟨(h.bookkept hsame).fault _ _ _, rfl⟩

/-- **Every call keeps the invariant.** -/
theorem next {op : Op T} {r : Scheduler E T × Out T}
    (hcall : CallEffect c s op r (disturbance c s op)) :
    Sound (presents c shown ⟨s, op, r.2, r.1⟩) r.1 := by
  generalize hd : disturbance c s op = d at hcall
  have hother (h' : Sound shown r.1) (hd' : d ≠ some .generationRetired)
      (hop : ∀ claim completedAt now, op = .resolve claim .commit completedAt now →
        r.2 = .answer false ∨ d.isSome) :
    Sound (presents c shown ⟨s, op, r.2, r.1⟩) r.1 := by
    unfold presents
    grind
  cases hcall with
  | kept hsame hsilent =>
    exact hother (h.bookkept hsame) nofun fun _ _ _ hop => .inl (hsilent.resolves _ _ _ _ hop)
  | faulted hsame =>
    exact hother ((h.bookkept hsame).fault _ _ _) nofun fun _ _ _ _ => .inr rfl
  | producerRetired hsame => exact hother ((h.bookkept hsame).purge _) nofun nofun
  | generationRetired hsame =>
    simp only [presents, hd]
    exact retire c _ _ _ _
  | continuous hsame hopen hout hpub =>
    refine hother ((h.bookkept hsame).accept_continuous _ _) nofun ?_
    rintro _ _ _ rfl
    cases hpub
  | ordered hsame hopen hout hpub hroom =>
    refine hother ((h.bookkept hsame).accept_ordered _ _ hroom) nofun ?_
    rintro _ _ _ rfl
    cases hpub
  | @resynchronized _ state _ _ _ hsame =>
    exact hother { (h.bookkept hsame).accept_continuous state _ with } nofun nofun
  | failed hidle hstale hselect =>
    exact hother ((h.stale hidle hstale).1.select_failed hselect) hstale.ne_retired nofun
  | issued hidle hstale hselect =>
    obtain ⟨h₁, hidle₁⟩ := h.stale hidle hstale
    exact hother (h₁.select_chosen hidle₁ hselect _).1 hstale.ne_retired nofun
  | @admitted _ _ _ _ a hclaim =>
    refine hother { h with claim := ?_, backed := fun hs => (h.backed hs).imp id ?_ } nofun nofun
    · rintro _ ⟨⟩
      exact { h.claim a hclaim with }
    · rintro ⟨b, hb, hsource⟩
      obtain rfl := Option.mem_unique hclaim hb
      exact ⟨_, rfl, hsource⟩
  | committed hclaim hsame =>
    simp only [presents, hd, hclaim]
    exact (h.bookkept hsame).commit (hsame.claim_eq.trans hclaim)
  | deferred hclaim hsame =>
    exact hother ((h.bookkept hsame).defer (hsame.claim_eq.trans hclaim)) nofun nofun

end Sound

/-! ## Runs -/

/-- What a constructor leaves behind besides `New.undisturbed`. -/
theorem New.start (h : New c s) :
    s.last.producer = s.producer ∧ ∃ encoder, s.lastData = (c.encode encoder c.neutral).data := by
  obtain ⟨reportSize, neutral, encode, encoder, transition, age, overflow, createdAt, now,
    hnew⟩ := h
  unfold newFixedReportScheduler at hnew
  split at hnew
  · cases hnew
  cases encode with
  | none => cases hnew
  | some encode =>
    dsimp only at hnew
    split at hnew
    · cases hnew
    cases hnew
    exact ⟨rfl, encoder, rfl⟩

/-- The bytes committed last in the current generation; the neutral report of the
constructor before the first commit. -/
def presented (c : Config E T) (s : Scheduler E T) (evs : List (SchedulerEvent E T)) :
    Option Bytes :=
  evs.foldl (presents c) (some s.lastData)

theorem New.sound (h : New c s) (ops : List (Op T)) :
    Sound (presented c s (trace (step c) s ops)) (final (step c) s ops) := by
  obtain ⟨hu, habs⟩ := h.undisturbed
  obtain ⟨hclaim, hretry, hjournal, hlatest, -⟩ : s.claim = none ∧ s.retry = none ∧
      s.journaled = [] ∧ s.latest = none ∧ s.last.ordinal = 1 ∧ s.nextOrdinal = 1 := by
    simpa [abs, FixedReportHistory.History.fresh] using habs
  refine history_run (P := fun evs t => Sound (presented c s evs) t) ?_ (fun evs t op ht => ?_) ops
  · exact {
      generation := hu.generation_ne
      journal := hu.journal_wf
      journaled := by simp [hjournal]
      latest := by simp [hlatest]
      retry := by simp [hretry]
      neutral := by simp [hu.neutral]
      last := fun _ => h.start.1
      claim := by simp [hclaim]
      lastData := by rintro _ ⟨⟩; rfl
      backed := by rintro ⟨⟩ }
  · rw [presented, List.foldl_append]
    exact ht.next (step_effect c t op)

/-- The exact claim in flight can be deferred or retired at any time. -/
theorem Sound.resolvable {claim : Claim} {outcome : Outcome} (h : Sound shown s)
    (ha : s.claim = some a) (htoken : claim.token = a.claimToken)
    (hgen : claim.generation = a.claimGeneration) (hsize : claim.size = c.reportSize)
    (houtcome : outcome = .defer ∨ outcome = .retire) (completedAt now : Time) :
    (resolveInputPresentation c s claim outcome completedAt now).2 ∧
      (resolveInputPresentation c s claim outcome completedAt now).1.claim = none := by
  have hlive := h.claim a ha
  have hmatch : claimMatches c s a claim := by
    simp [claimMatches, htoken, hgen, hsize, hlive.token, hlive.generation, hlive.producer,
      h.generation]
  simp only [resolveInputPresentation, ha]
  rcases houtcome with rfl | rfl
  · rw [if_neg (by simp [hmatch, Outcome.valid]), if_neg (by simp)]
    split <;> split <;> exact ⟨rfl, rfl⟩
  · rw [if_neg (by simp [hmatch, Outcome.valid]), if_neg (by simp), if_neg (by simp)]
    exact ⟨rfl, rfl⟩

/-- Without a claim in flight a large enough buffer gets one. -/
theorem Sound.claimable (h : Sound shown s) (hsize : 0 < c.reportSize)
    (hencode : ∀ e x, (c.encode e x).size = c.reportSize) (hidle : s.claim = none)
    {capacity : Nat} (hcap : c.reportSize ≤ capacity) (selectedAt now : Time) :
    (claimInputPresentation c s capacity selectedAt now).2.1.valid := by
  obtain ⟨h₁, hidle₁⟩ :=
    h.stale hidle (faultStalePresentation_effect c s (orNow selectedAt now) now)
  have hselect := selectInputPresentation_effect c
    (faultStalePresentation c s (orNow selectedAt now) now)
  unfold claimInputPresentation
  rw [if_neg (by simp [hidle, hcap])]
  dsimp only
  split
  next s' hfailed =>
    revert hfailed
    simp only [selectInputPresentation, selectMandatoryNeutral, encodeClaim, hencode]
    grind
  next s' source entry data hchosen =>
    rw [hchosen] at hselect
    have hgen : s'.generation ≠ 0 := (h₁.select_chosen hidle₁ hselect 0).1.generation
    exact issueClaim_valid hsize hgen source entry data _

/-- **A live claim is never wedged.**  After any calls the claim in flight belongs to the
current producer epoch and generation.  So deferring or retiring it at any time succeeds
and frees the slot, and whenever the slot is free afterwards a claim succeeds, provided the
encoder keeps to the report size. -/
theorem live_claim_resolvable (hnew : New c s) (ops : List (Op T)) {a : ActiveClaim T}
    (ha : (final (step c) s ops).claim = some a) :
    a.claimed.producer = (final (step c) s ops).producer ∧
      a.claimGeneration = (final (step c) s ops).generation ∧
      ∀ claim : Claim, claim.token = a.claimToken → claim.generation = a.claimGeneration →
        claim.size = c.reportSize → ∀ outcome, outcome = .defer ∨ outcome = .retire →
        ∀ completedAt now,
          (event (step c) (final (step c) s ops) (.resolve claim outcome completedAt now)).out =
            .answer true ∧
          (final (step c) s (ops ++ [.resolve claim outcome completedAt now])).claim = none ∧
          ((∀ e x, (c.encode e x).size = c.reportSize) → ∀ more capacity selectedAt now',
            (final (step c) s
              (ops ++ .resolve claim outcome completedAt now :: more)).claim = none →
            c.reportSize ≤ capacity →
            (claimInputPresentation c (final (step c) s
              (ops ++ .resolve claim outcome completedAt now :: more)) capacity selectedAt
              now').2.1.valid) := by
  have hlive := (hnew.sound ops).claim a ha
  refine ⟨hlive.producer, hlive.generation, ?_⟩
  intro claim htoken hgen hsize outcome houtcome completedAt now
  obtain ⟨htrue, hnone⟩ :=
    (hnew.sound ops).resolvable ha htoken hgen hsize houtcome completedAt now
  refine ⟨congrArg Out.answer htrue, by rw [final_snoc]; exact hnone, ?_⟩
  intro hencode more capacity selectedAt now' hidle hcap
  exact (hnew.sound _).claimable hnew.undisturbed.1.size_pos hencode hidle hcap _ _

/-- A report is in flight, its defer at an early time is accepted, and a claim follows. -/
theorem deferred_claim_resolvable : ∃ (c : Config Unit Nat) (s : Scheduler Unit Nat), New c s ∧
    (∃ a, (final (step c) s [.publish 1 5 5, .claim 1 6 6]).claim = some a ∧
      a.claimed.producer = 1) ∧
    (final (step c) s [.publish 1 5 5, .claim 1 6 6,
      .resolve (nthClaim 1) .defer 2 2]).claim.isNone ∧
    (claimInputPresentation c (final (step c) s
      [.publish 1 5 5, .claim 1 6 6, .resolve (nthClaim 1) .defer 2 2])
        1 7 7).2.1.valid := by
  have hnew : New _ _ := ⟨1, 0, some byteEncode, (), some decadeChange, 0, false, 1, 1, rfl⟩
  obtain ⟨hp, -, h⟩ := live_claim_resolvable hnew [.publish 1 5 5, .claim 1 6 6] rfl
  obtain ⟨-, hnone, hclaim⟩ := h (nthClaim 1) rfl rfl rfl .defer (.inl rfl) 2 2
  exact ⟨_, _, hnew, ⟨_, rfl, hp⟩, by simpa using hnone,
    hclaim (fun _ _ => rfl) [] 1 7 7 rfl (Nat.le_refl 1)⟩

/-- **Idle images are genuine.**  After any calls an idle claim returns the bytes committed
last in the current generation, or the neutral report of the constructor before the first
commit.  As long as nothing was committed in the current generation, work other than an
idle claim is pending or in flight. -/
theorem idle_claim_genuine (hnew : New c s) (ops : List (Op T)) :
    (∃ encoder, s.lastData = (c.encode encoder c.neutral).data) ∧
      (∀ capacity selectedAt now a, (final (step c) s ops).claim = none →
        (claimInputPresentation c (final (step c) s ops) capacity selectedAt now).1.claim = some a →
        a.claimSource = .idle →
        presented c s (trace (step c) s ops) =
          some (claimInputPresentation c (final (step c) s ops) capacity selectedAt now).2.2) ∧
      (presented c s (trace (step c) s ops) = none →
        hasPendingInputPresentation (final (step c) s ops) ∨
          ∃ a, (final (step c) s ops).claim = some a ∧ a.claimSource ≠ .idle) := by
  have hsound := hnew.sound ops
  refine ⟨hnew.start.2, ?_, hsound.backed⟩
  intro capacity selectedAt now a hidle ha hsource
  have heffect := claim_effect c (s := final (step c) s ops) capacity selectedAt now
  simp only [step] at heffect
  generalize claimDisturbance c (final (step c) s ops) capacity (orNow selectedAt now) now = d
    at heffect
  generalize claimInputPresentation c (final (step c) s ops) capacity selectedAt now = r
    at heffect ha ⊢
  obtain ⟨s', k, data⟩ := r
  dsimp only at heffect
  cases heffect with
  | kept hsame =>
    rw [hsame.claim_eq, hidle] at ha
    cases ha
  | failed _ hstale hselect =>
    rw [hselect.frame.2.2, (hsound.stale hidle hstale).2] at ha
    cases ha
  | faulted _ hout | generationRetired _ hout | continuous _ _ hout | ordered _ _ hout =>
    exact absurd rfl (hout _ _)
  | issued _ hstale hselect =>
    obtain ⟨h₁, hidle₁⟩ := hsound.stale hidle hstale
    cases ha
    exact (h₁.select_chosen hidle₁ hselect 0).2 hsource

/-- Report 5 is committed, and the idle claim after it repeats its byte. -/
theorem committed_report_repeated : ∃ (c : Config Unit Nat) (s : Scheduler Unit Nat), New c s ∧
    (claimInputPresentation c (final (step c) s [.publish 5 5 5, .claim 1 6 6,
      .resolve (nthClaim 1) .commit 7 7]) 1 8 8).2.2 = [5] ∧
    presented c s (trace (step c) s [.publish 5 5 5, .claim 1 6 6,
      .resolve (nthClaim 1) .commit 7 7]) = some [5] := by
  have hnew : New _ _ := ⟨1, 0, some byteEncode, (), some decadeChange, 0, false, 1, 1, rfl⟩
  exact ⟨_, _, hnew, rfl, (idle_claim_genuine hnew [.publish 5 5 5, .claim 1 6 6,
    .resolve (nthClaim 1) .commit 7 7]).2.1 1 8 8 _ rfl rfl rfl⟩

/-! ## The age limit -/

def WithinAge (c : Config E T) (e : Entry T) (boundary : Time) : Prop :=
  0 ≤ boundary - e.receivedAt ∧ boundary - e.receivedAt < c.maximumOrderedAge

/-- The completion time a resolution works with. -/
def effectiveCompletedAt (a : ActiveClaim T) (completedAt : Time) : Time :=
  if completedAt < minimumCompletedAt a then minimumCompletedAt a else completedAt

/-- The whole history was given up for the mandatory neutral. -/
structure Faulted (s : Scheduler E T) : Prop where
  neutral : s.mandatoryNeutral.isSome
  journal : s.journal.count = 0
  latest : s.latest = none
  retry : s.retry = none
  claim : s.claim = none

/-- The claims the age limit is applied to: journaled entries, retries of ordered entries,
and dependencies of a boundary. -/
def ActiveClaim.AgeLimited {T : Type*} (a : ActiveClaim T) : Prop :=
  a.claimSource = .journal ∨ a.claimSource = .retry ∧ a.claimed.ordered ∨
    a.claimRequiresOrderedRecovery

omit [Inhabited T] in
theorem withinAge_of_not_exceeded {boundary : Time}
    (hlive : Live s.producer s.generation s.mandatoryNeutral.isSome a)
    (hage : 0 < c.maximumOrderedAge) (hlimited : a.AgeLimited)
    (hfresh : claimOrderedAgeExceeded c a boundary ≠ true) : WithinAge c a.claimed boundary := by
  have hsource : a.claimSource ≠ .mandatoryNeutral ∧
      (a.claimed.ordered ∨ a.claimRequiresOrderedRecovery) := by
    rcases hlimited with hj | ⟨hr, ho⟩ | hd
    · exact ⟨by rw [hj]; decide, .inl (hlive.ordered hj)⟩
    · exact ⟨by rw [hr]; decide, .inl ho⟩
    · exact ⟨by rw [hlive.recovers hd]; decide, .inr hd⟩
  have hnot : ¬(c.maximumOrderedAge ≤ 0 ∨ a.claimSource = .mandatoryNeutral ∨
      a.claimed.ordered = false ∧ a.claimRequiresOrderedRecovery = false) := by
    rcases hsource.2 with ho | hd <;> simp [hsource.1, *]
  rw [claimOrderedAgeExceeded, if_neg hnot, ageExceeded] at hfresh
  split at hfresh
  · exact absurd rfl hfresh
  next hclock =>
    simp only [ne_eq, decide_eq_true_eq, not_or, ge_iff_le, not_le, not_lt] at hfresh hclock
    exact ⟨Int.sub_nonneg.2 hclock.2.2, hfresh⟩

/-- **Strict age bound.**  With an age limit, an admitted claim of an age-limited entry is
within the limit.  A commit of it updates the presented report only within the limit, and
faults the whole history otherwise; a refused one leaves the presented report alone. -/
theorem age_limited_claim_within_age (hnew : New c s) (hage : 0 < c.maximumOrderedAge)
    (ops : List (Op T)) {a : ActiveClaim T} (ha : (final (step c) s ops).claim = some a)
    (hlimited : a.AgeLimited) (claim : Claim) (boundary now : Time) :
    ((canAdmitInputPresentation c (final (step c) s ops) claim boundary now).2 →
        WithinAge c a.claimed (orNow boundary now)) ∧
      (claimMatches c (final (step c) s ops) a claim → a.claimAdmissionValidated = false →
        a.claimSelectedAt ≤ orNow boundary now → ¬WithinAge c a.claimed (orNow boundary now) →
        Faulted (canAdmitInputPresentation c (final (step c) s ops) claim boundary now).1) ∧
      ((resolveInputPresentation c (final (step c) s ops) claim .commit boundary now).2 →
        (WithinAge c a.claimed (effectiveCompletedAt a (orNow boundary now)) ∧
          (resolveInputPresentation c (final (step c) s ops)
            claim .commit boundary now).1.lastData =
            a.claimedData) ∨
        (Faulted (resolveInputPresentation c (final (step c) s ops) claim .commit boundary now).1 ∧
          (resolveInputPresentation c (final (step c) s ops)
            claim .commit boundary now).1.lastData =
            (final (step c) s ops).lastData)) ∧
      ((resolveInputPresentation c (final (step c) s ops) claim .commit boundary now).2 = false →
        (resolveInputPresentation c (final (step c) s ops) claim .commit boundary now).1.lastData =
          (final (step c) s ops).lastData) := by
  have hlive := (hnew.sound ops).claim a ha
  refine ⟨?_, ?_, ?_, ?_⟩
  · simp only [canAdmitInputPresentation, ha]
    split
    · rintro ⟨⟩
    split
    · rintro ⟨⟩
    split
    · rintro ⟨⟩
    next hfresh => exact fun _ => withinAge_of_not_exceeded hlive hage hlimited hfresh
  · intro hmatch hvalidated hselected hstale
    simp only [canAdmitInputPresentation, ha]
    rw [if_neg (by simp [hmatch, hvalidated]), if_neg (Int.not_lt.2 hselected)]
    split
    · exact ⟨rfl, rfl, rfl, rfl, rfl⟩
    next hfresh => exact absurd (withinAge_of_not_exceeded hlive hage hlimited hfresh) hstale
  · simp only [resolveInputPresentation, ha]
    split
    · rintro ⟨⟩
    split
    · rintro ⟨⟩
    simp only [decide_eq_true_eq, effectiveCompletedAt]
    generalize (if orNow boundary now < minimumCompletedAt a then
      minimumCompletedAt a else orNow boundary now) = at_
    split
    · exact fun _ => .inr ⟨⟨rfl, rfl, rfl, rfl, rfl⟩, rfl⟩
    next hfresh =>
      have hwithin := withinAge_of_not_exceeded hlive hage hlimited fun h => hfresh ⟨by simp, h⟩
      refine fun _ => .inl ⟨hwithin, ?_⟩
      unfold commitClaim clearClaim
      dsimp only
      split <;> rfl
  · simp only [resolveInputPresentation, ha]
    split
    · exact fun _ => rfl
    split
    · exact fun _ => rfl
    · split <;> split <;> rintro ⟨⟩

/-- A boundary received at 1 is admitted at 5, under a limit of 10. -/
theorem boundary_within_age : ∃ (c : Config Unit Nat) (s : Scheduler Unit Nat), New c s ∧
    ∃ a, (final (step c) s [.publish 10 1 1, .claim 1 2 2]).claim = some a ∧
      a.claimSource = .journal ∧ WithinAge c a.claimed 5 := by
  have hnew : New _ _ := ⟨1, 0, some byteEncode, (), some decadeChange, 10, true, 1, 1, rfl⟩
  exact ⟨_, _, hnew, _, rfl, rfl, (age_limited_claim_within_age hnew (by decide)
    [.publish 10 1 1, .claim 1 2 2] rfl (.inl rfl) (nthClaim 1) 5 5).1 rfl⟩

/-- **A continuous retry outlives the limit.**  A continuous report received at 1 is deferred
into the retry slot.  Under a limit of 10 it is selected from there at 5, admitted at 100
and committed at 101. -/
theorem continuous_retry_outlives_age : ∃ (c : Config Unit Nat) (s : Scheduler Unit Nat),
    New c s ∧ c.maximumOrderedAge = 10 ∧
      ∃ a, (final (step c) s [.publish 1 1 1, .claim 1 2 2, .resolve (nthClaim 1) .defer 3 3,
          .claim 1 5 5]).claim = some a ∧ a.claimSource = .retry ∧ a.claimed.receivedAt = 1 ∧
        (trace (step c) s [.publish 1 1 1, .claim 1 2 2, .resolve (nthClaim 1) .defer 3 3,
          .claim 1 5 5, .canAdmit (nthClaim 2) 100 100,
          .resolve (nthClaim 2) .commit 101 101]).map (·.out) =
            [.answer true, .claim ⟨1, 1, 1, 1, 2, false⟩ [1], .answer true,
              .claim ⟨2, 1, 1, 1, 5, false⟩ [1], .answer true, .answer true] ∧
        (final (step c) s [.publish 1 1 1, .claim 1 2 2, .resolve (nthClaim 1) .defer 3 3,
          .claim 1 5 5, .canAdmit (nthClaim 2) 100 100,
          .resolve (nthClaim 2) .commit 101 101]).lastData = [1] :=
  ⟨_, _, ⟨1, 0, some byteEncode, (), some decadeChange, 10, true, 1, 1, rfl⟩, rfl, _, rfl, rfl,
    rfl, by decide, by decide⟩

end Viiper.Ports.FixedReportScheduler
